import Timetable.Codec.Time
import Timetable.Config

/-!
# Configurations in JSON

A setting that is not given has its default. A text is a configuration when the settings in it are
valid together.
-/
namespace Timetable

open Json
open Json.Record (required defaulted)

namespace Config

/-- The settings, each with its default. -/
def fields : Record Config :=
  let c : Config := {}
  Config.mk <$> defaulted "tick_interval_ms" word c.tickIntervalMs <*>
    defaulted "core_pool_size" size c.corePoolSize <*>
    defaulted "max_pool_size" size c.maxPoolSize <*>
    defaulted "keep_alive_ms" word c.keepAliveMs <*>
    defaulted "retry_delay_ms" word c.retryDelayMs <*>
    defaulted "shutdown_grace_ms" word c.shutdownGraceMs <*>
    defaulted "thread_stack_size" size c.threadStackSize <*>
    defaulted "auto_tick" bool c.autoTick

/-- A configuration, valid or not. -/
def ofJson : Value → Except Fault Config :=
  RecordStyle.decode { title := "struct SchedulerConfig", mayEnd := true } fields

/-- A configuration as an object. -/
def toJson (c : Config) : Value :=
  record [("tick_interval_ms", ofNat c.tickIntervalMs.toNat),
    ("core_pool_size", ofNat c.corePoolSize.toNat), ("max_pool_size", ofNat c.maxPoolSize.toNat),
    ("keep_alive_ms", ofNat c.keepAliveMs.toNat), ("retry_delay_ms", ofNat c.retryDelayMs.toNat),
    ("shutdown_grace_ms", ofNat c.shutdownGraceMs.toNat),
    ("thread_stack_size", ofNat c.threadStackSize.toNat), ("auto_tick", .bool c.autoTick)]

/-- Why a text is no configuration. -/
inductive TextFault where
  | notJson
  | fault (f : Fault)
  | invalid (f : ConfigFault)

/-- The sentence for a fault. -/
def TextFault.message : TextFault → String
  | notJson => "parse error"
  | fault f => "parse error: " ++ f.message
  | invalid f => f.message

/-- The valid configuration that a text describes. -/
def ofText (s : List Char) : Except TextFault Config :=
  match Value.ofText? s with
  | none => .error .notJson
  | some v =>
    match ofJson v with
    | .error f => .error (.fault f)
    | .ok c =>
      match c.fault? with
      | some f => .error (.invalid f)
      | none => .ok c

end Config

namespace PoolConfig

/-- The sizes of a pool. -/
def ofJson : Value → Except Fault PoolConfig :=
  RecordStyle.decode { title := "struct WorkerPoolConfig" }
    (PoolConfig.mk <$> required "core_size" size <*> required "max_size" size <*>
      required "keep_alive" Span.ofJson <*> required "thread_stack_size" size <*>
      required "thread_name_prefix" string)

/-- The sizes of a pool as an object. -/
def toJson (c : PoolConfig) : Value :=
  record [("core_size", ofNat c.coreSize.toNat), ("max_size", ofNat c.maxSize.toNat),
    ("keep_alive", c.keepAlive.toJson), ("thread_stack_size", ofNat c.stackSize.toNat),
    ("thread_name_prefix", ofString c.workerName)]

end PoolConfig

end Timetable
