import Timetable.Config.Pool

/-!
# Configuration of a scheduler

Times are whole milliseconds that fit a 64-bit word.
-/
namespace Timetable

/-- The settings of a scheduler. -/
structure Config where
  tickIntervalMs : UInt64 := 1000
  corePoolSize : UInt64 := 5
  maxPoolSize : UInt64 := 10
  keepAliveMs : UInt64 := 60000
  retryDelayMs : UInt64 := 30000
  shutdownGraceMs : UInt64 := 30000
  threadStackSize : UInt64 := defaultStackSize
  /-- Whether a clock of its own drives the scheduler. -/
  autoTick : Bool := true
deriving DecidableEq

/-- What is wrong with a configuration. -/
inductive ConfigFault where
  | noTickInterval
  | pool (fault : PoolFault)
deriving DecidableEq, Repr

/-- The sentence for a fault. -/
def ConfigFault.message : ConfigFault → String
  | noTickInterval => "tick_interval_ms must be greater than 0"
  | pool fault => "worker pool invalid: " ++ fault.message

/-- The whole milliseconds of a span, no more than a word holds. -/
def Span.toMillisWord (d : Span) : UInt64 := UInt64.ofNat (min d.millis (wordLimit - 1))

namespace Config

def tickInterval (c : Config) : Span := Span.ofMillis c.tickIntervalMs.toNat

def retryDelay (c : Config) : Span := Span.ofMillis c.retryDelayMs.toNat

def shutdownGrace (c : Config) : Span := Span.ofMillis c.shutdownGraceMs.toNat

/-- The sizes of the scheduler's worker pool. -/
def pool (c : Config) : PoolConfig :=
  { coreSize := c.corePoolSize, maxSize := c.maxPoolSize
    keepAlive := Span.ofMillis c.keepAliveMs.toNat, stackSize := c.threadStackSize }

/-- The first rule that the configuration breaks. -/
def fault? (c : Config) : Option ConfigFault :=
  if c.tickIntervalMs = 0 then some .noTickInterval else c.pool.fault?.map .pool

/-- The configuration with its pool sized for that many processors. -/
def sizedFor (c : Config) (processors : UInt64) : Config :=
  let p := c.pool.sizedFor processors
  { c with corePoolSize := p.coreSize, maxPoolSize := p.maxSize }

end Config

end Timetable
