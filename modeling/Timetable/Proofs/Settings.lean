import Timetable.Config

/-!
# Settings and their rules

A configuration is made by giving values to some settings and leaving the others as they are. It is
valid if it keeps a few rules, of which the first that is broken is told.
-/
namespace Timetable

/-- The settings that are numbers. -/
inductive Measure where
  | tickInterval
  | corePool
  | maxPool
  | keepAlive
  | retryDelay
  | shutdownGrace
  | threadStack
deriving DecidableEq

namespace Measure

def all : List Measure :=
  [tickInterval, corePool, maxPool, keepAlive, retryDelay, shutdownGrace, threadStack]

theorem mem_all (m : Measure) : m ∈ all := by cases m <;> decide

def name : Measure → String
  | tickInterval => "tick_interval_ms"
  | corePool => "core_pool_size"
  | maxPool => "max_pool_size"
  | keepAlive => "keep_alive_ms"
  | retryDelay => "retry_delay_ms"
  | shutdownGrace => "shutdown_grace_ms"
  | threadStack => "thread_stack_size"

def get (c : Config) : Measure → UInt64
  | tickInterval => c.tickIntervalMs
  | corePool => c.corePoolSize
  | maxPool => c.maxPoolSize
  | keepAlive => c.keepAliveMs
  | retryDelay => c.retryDelayMs
  | shutdownGrace => c.shutdownGraceMs
  | threadStack => c.threadStackSize

def set (c : Config) (value : UInt64) : Measure → Config
  | tickInterval => { c with tickIntervalMs := value }
  | corePool => { c with corePoolSize := value }
  | maxPool => { c with maxPoolSize := value }
  | keepAlive => { c with keepAliveMs := value }
  | retryDelay => { c with retryDelayMs := value }
  | shutdownGrace => { c with shutdownGraceMs := value }
  | threadStack => { c with threadStackSize := value }

/-- A setting has the value last given to it, and no other setting changes with it. -/
theorem get_set (c : Config) (value : UInt64) (m m' : Measure) :
    m'.get (m.set c value) = if m' = m then value else m'.get c := by
  cases m <;> cases m' <;> rfl

theorem autoTick_set (c : Config) (value : UInt64) (m : Measure) :
    (m.set c value).autoTick = c.autoTick := by
  cases m <;> rfl

theorem name_ne_autoTick (m : Measure) : m.name ≠ "auto_tick" := by cases m <;> decide

theorem name_inj {m m' : Measure} (h : m.name = m'.name) : m = m' := by
  revert h
  cases m <;> cases m' <;> decide

end Measure

/-- A setting and the value given to it. -/
inductive Setting where
  | measure (m : Measure) (value : UInt64)
  | autoTick (value : Bool)

namespace Setting

def name : Setting → String
  | measure m _ => m.name
  | autoTick _ => "auto_tick"

def apply (c : Config) : Setting → Config
  | measure m value => m.set c value
  | autoTick value => { c with autoTick := value }

/-- The names of all settings. -/
def names : List String := Measure.all.map Measure.name ++ ["auto_tick"]

theorem mem_names {name : String} : name ∈ names ↔ ∃ s : Setting, s.name = name := by
  rw [names, List.mem_append, List.mem_map, List.mem_singleton]
  constructor
  · rintro (⟨m, -, rfl⟩ | rfl)
    · exact ⟨.measure m 0, rfl⟩
    · exact ⟨.autoTick false, rfl⟩
  · rintro ⟨s, rfl⟩
    cases s with
    | measure m => exact .inl ⟨m, m.mem_all, rfl⟩
    | autoTick => exact .inr rfl

end Setting

namespace Config

/-- The configuration with some settings overridden. -/
def overridden (c : Config) (settings : List Setting) : Config := settings.foldl Setting.apply c

/-- Whether each rule is kept, and the sentence for a breach of it. -/
def rules (c : Config) : List (Bool × String) :=
  [(0 < c.tickIntervalMs.toNat, "tick_interval_ms must be greater than 0"),
    (1 ≤ c.corePoolSize.toNat, "worker pool invalid: " ++ "core_size must be greater than 0"),
    (c.corePoolSize.toNat ≤ c.maxPoolSize.toNat, "worker pool invalid: " ++
      ("max_size (" ++ toString c.maxPoolSize.toNat ++ ") must be at least core_size (" ++
        toString c.corePoolSize.toNat ++ ")")),
    (0 < c.keepAliveMs.toNat, "worker pool invalid: " ++ "keep_alive must be greater than 0"),
    (64 * 1024 ≤ c.threadStackSize.toNat,
      "worker pool invalid: " ++ "thread_stack_size must be at least 65536 bytes")]

/-- The configuration keeps all rules. -/
def Valid (c : Config) : Prop := ∀ r ∈ c.rules, r.1 = true

/-- The sentence for the first rule that is broken. -/
def breach? (c : Config) : Option String := (c.rules.find? fun r => !r.1).map Prod.snd

theorem breach?_eq_none {c : Config} : c.breach? = none ↔ c.Valid := by
  simp [breach?, Valid]

theorem keepAlive_eq_zero (c : Config) :
    c.pool.keepAlive = Span.zero ↔ c.keepAliveMs.toNat = 0 := by
  have htotal : c.pool.keepAlive.total = c.keepAliveMs.toNat * nanosPerMilli :=
    Span.total_ofMillis c.keepAliveMs.toNat_lt
  rw [Span.ext_iff, htotal]
  show c.keepAliveMs.toNat * nanosPerMilli = 0 ↔ _
  rw [Nat.mul_eq_zero, or_iff_left (by decide)]

theorem find?_broken (p : Prop) [Decidable p] (message : String) (rules : List (Bool × String)) :
    (((decide p, message) :: rules).find? fun r => !r.1).map Prod.snd =
      if p then (rules.find? fun r => !r.1).map Prod.snd else some message := by
  by_cases h : p <;> simp [h]

/-- What is found wrong with a configuration is the first rule that it breaks. -/
theorem message_fault? (c : Config) : c.fault?.map ConfigFault.message = c.breach? := by
  have hzero (n : Nat) : n = 0 ↔ ¬ 0 < n := by omega
  have htick : c.tickIntervalMs = 0 ↔ ¬ 0 < c.tickIntervalMs.toNat :=
    UInt64.toNat_inj.symm.trans (hzero _)
  have hcore : c.pool.coreSize = 0 ↔ ¬ 1 ≤ c.corePoolSize.toNat :=
    UInt64.toNat_inj.symm.trans (hzero _)
  have hmax : c.pool.maxSize < c.pool.coreSize ↔ ¬ c.corePoolSize.toNat ≤ c.maxPoolSize.toNat :=
    UInt64.lt_iff_toNat_lt.trans Nat.not_le.symm
  have hkeep : c.pool.keepAlive = Span.zero ↔ ¬ 0 < c.keepAliveMs.toNat :=
    c.keepAlive_eq_zero.trans (hzero _)
  have hstack : c.pool.stackSize < leastStackSize ↔ ¬ 64 * 1024 ≤ c.threadStackSize.toNat :=
    UInt64.lt_iff_toNat_lt.trans Nat.not_le.symm
  simp only [breach?, rules, find?_broken, fault?, PoolConfig.fault?, htick, hcore, hmax, hkeep,
    hstack, ite_not, apply_ite (Option.map _), Option.map_some, Option.map_none]
  rfl

theorem fault?_eq_none {c : Config} : c.fault? = none ↔ c.Valid := by
  rw [← breach?_eq_none, ← message_fault?, Option.map_eq_none_iff]

end Config

end Timetable
