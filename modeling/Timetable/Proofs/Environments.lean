import Timetable.Proofs.EnvironmentValues
import Timetable.Proofs.Settings

/-!
# Configurations from the environment

The variables are read one after the other, first the one that sizes the pool for the processors.
The first that is set to something else than a value of its type is told. If there is none, the
defaults, or the sizes for the processors, are overridden by what the variables say, and the
configuration is taken if it keeps the rules.
-/
namespace Timetable

/-- What the name of a setting's variable ends in. -/
def Measure.key : Measure → String
  | tickInterval => "TICK_INTERVAL_MS"
  | corePool => "CORE_POOL_SIZE"
  | maxPool => "MAX_POOL_SIZE"
  | keepAlive => "KEEP_ALIVE_MS"
  | retryDelay => "RETRY_DELAY_MS"
  | shutdownGrace => "SHUTDOWN_GRACE_MS"
  | threadStack => "THREAD_STACK_SIZE"

/-- The variables of a configuration. -/
inductive Variable where
  | forProcessors
  | measure (m : Measure)
  | autoTick

namespace Variable

/-- The variables in the order in which they are read. -/
def all : List Variable := forProcessors :: Measure.all.map measure ++ [autoTick]

/-- What the name of the variable ends in. -/
def key : Variable → String
  | forProcessors => "POOL_SIZE_FOR_CPUS"
  | measure m => m.key
  | autoTick => "AUTO_TICK"

end Variable

namespace Environment

variable {α β : Type} {env : Environment} {n : UInt64} {c : Config} {e : EnvFault}

/-! ## Single variables -/

/-- The variable is not set, or blanks apart it says this. -/
inductive Says (env : Environment) (key : String) (P : List Char → α → Prop) : Option α → Prop
  | unset (h : env (namesBegin ++ key) = none) : Says env key P none
  | set {raw : String} {core : List Char} {a : α} (h : env (namesBegin ++ key) = some (.text raw))
    (htrims : Text.Trims raw.toList core) (ha : P core a) : Says env key P (some a)

/-- The variable is set to something that is no text, or to one that blanks apart is not what
it has to be. -/
inductive Objects (env : Environment) (key : String) (Q : List Char → ValueFault → Prop) :
    EnvFault → Prop
  | notText {b : List UInt8} (h : env (namesBegin ++ key) = some (.bytes b)) :
    Objects env key Q (.notText (namesBegin ++ key) b)
  | unreadable {raw : String} {core : List Char} {f : ValueFault}
    (h : env (namesBegin ++ key) = some (.text raw))
    (htrims : Text.Trims raw.toList core) (hf : Q core f) :
    Objects env key Q (.unreadable (namesBegin ++ key) raw f)

section Get

variable {key : String} {read : List Char → Except ValueFault α} {default a : α}
  {P : List Char → α → Prop} {Q : List Char → ValueFault → Prop}

theorem get_eq_ok (hread : ∀ s a, read s = .ok a ↔ P s a) :
    env.get key read default = .ok a ↔ ∃ o, env.Says key P o ∧ o.getD default = a := by
  constructor
  · intro h
    rw [get] at h
    split at h
    · rename_i hunset
      exact ⟨none, .unset hunset, Except.ok.inj h⟩
    · cases h
    · rename_i raw hset
      split at h
      · rename_i value hvalue
        exact ⟨some value, .set hset (Text.trims_trimmed _) ((hread _ _).mp hvalue),
          Except.ok.inj h⟩
      · cases h
  · rintro ⟨o, (h | ⟨h, htrims, ha⟩), rfl⟩
    · rw [get, h]
      rfl
    · rw [get, h]
      simp only [Text.trimmed_eq_iff.mpr htrims, (hread _ _).mpr ha]
      rfl

theorem get_eq_error (hread : ∀ s f, read s = .error f ↔ Q s f) :
    env.get key read default = .error e ↔ env.Objects key Q e := by
  constructor
  · intro h
    rw [get] at h
    split at h
    · cases h
    · rename_i hbytes
      obtain rfl := Except.error.inj h
      exact .notText hbytes
    · rename_i hset
      split at h
      · cases h
      · rename_i f hf
        obtain rfl := Except.error.inj h
        exact .unreadable hset (Text.trims_trimmed _) ((hread _ _).mp hf)
  · rintro (h | ⟨h, htrims, hf⟩)
    · rw [get, h]
    · rw [get, h]
      simp only [Text.trimmed_eq_iff.mpr htrims, (hread _ _).mpr hf]

end Get

/-! ## What the variables say -/

/-- What the variables say of their settings. -/
structure Readings where
  forProcessors : Option Bool
  measure : Measure → Option UInt64
  autoTick : Option Bool

/-- Each variable is not set or says this. -/
structure Parses (env : Environment) (r : Readings) : Prop where
  forProcessors : env.Says Variable.forProcessors.key IsFlag r.forProcessors
  measure : ∀ m, env.Says (Variable.measure m).key IsNumber (r.measure m)
  autoTick : env.Says Variable.autoTick.key IsFlag r.autoTick

namespace Readings

variable (r : Readings) (n : UInt64)

/-- The defaults, with the pool sized for the processors if that is asked for: a worker for each,
and at most twice as many. Like all sizes these are words. -/
def base : Config :=
  if r.forProcessors = some true then { corePoolSize := n, maxPoolSize := 2 * n } else {}

/-- The value of a setting that is a number: what its variable says, else what it is otherwise. -/
def value (m : Measure) : UInt64 := (r.measure m).getD (m.get (r.base n))

/-- The configuration in which what the variables say overrides what is so otherwise. -/
def config : Config where
  tickIntervalMs := r.value n .tickInterval
  corePoolSize := r.value n .corePool
  maxPoolSize := r.value n .maxPool
  keepAliveMs := r.value n .keepAlive
  retryDelayMs := r.value n .retryDelay
  shutdownGraceMs := r.value n .shutdownGrace
  threadStackSize := r.value n .threadStack
  autoTick := r.autoTick.getD (r.base n).autoTick

variable {r n}

theorem base_eq (hn : 1 ≤ n) :
    (if r.forProcessors.getD false then ({} : Config).sizedFor n else {}) = r.base n := by
  have hmax : max n 1 = n := by
    show (if n ≤ 1 then 1 else n) = n
    split
    · exact UInt64.le_antisymm hn ‹_›
    · rfl
  have hsized : ({} : Config).sizedFor n = { corePoolSize := n, maxPoolSize := 2 * n } := by
    simp only [Config.sizedFor, PoolConfig.sizedFor, hmax, UInt64.mul_comm n 2]
  rw [base, hsized]
  rcases r.forProcessors with _ | _ | _ <;> rfl

end Readings

theorem bind_eq_ok {x : Except EnvFault α} {f : α → Except EnvFault β} {b : β} :
    (x >>= f) = .ok b ↔ ∃ a, x = .ok a ∧ f a = .ok b := by
  cases x with
  | error => exact iff_of_false nofun nofun
  | ok a => exact ⟨fun h => ⟨a, rfl, h⟩, fun ⟨_, hx, h⟩ => Except.ok.inj hx ▸ h⟩

theorem getNumber_eq_ok {key : String} {default a : UInt64} :
    env.get key readNumber default = .ok a ↔ ∃ o, env.Says key IsNumber o ∧ o.getD default = a :=
  get_eq_ok fun _ _ => readNumber_eq_ok

theorem getFlag_eq_ok {key : String} {default a : Bool} :
    env.get key readFlag default = .ok a ↔ ∃ o, env.Says key IsFlag o ∧ o.getD default = a :=
  get_eq_ok fun _ _ => readFlag_eq_ok

/-- The configuration that the variables make overrides what is so otherwise with what they say. -/
theorem settings_eq_ok (hn : 1 ≤ n) :
    env.settings n = .ok c ↔ ∃ r, env.Parses r ∧ r.config n = c := by
  simp only [settings, bind_eq_ok, getNumber_eq_ok, getFlag_eq_ok]
  constructor
  · rintro ⟨_, ⟨sized, hsized, rfl⟩, _, ⟨tick, htick, rfl⟩, _, ⟨core, hcore, rfl⟩, _,
      ⟨most, hmost, rfl⟩, _, ⟨keep, hkeep, rfl⟩, _, ⟨retry, hretry, rfl⟩, _, ⟨grace, hgrace, rfl⟩,
      _, ⟨stack, hstack, rfl⟩, _, ⟨auto, hauto, rfl⟩, h⟩
    let measure : Measure → Option UInt64
      | .tickInterval => tick
      | .corePool => core
      | .maxPool => most
      | .keepAlive => keep
      | .retryDelay => retry
      | .shutdownGrace => grace
      | .threadStack => stack
    refine ⟨⟨sized, measure, auto⟩, ⟨hsized, fun m => by cases m <;> assumption, hauto⟩, ?_⟩
    rw [← Except.ok.inj h]
    have hbase := Readings.base_eq (r := ⟨sized, measure, auto⟩) hn
    simp only [hbase]
    rfl
  · rintro ⟨r, h, rfl⟩
    have hbase := Readings.base_eq (r := r) hn
    refine ⟨_, ⟨_, h.forProcessors, rfl⟩, _, ⟨_, h.measure .tickInterval, rfl⟩, _,
      ⟨_, h.measure .corePool, rfl⟩, _, ⟨_, h.measure .maxPool, rfl⟩, _,
      ⟨_, h.measure .keepAlive, rfl⟩, _, ⟨_, h.measure .retryDelay, rfl⟩, _,
      ⟨_, h.measure .shutdownGrace, rfl⟩, _, ⟨_, h.measure .threadStack, rfl⟩, _,
      ⟨_, h.autoTick, rfl⟩, ?_⟩
    simp only [hbase]
    rfl

/-! ## The first objection -/

/-- The variable objects with this fault: it does not say a value of its type. -/
def ObjectsTo (env : Environment) : Variable → EnvFault → Prop
  | .measure m => env.Objects m.key IsNoNumber
  | v => env.Objects v.key IsNoFlag

/-- The variable is not set, or says a value of its type. -/
def Readable (env : Environment) : Variable → Prop
  | .measure m => ∃ o, env.Says m.key IsNumber o
  | v => ∃ o, env.Says v.key IsFlag o

/-- The fault is the objection of the first of the variables that is not readable. -/
inductive FirstObjection (env : Environment) (e : EnvFault) : List Variable → Prop
  | here {v : Variable} {vs : List Variable} (h : env.ObjectsTo v e) :
    FirstObjection env e (v :: vs)
  | later {v : Variable} {vs : List Variable} (hv : env.Readable v) (h : FirstObjection env e vs) :
    FirstObjection env e (v :: vs)

theorem firstObjection_cons {v : Variable} {vs : List Variable} :
    env.FirstObjection e (v :: vs) ↔ env.ObjectsTo v e ∨ env.Readable v ∧
    env.FirstObjection e vs := by
  constructor
  · rintro (h | ⟨hv, h⟩)
    · exact .inl h
    · exact .inr ⟨hv, h⟩
  · rintro (h | ⟨hv, h⟩)
    · exact .here h
    · exact .later hv h

/-- Reading one variable and then the others fails with the first objection. -/
theorem bind_get_eq_error {v : Variable} {vs : List Variable} {x : Except EnvFault α}
    {f : α → Except EnvFault β}
    (hx : x = .error e ↔ env.ObjectsTo v e) (hok : (∃ a, x = .ok a) ↔ env.Readable v)
    (hf : ∀ a, f a = .error e ↔ env.FirstObjection e vs) :
    (x >>= f) = .error e ↔ env.FirstObjection e (v :: vs) := by
  rw [firstObjection_cons, ← hx, ← hok]
  cases x with
  | error e' =>
    constructor
    · exact fun h => .inl (congrArg Except.error (Except.error.inj h))
    · rintro (h | ⟨⟨a, h⟩, -⟩)
      · exact congrArg Except.error (Except.error.inj h)
      · cases h
  | ok a =>
    constructor
    · exact fun h => .inr ⟨⟨a, rfl⟩, (hf a).mp h⟩
    · rintro (h | ⟨-, h⟩)
      · cases h
      · exact (hf a).mpr h

theorem number_then (m : Measure) {vs : List Variable} {default : UInt64}
    {f : UInt64 → Except EnvFault β} (hf : ∀ a, f a = .error e ↔ env.FirstObjection e vs) :
    (env.get m.key readNumber default >>= f) = .error e ↔
    env.FirstObjection e (.measure m :: vs) := by
  refine bind_get_eq_error (get_eq_error fun _ _ => readNumber_eq_error) ?_ hf
  simp only [getNumber_eq_ok, Readable]
  rw [exists_comm]
  simp

theorem flag_then {v : Variable} (hv : v = .forProcessors ∨ v = .autoTick) {vs : List Variable}
    {default : Bool}
    {f : Bool → Except EnvFault β} (hf : ∀ a, f a = .error e ↔ env.FirstObjection e vs) :
    (env.get v.key readFlag default >>= f) = .error e ↔ env.FirstObjection e (v :: vs) := by
  have hreadable : env.Readable v ↔ ∃ o, env.Says v.key IsFlag o := by
    rcases hv with rfl | rfl <;> rfl
  have hobjects : env.ObjectsTo v e ↔ env.Objects v.key IsNoFlag e := by
    rcases hv with rfl | rfl <;> rfl
  refine bind_get_eq_error ?_ ?_ hf
  · rw [hobjects]
    exact get_eq_error fun _ _ => readFlag_eq_error
  · rw [hreadable]
    simp only [getFlag_eq_ok]
    rw [exists_comm]
    simp

theorem nothing_then {b : β} : (pure b : Except EnvFault β) = .error e ↔ env.FirstObjection e [] :=
  iff_of_false nofun nofun

/-- No configuration is made exactly if some variable objects, and the first objection is told. -/
theorem settings_eq_error : env.settings n = .error e ↔ env.FirstObjection e Variable.all := by
  refine flag_then (v := .forProcessors) (.inl rfl) fun _ => ?_
  refine number_then .tickInterval fun _ => ?_
  refine number_then .corePool fun _ => ?_
  refine number_then .maxPool fun _ => ?_
  refine number_then .keepAlive fun _ => ?_
  refine number_then .retryDelay fun _ => ?_
  refine number_then .shutdownGrace fun _ => ?_
  refine number_then .threadStack fun _ => ?_
  refine flag_then (v := .autoTick) (.inr rfl) fun _ => ?_
  exact nothing_then

/-! ## Configurations -/

/-- The variable is set to the text with blanks around it. -/
def Holds (env : Environment) (v : Variable) (written : List Char) : Prop :=
  ∃ before after, (∀ c ∈ before, Text.isBlank c) ∧ (∀ c ∈ after, Text.isBlank c) ∧
    env (namesBegin ++ v.key) = some (.text (String.ofList (before ++ written ++ after)))

/-- What an environment comes to as a configuration, on a machine with so many processors. -/
structure Configures (env : Environment) (n : UInt64) : Prop where
  /-- A configuration is made exactly if all variables can be read and override the defaults with
  a valid one. -/
  accepted : ∀ c, Config.ofEnvironment env n = .ok c ↔ ∃ r, env.Parses r ∧ r.config n = c ∧ c.Valid
  /-- The first variable that cannot be read is told. -/
  refused : ∀ e, env.FirstObjection e Variable.all → Config.ofEnvironment env n = .error e
  /-- If all variables can be read, the first rule that is broken is told. -/
  invalid : ∀ r message, env.Parses r → (r.config n).breach? = some message →
    (Config.ofEnvironment env n).mapError EnvFault.message = .error message
  /-- Either all variables can be read, or there is a first that cannot. -/
  decided : (∃ r, env.Parses r) ∨ ∃ e, env.FirstObjection e Variable.all
  /-- A valid configuration that is written into the variables is read back. -/
  written : ∀ c : Config, c.Valid → env.Readable .forProcessors →
    (∀ m, env.Holds (.measure m) (Text.numeral (m.get c).toNat)) →
      env.Holds .autoTick (toString c.autoTick).toList →
    Config.ofEnvironment env n = .ok c

theorem Holds.reads {v : Variable} {written : List Char} {P : List Char → α → Prop} {a : α}
    (h : env.Holds v written)
    (hwritten : ∀ c ∈ written, Text.isBlank c = false) (ha : P written a) :
    env.Says v.key P (some a) := by
  obtain ⟨before, after, hbefore, hafter, hset⟩ := h
  refine .set hset (.mk (String.toList_ofList ..) hbefore hafter ?_ ?_) ha
  · exact fun c hc => hwritten c (List.mem_of_mem_head? hc)
  · exact fun c hc => hwritten c (List.mem_of_mem_getLast? hc)

theorem isNumber_numeral (w : UInt64) : IsNumber (Text.numeral w.toNat) w := by
  have hdigits : ∀ c ∈ Text.numeral w.toNat, c.isDigit := fun c => Json.isDigit_of_mem_numeral
  have hunsigned : unsigned (Text.numeral w.toNat) = Text.numeral w.toNat := by
    unfold unsigned
    split
    · rename_i hplus
      have := hdigits '+' (hplus ▸ List.mem_cons_self ..)
      contradiction
    · rfl
  constructor
  · rw [hunsigned]
    exact Nat.toDigits_ne_nil
  · rwa [hunsigned]
  · rw [hunsigned, Text.ofDigits_numeral]

theorem isFlag_toString (b : Bool) : IsFlag (toString b).toList b := by
  cases b with
  | false => exact .isFalse
  | true => exact .isTrue

theorem not_isBlank_of_mem_toString (b : Bool) :
    ∀ c ∈ (toString b).toList, Text.isBlank c = false := by
  have hall : (toString b).toList.all (fun c => !Text.isBlank c) := by cases b <;> decide
  simpa using hall

/-- What is written into the variables is read from them. -/
theorem parses_of_holds {o : Option Bool} (hsized : env.Says Variable.forProcessors.key IsFlag o)
    (hmeasure : ∀ m, env.Holds (.measure m) (Text.numeral (m.get c).toNat))
    (hauto : env.Holds .autoTick (toString c.autoTick).toList) :
    env.Parses ⟨o, fun m => some (m.get c), some c.autoTick⟩ where
  forProcessors := hsized
  measure m :=
    (hmeasure m).reads (fun _ hd => not_isBlank_of_isDigit (Json.isDigit_of_mem_numeral hd))
    (isNumber_numeral _)
  autoTick := hauto.reads (not_isBlank_of_mem_toString _) (isFlag_toString _)

theorem ofEnvironment_eq (h : env.settings n = .ok c) : Config.ofEnvironment env n =
    match c.fault? with
    | some fault => .error (.invalid fault)
    | none => .ok c := by
  rw [Config.ofEnvironment, h]
  rfl

theorem ofEnvironment_eq_ok :
    Config.ofEnvironment env n = .ok c ↔ env.settings n = .ok c ∧ c.Valid := by
  rw [Config.ofEnvironment, bind_eq_ok]
  constructor
  · rintro ⟨c', hsettings, h⟩
    split at h
    · cases h
    · rename_i hvalid
      obtain rfl := Except.ok.inj h
      exact ⟨hsettings, Config.fault?_eq_none.mp hvalid⟩
  · rintro ⟨hsettings, hvalid⟩
    exact ⟨c, hsettings, by rw [Config.fault?_eq_none.mpr hvalid]⟩

/-- Every environment either makes the configuration that its variables ask for, or is refused for
the first reason there is. -/
theorem configures (env : Environment) (n : UInt64) (hn : 1 ≤ n) : env.Configures n where
  accepted c := by
    rw [ofEnvironment_eq_ok, settings_eq_ok hn]
    simp only [← exists_and_right, and_assoc]
  refused e h := by
    rw [Config.ofEnvironment, settings_eq_error.mpr h]
    rfl
  invalid r message h hbreach := by
    rw [← Config.message_fault?] at hbreach
    obtain ⟨fault, hfault, rfl⟩ := Option.map_eq_some_iff.mp hbreach
    rw [ofEnvironment_eq ((settings_eq_ok hn).mpr ⟨r, h, rfl⟩), hfault]
    rfl
  decided := by
    cases h : env.settings n with
    | ok c =>
      obtain ⟨r, hr, -⟩ := (settings_eq_ok hn).mp h
      exact .inl ⟨r, hr⟩
    | error e => exact .inr ⟨e, settings_eq_error.mp h⟩
  written c hvalid hsized hmeasure hauto := by
    obtain ⟨o, hsized⟩ := hsized
    exact ofEnvironment_eq_ok.mpr
      ⟨(settings_eq_ok hn).mpr ⟨_, parses_of_holds hsized hmeasure hauto, rfl⟩, hvalid⟩

/-- The pool is sized for four processors, and its core size is given besides. -/
theorem configures_four_processors : (1 : UInt64) ≤ 4 ∧ Config.ofEnvironment
    (fun name => [("TASK_SCHEDULER_POOL_SIZE_FOR_CPUS", EnvValue.text " true"),
      ("TASK_SCHEDULER_CORE_POOL_SIZE", EnvValue.text "+3\n")].lookup name) 4 =
      .ok { corePoolSize := 3, maxPoolSize := 8 } := by
  have hn : (1 : UInt64) ≤ 4 := by decide
  refine ⟨hn, ((configures _ 4 hn).accepted _).mpr ?_⟩
  let measure : Measure → Option UInt64
    | .corePool => some 3
    | _ => none
  refine ⟨⟨some true, measure, none⟩, ⟨?_, fun m => ?_, .unset (by decide)⟩, rfl, ?_⟩
  · exact .set (by rfl) (Text.trims_trimmed " true".toList) (readFlag_eq_ok.mp (by decide))
  · cases m with
    | corePool =>
      exact .set (by rfl) (Text.trims_trimmed "+3\n".toList) (readNumber_eq_ok.mp (by decide))
    | _ => exact .unset (by decide)
  · exact Config.fault?_eq_none.mp (by decide)

end Environment

end Timetable
