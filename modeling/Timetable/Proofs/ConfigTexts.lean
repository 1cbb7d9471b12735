import Timetable.Proofs.RoundTrip
import Timetable.Proofs.Settings
import Timetable.Proofs.Spellings

/-!
# Configurations from texts

An object gives values to some settings, in any order and among members of other names. However it
is written, it is read as the default configuration with these settings overridden, if that is
valid. A setting that is given twice or given something else than a value of its type makes the text
no configuration.
-/
namespace Timetable

open Json

/-! ## Numbers -/

namespace Json

/-- A number written as digits alone. -/
inductive Value.IsNatural : Value → Nat → Prop
  | mk (digits : List Char) : IsNatural (.number { whole := digits }) (Text.ofDigits digits)

theorem significand_iff {digits : List Char} {value n : Nat} (h : value < wordLimit) :
    Numeral.significand value digits = (n, []) ↔ Nat.ofDigitChars 10 digits value = n ∧
    n < wordLimit := by
  constructor
  · intro hread
    induction digits generalizing value with
    | nil =>
      obtain rfl := (Prod.mk.inj hread).1
      exact ⟨rfl, h⟩
    | cons c digits ih =>
      rw [Numeral.significand] at hread
      split at hread
      · rename_i hnext
        rw [Nat.ofDigitChars_cons, Nat.mul_comm]
        exact ih hnext hread
      · cases (Prod.mk.inj hread).2
  · rintro ⟨rfl, hn⟩
    exact significand_eq hn

/-- Digits alone denote a natural number as long as it fits a word, and nothing else does. -/
theorem number?_eq_natural {n : Numeral} {k : Nat} : n.number? = some (.natural k) ↔
    n = { whole := n.whole } ∧ Text.ofDigits n.whole = k ∧ k < wordLimit := by
  obtain ⟨isNegative, whole, fraction, exponent⟩ := n
  have hwhole :
      Numeral.significand 0 whole = (k, []) ↔ Nat.ofDigitChars 10 whole 0 = k ∧ k < wordLimit :=
    significand_iff (by decide)
  rw [Text.ofDigits, ← hwhole]
  cases hread : Numeral.significand 0 whole with
  | mk value excess =>
    simp only [Numeral.number?, hread]
    cases fraction <;> cases exponent <;> cases excess <;> cases isNegative <;> simp [ite_eq_iff]

theorem mismatch_ne_ok {α : Type} (expected : String) (v : Value) (a : α) :
    mismatch expected v ≠ .ok a := by
  cases h : found v <;> simp [mismatch, h, Except.bind]

theorem natural_eq_ok {expected : String} {v : Value} {k : Nat} :
    natural wordLimit expected v = .ok k ↔ v.IsNatural k ∧ k < wordLimit := by
  constructor
  · intro h
    cases v with
    | number n =>
      cases hn : n.number? with
      | none => simp [natural, number, hn, bind, Except.bind] at h
      | some x =>
        simp only [natural, number, hn, bind, Except.bind] at h
        cases x with
        | natural j =>
          obtain ⟨hj, rfl⟩ : j < wordLimit ∧ j = k := by simpa [ite_eq_iff] using h
          obtain ⟨hdigits, rfl, -⟩ := number?_eq_natural.mp hn
          rw [hdigits]
          exact ⟨.mk _, hj⟩
        | negative | float => cases h
    | _ => exact absurd h (mismatch_ne_ok expected _ k)
  · rintro ⟨⟨digits⟩, hk⟩
    have hn : Numeral.number? { whole := digits } = some (.natural (Text.ofDigits digits)) :=
      number?_eq_natural.mpr ⟨rfl, rfl, hk⟩
    simp [natural, number, hn, bind, Except.bind, hk]

/-- The decoders of words take all numbers that fit, and nothing else. -/
theorem map_natural_eq_ok {expected : String} {v : Value} {w : UInt64} :
    (natural wordLimit expected v).map UInt64.ofNat = .ok w ↔ v.IsNatural w.toNat := by
  constructor
  · intro h
    cases hk : natural wordLimit expected v with
    | error f => simp [hk, Except.map] at h
    | ok k =>
      obtain ⟨hv, hlt⟩ := natural_eq_ok.mp hk
      obtain rfl : UInt64.ofNat k = w := by simpa [hk, Except.map] using h
      have htoNat : (UInt64.ofNat k).toNat = k := UInt64.toNat_ofNat_of_lt hlt
      rwa [htoNat]
  · intro hv
    rw [natural_eq_ok.mpr ⟨hv, w.toNat_lt⟩, Except.map, UInt64.ofNat_toNat]

theorem bool_eq_ok {v : Value} {b : Bool} : bool v = .ok b ↔ v = .bool b := by
  cases v with
  | bool b' => simp [bool]
  | _ => exact iff_of_false (mismatch_ne_ok _ _ _) nofun

end Json

/-! ## Members that give settings -/

/-- How the value of a number is decoded. -/
def Measure.decode : Measure → Value → Except Fault UInt64
  | corePool | maxPool | threadStack => size
  | _ => word

theorem Measure.decode_eq_ok (m : Measure) {v : Value} {w : UInt64} :
    m.decode v = .ok w ↔ v.IsNatural w.toNat := by
  cases m <;> exact map_natural_eq_ok

namespace Setting

/-- The value is one of the setting's type, and it is the one given to the setting. -/
def Given : Setting → Value → Prop
  | measure _ w, v => v.IsNatural w.toNat
  | autoTick b, v => v = .bool b

/-- The members give these settings, in this order, and perhaps something of other names. -/
inductive Gives : List (Quotation × Value) → List Setting → Prop
  | nil : Gives [] []
  | setting {members : List (Quotation × Value)} {settings : List Setting} {s : Setting} {v : Value}
    (hv : s.Given v) (h : Gives members settings) :
    Gives ((.sound s.name, v) :: members) (s :: settings)
  | other {members : List (Quotation × Value)} {settings : List Setting} {name : String} (v : Value)
    (hname : name ∉ names) (h : Gives members settings) :
    Gives ((.sound name, v) :: members) settings

/-- The settings that the members name, one for every time. -/
def given (members : List (Quotation × Value)) : List String :=
  members.filterMap fun m => m.1.sound?.filter fun name => name ∈ names

end Setting

namespace Config

theorem map_unit_eq_ok {α : Type} {r : Except Fault α} :
    (r.map fun _ => ()) = .ok () ↔ ∃ a, r = .ok a := by
  cases r <;> simp [Except.map]

/-- A member passes just when it gives the setting of its name a value of the type. -/
theorem find?_field (s : Setting) : ∃ f, fields.fields.find? (fun f => f.name = s.name) = some f ∧
    ∀ v, f.check v = .ok () ↔ ∃ s', Setting.name s' = s.name ∧ s'.Given v := by
  cases s with
  | measure m w =>
    have hfield : fields.fields.find? (fun f => f.name = m.name) =
        some ⟨m.name, fun v => (m.decode v).map fun _ => ()⟩ := by cases m <;> rfl
    refine ⟨_, hfield, fun v => map_unit_eq_ok.trans ⟨?_, ?_⟩⟩
    · rintro ⟨w', hw'⟩
      exact ⟨.measure m w', rfl, m.decode_eq_ok.mp hw'⟩
    · rintro ⟨s', hname, hv⟩
      cases s' with
      | measure m' w' =>
        obtain rfl := Measure.name_inj hname
        exact ⟨w', m'.decode_eq_ok.mpr hv⟩
      | autoTick b => exact absurd hname.symm m.name_ne_autoTick
  | autoTick b =>
    have hfield : fields.fields.find? (fun f => f.name = "auto_tick") =
        some ⟨"auto_tick", fun v => (bool v).map fun _ => ()⟩ := rfl
    refine ⟨_, hfield, fun v => map_unit_eq_ok.trans ⟨?_, ?_⟩⟩
    · rintro ⟨b', hb'⟩
      exact ⟨.autoTick b', rfl, bool_eq_ok.mp hb'⟩
    · rintro ⟨s', hname, hv⟩
      cases s' with
      | measure m' w' => exact absurd hname m'.name_ne_autoTick
      | autoTick b' => exact ⟨b', bool_eq_ok.mpr hv⟩

theorem find?_eq_none {name : String} (h : name ∉ Setting.names) :
    fields.fields.find? (fun f => f.name = name) = none := by
  have hnames : fields.fields.map Field.name = Setting.names := rfl
  refine List.find?_eq_none.mpr fun f hf heq => h ?_
  rw [← of_decide_eq_true heq, ← hnames]
  exact List.mem_map_of_mem hf

/-- What was found are the values of the settings that have not their defaults. -/
structure FoundIn (c : Config) (found : Findings) : Prop where
  measure : ∀ m : Measure,
    ((found.lookup m.name).map m.decode).getD (.ok (m.get {})) = .ok (m.get c)
  autoTick : ((found.lookup "auto_tick").map bool).getD (.ok true) = .ok c.autoTick

variable {c : Config} {found : Findings}

theorem foundIn_nil : FoundIn {} [] := ⟨fun _ => rfl, rfl⟩

theorem FoundIn.cons (h : c.FoundIn found) {s : Setting} {v : Value} (hv : s.Given v) :
    (s.apply c).FoundIn ((s.name, v) :: found) := by
  cases s with
  | measure m w =>
    refine ⟨fun m' => ?_, ?_⟩
    · rw [Setting.apply, Measure.get_set, Setting.name, List.lookup_cons]
      by_cases hm : m' = m
      · subst hm
        simp [m'.decode_eq_ok.mpr hv]
      · have hne : m'.name ≠ m.name := fun heq => hm (Measure.name_inj heq)
        rw [beq_eq_false_iff_ne.mpr hne, if_neg hm]
        exact h.measure m'
    · rw [Setting.apply, Measure.autoTick_set, Setting.name, List.lookup_cons,
        beq_eq_false_iff_ne.mpr m.name_ne_autoTick.symm]
      exact h.autoTick
  | autoTick b =>
    obtain rfl := hv
    refine ⟨fun m => ?_, rfl⟩
    have hget : m.get { c with autoTick := b } = m.get c := by cases m <;> rfl
    rw [Setting.apply, hget, Setting.name, List.lookup_cons,
      beq_eq_false_iff_ne.mpr m.name_ne_autoTick]
    exact h.measure m

theorem build_seq {α β : Type} {f : Record (α → β)} {r : Record α} {g : α → β} {a : α}
    (hf : f.build found = .ok g)
    (h : r.build found = .ok a) : (f <*> r).build found = .ok (g a) := by
  show (do let g ← f.build found; let a ← r.build found; return g a) = _
  rw [hf, h]
  rfl

theorem FoundIn.build (h : c.FoundIn found) : fields.build found = .ok c := by
  have hfirst :
      (Config.mk <$> Record.defaulted "tick_interval_ms" word ({} : Config).tickIntervalMs).build
        found = .ok (Config.mk c.tickIntervalMs) := by
    have hinterval :
        (Record.defaulted "tick_interval_ms" word ({} : Config).tickIntervalMs).build found =
          .ok c.tickIntervalMs :=
      h.measure .tickInterval
    show Except.map Config.mk _ = _
    rw [hinterval]
    rfl
  exact build_seq (build_seq (build_seq (build_seq (build_seq (build_seq (build_seq hfirst
    (h.measure .corePool)) (h.measure .maxPool)) (h.measure .keepAlive)) (h.measure .retryDelay))
    (h.measure .shutdownGrace)) (h.measure .threadStack)) h.autoTick

/-! ## Scanning the members -/

theorem scan_other {name : String} (hname : name ∉ Setting.names) (v : Value)
    (members : List (Quotation × Value)) :
    Record.scan fields.fields false found ((.sound name, v) :: members) =
      Record.scan fields.fields false found members := by
  simp [Record.scan, sound, bind, Except.bind, find?_eq_none hname]

/-- Settings that are given once each are found. -/
theorem scan_gives {members : List (Quotation × Value)} {settings : List Setting}
    (h : Setting.Gives members settings)
    (hc : c.FoundIn found) (hnames : (settings.map Setting.name).Nodup)
    (hfresh : ∀ s ∈ settings, found.lookup (Setting.name s) = none) :
    ∃ found', Record.scan fields.fields false found members = .ok found' ∧
      (c.overridden settings).FoundIn found' := by
  induction h generalizing c found with
  | nil => exact ⟨found, rfl, hc⟩
  | @setting members settings s v hv h ih =>
    obtain ⟨hnew, hnames⟩ := List.nodup_cons.mp hnames
    obtain ⟨f, hf, hcheck⟩ := find?_field s
    rw [Record.scan_cons hf ((hcheck v).mpr ⟨s, rfl, hv⟩) (hfresh s (List.mem_cons_self ..))]
    refine ih (hc.cons hv) hnames fun s' hs' => ?_
    have hne : s'.name ≠ s.name := fun heq => hnew (heq ▸ List.mem_map_of_mem hs')
    rw [List.lookup_cons, beq_eq_false_iff_ne.mpr hne]
    exact hfresh s' (List.mem_cons_of_mem s hs')
  | @other members settings name v hname h ih =>
    rw [scan_other hname]
    exact ih hc hnames hfresh

theorem ofJson_gives {members : List (Quotation × Value)} {settings : List Setting}
    (h : Setting.Gives members settings) (hnames : (settings.map Setting.name).Nodup) :
    ofJson (.object members) = .ok (({} : Config).overridden settings) := by
  obtain ⟨found, hscan, hfound⟩ := scan_gives h foundIn_nil hnames fun _ _ => rfl
  show (do fields.build (← Record.scan fields.fields false [] members)) = _
  rw [hscan]
  exact hfound.build

/-- A setting that passes is new and has a value of its type. -/
theorem scan_setting {s : Setting} {v : Value} {members : List (Quotation × Value)}
    {found' : Findings}
    (h : Record.scan fields.fields false found ((.sound s.name, v) :: members) = .ok found') :
    found.lookup s.name = none ∧ (∃ s', Setting.name s' = s.name ∧ s'.Given v) ∧
      Record.scan fields.fields false ((s.name, v) :: found) members = .ok found' := by
  obtain ⟨f, hf, hcheck⟩ := find?_field s
  simp only [Record.scan, sound, bind, Except.bind, hf] at h
  cases hlookup : found.lookup s.name with
  | some => simp [hlookup] at h
  | none =>
    cases hv : f.check v with
    | error => simp [hlookup, hv] at h
    | ok => exact ⟨rfl, (hcheck v).mp hv, by simpa [hlookup, hv] using h⟩

/-- When the members pass, no setting is given twice, and each has a value of its type. -/
theorem of_scan {members : List (Quotation × Value)} {found' : Findings}
    (h : Record.scan fields.fields false found members = .ok found') :
    (Setting.given members).Nodup ∧ (∀ name ∈ Setting.given members, found.lookup name = none) ∧
      ∀ s v, (Quotation.sound (Setting.name s), v) ∈ members → ∃ s', Setting.name s' = s.name ∧
      s'.Given v := by
  induction members generalizing found with
  | nil => exact ⟨List.nodup_nil, nofun, nofun⟩
  | cons m members ih =>
    obtain ⟨q, v⟩ := m
    cases q with
    | faulty f => simp [Record.scan, sound, bind, Except.bind] at h
    | sound name =>
      by_cases hname : name ∈ Setting.names
      · obtain ⟨s, rfl⟩ := Setting.mem_names.mp hname
        obtain ⟨hnew, hv, h⟩ := scan_setting h
        obtain ⟨hnodup, hfresh, htypes⟩ := ih h
        have hgiven :
            Setting.given ((.sound s.name, v) :: members) = s.name :: Setting.given members :=
          List.filterMap_cons_some (by simp [Quotation.sound?, hname])
        have hne : ∀ name ∈ Setting.given members, name ≠ s.name ∧ found.lookup name = none := by
          intro name hmem
          have hlookup := hfresh name hmem
          rw [List.lookup_cons] at hlookup
          split at hlookup
          · cases hlookup
          · rename_i hne
            exact ⟨beq_eq_false_iff_ne.mp hne, hlookup⟩
        rw [hgiven]
        refine ⟨List.nodup_cons.mpr ⟨fun hmem => (hne _ hmem).1 rfl, hnodup⟩, fun name hmem => ?_,
          fun s' v' hmem => ?_⟩
        · rcases List.mem_cons.mp hmem with rfl | hmem
          · exact hnew
          · exact (hne name hmem).2
        · rcases List.mem_cons.mp hmem with heq | hmem
          · obtain ⟨hs, rfl⟩ := Prod.mk.inj heq
            rw [Quotation.sound.inj hs]
            exact hv
          · exact htypes s' v' hmem
      · rw [scan_other hname] at h
        obtain ⟨hnodup, hfresh, htypes⟩ := ih h
        have hgiven : Setting.given ((.sound name, v) :: members) = Setting.given members :=
          List.filterMap_cons_none (by simp [Quotation.sound?, hname])
        rw [hgiven]
        refine ⟨hnodup, hfresh, fun s' v' hmem => ?_⟩
        rcases List.mem_cons.mp hmem with heq | hmem
        · exact absurd (Setting.mem_names.mpr ⟨s', Quotation.sound.inj (Prod.mk.inj heq).1⟩) hname
        · exact htypes s' v' hmem

/-- Members among which a setting is given twice, or something else than a value of its type. -/
def Unfit (members : List (Quotation × Value)) : Prop :=
  ¬ (Setting.given members).Nodup ∨
    ∃ s v, (Quotation.sound (Setting.name s), v) ∈ members ∧ ∀ s', Setting.name s' = s.name →
      ¬ s'.Given v

theorem ofJson_unfit {members : List (Quotation × Value)} (h : Unfit members) :
    ∃ f, ofJson (.object members) = .error f := by
  cases hscan : Record.scan fields.fields false [] members with
  | error f =>
    refine ⟨f, ?_⟩
    show (do fields.build (← Record.scan fields.fields false [] members)) = _
    rw [hscan]
    rfl
  | ok found =>
    obtain ⟨hnodup, -, htypes⟩ := of_scan hscan
    rcases h with htwice | ⟨s, v, hmem, hwrong⟩
    · exact absurd hnodup htwice
    · obtain ⟨s', hname, hv⟩ := htypes s v hmem
      exact absurd hv (hwrong s' hname)

/-! ## Texts -/

/-- What a text of a configuration comes to. -/
structure TextsOverride : Prop where
  /-- Settings given once each override the defaults, if the result is valid; otherwise the first
  breach is told. -/
  overrides : ∀ (members : List (Quotation × Value)) (settings : List Setting) (s : List Char),
    Setting.Gives members settings → (settings.map Setting.name).Nodup →
      Writes (Value.object members).tokens s →
    (ofText s).mapError TextFault.message =
      match (({} : Config).overridden settings).breach? with
      | none => .ok (({} : Config).overridden settings)
      | some message => .error message
  /-- A setting given twice, or not given a value of its type, is a fault in the text. -/
  faults : ∀ (members : List (Quotation × Value)) (s : List Char), Unfit members →
    Writes (Value.object members).tokens s → ∃ f, ofText s = .error (.fault f)
  /-- What a configuration is encoded as is read back if the configuration is valid. -/
  encoded : ∀ c : Config, ofText c.toJson.text = .ok c ↔ c.Valid

/-- A text that a configuration can be decoded from is one if this is valid. -/
theorem ofText_eq {s : List Char} {v : Value} {c : Config} (hs : Value.ofText? s = some v)
    (hv : ofJson v = .ok c) :
    (ofText s).mapError TextFault.message =
      match c.breach? with
      | none => .ok c
      | some message => .error message := by
  rw [← message_fault?, ofText, hs]
  simp only [hv]
  cases c.fault? <;> rfl

theorem texts_override : TextsOverride where
  overrides members settings s hgives hnames hs :=
    ofText_eq (ofText?_of_writes hs) (ofJson_gives hgives hnames)
  faults members s hunfit hs := by
    obtain ⟨f, hf⟩ := ofJson_unfit hunfit
    refine ⟨f, ?_⟩
    rw [ofText, ofText?_of_writes hs]
    simp only [hf]
  encoded c := by
    have hc := denotes_config c
    rw [← fault?_eq_none, ofText, ofText?_text hc.legible]
    simp only [hc.decodes]
    cases c.fault? <;> simp

/-- A name that means nothing is passed over, and so are blanks. -/
theorem texts_override_tick : ∃ s : List Char,
    s = "\x7b \"later\":null,\n\"tick_interval_ms\": 250\x7d".toList ∧
      (ofText s).mapError TextFault.message = .ok { tickIntervalMs := 250 } := by
  let members : List (Quotation × Value) :=
    [(.sound "later", .null), (.sound "tick_interval_ms", .number { whole := ['2', '5', '0'] })]
  have hgiven : (Setting.measure .tickInterval 250).Given (.number { whole := ['2', '5', '0'] }) :=
    Value.IsNatural.mk ['2', '5', '0']
  have hgives : Setting.Gives members [.measure .tickInterval 250] :=
    .other _ (by decide) (.setting hgiven .nil)
  have hname (name : String) (h : name.toList.all fun c => c ≠ '"' ∧ c ≠ '\\' ∧ ¬ c.toNat < 0x20) :
      (Quotation.sound name).Writes ('"' :: (name.toList ++ ['"'])) := by
    have hplain := Quotation.writes_plain fun c hc => of_decide_eq_true (List.all_eq_true.mp h c hc)
    rwa [String.ofList_toList] at hplain
  have hnumber : Numeral.Writes { whole := ['2', '5', '0'] } ['2', '5', '0'] :=
    .mk (n := { whole := ['2', '5', '0'] }) ⟨by decide, List.all_eq_true.mp (by decide)⟩ (by decide)
      .absent .absent
  have hwrites : Writes (Value.object members).tokens _ :=
    .token rfl (.blank (c := ' ') rfl (.token (hname _ (by decide)) (.token rfl (.token rfl
      (.token rfl (.blank (c := '\n') rfl (.token (hname _ (by decide)) (.token rfl
        (.blank (c := ' ') rfl (.token hnumber (.token rfl .nil)))))))))))
  exact ⟨_, by decide, texts_override.overrides _ _ _ hgives (by decide) hwrites⟩

end Config

end Timetable
