import Mathlib.Data.List.Forall2
import Mathlib.Data.List.Nodup
import Timetable.Proofs.JsonText

/-!
# What a value denotes

A value denotes something to a decoder if it can be written as a text and decodes to that thing.
Numbers, texts and words denote what they were written from. So does a record whose members denote
its fields: scanning the members finds each field once, and the record is built from what was found.
-/
namespace Timetable.Json

variable {α β : Type}

/-- The value can be written as a text, and the decoder makes this of it. -/
structure Denotes (decode : Value → Except Fault α) (v : Value) (a : α) : Prop where
  legible : v.Legible
  decodes : decode v = .ok a

variable {decode : Value → Except Fault α} {v : Value} {a : α}

theorem Denotes.of_text (h : Denotes decode v a) :
    (Value.ofText? v.text).map decode = some (.ok a) := by
  rw [ofText?_text h.legible, Option.map_some, h.decodes]

/-! ## Numbers and texts -/

theorem le_ofDigitChars (digits : List Char) (value : Nat) :
    value ≤ Nat.ofDigitChars 10 digits value := by
  induction digits generalizing value with
  | nil => exact Nat.le_refl value
  | cons c digits ih =>
    rw [Nat.ofDigitChars_cons]
    have := ih (10 * value + (c.toNat - '0'.toNat))
    omega

/-- Digits that fit a word all count. -/
theorem significand_eq {digits : List Char} {value : Nat}
    (h : Nat.ofDigitChars 10 digits value < wordLimit) :
    Numeral.significand value digits = (Nat.ofDigitChars 10 digits value, []) := by
  induction digits generalizing value with
  | nil => rfl
  | cons c digits ih =>
    rw [Nat.ofDigitChars_cons, Nat.mul_comm] at h ⊢
    have hnext := Nat.lt_of_le_of_lt (le_ofDigitChars digits _) h
    rw [Numeral.significand, if_pos hnext, ih h]

theorem number_ofNat {n : Nat} (h : n < wordLimit) : number (.ofNat n) = .ok (.natural n) := by
  have hdigits : Nat.ofDigitChars 10 (Text.numeral n) 0 = n := Text.ofDigits_numeral n
  have hsignificand := significand_eq (hdigits.trans_lt h)
  rw [hdigits] at hsignificand
  have hnumber : (Numeral.ofNat n).number? = some (.natural n) := by
    simp [Numeral.number?, Numeral.ofNat, hsignificand]
  rw [number, hnumber]

theorem natural_ofNat {n limit : Nat} {expected : String} (h : n < limit)
    (hlimit : limit ≤ wordLimit) :
    natural limit expected (ofNat n) = .ok n := by
  simp only [natural, ofNat, number_ofNat (h.trans_le hlimit)]
  exact if_pos h

theorem denotes_natural {n limit : Nat} {expected : String} {f : Nat → α} (h : n < limit)
    (hlimit : limit ≤ wordLimit)
    (hf : f n = a) : Denotes (fun v => (natural limit expected v).map f) (ofNat n) a where
  legible := legible_ofNat n
  decodes := by
    rw [natural_ofNat h hlimit, ← hf]
    rfl

theorem denotes_word (w : UInt64) : Denotes word (ofNat w.toNat) w :=
  denotes_natural w.toNat_lt (Nat.le_refl _) UInt64.ofNat_toNat

theorem denotes_size (w : UInt64) : Denotes size (ofNat w.toNat) w :=
  denotes_natural w.toNat_lt (Nat.le_refl _) UInt64.ofNat_toNat

theorem denotes_short (w : UInt32) : Denotes short (ofNat w.toNat) w :=
  denotes_natural w.toNat_lt (by decide) UInt32.ofNat_toNat

theorem denotes_bool (b : Bool) : Denotes bool (.bool b) b := ⟨legible_bool b, rfl⟩

theorem denotes_string (s : String) : Denotes string (ofString s) s := ⟨legible_ofString s, rfl⟩

theorem denotes_readString {expected s : String} {read : String → Except String α}
    (h : read s = .ok a) :
    Denotes (readString expected read) (ofString s) a where
  legible := legible_ofString s
  decodes := by
    simp [readString, ofString, sound, bind, Except.bind, h]

/-- An encoding that never uses null for a value leaves null for the absence of one. -/
theorem denotes_option {encode : α → Value} (h : ∀ a, Denotes decode (encode a) a)
    (hnull : ∀ a, encode a ≠ .null) (o : Option α) :
    Denotes (nullable decode) (ofOption encode o) o := by
  refine ⟨legible_ofOption (fun a => (h a).legible) o, ?_⟩
  cases o with
  | none => rfl
  | some a =>
    have hsome : nullable decode (encode a) = (decode (encode a)).map some := by
      rw [nullable]
      exact hnull a
    rw [ofOption, hsome, (h a).decodes]
    rfl

/-! ## Words of a list -/

namespace Vocabulary

variable {voc : Vocabulary α}

theorem denotes_word (h : voc.meaning (voc.name a) = .ok a) :
    Denotes voc.decode (ofString (voc.name a)) a :=
  ⟨legible_ofString _, h⟩

theorem denotes_heldWord (h : voc.meaning (voc.name a) = .ok a) :
    Denotes voc.decodeHeld (ofString (voc.name a)) a :=
  ⟨legible_ofString _, h⟩

end Vocabulary

/-! ## Records -/

namespace Record

/-- The member has the field's name, and its value passes the field's test. -/
structure Accepts (f : Field) (m : String × Value) : Prop where
  name : f.name = m.1
  check : f.check m.2 = .ok ()

/-- The members can be written, they stand for the fields of the record in their order, and whenever
they are what was found, the record is built into this value. -/
structure Reads (r : Record α) (members : List (String × Value)) (a : α) : Prop where
  legible : ∀ m ∈ members, m.2.Legible
  accepts : List.Forall₂ Accepts r.fields members
  build : ∀ found : Findings, (∀ m ∈ members, found.lookup m.1 = some m.2) → r.build found = .ok a

theorem reads_field {name : String} {missing : Except Fault α} (h : Denotes decode v a) :
    (field name decode missing).Reads [(name, v)] a where
  legible := by simpa using h.legible
  accepts := .cons ⟨rfl, by simp [h.decodes, Except.map]⟩ .nil
  build found hfound := by
    have hlookup : found.lookup name = some v := hfound _ (List.mem_cons_self ..)
    simp [field, hlookup, h.decodes]

theorem reads_required (name : String) (h : Denotes decode v a) :
    (required name decode).Reads [(name, v)] a :=
  reads_field h

theorem reads_optional (name : String) {encode : α → Value} (h : ∀ a, Denotes decode (encode a) a)
    (hnull : ∀ a, encode a ≠ .null) (o : Option α) :
    (optional name decode).Reads [(name, ofOption encode o)] o :=
  reads_field (denotes_option h hnull o)

theorem reads_defaulted (name : String) (h : Denotes decode v a) (default : α) :
    (defaulted name decode default).Reads [(name, v)] a :=
  reads_field h

variable {r : Record α} {members others : List (String × Value)}

theorem Reads.map (h : r.Reads members a) (f : α → β) : (f <$> r).Reads members (f a) where
  legible := h.legible
  accepts := h.accepts
  build found hfound := by
    show (r.build found).map f = _
    rw [h.build found hfound]
    rfl

theorem Reads.seq {f : Record (α → β)} {g : α → β} (hf : f.Reads members g) (h : r.Reads others a) :
    (f <*> r).Reads (members ++ others) (g a) where
  legible m hm := by
    rcases List.mem_append.mp hm with hm | hm
    · exact hf.legible m hm
    · exact h.legible m hm
  accepts := List.rel_append hf.accepts h.accepts
  build found hfound := by
    have hg := hf.build found fun m hm => hfound m (List.mem_append_left _ hm)
    have ha := h.build found fun m hm => hfound m (List.mem_append_right _ hm)
    show (do let g ← f.build found; let a ← r.build found; return g a) = _
    rw [hg, ha]
    rfl

theorem Reads.andThen (h : r.Reads members a) {f : α → Except Fault β} {b : β} (hf : f a = .ok b) :
    (r.andThen f).Reads members b where
  legible := h.legible
  accepts := h.accepts
  build found hfound := by
    show (r.build found).bind f = _
    rw [h.build found hfound]
    exact hf

theorem find?_of_accepts {fields : List Field} (h : List.Forall₂ Accepts fields members)
    (hnames : (members.map Prod.fst).Nodup) {m : String × Value} (hm : m ∈ members) :
    ∃ f, fields.find? (fun f => f.name = m.1) = some f ∧ f.check m.2 = .ok () := by
  induction h with
  | nil => cases hm
  | @cons f first fields members hfirst hrest ih =>
    rw [List.map_cons, List.nodup_cons] at hnames
    rcases List.mem_cons.mp hm with rfl | hm
    · exact ⟨f, List.find?_cons_of_pos (by simp [hfirst.name]), hfirst.check⟩
    · have hne : f.name ≠ m.1 := fun heq =>
        hnames.1 (hfirst.name.symm.trans heq ▸ List.mem_map_of_mem hm)
      obtain ⟨g, hg, hcheck⟩ := ih hnames.2 hm
      exact ⟨g, (List.find?_cons_of_neg (by simpa using hne)).trans hg, hcheck⟩

theorem scan_cons {fields : List Field} {isClosed : Bool} {found : Findings} {f : Field}
    {name : String}
    (hf : fields.find? (fun f => f.name = name) = some f) (hcheck : f.check v = .ok ())
    (hnew : found.lookup name = none) (rest : List (Quotation × Value)) :
    scan fields isClosed found ((.sound name, v) :: rest) =
      scan fields isClosed ((name, v) :: found) rest := by
  simp [scan, sound, bind, Except.bind, hf, hcheck, hnew]

/-- Members of different names that all pass are what is found. -/
theorem scan_eq {fields : List Field} {isClosed : Bool} {found : Findings}
    (hfind : ∀ m ∈ members, ∃ f, fields.find? (fun f => f.name = m.1) = some f ∧
      f.check m.2 = .ok ())
    (hfresh : ∀ m ∈ members, found.lookup m.1 = none) (hnames : (members.map Prod.fst).Nodup) :
    scan fields isClosed found (named members) = .ok (members.reverse ++ found) := by
  induction members generalizing found with
  | nil => rfl
  | cons m members ih =>
    obtain ⟨name, v⟩ := m
    rw [List.map_cons, List.nodup_cons] at hnames
    obtain ⟨f, hf, hcheck⟩ := hfind _ (List.mem_cons_self ..)
    have hnew : found.lookup name = none := hfresh _ (List.mem_cons_self ..)
    have hfresh' : ∀ m ∈ members, List.lookup m.1 ((name, v) :: found) = none := by
      intro m hm
      have hne : m.1 ≠ name := fun heq => hnames.1 (List.mem_map.mpr ⟨m, hm, heq⟩)
      rw [List.lookup_cons, beq_eq_false_iff_ne.mpr hne]
      exact hfresh m (List.mem_cons_of_mem _ hm)
    have hrest := ih (fun m hm => hfind m (List.mem_cons_of_mem _ hm)) hfresh' hnames.2
    rw [named_cons, scan_cons hf hcheck hnew, hrest, List.reverse_cons, List.append_assoc]
    rfl

theorem lookup_of_mem {m : String × Value} (hm : m ∈ members)
    (hnames : (members.map Prod.fst).Nodup) :
    members.lookup m.1 = some m.2 := by
  induction members with
  | nil => cases hm
  | cons first members ih =>
    rw [List.map_cons, List.nodup_cons] at hnames
    rw [List.lookup_cons]
    rcases List.mem_cons.mp hm with rfl | hm
    · simp
    · have hne : m.1 ≠ first.1 := fun heq => hnames.1 (heq ▸ List.mem_map_of_mem hm)
      rw [beq_eq_false_iff_ne.mpr hne]
      exact ih hm hnames.2

theorem Reads.ofMembers (h : r.Reads members a) (hnames : (members.map Prod.fst).Nodup)
    (isClosed : Bool) :
    r.ofMembers isClosed (named members) = .ok a := by
  have hscan : scan r.fields isClosed [] (named members) = .ok (members.reverse ++ []) :=
    scan_eq (fun _ => find?_of_accepts h.accepts hnames) (fun _ _ => rfl) hnames
  have hnames' : (members.reverse.map Prod.fst).Nodup := by
    rw [List.map_reverse]
    exact List.nodup_reverse.mpr hnames
  rw [Record.ofMembers, hscan, List.append_nil]
  exact h.build _ fun m hm => lookup_of_mem (List.mem_reverse.mpr hm) hnames'

/-- A record denotes what its members do. -/
theorem Reads.denotes (h : r.Reads members a) (hnames : (members.map Prod.fst).Nodup)
    (style : RecordStyle) :
    Denotes (style.decode r) (record members) a :=
  ⟨legible_record h.legible, h.ofMembers hnames style.isClosed⟩

end Record

end Timetable.Json
