import Timetable.Json.Record
import Timetable.Proofs.Tokens

/-!
# Values are read as they are written

The tokens of a value can be told from one another, and they make up the value again. So the text of
a value is read as this value, whatever arrays and objects it is made of.
-/
namespace Timetable.Json

open Token

/-! ## The tokens of a value -/

/-- Tokens that can be told from one another and from a mark behind them. -/
def Closed (ts : List Token) : Prop :=
  ∀ rest, (∀ u ∈ rest.head?, u.isMark) → Spaced rest → Spaced (ts ++ rest)

theorem closed_single (t : Token) : Closed [t] := fun _ hmark hrest => ⟨fun _ => hmark, hrest⟩

theorem Closed.cons {ts : List Token} (h : Closed ts) {t : Token} (ht : t.isOpen = false) :
    Closed (t :: ts) :=
  fun rest hmark hrest => ⟨fun hopen => absurd hopen (by simp [ht]), h rest hmark hrest⟩

theorem Closed.append_mark {ts : List Token} (h : Closed ts) {t : Token} (ht : t.isMark)
    {us : List Token} (hus : Closed (t :: us)) : Closed (ts ++ t :: us) := by
  intro rest hmark hrest
  rw [List.append_assoc]
  exact h _ (by simpa using ht) (hus rest hmark hrest)

theorem closed_separated {parts : List (List Token)} (h : ∀ part ∈ parts, Closed part) :
    Closed (separated parts) := by
  induction parts with
  | nil => exact fun _ _ hrest => hrest
  | cons part parts ih =>
    have hpart := h part (List.mem_cons_self ..)
    cases parts with
    | nil => exact hpart
    | cons next parts =>
      have hrest := ih fun p hp => h p (List.mem_cons_of_mem part hp)
      exact hpart.append_mark (t := .comma) rfl (hrest.cons rfl)

mutual

theorem closed_tokens : ∀ v : Value, Closed v.tokens
  | .null => closed_single _
  | .bool _ => closed_single _
  | .number _ => closed_single _
  | .string _ => closed_single _
  | .array items =>
    ((closed_separated (closed_items items)).append_mark (t := .endArray) rfl
      (closed_single _)).cons rfl
  | .object members =>
    ((closed_separated (closed_members members)).append_mark (t := .endObject) rfl
      (closed_single _)).cons rfl

theorem closed_items : ∀ (items : List Value), ∀ part ∈ tokensOfItems items, Closed part
  | [], _, h => absurd h List.not_mem_nil
  | v :: vs, part, h => by
    rcases List.mem_cons.mp h with rfl | h
    · exact closed_tokens v
    · exact closed_items vs part h

theorem closed_members :
    ∀ (members : List (Quotation × Value)), ∀ part ∈ tokensOfMembers members, Closed part
  | [], _, h => absurd h List.not_mem_nil
  | (name, v) :: members, part, h => by
    rcases List.mem_cons.mp h with rfl | h
    · exact ((closed_tokens v).cons rfl).cons rfl
    · exact closed_members members part h

end

theorem spaced_tokens (v : Value) : Spaced v.tokens := by
  have h := closed_tokens v [] (by simp) trivial
  rwa [List.append_nil] at h

/-! ## The value of the tokens -/

/-- The tokens of the value are read where a value is expected. -/
def Reads (v : Value) : Prop :=
  ∀ frames rest, Stage.run .value frames (v.tokens ++ rest) = Stage.run (.behind v) frames rest

variable {v : Value} {vs : List Value} {done : List Value} {name : Quotation}
  {members doneMembers : List (Quotation × Value)} {frames : List Frame} {rest : List Token}

theorem run_items (h : ∀ w ∈ v :: vs, Reads w) :
    Stage.run .value (.items done :: frames)
      (separated (tokensOfItems (v :: vs)) ++ .endArray :: rest) =
      Stage.run (.behind (.array (done.reverse ++ v :: vs))) frames rest := by
  induction vs generalizing v done with
  | nil =>
    rw [show separated (tokensOfItems [v]) = v.tokens from rfl, h v (List.mem_cons_self ..)]
    simp [Stage.run, Stage.step?]
  | cons w vs ih =>
    have hmore : separated (tokensOfItems (v :: w :: vs)) = v.tokens ++ .comma ::
      separated (tokensOfItems (w :: vs)) := rfl
    rw [hmore, List.append_assoc, h v (List.mem_cons_self ..)]
    have hcomma : Stage.run (.behind v) (.items done :: frames)
        (.comma :: separated (tokensOfItems (w :: vs)) ++ .endArray :: rest) =
        Stage.run .value (.items (v :: done) :: frames)
          (separated (tokensOfItems (w :: vs)) ++ .endArray :: rest) := rfl
    rw [hcomma, ih fun x hx => h x (List.mem_cons_of_mem v hx)]
    simp

theorem run_members (h : ∀ m ∈ (name, v) :: members, Reads m.2) :
    Stage.run (.nextName doneMembers) frames
        (separated (tokensOfMembers ((name, v) :: members)) ++ .endObject :: rest) =
      Stage.run (.behind (.object (doneMembers.reverse ++ (name, v) :: members))) frames rest := by
  have hv : Reads v := h _ (List.mem_cons_self ..)
  induction members generalizing name v doneMembers with
  | nil =>
    have hname : Stage.run (.nextName doneMembers) frames
        (separated (tokensOfMembers [(name, v)]) ++ .endObject :: rest) =
        Stage.run .value (.members doneMembers name :: frames) (v.tokens ++ .endObject :: rest) :=
          rfl
    rw [hname, hv]
    simp [Stage.run, Stage.step?]
  | cons m members ih =>
    obtain ⟨next, w⟩ := m
    have hname : Stage.run (.nextName doneMembers) frames
        (separated (tokensOfMembers ((name, v) :: (next, w) :: members)) ++ .endObject :: rest) =
        Stage.run .value (.members doneMembers name :: frames)
          (v.tokens ++ .comma :: separated (tokensOfMembers ((next, w) :: members)) ++
            .endObject :: rest) := rfl
    have hcomma : Stage.run (.behind v) (.members doneMembers name :: frames)
        (.comma :: separated (tokensOfMembers ((next, w) :: members)) ++ .endObject :: rest) =
        Stage.run (.nextName ((name, v) :: doneMembers)) frames
          (separated (tokensOfMembers ((next, w) :: members)) ++ .endObject :: rest) := rfl
    have hrest : ∀ m ∈ (next, w) :: members, Reads m.2 :=
      fun m hm => h m (List.mem_cons_of_mem _ hm)
    rw [hname, List.append_assoc, hv, hcomma, ih hrest (hrest _ (List.mem_cons_self ..))]
    simp

theorem reads_array {items : List Value} (h : ∀ v ∈ items, Reads v) : Reads (.array items) := by
  intro frames rest
  cases items with
  | nil => rfl
  | cons v vs =>
    -- the first token of an item is not the end of the array
    have hfirst :
        Stage.run .firstItem frames (separated (tokensOfItems (v :: vs)) ++ .endArray :: rest) =
        Stage.run .value (.items [] :: frames)
          (separated (tokensOfItems (v :: vs)) ++ .endArray :: rest) := by
      cases v <;> cases vs <;> rfl
    have hbegin : Stage.run .value frames (Value.tokens (.array (v :: vs)) ++ rest) =
        Stage.run .firstItem frames (separated (tokensOfItems (v :: vs)) ++ .endArray :: rest) := by
      rw [Value.tokens, List.append_assoc]
      rfl
    rw [hbegin, hfirst, run_items h]
    rfl

theorem reads_object {members : List (Quotation × Value)} (h : ∀ m ∈ members, Reads m.2) :
    Reads (.object members) := by
  intro frames rest
  cases members with
  | nil => rfl
  | cons m members =>
    obtain ⟨name, v⟩ := m
    have hfirst : Stage.run .firstName frames
        (separated (tokensOfMembers ((name, v) :: members)) ++ .endObject :: rest) =
        Stage.run (.nextName []) frames
          (separated (tokensOfMembers ((name, v) :: members)) ++ .endObject :: rest) := by
      cases members <;> rfl
    have hbegin : Stage.run .value frames (Value.tokens (.object ((name, v) :: members)) ++ rest) =
        Stage.run .firstName frames (separated (tokensOfMembers ((name, v) :: members)) ++
          .endObject :: rest) := by
      rw [Value.tokens, List.append_assoc]
      rfl
    rw [hbegin, hfirst, run_members h]
    rfl

mutual

theorem reads_tokens : ∀ v : Value, Reads v
  | .null => fun _ _ => rfl
  | .bool _ => fun _ _ => rfl
  | .number _ => fun _ _ => rfl
  | .string _ => fun _ _ => rfl
  | .array items => reads_array (reads_items items)
  | .object members => reads_object (reads_members members)

theorem reads_items : ∀ (items : List Value), ∀ v ∈ items, Reads v
  | [], _, h => absurd h List.not_mem_nil
  | v :: vs, w, h => by
    rcases List.mem_cons.mp h with h | h
    · rw [h]
      exact reads_tokens v
    · exact reads_items vs w h

theorem reads_members : ∀ (members : List (Quotation × Value)), ∀ m ∈ members, Reads m.2
  | [], _, h => absurd h List.not_mem_nil
  | (name, v) :: members, m, h => by
    rcases List.mem_cons.mp h with rfl | h
    · exact reads_tokens v
    · exact reads_members members m h

end

/-- The tokens of a value make up the value. -/
theorem ofTokens?_tokens (v : Value) : Value.ofTokens? v.tokens = some v := by
  have h := reads_tokens v [] []
  rwa [List.append_nil] at h

/-! ## The text of a value -/

/-- A value whose strings are sound and whose numerals are read as they are written. -/
def Value.Legible (v : Value) : Prop := ∀ t ∈ v.tokens, t.Legible

/-- The text of a value is read as the value. -/
theorem ofText?_text {v : Value} (h : v.Legible) : Value.ofText? v.text = some v := by
  rw [Value.ofText?, Value.text, tokens?_texts h (spaced_tokens v), Option.bind_some,
    ofTokens?_tokens]

theorem legible_null : Value.Legible .null := by simp [Value.Legible, Value.tokens, Token.Legible]

theorem legible_bool (b : Bool) : (Value.bool b).Legible := by
  simp [Value.Legible, Value.tokens, Token.Legible]

theorem legible_ofNat (n : Nat) : (ofNat n).Legible := by
  simpa [Value.Legible, ofNat, Value.tokens, Token.Legible] using Numeral.legible_ofNat n

theorem legible_ofString (s : String) : (ofString s).Legible := by
  simp [Value.Legible, ofString, Value.tokens, Token.Legible]

theorem legible_ofOption {α : Type} {encode : α → Value} (h : ∀ a, (encode a).Legible)
    (o : Option α) :
    (ofOption encode o).Legible := by
  cases o with
  | none => exact legible_null
  | some a => exact h a

theorem mem_separated {parts : List (List Token)} {t : Token} (h : t ∈ separated parts) :
    t = .comma ∨ ∃ part ∈ parts, t ∈ part := by
  induction parts with
  | nil => cases h
  | cons part parts ih =>
    cases parts with
    | nil => exact .inr ⟨part, List.mem_cons_self .., h⟩
    | cons next parts =>
      rcases List.mem_append.mp h with h | h
      · exact .inr ⟨part, List.mem_cons_self .., h⟩
      · rcases List.mem_cons.mp h with rfl | h
        · exact .inl rfl
        · rcases ih h with rfl | ⟨p, hp, ht⟩
          · exact .inl rfl
          · exact .inr ⟨p, List.mem_cons_of_mem part hp, ht⟩

/-- The members of an object whose names are sound. -/
def named (members : List (String × Value)) : List (Quotation × Value) :=
  members.map fun (name, v) => (.sound name, v)

@[simp] theorem named_nil : named [] = [] := rfl

@[simp] theorem named_cons (name : String) (v : Value) (members : List (String × Value)) :
    named ((name, v) :: members) = (.sound name, v) :: named members := rfl

theorem record_eq (members : List (String × Value)) : record members = .object (named members) :=
  rfl

theorem legible_members {members : List (String × Value)} (h : ∀ m ∈ members, m.2.Legible) :
    ∀ part ∈ tokensOfMembers (named members), ∀ t ∈ part, t.Legible := by
  induction members with
  | nil => exact fun part hpart => absurd hpart List.not_mem_nil
  | cons m members ih =>
    obtain ⟨name, v⟩ := m
    intro part hpart t ht
    rcases List.mem_cons.mp hpart with rfl | hpart
    · rcases List.mem_cons.mp ht with rfl | ht
      · exact ⟨name, rfl⟩
      · rcases List.mem_cons.mp ht with rfl | ht
        · trivial
        · exact h _ (List.mem_cons_self ..) t ht
    · exact ih (fun m hm => h m (List.mem_cons_of_mem _ hm)) part hpart t ht

theorem legible_record {members : List (String × Value)} (h : ∀ m ∈ members, m.2.Legible) :
    (record members).Legible := by
  intro t ht
  rw [record_eq, Value.tokens, List.cons_append] at ht
  rcases List.mem_cons.mp ht with rfl | ht
  · trivial
  · rcases List.mem_append.mp ht with ht | ht
    · rcases mem_separated ht with rfl | ⟨part, hpart, ht⟩
      · trivial
      · exact legible_members h part hpart t ht
    · rw [List.mem_singleton] at ht
      subst ht
      trivial

end Timetable.Json
