import Mathlib.Data.List.TakeWhile
import Timetable.Config.Environment
import Timetable.Proofs.Members
import Timetable.Proofs.Stamps

/-!
# Values in the environment

What a text comes to as the value of a variable: blanks at its ends are left out, and what remains
is a number that fits a word or a truth value, or it is told what is in the way first.
-/
namespace Timetable

/-! ## Blanks at the ends -/

namespace Text

/-- The text is the other one with blanks around it. -/
inductive Trims (s : List Char) : List Char → Prop
  | mk {before core after : List Char} (h : s = before ++ core ++ after)
    (hbefore : ∀ c ∈ before, isBlank c)
    (hafter : ∀ c ∈ after, isBlank c) (hfirst : ∀ c ∈ core.head?, isBlank c = false)
    (hlast : ∀ c ∈ core.getLast?, isBlank c = false) : Trims s core

variable {s core blanks : List Char}

theorem dropBlanks_of_head (h : ∀ c ∈ s.head?, isBlank c = false) : dropBlanks s = s := by
  cases s with
  | nil => rfl
  | cons c s => exact dropBlanks_cons (h c rfl) s

theorem dropBlanks_append (h : ∀ c ∈ blanks, isBlank c) (s : List Char) :
    dropBlanks (blanks ++ s) = dropBlanks s :=
  List.dropWhile_append_of_pos h

theorem head_dropBlanks (s : List Char) : ∀ c ∈ (dropBlanks s).head?, isBlank c = false := by
  intro c hc
  have hstop := List.head?_dropWhile_not isBlank s
  rw [show (s.dropWhile isBlank).head? = some c from hc] at hstop
  exact hstop

theorem exists_blanks (s : List Char) :
    ∃ blanks, (∀ c ∈ blanks, isBlank c) ∧ s = blanks ++ dropBlanks s :=
  ⟨s.takeWhile isBlank, fun _ => List.mem_takeWhile_imp, (List.takeWhile_append_dropWhile ..).symm⟩

theorem trims_trimmed (s : List Char) : Trims s (trimmed s) := by
  obtain ⟨before, hbefore, hs⟩ := exists_blanks s
  obtain ⟨after, hafter, ht⟩ := exists_blanks (dropBlanks s).reverse
  have hrest : dropBlanks s = trimmed s ++ after.reverse := by
    rw [trimmed, ← List.reverse_append, ← ht, List.reverse_reverse]
  have hall : s = before ++ trimmed s ++ after.reverse := by rw [List.append_assoc, ← hrest, ← hs]
  refine .mk hall hbefore ?_ ?_ ?_
  · simpa using hafter
  · intro c hc
    refine head_dropBlanks s c ?_
    rw [hrest, List.head?_append]
    simp [Option.mem_def.mp hc]
  · intro c hc
    rw [trimmed, List.getLast?_reverse] at hc
    exact head_dropBlanks _ c hc

/-- What is trimmed is what stands between the blanks. -/
theorem trimmed_eq_iff : trimmed s = core ↔ Trims s core := by
  constructor
  · rintro rfl
    exact trims_trimmed s
  · rintro @⟨before, core, after, rfl, hbefore, hafter, hfirst, hlast⟩
    have hstart : dropBlanks (before ++ core ++ after) = dropBlanks (core ++ after) := by
      rw [List.append_assoc, dropBlanks_append hbefore]
    rw [trimmed, hstart]
    cases core with
    | nil =>
      have hblank := dropBlanks_append hafter []
      rw [List.append_nil] at hblank
      rw [List.nil_append, hblank]
      rfl
    | cons c core =>
      have hcore : dropBlanks (c :: core ++ after) = c :: core ++ after := dropBlanks_of_head hfirst
      have hend : dropBlanks (c :: core).reverse = (c :: core).reverse :=
        dropBlanks_of_head (by rwa [List.head?_reverse])
      rw [hcore, List.reverse_append, dropBlanks_append (by simpa using hafter), hend,
        List.reverse_reverse]

end Text

namespace Environment

/-! ## Numbers -/

/-- The text behind a plus sign. -/
def unsigned : List Char → List Char
  | '+' :: s => s
  | s => s

/-- The text is the number, perhaps after a plus sign. -/
structure IsNumber (s : List Char) (w : UInt64) : Prop where
  nonempty : unsigned s ≠ []
  digits : ∀ c ∈ unsigned s, c.isDigit
  value : Text.ofDigits (unsigned s) = w.toNat

/-- What is in the way of reading the text as a number: it has no digits, or something else stands
among them, or the digits up to some place make too large a number. Of the last two the one counts
that is met first. -/
inductive IsNoNumber (s : List Char) : ValueFault → Prop
  | empty (h : s = []) : IsNoNumber s .emptyNumber
  | signAlone (h : s = ['+']) : IsNoNumber s .badDigit
  | badDigit {digits rest : List Char} {c : Char} (h : unsigned s = digits ++ c :: rest)
    (hdigits : ∀ d ∈ digits, d.isDigit) (hfits : Text.ofDigits digits < wordLimit)
    (hc : c.isDigit = false) :
    IsNoNumber s .badDigit
  | tooLarge {digits rest : List Char} (h : unsigned s = digits ++ rest)
    (hdigits : ∀ d ∈ digits, d.isDigit)
    (hlarge : wordLimit ≤ Text.ofDigits digits) : IsNoNumber s .tooLarge

/-- What is in the way of reading digits on from a number. -/
inductive Obstacle (value : Nat) (s : List Char) : ValueFault → Prop
  | badDigit {digits rest : List Char} {c : Char} (h : s = digits ++ c :: rest)
    (hdigits : ∀ d ∈ digits, d.isDigit)
    (hfits : Nat.ofDigitChars 10 digits value < wordLimit) (hc : c.isDigit = false) :
    Obstacle value s .badDigit
  | tooLarge {digits rest : List Char} (h : s = digits ++ rest) (hdigits : ∀ d ∈ digits, d.isDigit)
    (hlarge : wordLimit ≤ Nat.ofDigitChars 10 digits value) : Obstacle value s .tooLarge

variable {s : List Char} {value : Nat} {w : UInt64} {f : ValueFault}

theorem readDigits_eq_ok (h : value < wordLimit) : readDigits value s = .ok w ↔
    (∀ c ∈ s, c.isDigit) ∧ Nat.ofDigitChars 10 s value = w.toNat := by
  induction s generalizing value with
  | nil =>
    have htoNat : (UInt64.ofNat value).toNat = value := UInt64.toNat_ofNat_of_lt h
    rw [readDigits, Except.ok.injEq, ← UInt64.toNat_inj, htoNat]
    simp
  | cons c s ih =>
    rw [readDigits, Nat.ofDigitChars_cons, Nat.mul_comm 10 value]
    cases hc : c.isDigit with
    | false => simp [hc]
    | true =>
      by_cases hnext : value * 10 + (c.toNat - '0'.toNat) < wordLimit
      · simp only [Bool.not_true, Bool.false_eq_true, if_false, if_pos hnext, ih hnext]
        simp [hc]
      · have hle := Json.le_ofDigitChars s (value * 10 + (c.toNat - '0'.toNat))
        have hlt : w.toNat < wordLimit := w.toNat_lt
        simp only [Bool.not_true, Bool.false_eq_true, if_false, if_neg hnext]
        refine iff_of_false nofun fun ⟨_, hvalue⟩ => ?_
        omega

/-- A digit is not in the way as long as the number fits. -/
theorem obstacle_cons {c : Char} (hc : c.isDigit)
    (hnext : value * 10 + (c.toNat - '0'.toNat) < wordLimit) :
    Obstacle value (c :: s) f ↔ Obstacle (value * 10 + (c.toNat - '0'.toNat)) s f := by
  have hmore (digits : List Char) : Nat.ofDigitChars 10 (c :: digits) value =
      Nat.ofDigitChars 10 digits (value * 10 + (c.toNat - '0'.toNat)) := by
    rw [Nat.ofDigitChars_cons, Nat.mul_comm 10 value]
  constructor
  · rintro (⟨h, hdigits, hfits, hd⟩ | ⟨h, hdigits, hlarge⟩)
    · rcases List.cons_eq_append_iff.mp h with ⟨rfl, hcons⟩ | ⟨digits, rfl, hs⟩
      · obtain ⟨rfl, -⟩ := List.cons.inj hcons
        simp [hc] at hd
      · exact .badDigit hs (fun d hd => hdigits d (List.mem_cons_of_mem c hd))
          (hmore digits ▸ hfits) hd
    · rcases List.cons_eq_append_iff.mp h with ⟨rfl, -⟩ | ⟨digits, rfl, hs⟩
      · rw [Nat.ofDigitChars_nil] at hlarge
        omega
      · exact .tooLarge hs (fun d hd => hdigits d (List.mem_cons_of_mem c hd))
          (hmore digits ▸ hlarge)
  · have hall {digits : List Char} (hdigits : ∀ d ∈ digits, d.isDigit) :
        ∀ d ∈ c :: digits, d.isDigit :=
      List.forall_mem_cons.mpr ⟨hc, hdigits⟩
    rintro (@⟨digits, rest, d, rfl, hdigits, hfits, hd⟩ | @⟨digits, rest, rfl, hdigits, hlarge⟩)
    · exact .badDigit (List.cons_append ..).symm (hall hdigits) (by rwa [hmore]) hd
    · exact .tooLarge (List.cons_append ..).symm (hall hdigits) (by rwa [hmore])

theorem readDigits_eq_error (h : value < wordLimit) :
    readDigits value s = .error f ↔ Obstacle value s f := by
  induction s generalizing value with
  | nil =>
    refine iff_of_false nofun fun hob => ?_
    cases hob with
    | badDigit h => simp at h
    | tooLarge h' _ hlarge =>
      obtain ⟨rfl, -⟩ := List.append_eq_nil_iff.mp h'.symm
      rw [Nat.ofDigitChars_nil] at hlarge
      omega
  | cons c s ih =>
    rw [readDigits]
    cases hc : c.isDigit with
    | false =>
      constructor
      · rintro ⟨⟩
        exact .badDigit (List.nil_append _).symm nofun h hc
      · rintro (_ | ⟨h', hdigits, hlarge⟩)
        · rfl
        · rcases List.cons_eq_append_iff.mp h' with ⟨rfl, -⟩ | ⟨digits, rfl, -⟩
          · rw [Nat.ofDigitChars_nil] at hlarge
            omega
          · simp [hc] at hdigits
    | true =>
      by_cases hnext : value * 10 + (c.toNat - '0'.toNat) < wordLimit
      · simp only [Bool.not_true, Bool.false_eq_true, if_false, if_pos hnext, ih hnext]
        exact (obstacle_cons hc hnext).symm
      · simp only [Bool.not_true, Bool.false_eq_true, if_false, if_neg hnext]
        constructor
        · rintro ⟨⟩
          refine .tooLarge List.singleton_append.symm (by simpa using hc) ?_
          rw [Nat.ofDigitChars_cons, Nat.ofDigitChars_nil, Nat.mul_comm 10 value]
          omega
        · rintro (⟨h', hdigits, hfits, hd⟩ | _)
          · rcases List.cons_eq_append_iff.mp h' with ⟨rfl, hcons⟩ | ⟨digits, rfl, -⟩
            · obtain ⟨rfl, -⟩ := List.cons.inj hcons
              simp [hc] at hd
            · rw [Nat.ofDigitChars_cons, Nat.mul_comm 10 value] at hfits
              have hle := Json.le_ofDigitChars digits (value * 10 + (c.toNat - '0'.toNat))
              omega
          · rfl

theorem readNumber_eq (s : List Char) : readNumber s =
    if s = [] then .error .emptyNumber else if s = ['+'] then .error .badDigit
      else readDigits 0 (unsigned s) := by
  unfold readNumber unsigned
  split <;> simp_all

theorem readNumber_eq_ok : readNumber s = .ok w ↔ IsNumber s w := by
  have hread := readDigits_eq_ok (s := unsigned s) (w := w) (by decide : 0 < wordLimit)
  rw [readNumber_eq]
  by_cases hempty : s = []
  · subst hempty
    exact iff_of_false nofun fun h => h.nonempty rfl
  · by_cases hsign : s = ['+']
    · subst hsign
      exact iff_of_false nofun fun h => h.nonempty rfl
    · have hnonempty : unsigned s ≠ [] := by
        unfold unsigned
        split
        · rintro rfl
          exact hsign rfl
        · exact hempty
      rw [if_neg hempty, if_neg hsign, hread]
      exact ⟨fun ⟨hdigits, hvalue⟩ => ⟨hnonempty, hdigits, hvalue⟩, fun h => ⟨h.digits, h.value⟩⟩

theorem not_obstacle_nil : ¬ Obstacle 0 [] f :=
  fun h => nomatch (readDigits_eq_error (by decide)).mpr h

theorem isNoNumber_iff (hempty : s ≠ []) (hsign : s ≠ ['+']) :
    IsNoNumber s f ↔ Obstacle 0 (unsigned s) f := by
  constructor
  · rintro (h | h | ⟨h, hdigits, hfits, hc⟩ | ⟨h, hdigits, hlarge⟩)
    · exact absurd h hempty
    · exact absurd h hsign
    · exact .badDigit h hdigits hfits hc
    · exact .tooLarge h hdigits hlarge
  · rintro (⟨h, hdigits, hfits, hc⟩ | ⟨h, hdigits, hlarge⟩)
    · exact .badDigit h hdigits hfits hc
    · exact .tooLarge h hdigits hlarge

theorem readNumber_eq_error : readNumber s = .error f ↔ IsNoNumber s f := by
  rw [readNumber_eq]
  by_cases hempty : s = []
  · subst hempty
    constructor
    · rintro ⟨⟩
      exact .empty rfl
    · rintro (_ | h | ⟨h, hdigits, hfits, hc⟩ | ⟨h, hdigits, hlarge⟩)
      · rfl
      · cases h
      · exact absurd (.badDigit h hdigits hfits hc) not_obstacle_nil
      · exact absurd (.tooLarge h hdigits hlarge) not_obstacle_nil
  · by_cases hsign : s = ['+']
    · subst hsign
      constructor
      · rintro ⟨⟩
        exact .signAlone rfl
      · rintro (h | _ | _ | ⟨h, hdigits, hlarge⟩)
        · cases h
        · rfl
        · rfl
        · exact absurd (.tooLarge h hdigits hlarge) not_obstacle_nil
    · rw [if_neg hempty, if_neg hsign, readDigits_eq_error (by decide), isNoNumber_iff hempty hsign]

/-! ## Truth values -/

/-- The text is the word for the truth value. -/
inductive IsFlag : List Char → Bool → Prop
  | isTrue : IsFlag "true".toList true
  | isFalse : IsFlag "false".toList false

/-- The text is neither of the words. -/
inductive IsNoFlag (s : List Char) : ValueFault → Prop
  | notBoolean (htrue : s ≠ "true".toList) (hfalse : s ≠ "false".toList) : IsNoFlag s .notBoolean

theorem readFlag_eq_ok {b : Bool} : readFlag s = .ok b ↔ IsFlag s b := by
  constructor
  · intro h
    rw [readFlag] at h
    split at h
    · rename_i hs
      obtain rfl := Except.ok.inj h
      exact hs ▸ .isTrue
    · split at h
      · rename_i hs
        obtain rfl := Except.ok.inj h
        exact hs ▸ .isFalse
      · cases h
  · rintro (_ | _) <;> decide

theorem readFlag_eq_error : readFlag s = .error f ↔ IsNoFlag s f := by
  constructor
  · intro h
    rw [readFlag] at h
    split at h
    · cases h
    · split at h
      · cases h
      · rename_i htrue hfalse
        obtain rfl := Except.error.inj h
        exact .notBoolean htrue hfalse
  · rintro ⟨htrue, hfalse⟩
    rw [readFlag, if_neg htrue, if_neg hfalse]

end Environment

end Timetable
