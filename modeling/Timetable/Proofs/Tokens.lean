import Mathlib.Data.List.TakeWhile
import Timetable.Json.Value

/-!
# Tokens are read as they are written

The written form of a string, a numeral or a word is read back as the same token. A numeral or a
word is only told from what follows it if that is a mark or the end of the text, and between the
tokens of a value it always is.
-/
namespace Timetable.Json

open Text

/-- A character at which no token ends. -/
theorem Scan.run_cons {scan next : Scan} {found : List Token} {c : Char} {rest : List Char}
    (h : scan.step? c = some ([], next)) : scan.run found (c :: rest) = next.run found rest := by
  rw [Scan.run, h]
  rfl

/-! ## Strings -/

namespace QuotationState

variable {q : QuotationState} {c : Char} {rest : List Char} {found : List Token}

/-- Nothing is pending in the string, and nothing is wrong with it. -/
structure Fine (q : QuotationState) : Prop where
  fault : q.fault = none
  leading : q.leading = none
  escape : q.escape = .outside

theorem Fine.push (h : q.Fine) (c : Char) : (q.push c).Fine := ⟨h.fault, h.leading, rfl⟩

theorem Fine.unpaired (h : q.Fine) : q.unpaired = q := by
  simp [QuotationState.unpaired, h.leading]

theorem Fine.result (h : q.Fine) : q.result = .sound (String.ofList q.chars.reverse) := by
  simp [QuotationState.result, h.unpaired, h.fault]

/-- A character that does not end the string is read into it. -/
theorem run_read? (hmark : c = '"' → q.endsAtMark = false) {q' : QuotationState}
    (h : q.read? c = some q') :
    Scan.run (.string q) found (c :: rest) = Scan.run (.string q') found rest := by
  have hstep : Scan.step? (.string q) c = some ([], .string q') := by
    have hgoes : (decide (c = '"') && q.endsAtMark) = false := by
      by_cases hc : c = '"'
      · simp [hmark hc]
      · simp [hc]
    simp [Scan.step?, hgoes, h]
  exact Scan.run_cons hstep

/-- The state behind a backslash. -/
theorem Fine.run_opened (h : q.Fine) :
    Scan.run (.string q) found ('\\' :: rest) =
      Scan.run (.string { q with escape := .opened }) found rest :=
  run_read? (fun hc => absurd hc (by decide)) (by simp [read?, h.escape])

/-- An escape by a single letter. -/
theorem Fine.run_escaped (h : q.Fine) {letter : Char} (hletter : escaped? letter = some c) :
    Scan.run (.string q) found ('\\' :: letter :: rest) =
      Scan.run (.string (q.push c)) found rest := by
  have hu : letter ≠ 'u' := by
    rintro rfl
    cases hletter
  have hfine : ({ q with escape := .opened } : QuotationState).unpaired =
      { q with escape := .opened } := by
    simp [QuotationState.unpaired, h.leading]
  rw [h.run_opened]
  refine run_read? (fun _ => by simp [endsAtMark]) ?_
  simp [read?, hu, hletter, hfine, QuotationState.push]

/-- A character that begins no escape stands for itself. -/
theorem Fine.run_plain (h : q.Fine) (hmark : c ≠ '"') (hslash : c ≠ '\\')
    (hcontrol : ¬ c.toNat < 0x20) :
    Scan.run (.string q) found (c :: rest) = Scan.run (.string (q.push c)) found rest :=
  run_read? (fun hc => absurd hc hmark) (by simp [read?, h.escape, hslash, hcontrol, h.unpaired])

/-- Digits behind `\u` give the code unit that they denote. -/
theorem run_digits {digits : List Char} {value unit missing : Nat}
    (hlength : digits.length = missing + 1) (hvalue : ofHexAfter? value digits = some unit) :
    Scan.run (.string { q with escape := .digits (missing + 1) value }) found (digits ++ rest) =
      Scan.run (.string (q.pushUnit unit)) found rest := by
  induction digits generalizing value missing with
  | nil => cases hlength
  | cons c digits ih =>
    obtain ⟨d, hd, hrest⟩ := Option.bind_eq_some_iff.mp hvalue
    have hlength : digits.length = missing := Nat.succ.inj hlength
    cases missing with
    | zero =>
      obtain rfl := List.length_eq_zero_iff.mp hlength
      obtain rfl := Option.some.inj hrest
      exact run_read? (fun _ => by simp [endsAtMark]) (by simp [read?, hd, pushUnit])
    | succ missing =>
      rw [← ih hlength hrest]
      exact run_read? (fun _ => by simp [endsAtMark]) (by simp [read?, hd])

/-- A control character is escaped by its number. -/
theorem Fine.run_control (h : q.Fine) (hcontrol : c.toNat < 0x20) :
    Scan.run (.string q) found ('\\' :: 'u' :: hexDigits 4 c.toNat ++ rest) =
      Scan.run (.string (q.push c)) found rest := by
  have hvalue : ofHexAfter? 0 (hexDigits 4 c.toNat) = some c.toNat := by
    rw [ofHexAfter?_hexDigits, Nat.mod_eq_of_lt (hcontrol.trans (by decide))]
    simp
  have hunit : q.pushUnit c.toNat = q.push c := by
    have hleading : ¬ (0xD800 ≤ c.toNat ∧ c.toNat ≤ 0xDBFF) := by omega
    have htrailing : ¬ (0xDC00 ≤ c.toNat ∧ c.toNat ≤ 0xDFFF) := by omega
    simp only [pushUnit, h.leading, if_neg hleading, if_neg htrailing, QuotationState.push,
      Char.ofNat_toNat]
  rw [List.cons_append, List.cons_append, h.run_opened, ← hunit,
    ← run_digits (length_hexDigits 4 _) hvalue]
  exact run_read? (fun hc => absurd hc (by decide)) rfl

/-- A character is escaped by a letter or, as a control, by its number, or it stands for itself. -/
theorem quotedChar_cases (c : Char) :
    (∃ letter, escaped? letter = some c ∧ quotedChar c = ['\\', letter]) ∨
    (c.toNat < 0x20 ∧ quotedChar c = '\\' :: 'u' :: hexDigits 4 c.toNat) ∨
    (c ≠ '"' ∧ c ≠ '\\' ∧ ¬ c.toNat < 0x20 ∧ quotedChar c = [c]) := by
  by_cases hletter : c ∈ ['"', '\\', '\x08', '\x0c', '\n', '\r', '\t']
  · simp only [List.mem_cons, List.not_mem_nil, or_false] at hletter
    rcases hletter with rfl | rfl | rfl | rfl | rfl | rfl | rfl <;> exact .inl ⟨_, rfl, rfl⟩
  · simp only [List.mem_cons, List.not_mem_nil, or_false, not_or] at hletter
    by_cases hcontrol : c.toNat < 0x20
    · exact .inr (.inl ⟨hcontrol, by simp [quotedChar, hletter, hcontrol]⟩)
    · exact .inr (.inr ⟨hletter.1, hletter.2.1, hcontrol, by simp [quotedChar, hletter, hcontrol]⟩)

/-- However a character is written, it is read back. -/
theorem Fine.run_quotedChar (h : q.Fine) (c : Char) :
    Scan.run (.string q) found (quotedChar c ++ rest) =
      Scan.run (.string (q.push c)) found rest := by
  rcases quotedChar_cases c with ⟨letter, hletter, hquoted⟩ | ⟨hcontrol, hquoted⟩ | ⟨hmark, hslash,
    hcontrol, hquoted⟩
  · rw [hquoted]
    exact h.run_escaped hletter
  · rw [hquoted]
    exact h.run_control hcontrol
  · rw [hquoted]
    exact h.run_plain hmark hslash hcontrol

/-- The characters of a string up to the mark at its end. -/
theorem Fine.run_chars (h : q.Fine) (chars : List Char) :
    Scan.run (.string q) found (chars.flatMap quotedChar ++ '"' :: rest) =
      Scan.run .between (.string (.sound (String.ofList (q.chars.reverse ++ chars))) :: found)
        rest := by
  induction chars generalizing q with
  | nil =>
    have hend : Scan.step? (.string q) '"' = some ([.string q.result], .between) := by
      simp [Scan.step?, endsAtMark, h.escape]
    rw [List.flatMap_nil, List.nil_append, Scan.run, hend, h.result, List.append_nil]
    rfl
  | cons c chars ih =>
    rw [List.flatMap_cons, List.append_assoc, h.run_quotedChar, ih (h.push c)]
    simp [QuotationState.push]

end QuotationState

variable {found : List Token} {rest : List Char}

/-- A quoted string is read back. -/
theorem run_quote (s : String) :
    Scan.run .between found (quote s ++ rest) =
      Scan.run .between (.string (.sound s) :: found) rest := by
  have hbegin : Scan.run .between found (quote s ++ rest) =
      Scan.run (.string {}) found (s.toList.flatMap quotedChar ++ '"' :: rest) := by
    rw [quote, List.cons_append, List.cons_append, List.append_assoc]
    rfl
  have hfine : QuotationState.Fine {} := ⟨rfl, rfl, rfl⟩
  rw [hbegin, hfine.run_chars]
  simp

/-! ## Numerals and words -/

/-- What ends a numeral or a word: the end of the text, or a character that is no part of either. -/
def Delimited (rest : List Char) : Prop :=
  ∀ c ∈ rest.head?, Numeral.isPart c = false ∧ c.isLower = false

/-- A numeral or a word is told from what follows it. -/
theorem run_end {scan : Scan} {ended : List Token} (hstring : ∀ q, scan ≠ .string q)
    (h : scan.end? = some ended) (hrest : Delimited rest) :
    Scan.run scan found rest = Scan.run .between (ended.reverse ++ found) rest := by
  cases rest with
  | nil =>
    have hbetween : Scan.between.end? = some [] := rfl
    rw [Scan.run, Scan.run, h, hbetween]
    rfl
  | cons c cs =>
    obtain ⟨hpart, hlower⟩ := hrest c rfl
    have hstep : scan.step? c = (Scan.begin? c).map fun after => (ended ++ after.1, after.2) := by
      cases scan with
      | between =>
        obtain rfl := Option.some.inj h
        simp [Scan.step?]
      | numeral chars => simp [Scan.step?, hpart, h]
      | word chars => simp [Scan.step?, hlower, h]
      | string q => exact absurd rfl (hstring q)
    have hbetween : Scan.between.step? c = Scan.begin? c := rfl
    rw [Scan.run, Scan.run, hstep, hbetween]
    cases Scan.begin? c with
    | none => rfl
    | some after => simp

/-- A numeral that is read as it is written. -/
structure Numeral.Legible (n : Numeral) : Prop where
  read : ofText? n.text = some n
  parts : ∀ c ∈ n.text, isPart c
  begins : ∃ c cs, n.text = c :: cs ∧ (c.isDigit || c == '-')

theorem run_parts {chars digits : List Char} (h : ∀ c ∈ digits, Numeral.isPart c) :
    Scan.run (.numeral chars) found (digits ++ rest) =
      Scan.run (.numeral (digits.reverse ++ chars)) found rest := by
  induction digits generalizing chars with
  | nil => rfl
  | cons c digits ih =>
    have hstep : Scan.step? (.numeral chars) c = some ([], .numeral (c :: chars)) := by
      simp [Scan.step?, h c (List.mem_cons_self ..)]
    rw [List.cons_append, Scan.run_cons hstep, ih fun d hd => h d (List.mem_cons_of_mem _ hd)]
    simp

theorem step?_numeral {c : Char} (hc : c.isDigit || c == '-') :
    Scan.between.step? c = some ([], .numeral [c]) := by
  have hspace : isSpace c = false := by
    by_contra hne
    rw [Bool.not_eq_false] at hne
    simp only [isSpace, Bool.or_eq_true, beq_iff_eq] at hne
    rcases hne with ((rfl | rfl) | rfl) | rfl <;> revert hc <;> decide
  have hmark : c ≠ '"' := by
    rintro rfl
    revert hc
    decide
  simp only [Scan.step?, Scan.begin?, hspace, hmark, hc, Bool.false_eq_true, if_false, if_true]

/-- Characters that are read as a numeral, whichever way it is written. -/
theorem run_numeral_chars {chars : List Char} {n : Numeral} (hread : Numeral.ofText? chars = some n)
    (hparts : ∀ c ∈ chars, Numeral.isPart c)
    (hbegins : ∃ c cs, chars = c :: cs ∧ (c.isDigit || c == '-')) (hrest : Delimited rest) :
    Scan.run .between found (chars ++ rest) = Scan.run .between (.number n :: found) rest := by
  obtain ⟨c, cs, rfl, hc⟩ := hbegins
  have hend : (Scan.numeral (cs.reverse ++ [c])).end? = some [.number n] := by
    simp [Scan.end?, hread]
  have hparts : ∀ d ∈ cs, Numeral.isPart d := fun d hd => hparts d (List.mem_cons_of_mem c hd)
  rw [List.cons_append, Scan.run_cons (step?_numeral hc), run_parts hparts,
    run_end (by simp) hend hrest]
  rfl

theorem run_numeral {n : Numeral} (h : n.Legible) (hrest : Delimited rest) :
    Scan.run .between found (n.text ++ rest) = Scan.run .between (.number n :: found) rest :=
  run_numeral_chars h.read h.parts h.begins hrest

theorem run_letters {chars letters : List Char} (h : ∀ c ∈ letters, c.isLower) :
    Scan.run (.word chars) found (letters ++ rest) =
      Scan.run (.word (letters.reverse ++ chars)) found rest := by
  induction letters generalizing chars with
  | nil => rfl
  | cons c letters ih =>
    have hstep : Scan.step? (.word chars) c = some ([], .word (c :: chars)) := by
      simp [Scan.step?, h c (List.mem_cons_self ..)]
    rw [List.cons_append, Scan.run_cons hstep, ih fun d hd => h d (List.mem_cons_of_mem _ hd)]
    simp

/-- A word of lower-case letters. -/
theorem run_word {c : Char} {cs : List Char} {t : Token} (h : Token.ofWord? (c :: cs) = some t)
    (hbegin : Scan.between.step? c = some ([], .word [c])) (hlower : cs.all Char.isLower)
    (hrest : Delimited rest) :
    Scan.run .between found (c :: cs ++ rest) = Scan.run .between (t :: found) rest := by
  have hend : (Scan.word (cs.reverse ++ [c])).end? = some [t] := by simp [Scan.end?, h]
  rw [List.cons_append, Scan.run_cons hbegin, run_letters (List.all_eq_true.mp hlower),
    run_end (by simp) hend hrest]
  rfl

/-- The shortest numeral of a number has no needless zero. -/
theorem head?_numeral {n : Nat} (h : n ≠ 0) : (numeral n).head? ≠ some '0' := by
  induction n using Nat.strong_induction_on with
  | _ n ih =>
    rw [numeral]
    by_cases hsmall : n < 10
    · rw [Nat.toDigits_of_lt_base hsmall]
      have hdigit : ∀ d : Fin 10, d.val ≠ 0 → [Nat.digitChar d.val].head? ≠ some '0' := by decide
      exact hdigit ⟨n, hsmall⟩ h
    · have hhead := ih (n / 10) (by omega) (by omega)
      obtain ⟨c, cs, hcons⟩ :=
        List.exists_cons_of_ne_nil (Nat.toDigits_ne_nil (n := n / 10) (b := 10))
      rw [numeral, hcons] at hhead
      rw [Nat.toDigits_of_base_le (by decide) (Nat.le_of_not_lt hsmall), hcons]
      exact hhead

theorem length_numeral_zero : (numeral 0).length = 1 := rfl

theorem isDigit_of_mem_numeral {n : Nat} {c : Char} (h : c ∈ numeral n) : c.isDigit :=
  Nat.isDigit_of_mem_toDigits (by decide) (by decide) h

theorem digits?_of_isDigit {s : List Char} (hs : s ≠ []) (h : ∀ c ∈ s, c.isDigit) :
    Numeral.digits? s = some (s, []) := by
  have htake : s.takeWhile Char.isDigit = s := List.takeWhile_eq_self_iff.mpr h
  have hdrop : s.dropWhile Char.isDigit = [] := List.dropWhile_eq_nil_iff.mpr h
  rw [Numeral.digits?, htake, hdrop, if_neg (by simpa using hs)]

theorem Numeral.legible_ofNat (n : Nat) : (Numeral.ofNat n).Legible := by
  have htext : (Numeral.ofNat n).text = numeral n := by simp [Numeral.text, Numeral.ofNat]
  have hdigits : ∀ c ∈ numeral n, c.isDigit := fun c => isDigit_of_mem_numeral
  obtain ⟨c, cs, hcons⟩ := List.exists_cons_of_ne_nil (Nat.toDigits_ne_nil (n := n) (b := 10))
  have hc : c.isDigit := hdigits c (by rw [numeral, hcons]; exact List.mem_cons_self ..)
  refine ⟨?_, fun d hd => ?_, c, cs, htext.trans hcons, by simp [hc]⟩
  · have hwhole : ¬((numeral n).head? = some '0' ∧ (numeral n).length ≠ 1) := by
      rintro ⟨hzero, hlength⟩
      by_cases hn : n = 0
      · exact hlength (hn ▸ length_numeral_zero)
      · exact head?_numeral hn hzero
    have hread : Numeral.unsigned? false (numeral n) = some (.ofNat n) := by
      have hwhole' := digits?_of_isDigit (s := numeral n) Nat.toDigits_ne_nil hdigits
      simp only [Numeral.unsigned?, hwhole', Option.bind_eq_bind, Option.bind_some, if_neg hwhole]
      rfl
    rw [htext, Numeral.ofText?]
    · exact hread
    · intro s hs
      exact absurd (hdigits '-' (hs ▸ List.mem_cons_self ..)) (by decide)
  · simp [Numeral.isPart, hdigits d (htext ▸ hd)]

/-! ## Tokens -/

namespace Token

/-- A token that is read as it is written. -/
def Legible : Token → Prop
  | number n => n.Legible
  | string q => ∃ s, q = .sound s
  | _ => True

/-- Whether the token is told from the next one only by what the next one begins with. -/
def isOpen : Token → Bool
  | null | bool _ | number _ => true
  | _ => false

/-- Whether the token is a character that is no part of another token. -/
def isMark : Token → Bool
  | beginArray | endArray | beginObject | endObject | colon | comma => true
  | _ => false

variable {t : Token} {ts us : List Token}

theorem delimited_of_isMark (h : t.isMark) (rest : List Char) : Delimited (t.text ++ rest) := by
  intro c hc
  cases t with
  | null | bool | number | string => cases h
  | _ =>
    obtain rfl := Option.some.inj hc
    decide

/-- A token is read as it is written. -/
theorem run_text (h : t.Legible) (hrest : t.isOpen → Delimited rest) :
    Scan.run .between found (t.text ++ rest) = Scan.run .between (t :: found) rest := by
  cases t with
  | null => exact run_word rfl rfl rfl (hrest rfl)
  | bool b =>
    cases b with
    | true => exact run_word rfl rfl rfl (hrest rfl)
    | false => exact run_word rfl rfl rfl (hrest rfl)
  | number n => exact run_numeral h (hrest rfl)
  | string q =>
    obtain ⟨s, rfl⟩ := h
    exact run_quote s
  | _ => rfl

/-- Tokens that can be told from one another: an open one stands before a mark or at the end. -/
def Spaced : List Token → Prop
  | [] => True
  | t :: ts => (t.isOpen → ∀ u ∈ ts.head?, u.isMark) ∧ Spaced ts

theorem run_texts (h : ∀ t ∈ ts, t.Legible) (hspaced : Spaced ts) :
    Scan.run .between found (ts.flatMap text) = some (found.reverse ++ ts) := by
  induction ts generalizing found with
  | nil => simp [Scan.run, Scan.end?]
  | cons t ts ih =>
    have hrest : t.isOpen → Delimited (ts.flatMap text) := by
      intro hopen
      cases ts with
      | nil => simp [Delimited]
      | cons u us => exact delimited_of_isMark (hspaced.1 hopen u rfl) (us.flatMap text)
    rw [List.flatMap_cons, run_text (h t (List.mem_cons_self ..)) hrest,
      ih (fun u hu => h u (List.mem_cons_of_mem t hu)) hspaced.2]
    simp

end Token

/-- A text comes apart into the tokens that it was written from. -/
theorem tokens?_texts {ts : List Token} (h : ∀ t ∈ ts, t.Legible) (hspaced : Token.Spaced ts) :
    tokens? (ts.flatMap Token.text) = some ts :=
  Token.run_texts h hspaced

end Timetable.Json
