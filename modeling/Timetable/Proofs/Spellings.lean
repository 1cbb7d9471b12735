import Timetable.Proofs.JsonText

/-!
# The ways of writing a value

A value can be written in many ways. Blanks may stand between its tokens. The characters of a string
stand for themselves or are escaped, and the exponent of a numeral has a letter of either case and
perhaps a sign. However a value is written, it is read as this value.
-/
namespace Timetable.Json

open Text

/-! ## Strings -/

/-- A part of a string as it is written. -/
inductive Piece where
  /-- A character that stands for itself. -/
  | plain (c : Char) (h : c ≠ '"' ∧ c ≠ '\\' ∧ ¬ c.toNat < 0x20)
  /-- A character that is escaped by a letter. -/
  | letter (l c : Char) (h : QuotationState.escaped? l = some c)
  /-- A code unit of sixteen bits that is escaped by its digits. -/
  | unit (digits : List Char) (u : Nat) (hlength : digits.length = 4) (h : ofHex? digits = some u)

namespace Piece

def text : Piece → List Char
  | plain c _ => [c]
  | letter l _ _ => ['\\', l]
  | unit digits _ _ _ => '\\' :: 'u' :: digits

/-- The characters that the pieces denote, or the first fault. A leading surrogate and the trailing
one behind it denote one character together. -/
def meaning : List Piece → Except EscapeFault (List Char)
  | [] => .ok []
  | plain c _ :: ps | letter _ c _ :: ps => (meaning ps).map (c :: ·)
  | unit _ u _ _ :: ps =>
    if 0xDC00 ≤ u ∧ u ≤ 0xDFFF then .error .loneSurrogate
    else if 0xD800 ≤ u ∧ u ≤ 0xDBFF then
      match ps with
      | unit _ v _ _ :: ps =>
        if 0xDC00 ≤ v ∧ v ≤ 0xDFFF then
          (meaning ps).map (Char.ofNat (QuotationState.combine u v) :: ·)
        else .error .loneSurrogate
      | _ => .error .endsEarly
    else (meaning ps).map (Char.ofNat u :: ·)

end Piece

/-- The string of these characters, or its fault. -/
def Quotation.ofMeaning : Except EscapeFault (List Char) → Quotation
  | .ok chars => .sound (String.ofList chars)
  | .error f => .faulty f

namespace QuotationState

variable {q : QuotationState} {p : Piece} {ps : List Piece} {found : List Token} {rest : List Char}
  {f : EscapeFault}

/-- The state after one more piece. -/
def take (q : QuotationState) : Piece → QuotationState
  | .plain c _ | .letter _ c _ => q.unpaired.push c
  | .unit _ u _ _ => q.pushUnit u

theorem escape_take (q : QuotationState) (p : Piece) : (q.take p).escape = .outside := by
  cases p with
  | plain | letter => rfl
  | unit digits u =>
    simp only [take, pushUnit]
    split
    · split <;> rfl
    · split
      · rfl
      · split <;> rfl

/-- A piece is read up to its end. -/
theorem run_piece (h : q.escape = .outside) (p : Piece) :
    Scan.run (.string q) found (p.text ++ rest) = Scan.run (.string (q.take p)) found rest := by
  have hopened (s : List Char) :
      Scan.run (.string q) found ('\\' :: s) =
        Scan.run (.string { q with escape := .opened }) found s :=
    run_read? (fun hc => absurd hc (by decide)) (by simp [read?, h])
  cases p with
  | plain c hc =>
    obtain ⟨hmark, hslash, hcontrol⟩ := hc
    exact run_read? (fun hc => absurd hc hmark) (by simp [read?, h, hslash, hcontrol, take])
  | letter l c hletter =>
    have hu : l ≠ 'u' := by
      rintro rfl
      cases hletter
    have hpush : ({ q with escape := .opened } : QuotationState).unpaired.push c =
        q.unpaired.push c := by
      unfold unpaired
      split <;> rfl
    rw [Piece.text, List.cons_append, hopened]
    refine run_read? (fun _ => by simp [endsAtMark]) ?_
    simp [read?, hu, hletter, hpush, take]
  | unit digits u hlength hvalue =>
    have hdigits : Scan.run (.string { q with escape := .opened }) found ('u' :: (digits ++ rest)) =
        Scan.run (.string { q with escape := .digits 4 0 }) found (digits ++ rest) :=
      run_read? (fun hc => absurd hc (by decide)) rfl
    rw [Piece.text, List.cons_append, hopened, List.cons_append, hdigits, run_digits hlength hvalue]
    rfl

/-- Pieces up to the mark at the end of the string. -/
theorem run_pieces (h : q.escape = .outside) (ps : List Piece) :
    Scan.run (.string q) found (ps.flatMap Piece.text ++ '"' :: rest) =
      Scan.run .between (.string (ps.foldl take q).result :: found) rest := by
  induction ps generalizing q with
  | nil =>
    have hend : Scan.step? (.string q) '"' = some ([.string q.result], .between) := by
      simp [Scan.step?, endsAtMark, h]
    rw [List.flatMap_nil, List.nil_append, Scan.run, hend]
    rfl
  | cons p ps ih =>
    rw [List.flatMap_cons, List.append_assoc, run_piece h, ih (q.escape_take p)]
    rfl

/-- The first fault stays. -/
theorem result_of_fault (h : q.fault = some f) (ps : List Piece) :
    (ps.foldl take q).result = .faulty f := by
  have hunpaired {q : QuotationState} (h : q.fault = some f) : q.unpaired.fault = some f := by
    unfold unpaired
    split
    · simp [flag, h]
    · exact h
  induction ps generalizing q with
  | nil => simp [result, hunpaired h]
  | cons p ps ih =>
    refine ih ?_
    cases p with
    | plain | letter => exact hunpaired h
    | unit digits u =>
      simp only [take, pushUnit]
      split
      · split
        · exact h
        · simp [flag, h]
      · split
        · exact h
        · split
          · simp [flag, h]
          · exact h

theorem map_push (q : QuotationState) (c : Char) (m : Except EscapeFault (List Char)) :
    (m.map (c :: ·)).map (q.chars.reverse ++ ·) = m.map ((q.push c).chars.reverse ++ ·) := by
  cases m <;> simp [Except.map, QuotationState.push]

/-- Pieces are read as what they denote. -/
theorem Fine.result_foldl (h : q.Fine) (ps : List Piece) : (ps.foldl take q).result =
    .ofMeaning ((Piece.meaning ps).map (q.chars.reverse ++ ·)) := by
  induction ps using Piece.meaning.induct generalizing q with
  | case1 => simp [Piece.meaning, h.result, Quotation.ofMeaning, Except.map]
  | case2 c hc ps ih | case3 l c hl ps ih =>
    have hfirst : q.unpaired.push c = q.push c := by rw [h.unpaired]
    rw [Piece.meaning, map_push, ← ih (h.push c), List.foldl_cons, take, hfirst]
  | case4 digits u hlength hu ps htrailing =>
    have hfault : (q.pushUnit u).fault = some .loneSurrogate := by
      have hleading : ¬ (0xD800 ≤ u ∧ u ≤ 0xDBFF) := by omega
      simp [pushUnit, h.leading, hleading, htrailing, flag, h.fault]
    have hmeaning : Piece.meaning (.unit digits u hlength hu :: ps) = .error .loneSurrogate := by
      rw [Piece.meaning.eq_def]
      exact if_pos htrailing
    rw [hmeaning, List.foldl_cons, take, result_of_fault hfault]
    rfl
  | case5 digits u hlength hu htrailing hleading digits' v hlength' hv ps htrailing' ih =>
    have hpair : (q.pushUnit u).pushUnit v = q.push (Char.ofNat (combine u v)) := by
      simp [pushUnit, h.leading, hleading, htrailing', QuotationState.push]
    rw [Piece.meaning, if_neg htrailing, if_pos hleading, if_pos htrailing', map_push,
      ← ih (h.push _), List.foldl_cons, List.foldl_cons, take, take, hpair]
  | case6 digits u hlength hu htrailing hleading digits' v hlength' hv ps htrailing' =>
    have hfault : ((q.pushUnit u).pushUnit v).fault = some .loneSurrogate := by
      simp [pushUnit, h.leading, hleading, htrailing', flag, h.fault]
    rw [Piece.meaning, if_neg htrailing, if_pos hleading, if_neg htrailing', List.foldl_cons,
      List.foldl_cons, take, take, result_of_fault hfault]
    rfl
  | case7 digits u hlength hu ps htrailing hleading hpair =>
    have hwaits : (q.pushUnit u).unpaired.fault = some .endsEarly := by
      simp [pushUnit, h.leading, hleading, QuotationState.unpaired, flag, h.fault]
    have hresult : (ps.foldl take (q.pushUnit u)).result = .faulty .endsEarly := by
      cases ps with
      | nil => simp [QuotationState.result, hwaits]
      | cons p ps =>
        cases p with
        | plain c | letter l c =>
          exact result_of_fault (q := (q.pushUnit u).unpaired.push c) hwaits ps
        | unit digits' v hlength' hv => exact absurd rfl (hpair digits' v hlength' hv ps)
    rw [Piece.meaning, if_neg htrailing, if_pos hleading, List.foldl_cons, take, hresult]
    · rfl
    · exact hpair
  | case8 digits u hlength hu ps htrailing hleading ih =>
    have hunit : q.pushUnit u = q.push (Char.ofNat u) := by
      simp [pushUnit, h.leading, hleading, htrailing, QuotationState.push]
    have hmeaning : Piece.meaning (.unit digits u hlength hu :: ps) =
        (Piece.meaning ps).map (Char.ofNat u :: ·) := by
      rw [Piece.meaning.eq_def]
      exact (if_neg htrailing).trans (if_neg hleading)
    rw [hmeaning, map_push, ← ih (h.push _), List.foldl_cons, take, hunit]

end QuotationState

/-! ## Numerals -/

namespace Numeral

/-- At least one digit and nothing else. -/
structure Digits (s : List Char) : Prop where
  nonempty : s ≠ []
  digits : ∀ c ∈ s, c.isDigit

/-- The ways in which the sign of an exponent is written. -/
inductive WritesSign : Bool → List Char → Prop
  | minus : WritesSign true ['-']
  | plus : WritesSign false ['+']
  | absent : WritesSign false []

/-- The ways in which an exponent is written. -/
inductive WritesExponent : Option (Bool × List Char) → List Char → Prop
  | absent : WritesExponent none []
  | present {mark : Char} {isNegative : Bool} {sign digits : List Char}
    (hmark : mark = 'e' ∨ mark = 'E')
    (hsign : WritesSign isNegative sign) (hdigits : Digits digits) :
    WritesExponent (some (isNegative, digits)) (mark :: (sign ++ digits))

/-- The ways in which a fraction is written. -/
inductive WritesFraction : Option (List Char) → List Char → Prop
  | absent : WritesFraction none []
  | present {digits : List Char} (hdigits : Digits digits) :
    WritesFraction (some digits) ('.' :: digits)

/-- The ways in which a numeral is written. Its whole part has no needless zeros. -/
inductive Writes : Numeral → List Char → Prop
  | mk {n : Numeral} {fraction exponent : List Char} (hwhole : Digits n.whole)
    (hzero : n.whole.head? = some '0' → n.whole.length = 1)
    (hfraction : WritesFraction n.fraction fraction)
    (hexponent : WritesExponent n.exponent exponent) :
    Writes n ((if n.isNegative then ['-'] else []) ++ (n.whole ++ (fraction ++ exponent)))

variable {n : Numeral} {s rest digits : List Char}

theorem Digits.read (h : Digits digits) (hrest : ∀ c ∈ rest.head?, c.isDigit = false) :
    digits? (digits ++ rest) = some (digits, rest) := by
  have htake : rest.takeWhile Char.isDigit = [] := by
    cases rest with
    | nil => rfl
    | cons c rest => rw [List.takeWhile_cons_of_neg (by simp [hrest c rfl])]
  have hdrop : rest.dropWhile Char.isDigit = rest := by
    cases rest with
    | nil => rfl
    | cons c rest => rw [List.dropWhile_cons_of_neg (by simp [hrest c rfl])]
  rw [digits?, List.takeWhile_append_of_pos h.digits, List.dropWhile_append_of_pos h.digits, htake,
    hdrop, List.append_nil, if_neg (by simpa using h.nonempty)]

/-- A sign or a letter is no digit. -/
theorem Digits.cons (h : Digits digits) : ∃ c cs, digits = c :: cs ∧ c.isDigit := by
  obtain ⟨c, cs, rfl⟩ := List.exists_cons_of_ne_nil h.nonempty
  exact ⟨c, cs, rfl, h.digits c (List.mem_cons_self ..)⟩

theorem Digits.signedExponent (h : Digits digits) (isNegative : Bool) :
    signedExponent? isNegative digits = some (some (isNegative, digits)) := by
  have hread : digits? (digits ++ []) = some (digits, []) := h.read (by simp)
  rw [List.append_nil] at hread
  rw [signedExponent?, hread]

theorem WritesExponent.read {exponent : Option (Bool × List Char)} (h : WritesExponent exponent s) :
    exponent? s = some exponent := by
  cases h with
  | absent => rfl
  | @present mark isNegative sign digits hmark hsign hdigits =>
    cases hsign with
    | minus => exact (if_pos hmark).trans (hdigits.signedExponent true)
    | plus => exact (if_pos hmark).trans (hdigits.signedExponent false)
    | absent =>
      obtain ⟨c, cs, rfl, hc⟩ := hdigits.cons
      have hminus : c ≠ '-' := by
        rintro rfl
        cases hc
      have hplus : c ≠ '+' := by
        rintro rfl
        cases hc
      simp [exponent?, hmark, hminus, hplus, hdigits.signedExponent false]

theorem WritesFraction.read {fraction : Option (List Char)} (h : WritesFraction fraction s)
    (hrest : ∀ c ∈ rest.head?, c = 'e' ∨ c = 'E') :
    fraction? (s ++ rest) = some (fraction, rest) := by
  cases h with
  | absent =>
    cases rest with
    | nil => rfl
    | cons c rest => rcases hrest c rfl with rfl | rfl <;> rfl
  | present hdigits =>
    rw [List.cons_append, fraction?, hdigits.read fun c hc =>
      by rcases hrest c hc with rfl | rfl <;> rfl]
    rfl

theorem WritesExponent.head {exponent : Option (Bool × List Char)} (h : WritesExponent exponent s) :
    ∀ c ∈ s.head?, c = 'e' ∨ c = 'E' := by
  cases h with
  | absent => simp
  | present hmark => simpa using hmark

/-- What comes behind the whole part is no digit. -/
theorem WritesFraction.behind {fraction : Option (List Char)} {exponent : Option (Bool × List Char)}
    (h : WritesFraction fraction s) (hexponent : WritesExponent exponent rest) :
    ∀ c ∈ (s ++ rest).head?, c.isDigit = false := by
  cases h with
  | absent => exact fun c hc => by rcases hexponent.head c hc with rfl | rfl <;> rfl
  | present =>
    intro c hc
    cases hc
    rfl

/-- However a numeral is written, it is read. -/
theorem Writes.read (h : n.Writes s) : ofText? s = some n := by
  obtain @⟨fraction, exponent, hwhole, hzero, hfraction, hexponent⟩ := h
  have hbehind := hfraction.behind hexponent
  have hunsigned : unsigned? n.isNegative (n.whole ++ (fraction ++ exponent)) = some n := by
    have hneedless : ¬ (n.whole.head? = some '0' ∧ n.whole.length ≠ 1) := fun h => h.2 (hzero h.1)
    simp [unsigned?, hwhole.read hbehind, hneedless, hfraction.read hexponent.head, hexponent.read]
  cases hsign : n.isNegative with
  | true =>
    rw [hsign] at hunsigned
    exact hunsigned
  | false =>
    obtain ⟨c, cs, hcons, hc⟩ := hwhole.cons
    have hminus : c ≠ '-' := by
      rintro rfl
      cases hc
    rw [hsign, hcons, List.cons_append] at hunsigned
    rw [hcons]
    simp [ofText?, hminus, hunsigned]

theorem Digits.parts (h : Digits digits) {c : Char} (hc : c ∈ digits) : isPart c := by
  simp [isPart, h.digits c hc]

theorem WritesFraction.parts {fraction : Option (List Char)} (h : WritesFraction fraction s)
    {c : Char} (hc : c ∈ s) :
    isPart c := by
  cases h with
  | absent => cases hc
  | present hdigits =>
    rcases List.mem_cons.mp hc with rfl | hc
    · rfl
    · exact hdigits.parts hc

theorem WritesExponent.parts {exponent : Option (Bool × List Char)}
    (h : WritesExponent exponent s) {c : Char} (hc : c ∈ s) : isPart c := by
  cases h with
  | absent => cases hc
  | present hmark hsign hdigits =>
    rcases List.mem_cons.mp hc with rfl | hc
    · rcases hmark with rfl | rfl <;> rfl
    · rcases List.mem_append.mp hc with hc | hc
      · cases hsign with
        | minus | plus =>
          obtain rfl := List.mem_singleton.mp hc
          rfl
        | absent => cases hc
      · exact hdigits.parts hc

theorem Writes.parts (h : n.Writes s) : ∀ c ∈ s, isPart c := by
  obtain @⟨fraction, exponent, hwhole, -, hfraction, hexponent⟩ := h
  intro c hc
  simp only [List.mem_append] at hc
  rcases hc with hc | hc | hc | hc
  · split at hc
    · obtain rfl := List.mem_singleton.mp hc
      rfl
    · cases hc
  · exact hwhole.parts hc
  · exact hfraction.parts hc
  · exact hexponent.parts hc

theorem Writes.begins (h : n.Writes s) : ∃ c cs, s = c :: cs ∧ (c.isDigit || c == '-') := by
  obtain @⟨fraction, exponent, hwhole, -, -, -⟩ := h
  cases hsign : n.isNegative with
  | true => exact ⟨_, _, rfl, rfl⟩
  | false =>
    obtain ⟨c, cs, hcons, hc⟩ := hwhole.cons
    exact ⟨c, _, by rw [hcons]; rfl, by simp [hc]⟩

end Numeral

/-! ## Values -/

/-- The ways in which a string is written. -/
inductive Quotation.Writes : Quotation → List Char → Prop
  | mk (pieces : List Piece) :
    Writes (.ofMeaning (Piece.meaning pieces)) ('"' :: (pieces.flatMap Piece.text ++ ['"']))

/-- Characters that need no escape are written as they are. -/
theorem Quotation.writes_plain {chars : List Char}
    (h : ∀ c ∈ chars, c ≠ '"' ∧ c ≠ '\\' ∧ ¬ c.toNat < 0x20) :
    Quotation.Writes (.sound (String.ofList chars)) ('"' :: (chars ++ ['"'])) := by
  obtain ⟨pieces, hmeaning, htext⟩ : ∃ pieces, Piece.meaning pieces = .ok chars ∧
      pieces.flatMap Piece.text = chars := by
    induction chars with
    | nil => exact ⟨[], rfl, rfl⟩
    | cons c chars ih =>
      obtain ⟨pieces, hmeaning, htext⟩ := ih fun d hd => h d (List.mem_cons_of_mem c hd)
      refine ⟨.plain c (h c (List.mem_cons_self ..)) :: pieces, ?_, ?_⟩
      · rw [Piece.meaning, hmeaning]
        rfl
      · rw [List.flatMap_cons, htext]
        rfl
  have hwrites := Quotation.Writes.mk pieces
  rwa [hmeaning, htext] at hwrites

/-- The ways in which a token is written. -/
def Token.Writes : Token → List Char → Prop
  | .number n, s => n.Writes s
  | .string q, s => q.Writes s
  | t, s => s = t.text

/-- The ways in which tokens are written: one after the other, with any blanks around them. -/
inductive Writes : List Token → List Char → Prop
  | nil : Writes [] []
  | blank {ts : List Token} {c : Char} {s : List Char} (hc : isSpace c) (h : Writes ts s) :
    Writes ts (c :: s)
  | token {t : Token} {ts : List Token} {s rest : List Char} (ht : t.Writes s)
    (h : Writes ts rest) :
    Writes (t :: ts) (s ++ rest)

variable {t : Token} {ts : List Token} {s rest : List Char} {found : List Token}

theorem Quotation.Writes.run {q : Quotation} (h : q.Writes s) :
    Scan.run .between found (s ++ rest) = Scan.run .between (.string q :: found) rest := by
  obtain ⟨pieces⟩ := h
  have hbegin : Scan.run .between found (('"' :: (pieces.flatMap Piece.text ++ ['"'])) ++ rest) =
      Scan.run (.string {}) found (pieces.flatMap Piece.text ++ '"' :: rest) := by
    rw [List.cons_append, List.append_assoc]
    rfl
  have hfine : QuotationState.Fine {} := ⟨rfl, rfl, rfl⟩
  rw [hbegin, QuotationState.run_pieces rfl, hfine.result_foldl]
  cases Piece.meaning pieces <;> rfl

/-- However a token is written, it is read. -/
theorem Token.Writes.run (h : t.Writes s) (hrest : t.isOpen → Delimited rest) :
    Scan.run .between found (s ++ rest) = Scan.run .between (t :: found) rest := by
  cases t with
  | number n => exact run_numeral_chars (Numeral.Writes.read h) h.parts h.begins (hrest rfl)
  | string q => exact Quotation.Writes.run h
  | _ =>
    obtain rfl := h
    exact Token.run_text trivial hrest

/-- A mark behind a token is told from it, also behind blanks. -/
theorem Writes.delimited (h : Json.Writes ts s) (hmark : ∀ u ∈ ts.head?, u.isMark) :
    Delimited s := by
  cases h with
  | nil => simp [Delimited]
  | @blank ts c s hc h =>
    intro d hd
    cases hd
    simp only [isSpace, Bool.or_eq_true, beq_iff_eq] at hc
    rcases hc with ((rfl | rfl) | rfl) | rfl <;> decide
  | @token t ts s rest ht h =>
    have hmark := hmark t rfl
    have htext : s = t.text := by
      cases t with
      | null | bool | number | string => cases hmark
      | _ => exact ht
    rw [htext]
    exact Token.delimited_of_isMark hmark rest

theorem Writes.run (h : Json.Writes ts s) (hspaced : Token.Spaced ts) :
    Scan.run .between found s = some (found.reverse ++ ts) := by
  induction h generalizing found with
  | nil => simp [Scan.run, Scan.end?]
  | @blank ts c s hc h ih =>
    have hblank : Scan.between.step? c = some ([], .between) := by
      simp [Scan.step?, Scan.begin?, hc]
    rw [Scan.run_cons hblank, ih hspaced]
  | @token t ts s rest ht h ih =>
    rw [ht.run fun hopen => h.delimited (hspaced.1 hopen), ih hspaced.2]
    simp

/-- However a value is written, it is read. -/
theorem ofText?_of_writes {v : Value} (h : Writes v.tokens s) : Value.ofText? s = some v := by
  have htokens : tokens? s = some v.tokens := h.run (spaced_tokens v)
  rw [Value.ofText?, htokens, Option.bind_some, ofTokens?_tokens]

end Timetable.Json
