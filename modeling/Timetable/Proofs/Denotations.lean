import Timetable.Codec.Task
import Timetable.Proofs.Members
import Timetable.Proofs.Stamps

/-!
# What the parts of records denote

Identifiers, instants, spans and the words for priorities, statuses and units denote what they were
written from. An identifier begins with a hexadecimal digit, so what it is written as cannot be
taken for a wrapped one, and its hyphens are found where they were put.
-/
namespace Timetable

open Text Json

/-! ## Identifiers -/

theorem hexValue?_of_mem_hexDigits {width n : Nat} {c : Char} (h : c ∈ hexDigits width n) :
    (hexValue? c).isSome := by
  induction width generalizing n with
  | zero => cases h
  | succ width ih =>
    rcases List.mem_append.mp h with h | h
    · exact ih h
    · rw [List.mem_singleton.mp h, hexValue?_digitChar (Nat.mod_lt n (by decide))]
      rfl

namespace TaskId

theorem unwrap_cons {c : Char} (h : (hexValue? c).isSome) (s : List Char) :
    unwrap (c :: s) = (.bare, c :: s) := by
  have hbrace : c ≠ '\x7b' := by
    rintro rfl
    revert h
    decide
  have hletter : c ≠ 'u' := by
    rintro rfl
    revert h
    decide
  simp [unwrap, hbrace, hletter]

theorem ungrouped?_append {a b c d e : List Char} (ha : a.length = 8) (hb : b.length = 4)
    (hc : c.length = 4) (hd : d.length = 4) (he : e.length = 12) :
    ungrouped? (a ++ '-' :: b ++ '-' :: c ++ '-' :: d ++ '-' :: e) =
      some (a ++ b ++ c ++ d ++ e) := by
  simp [ungrouped?, List.drop_append, List.drop_eq_nil_of_le, ha, hb, hc, hd, he]

theorem ungrouped?_grouped {digits : List Char} (h : digits.length = 32) :
    ungrouped? (grouped digits) = some digits := by
  have hsplit (n : Nat) : (digits.drop n).take 4 ++ digits.drop (n + 4) = digits.drop n := by
    rw [← List.drop_drop, List.take_append_drop]
  rw [grouped, ungrouped?_append (by simp [h]) (by simp [h]) (by simp [h]) (by simp [h])
    (by simp [h])]
  rw [List.append_assoc, hsplit 16, List.append_assoc, hsplit 12, List.append_assoc, hsplit 8,
    List.take_append_drop]

/-- The written form of an identifier is read as the identifier. -/
theorem read_text (id : TaskId) : read id.text.toList = .ok id := by
  have hlength : id.digits.length = 32 := length_hexDigits 32 _
  obtain ⟨c, cs, hcons⟩ := List.exists_cons_of_length_eq_add_one hlength
  have hc : (hexValue? c).isSome := hexValue?_of_mem_hexDigits (hcons ▸ List.mem_cons_self ..)
  have hbare : unwrap (grouped id.digits) = (.bare, grouped id.digits) := by
    rw [hcons]
    exact unwrap_cons hc _
  have hgrouped : (grouped id.digits).length ≠ 32 := by simp [grouped, hlength]
  have hread : ofText? (grouped id.digits) = some id := by
    simp [ofText?, hbare, hgrouped, ungrouped?_grouped hlength, ofHex?_digits, ofNat]
  rw [text, String.toList_ofList, read, hread]

end TaskId

theorem denotes_id (id : TaskId) : Denotes TaskId.ofJson id.toJson id :=
  denotes_readString (by rw [TaskId.read_text])

/-! ## Times -/

theorem denotes_instant (t : Instant) : Denotes Instant.ofJson t.toJson t :=
  denotes_readString (by rw [Instant.stamp, String.toList_ofList, Instant.read_stampText])

/-- Stated without arguments: with them the kernel would go on to decide whether their
product is a span. -/
theorem Span.ofWords_eq : Span.ofWords = fun seconds nanos =>
    match Span.ofParts? seconds.toNat nanos.toNat with
    | some d => .ok d
    | none => .error (.meaningless "overflow deserializing Duration") := rfl

theorem Span.ofWords_of_ofParts? {seconds : UInt64} {nanos : UInt32} {d : Span}
    (h : Span.ofParts? seconds.toNat nanos.toNat = some d) :
    Span.ofWords seconds nanos = .ok d := by
  rw [Span.ofWords_eq]
  simp only [h]

theorem denotes_span (d : Span) : Denotes Span.ofJson d.toJson d := by
  have hseconds : (UInt64.ofNat d.seconds).toNat = d.seconds :=
    UInt64.toNat_ofNat_of_lt d.seconds_lt
  have hnanos : (UInt32.ofNat d.subNanos).toNat = d.subNanos :=
    UInt32.toNat_ofNat_of_lt (d.subNanos_lt.trans (by decide))
  have hwords : Span.ofWords (UInt64.ofNat d.seconds) (UInt32.ofNat d.subNanos) = .ok d :=
    Span.ofWords_of_ofParts? (by rw [hseconds, hnanos, Span.ofParts?_parts])
  have hword := denotes_word (UInt64.ofNat d.seconds)
  have hshort := denotes_short (UInt32.ofNat d.subNanos)
  rw [hseconds] at hword
  rw [hnanos] at hshort
  have hparts :=
    ((Record.reads_required "secs" hword).map Prod.mk).seq (Record.reads_required "nanos" hshort)
  exact (hparts.andThen hwords).denotes (by simp) _

/-! ## Words -/

theorem meaning_priority (p : Priority) : Priority.vocabulary.meaning p.name = .ok p := by
  cases p <;> rfl

theorem meaning_status (s : Status) : Status.vocabulary.meaning s.name = .ok s := by cases s <;> rfl

theorem meaning_unit (u : TimeUnit) : TimeUnit.vocabulary.meaning u.name = .ok u := by
  cases u <;> rfl

theorem denotes_priority (p : Priority) : Denotes Priority.ofJson (ofString p.name) p :=
  Vocabulary.denotes_word (meaning_priority p)

theorem denotes_status (s : Status) : Denotes Status.ofJson (ofString s.name) s :=
  Vocabulary.denotes_word (meaning_status s)

end Timetable
