import Timetable.Proofs.Ledger

/-!
# The stages of a task

The chronicle of a task lists its events in the order of their publication, and also the moments
when its job was handed back, which no event tells of. At every moment the chronicle has brought the
task to one of a few stages, and the stage says what may come next. So every chronicle follows the
same few laws.
-/
namespace Timetable

/-- An entry of a chronicle. -/
inductive Mark where
  | event (kind : EventKind)
  /-- The job of the task was handed back before its attempt began. -/
  | handedBack
deriving DecidableEq, Repr

namespace Mark

/-- The kind of event that the entry stands for, if it stands for one. -/
def kind? : Mark → Option EventKind
  | event kind => some kind
  | handedBack => none

/-- The entries that may come directly after the entry. -/
def followers : Mark → List Mark
  | event .scheduled | handedBack => [event .started, event .cancelled]
  | event .started => [handedBack, event .completed, event .failed, event .cancelled]
  | event .completed | event .failed => [event .scheduled, event .cancelled]
  | event .cancelled => [event .completed, event .failed]

/-- The laws of a chronicle. -/
structure Lawful (marks : List Mark) : Prop where
  first : ∀ m ∈ marks.head?, m = event .scheduled
  chain : marks.IsChain fun m n => n ∈ m.followers
  /-- Nothing follows a cancellation but the outcome of an attempt that it hit. -/
  cancelled : ∀ before after, marks = before ++ event .cancelled :: after → after = [] ∨
    before.getLast? = some (event .started) ∧ ∃ kind, kind.isOutcome ∧ after = [event kind]

end Mark

/-- How far a task has got. -/
inductive Stage where
  | unseen
  | scheduled
  | started
  | handedBack
  | completed
  | failed
  /-- Cancelled while its job was out. -/
  | recalled
  /-- Cancelled, and its attempt, if the cancellation hit one, has come out. -/
  | closed
deriving DecidableEq, Repr

namespace Stage

/-- The stage after one more entry, where the entry is possible. -/
def next? : Stage → Mark → Option Stage
  | unseen, .event .scheduled => some scheduled
  | scheduled, .event .started | handedBack, .event .started => some started
  | scheduled, .event .cancelled | handedBack, .event .cancelled => some closed
  | started, .handedBack => some handedBack
  | started, .event .completed => some completed
  | started, .event .failed => some failed
  | started, .event .cancelled => some recalled
  | completed, .event .scheduled | failed, .event .scheduled => some scheduled
  | completed, .event .cancelled | failed, .event .cancelled => some closed
  | recalled, .event .completed | recalled, .event .failed => some closed
  | _, _ => none

/-- The stage after more entries, where they are possible. -/
def follow? (s : Stage) (marks : List Mark) : Option Stage := marks.foldlM next? s

/-- The status of a task at the stage. -/
def status? : Stage → Option Status
  | unseen => none
  | scheduled | handedBack => some .scheduled
  | started => some .running
  | completed => some .completed
  | failed => some .failed
  | recalled | closed => some .cancelled

variable {s s₁ s₂ : Stage} {m n : Mark} {marks : List Mark}

@[simp] theorem follow?_nil (s : Stage) : s.follow? [] = some s := rfl

theorem follow?_append_eq_some {front back : List Mark} : s.follow? (front ++ back) = some s₂ ↔
    ∃ s₁, s.follow? front = some s₁ ∧ s₁.follow? back = some s₂ := by
  rw [follow?, List.foldlM_append]
  exact Option.bind_eq_some_iff

theorem follow?_cons_eq_some : s.follow? (m :: marks) = some s₂ ↔
    ∃ s₁, s.next? m = some s₁ ∧ s₁.follow? marks = some s₂ := by
  rw [follow?, List.foldlM_cons]
  exact Option.bind_eq_some_iff

theorem follow?_concat_eq_some : s.follow? (marks ++ [m]) = some s₂ ↔
    ∃ s₁, s.follow? marks = some s₁ ∧ s₁.next? m = some s₂ := by
  simp [follow?_append_eq_some, follow?_cons_eq_some]

theorem eq_scheduled_of_next? (h : unseen.next? m = some s) : m = .event .scheduled := by
  rcases m with (_ | _ | _ | _ | _) | _ <;> cases h
  rfl

theorem mem_followers (h : s.next? m = some s₁) (h' : s₁.next? n = some s₂) : n ∈ m.followers := by
  unfold next? at h
  split at h <;> cases h
  all_goals rcases n with (_ | _ | _ | _ | _) | _ <;> cases h' <;> decide

theorem eq_started_iff_of_next? (h : s.next? m = some s₁) : m = .event .started ↔ s₁ = started := by
  unfold next? at h
  split at h <;> cases h <;> decide

theorem eq_handedBack_iff_of_next? (h : s.next? m = some s₁) :
    m = .handedBack ↔ s₁ = handedBack := by
  unfold next? at h
  split at h <;> cases h <;> decide

/-- A cancellation closes the task, unless it hits an attempt. -/
theorem of_next?_cancelled (h : s.next? (.event .cancelled) = some s₁) :
    s₁ = closed ∨ s = started ∧ s₁ = recalled := by
  cases s <;> cases h <;> decide

theorem isOutcome_of_next?_recalled (h : recalled.next? m = some s) :
    ∃ kind, kind.isOutcome ∧ m = .event kind ∧ s = closed := by
  rcases m with (_ | _ | _ | _ | _) | _ <;> cases h
  · exact ⟨.completed, rfl, rfl, rfl⟩
  · exact ⟨.failed, rfl, rfl, rfl⟩

theorem follow?_closed (h : closed.follow? marks = some s) : marks = [] := by
  cases marks with
  | nil => rfl
  | cons m marks =>
    obtain ⟨s₁, hs₁, -⟩ := follow?_cons_eq_some.mp h
    cases hs₁

/-- A stage that only one entry leads to shows in the last entry. -/
theorem getLast?_eq_iff {last : Mark} {stage : Stage} (seen : stage ≠ unseen)
    (key : ∀ r m r', next? r m = some r' → (m = last ↔ r' = stage))
    (h : unseen.follow? marks = some s) : marks.getLast? = some last ↔ s = stage := by
  rcases List.eq_nil_or_concat' marks with rfl | ⟨front, m, rfl⟩
  · cases h
    simpa using seen.symm
  · obtain ⟨r, -, hm⟩ := follow?_concat_eq_some.mp h
    rw [List.getLast?_concat, Option.some.injEq]
    exact key r m s hm

theorem isChain_followers (h : s.follow? marks = some s₁) :
    marks.IsChain fun m n => n ∈ m.followers := by
  induction marks generalizing s with
  | nil => exact .nil
  | cons m marks ih =>
    obtain ⟨r, hm, hrest⟩ := follow?_cons_eq_some.mp h
    cases marks with
    | nil => exact .singleton _
    | cons n marks =>
      obtain ⟨r', hn, -⟩ := follow?_cons_eq_some.mp hrest
      exact List.isChain_cons_cons.mpr ⟨mem_followers hm hn, ih hrest⟩

/-- What can be followed from the beginning keeps the laws. -/
theorem lawful (h : unseen.follow? marks = some s) : Mark.Lawful marks where
  first := by
    intro m hm
    obtain ⟨rest, rfl⟩ := List.head?_eq_some_iff.mp hm
    obtain ⟨r, hr, -⟩ := follow?_cons_eq_some.mp h
    exact eq_scheduled_of_next? hr
  chain := isChain_followers h
  cancelled := by
    rintro before after rfl
    obtain ⟨r, hbefore, hrest⟩ := follow?_append_eq_some.mp h
    obtain ⟨r', hcancel, hafter⟩ := follow?_cons_eq_some.mp hrest
    rcases of_next?_cancelled hcancel with rfl | ⟨rfl, rfl⟩
    · exact .inl (follow?_closed hafter)
    cases after with
    | nil => exact .inl rfl
    | cons m after =>
      obtain ⟨r'', hm, hnone⟩ := follow?_cons_eq_some.mp hafter
      obtain ⟨kind, hkind, rfl, rfl⟩ := isOutcome_of_next?_recalled hm
      refine .inr ⟨?_, kind, hkind, by rw [follow?_closed hnone]⟩
      exact (getLast?_eq_iff (by decide) (fun _ _ _ => eq_started_iff_of_next?) hbefore).mpr rfl

end Stage

end Timetable
