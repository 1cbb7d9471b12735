import Timetable.Proofs.Chronicle
import Timetable.Proofs.Crew

/-!
# What a listener knows

A listener that has been there from the start can keep a status for every task: each event sets it,
and a cancellation is final. Once every notice has been delivered, the listener is right about every
task in the index but for those whose job was handed back: these wait again, and no event has said
so.
-/
namespace Timetable

variable {W : Type}

/-- The status that an event of the kind tells of. -/
def EventKind.status : EventKind → Status
  | scheduled => .scheduled
  | started => .running
  | completed => .completed
  | failed => .failed
  | cancelled => .cancelled

/-- The status that a listener holds of a task after one more event. -/
def observe (held : Option Status) (k : EventKind) : Option Status :=
  if held = some .cancelled then held else some k.status

/-- The status that a listener holds of a task at the stage. -/
def Stage.held? : Stage → Option Status
  | handedBack => some .running
  | s => s.status?

theorem Stage.held?_eq_status?_iff {s : Stage} : s.held? = s.status? ↔ s ≠ handedBack := by
  cases s <;> decide

/-- An entry moves a listener on as it moves the task. -/
theorem Stage.held?_next {s s' : Stage} {m : Mark} (h : s.next? m = some s') :
    m.kind?.toList.foldl observe s.held? = s'.held? := by
  unfold next? at h
  split at h <;> cases h <;> rfl

theorem Stage.held?_follow {s s' : Stage} {marks : List Mark} (h : s.follow? marks = some s') :
    (marks.filterMap Mark.kind?).foldl observe s.held? = s'.held? := by
  induction marks generalizing s with
  | nil =>
    cases h
    rfl
  | cons m marks ih =>
    obtain ⟨r, hm, hrest⟩ := follow?_cons_eq_some.mp h
    have hsplit :
        (m :: marks).filterMap Mark.kind? = m.kind?.toList ++ marks.filterMap Mark.kind? := by
      cases hk : m.kind? <;> simp [hk]
    rw [hsplit, List.foldl_append, held?_next hm, ih hrest]

namespace Outbox

/-- An errand publishes nothing. -/
theorem published_run? {o o' : Outbox} {me : Thread} {e : Errand} {errands : List Errand}
    (h : o.run? me e = some (o', errands)) : o'.published = o.published := by
  cases e with
  | reach => obtain ⟨rfl, -⟩ | ⟨rfl, -⟩ := run?_reach_eq_some h <;> rfl
  | drain => obtain ⟨-, rfl, -⟩ | ⟨-, rfl, -⟩ := run?_drain_eq_some h <;> rfl
  | deliver | announce | credit =>
    cases h
    rfl

end Outbox

namespace World

variable {w w' : World W} {d : Deed W} {deeds : List (Deed W)} {id : TaskId} {marks : List Mark}

/-- The notices delivered so far. -/
def heard (w : World W) : List Notice := w.history.take w.scheduler.outbox.delivered

/-- The status that a listener there from the start holds of the task. -/
def held? (w : World W) (id : TaskId) : Option Status :=
  ((w.heard.filter fun n => n.task.id = id).map fun n => n.event.kind).foldl observe none

/-- The listener is right about every task in the index. -/
def Mirrored (w : World W) : Prop :=
  ∀ id snap, w.scheduler.snapshot? id = some snap → w.held? id = some snap.status

/-- A section that publishes into the outbox. -/
theorem published_turn {s : Scheduler W} {notices : List Notice}
    (h : w.scheduler.outbox.published = w.history.length)
    (hs : s.outbox = w.scheduler.outbox.publish notices) :
    s.outbox.published = (w.turn s).history.length := by
  simp [turn, hs, Outbox.publish, Outbox.news, h]

/-- The outbox counts what has been published. -/
theorem Reachable.published_eq (hw : w.Reachable) :
    w.scheduler.outbox.published = w.history.length := by
  refine hw.induction (motive := fun w => w.scheduler.outbox.published = w.history.length)
    (fun c s hs => ?_) fun w d w' hw h ih => ?_
  · obtain rfl := Scheduler.create_eq_ok hs
    rfl
  have unchanged (s : Scheduler W) (hs : s.outbox = w.scheduler.outbox) :
      s.outbox.published = (w.turn s).history.length :=
    published_turn ih (hs.trans (Outbox.publish_nil _).symm)
  cases h with
  | accept new unseen hdue valid h =>
    obtain ⟨-, rfl⟩ := Scheduler.takeIn_eq_ok h
    exact published_turn ih rfl
  | claim now =>
    obtain ⟨-, hs, -⟩ := hw.sound.coherent.claimDue_eq hw.sound.armed now
    exact published_turn ih (congrArg Scheduler.outbox hs)
  | attempt => exact ih
  | finish h work now =>
    obtain ⟨notices, hs⟩ := Scheduler.outbox_finish w.scheduler _ _ now
    exact published_turn ih hs
  | abandon h now => exact unchanged _ (Scheduler.outbox_abandon _ _ _)
  | cancel h =>
    obtain ⟨t, -, -, rfl⟩ := Scheduler.cancel?_eq_some h
    exact published_turn ih rfl
  | switch h =>
    obtain ⟨t, -, -, rfl⟩ := Scheduler.setRecurrenceEnabled?_eq_some h
    exact unchanged _ rfl
  | evict h =>
    obtain ⟨t, -, -, -, rfl⟩ := Scheduler.evict_eq_ok h
    exact unchanged _ rfl
  | start h =>
    obtain ⟨_, _, _, rfl⟩ := Scheduler.start_eq_ok h
    exact unchanged _ rfl
  | stop now => exact unchanged _ rfl
  | deliver h => exact (Outbox.published_run? h).trans ih

/-- Once every notice is delivered, a listener holds of a task what its chronicle has come to. -/
theorem Chronicle.held?_eq {c : Config} {s : Scheduler W} (hs : Scheduler.create c = .ok s)
    (h : Chronicle id (fresh s) deeds w marks) (settled : w.scheduler.outbox.isSettled)
    {stage : Stage}
    (hstage : Stage.unseen.follow? marks = some stage) : w.held? id = stage.held? := by
  have hw : w.Reachable := ⟨c, s, deeds, hs, h.run⟩
  have hall : w.heard = w.history := by
    have hdelivered : w.scheduler.outbox.delivered = w.scheduler.outbox.published := by
      simpa [Outbox.isSettled] using settled
    rw [heard, hdelivered, hw.published_eq, List.take_length]
  have hevents : marks.filterMap Mark.kind? = w.eventsOf id := h.events.symm
  rw [held?, hall, ← Stage.held?_follow hstage, hevents]
  rfl

/-- Once every notice is delivered, a listener is right about all tasks exactly if no task was
handed back last. -/
theorem Run.mirrored_iff {c : Config} {s : Scheduler W} (run : Run (fresh s) deeds w)
    (hs : Scheduler.create c = .ok s) (settled : w.scheduler.outbox.isSettled) :
    w.Mirrored ↔ ∀ id marks, Chronicle id (fresh s) deeds w marks →
      marks.getLast? ≠ some .handedBack := by
  have last_iff {marks : List Mark} {stage : Stage}
      (hfollow : Stage.unseen.follow? marks = some stage) :
      marks.getLast? = some .handedBack ↔ stage = .handedBack :=
    Stage.getLast?_eq_iff (by decide) (fun _ _ _ => Stage.eq_handedBack_iff_of_next?) hfollow
  constructor
  · intro hm id marks chronicle hlast
    obtain ⟨stage, hfollow, hfits⟩ := chronicle.stage hs
    obtain rfl := (last_iff hfollow).mp hlast
    obtain ⟨t, ht⟩ := Option.ne_none_iff_exists'.mp (hfits.kept rfl)
    have hheld : w.held? id = some t.status :=
      hm id t.toSnapshot
        (by rw [Scheduler.snapshot?, show w.scheduler.task? id = some t from ht]; rfl)
    have hstatus := hfits.status t ht
    rw [chronicle.held?_eq hs settled hfollow, ← hstatus] at hheld
    cases hheld
  · intro hall id snap hsnap
    obtain ⟨t, ht, rfl⟩ := Option.map_eq_some_iff.mp hsnap
    obtain ⟨marks, chronicle⟩ := run.exists_chronicle id
    obtain ⟨stage, hfollow, hfits⟩ := chronicle.stage hs
    have hne : stage ≠ .handedBack := fun e => hall id marks chronicle ((last_iff hfollow).mpr e)
    rw [chronicle.held?_eq hs settled hfollow, Stage.held?_eq_status?_iff.mpr hne]
    exact hfits.status t ht

/-- A task is cancelled while its attempt goes on, and no job is handed back. -/
theorem mirrored_cancelled : ∃ (w : World Nat) (deeds : List (Deed Nat)), Run sample deeds w ∧
    w.scheduler.outbox.isSettled ∧ w.held? (.ofNat 1) = some .cancelled ∧
    w.announced .completed = 1 ∧ w.Mirrored := by
  have created : Scheduler.create {} = .ok ({ config := {} } : Scheduler Nat) := rfl
  obtain ⟨w, hplay, hsettled, hheld, hcompleted⟩ : ∃ w ∈ sample.play?
      [.accept .dueNow .sample .epoch .epoch, .claim .epoch, .attempt .sample .epoch,
        .cancel (.ofNat 1), .finish .sample 0 .successSample .epoch,
        .deliver (.worker 0) (.reach 4), .deliver (.worker 0) .drain,
        .deliver (.worker 0) (.credit 4), .deliver (.worker 0) .drain],
      w.scheduler.outbox.isSettled ∧ w.held? (.ofNat 1) = some .cancelled ∧
      w.announced .completed = 1 := by decide +kernel
  have run := Run.of_play? hplay
  refine ⟨w, _, run, hsettled, hheld, hcompleted, (run.mirrored_iff created hsettled).mpr ?_⟩
  intro id marks chronicle hlast
  obtain ⟨job, now, hmem, -⟩ := chronicle.exists_abandon (List.mem_of_getLast? hlast)
  simp at hmem

/-- The scheduler is stopped before the job of a started task has begun. The job is handed back and
the task waits again; when everything has come to rest, a listener still holds that it runs. -/
theorem exists_not_mirrored : ∃ (w : World Nat) (snap : Snapshot), w.Reachable ∧ w.jobs = [] ∧
    w.scheduler.isSettled ∧ w.scheduler.snapshot? (.ofNat 1) = some snap ∧
    snap.status = .scheduled ∧
    w.held? (.ofNat 1) = some .running ∧ ¬ w.Mirrored := by
  obtain ⟨w, hplay, hjobs, hsettled, hheld, snap, hsnap, hstatus⟩ : ∃ w ∈ sample.play?
      [.start .epoch, .accept .dueNow .sample .epoch .epoch, .claim .epoch, .stop .epoch,
        .abandon .sample .epoch, .deliver (.caller 0) (.reach 2), .deliver (.caller 0) .drain,
        .deliver (.caller 0) (.credit 2), .deliver (.caller 0) .drain],
      w.jobs = [] ∧ w.scheduler.isSettled ∧ w.held? (.ofNat 1) = some .running ∧
      ∃ snap ∈ w.scheduler.snapshot? (.ofNat 1), snap.status = .scheduled := by decide +kernel
  refine ⟨w, snap, ⟨{}, _, _, rfl, .of_play? hplay⟩, hjobs, hsettled, hsnap, hstatus, hheld,
    fun h => ?_⟩
  have := h _ snap hsnap
  rw [hheld, hstatus] at this
  cases this

end World

end Timetable
