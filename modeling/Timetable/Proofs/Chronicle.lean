import Timetable.Proofs.Stages

/-!
# The chronicles of a run

Whatever is done with a task, its chronicle goes on as the stages allow. A step in its life adds an
entry for each notice, and one more where its job is handed back.
-/
namespace Timetable

variable {W : Type}

/-- The notice as an entry. -/
def Notice.mark (n : Notice) : Mark := .event n.event.kind

@[simp] theorem Task.mark_notice (t : Task W) (e : Event) : (t.notice e).mark = .event e.kind := rfl

namespace Life

/-- Whether the deed hands back the job of the task, and the task waits again. -/
def handsBack (l : Life W) (id : TaskId) : Deed W → Bool
  | .abandon job _ => job.id = id && l.task.any fun t => t.status = .running
  | _ => false

/-- What a step in the life of a task adds to its chronicle. -/
def marks (l : Life W) (id : TaskId) (d : Deed W) (l' : Life W) : List Mark :=
  (l'.notices.drop l.notices.length).map Notice.mark ++
    if l.handsBack id d then [.handedBack] else []

variable {l l' : Life W} {delay : Span} {id : TaskId} {d : Deed W} {news : List Notice}

theorem marks_eq (h : l'.notices = l.notices ++ news) (hd : l.handsBack id d = false) :
    l.marks id d l' = news.map Notice.mark := by
  simp [marks, h, hd]

theorem marks_eq_nil (h : l'.notices = l.notices) (hd : l.handsBack id d = false) :
    l.marks id d l' = [] := by
  simp [marks, h, hd]

theorem handedBack_mem_marks : Mark.handedBack ∈ l.marks id d l' ↔ l.handsBack id d := by
  have hnone : Mark.handedBack ∉ (l'.notices.drop l.notices.length).map Notice.mark := by
    intro hmem
    obtain ⟨n, -, hn⟩ := List.mem_map.mp hmem
    cases hn
  rw [marks, List.mem_append, or_iff_right hnone]
  by_cases hd : l.handsBack id d <;> simp [hd]

theorem handsBack_of_aside (h : d.subject? ≠ some id) : l.handsBack id d = false := by
  cases d with
  | abandon job now =>
    have hid : job.id ≠ id := fun e => h (congrArg some e)
    simp [handsBack, hid]
  | _ => rfl

end Life

/-- The stage says how the task stands, and a job is only out while its outcome may
still be told. -/
structure Stage.Fits (s : Stage) (l : Life W) : Prop where
  unseen : l.admission = none → s = .unseen
  status : ∀ t, l.task = some t → s.status? = some t.status
  kept : s = .handedBack → l.task ≠ none
  out : l.jobs ≠ [] → s ≠ .closed

theorem Stage.Fits.of_task {s : Stage} {l : Life W} {u : Task W} (htask : l.task = some u)
    (hadmission : l.admission ≠ none) (hstatus : s.status? = some u.status)
    (hout : l.jobs ≠ [] → s ≠ .closed) : s.Fits l where
  unseen := fun h => absurd h hadmission
  status := by
    intro v hv
    obtain rfl := Option.some.inj (htask.symm.trans hv)
    exact hstatus
  kept := fun _ => by simp [htask]
  out := hout

/-- A task that has left the index had not been handed back. -/
theorem Stage.Fits.of_gone {s : Stage} {l l' : Life W} (hs : s.Fits l) (hne : s ≠ .handedBack)
    (hadmission : l'.admission = l.admission) (htask : l'.task = none)
    (hout : l'.jobs ≠ [] → l.jobs ≠ []) : s.Fits l' where
  unseen := hadmission ▸ hs.unseen
  status := by simp [htask]
  kept := fun h => absurd h hne
  out := fun h => hs.out (hout h)

/-- A task that waits has been planned or handed back. -/
theorem Stage.of_status_scheduled {s : Stage} (h : s.status? = some .scheduled) :
    s = .scheduled ∨ s = .handedBack := by
  cases s <;> simp_all [status?]

theorem Stage.of_status_running {s : Stage} (h : s.status? = some .running) : s = .started := by
  cases s <;> simp_all [status?]

theorem Stage.of_status_cancelled {s : Stage} (h : s.status? = some .cancelled) :
    s = .recalled ∨ s = .closed := by
  cases s <;> simp_all [status?]

/-- The end of an attempt can be followed from a stage with a job out. -/
theorem Task.Settles.follow {t u : Task W} {w : W} {a : Attempt} {now : Instant} {delay : Span}
    {notices : List Notice} {s : Stage} (h : t.Settles w a now delay u notices)
    (hs : s.status? = some t.status) (hout : s = .started ∨ s = .recalled) :
    ∃ s', s.follow? (notices.map Notice.mark) = some s' ∧ s'.status? = some u.status := by
  have started : t.status ≠ .cancelled → s = .started := by
    intro hne
    rcases hout with rfl | rfl
    · rfl
    · exact absurd (Option.some.inj hs).symm hne
  cases h with
  | cancelled hc =>
    obtain rfl : s = .recalled := by
      rcases hout with rfl | rfl
      · rw [hc] at hs
        cases hs
      · rfl
    refine ⟨.closed, ?_, by rw [ended_status_of_cancelled t w a hc]; rfl⟩
    cases ho : a.outcome with
    | success => rw [Attempt.verdict_of_success ho]; rfl
    | failure => rw [Attempt.verdict_of_failure ho]; rfl
  | completed hne ho =>
    obtain rfl := started hne
    rw [Attempt.verdict_of_success ho]
    exact ⟨.completed, rfl, by rw [ended_status_of_success t w a hne ho]; rfl⟩
  | recurs hne ho =>
    obtain rfl := started hne
    rw [Attempt.verdict_of_success ho]
    exact ⟨.scheduled, rfl, rfl⟩
  | expires hne ho =>
    obtain rfl := started hne
    rw [Attempt.verdict_of_success ho]
    exact ⟨.closed, rfl, rfl⟩
  | exhausted hne ho =>
    obtain rfl := started hne
    rw [Attempt.verdict_of_failure ho]
    exact ⟨.closed, rfl, rfl⟩
  | failed hne ho =>
    obtain rfl := started hne
    rw [Attempt.verdict_of_failure ho]
    exact ⟨.failed, rfl, by rw [ended_status_of_failure t w a hne ho]; rfl⟩
  | retries hne ho =>
    obtain rfl := started hne
    rw [Attempt.verdict_of_failure ho]
    exact ⟨.scheduled, rfl, rfl⟩

namespace Life

variable {l l' : Life W} {delay : Span} {id : TaskId} {d : Deed W} {s : Stage}

/-- A step that adds nothing to the chronicle and leaves the stage fitting. -/
theorem follow_nil (hnotices : l'.notices = l.notices) (hd : l.handsBack id d = false)
    (hs : s.Fits l') : ∃ s', s.follow? (l.marks id d l') = some s' ∧ s'.Fits l' :=
  ⟨s, by rw [marks_eq_nil hnotices hd]; rfl, hs⟩

/-- What a step tells of a task can be followed. -/
theorem Step.follow (h : Step delay id l d l') (hl : l.Sound) (hs : s.Fits l) :
    ∃ s', s.follow? (l.marks id d l') = some s' ∧ s'.Fits l' := by
  cases h with
  | aside h => exact follow_nil rfl (handsBack_of_aside h) hs
  | accept sequence hid new unseen =>
    obtain rfl := hs.unseen unseen
    refine ⟨.scheduled, ?_, .of_task rfl (by simp) rfl (by simp)⟩
    rw [marks_eq rfl rfl]
    rfl
  | claim ht hst hw =>
    have hstatus := hs.status _ ht
    rw [hst] at hstatus
    refine ⟨.started, ?_, .of_task rfl (hl.admitted ht) rfl (by simp)⟩
    rw [marks_eq rfl rfl]
    obtain rfl | rfl := Stage.of_status_scheduled hstatus <;> rfl
  | attempt hid hjobs =>
    exact follow_nil rfl rfl ⟨hs.unseen, hs.status, hs.kept, fun _ => hs.out (by simp [hjobs])⟩
  | @finish before after job a t u work now notices hid hjobs ht hsettles =>
    obtain ⟨rfl, rfl⟩ := hl.jobs_eq_nil hjobs
    -- The task runs, or it was cancelled while it ran: a closed task has no job out.
    have hout : s = .started ∨ s = .recalled := by
      have hstatus := hs.status t ht
      rcases (hl.status_of_job hjobs ht).2 with hst | hst <;> rw [hst] at hstatus
      · exact .inl (Stage.of_status_running hstatus)
      · exact .inr ((Stage.of_status_cancelled hstatus).resolve_right (hs.out (by simp [hjobs])))
    obtain ⟨s', hfollow, hstatus⟩ := hsettles.follow (hs.status t ht) hout
    refine ⟨s', ?_, .of_task rfl (hl.admitted ht) hstatus (by simp)⟩
    rwa [marks_eq rfl rfl]
  | finishGone hid hjobs ht =>
    obtain ⟨rfl, rfl⟩ := hl.jobs_eq_nil hjobs
    exact follow_nil rfl rfl (hs.of_gone (fun h => hs.kept h ht) rfl rfl (by simp))
  | @abandon before after job t now hid hjobs ht =>
    obtain ⟨rfl, rfl⟩ := hl.jobs_eq_nil hjobs
    have hstatus := hs.status t ht
    rcases (hl.status_of_job hjobs ht).2 with hst | hst
    · rw [hst] at hstatus
      obtain rfl := Stage.of_status_running hstatus
      refine ⟨.handedBack, ?_, .of_task rfl (hl.admitted ht) ?_ (by simp)⟩
      · have hback : l.handsBack id (.abandon job now) = true := by simp [handsBack, hid, ht, hst]
        simp only [marks, hback, List.drop_length, List.map_nil, List.nil_append, if_true]
        rfl
      · simp [Task.handBack, hst, Task.schedule, Stage.status?]
    · have hkeep : (t.handBack job.work now).status = t.status := by
        rw [Task.handBack_of_ne (by rw [hst]; decide)]
        rfl
      refine follow_nil rfl ?_ (.of_task rfl (hl.admitted ht) (hkeep ▸ hstatus) (by simp))
      simp [handsBack, ht, hst]
  | abandonGone hid hjobs ht =>
    obtain ⟨rfl, rfl⟩ := hl.jobs_eq_nil hjobs
    refine follow_nil rfl ?_ (hs.of_gone (fun h => hs.kept h ht) rfl rfl (by simp))
    simp [handsBack, ht]
  | @cancel t ht hterm =>
    have hstatus := hs.status t ht
    have hstanding := hl.standing t ht
    have hmarks : l.marks id (.cancel id) { l with
        task := some t.cancel, notices := l.notices ++ [t.cancel.notice .cancelled] } =
          [.event .cancelled] := by
      rw [marks_eq rfl rfl]
      rfl
    rw [hmarks]
    cases hst : t.status with
    | scheduled =>
      rw [hst] at hstatus
      -- A task that waits holds its unit of work, so no attempt is hit.
      have hjobs : l.jobs = [] := (hl.held t ht).mp (hstanding.resting (.inl hst))
      refine ⟨.closed, ?_, .of_task rfl (hl.admitted ht) rfl (by simp [hjobs])⟩
      obtain rfl | rfl := Stage.of_status_scheduled hstatus <;> rfl
    | running =>
      rw [hst] at hstatus
      obtain rfl := Stage.of_status_running hstatus
      exact ⟨.recalled, rfl, .of_task rfl (hl.admitted ht) rfl (by simp)⟩
    | pending => exact absurd hst hstanding.accepted
    | completed | failed | cancelled =>
      rw [hst] at hterm
      cases hterm
  | @switch t ht _ enabled =>
    have hstatus : s.status? = some (t.switch enabled).status := hs.status t ht
    exact follow_nil rfl rfl (.of_task rfl (hl.admitted ht) hstatus hs.out)
  | @evict t ht hterm =>
    refine follow_nil rfl rfl (hs.of_gone ?_ rfl rfl fun h => h)
    rintro rfl
    have hstatus : Status.scheduled = t.status := Option.some.inj (hs.status t ht)
    rw [← hstatus] at hterm
    cases hterm

end Life

namespace World

variable {w w' start : World W} {d : Deed W} {deeds : List (Deed W)} {id : TaskId}
  {marks : List Mark}

/-- The kinds of the events published of a task. -/
def eventsOf (w : World W) (id : TaskId) : List EventKind :=
  (w.life id).notices.map fun n => n.event.kind

/-- A run with the chronicle of one task. -/
inductive Chronicle (id : TaskId) (start : World W) :
    List (Deed W) → World W → List Mark → Prop
  | refl : Chronicle id start [] start []
  | step {w w' : World W} {deeds : List (Deed W)} {d : Deed W} {marks : List Mark}
    (chronicle : Chronicle id start deeds w marks) (h : Step w d w') :
    Chronicle id start (deeds ++ [d]) w' (marks ++ (w.life id).marks id d (w'.life id))

theorem Run.exists_chronicle (run : Run start deeds w) (id : TaskId) :
    ∃ marks, Chronicle id start deeds w marks := by
  induction run with
  | refl => exact ⟨[], .refl⟩
  | step _ h ih =>
    obtain ⟨marks, chronicle⟩ := ih
    exact ⟨_, chronicle.step h⟩

theorem Chronicle.run (h : Chronicle id start deeds w marks) : Run start deeds w := by
  induction h with
  | refl => exact .refl _
  | step _ h ih => exact ih.step h

theorem Step.eventsOf (h : Step w d w') (id : TaskId) : w'.eventsOf id =
    w.eventsOf id ++ ((w.life id).marks id d (w'.life id)).filterMap Mark.kind? := by
  obtain ⟨news, hnews⟩ := h.history
  have hnotices :
      (w'.life id).notices = (w.life id).notices ++ news.filter fun n => n.task.id = id := by
    simp [World.life, hnews]
  have hback : ∀ b : Bool, (if b then [Mark.handedBack] else []).filterMap Mark.kind? = [] := by
    intro b
    cases b <;> rfl
  rw [World.eventsOf, World.eventsOf, Life.marks, hnotices, List.drop_left,
    List.filterMap_append, hback, List.append_nil, List.filterMap_map, List.map_append,
    ← List.filterMap_eq_map]
  rfl

/-- The events of a chronicle are those published of the task. -/
theorem Chronicle.events (h : Chronicle id start deeds w marks) :
    w.eventsOf id = start.eventsOf id ++ marks.filterMap Mark.kind? := by
  induction h with
  | refl => simp
  | step _ h ih => rw [h.eventsOf id, ih, List.filterMap_append, List.append_assoc]

/-- A job that is handed back shows in the deeds. -/
theorem Chronicle.exists_abandon {start : World W} (h : Chronicle id start deeds w marks)
    (hmem : Mark.handedBack ∈ marks) : ∃ job now, .abandon job now ∈ deeds ∧ job.id = id := by
  induction h with
  | refl => cases hmem
  | @step w w' deeds d marks chronicle h ih =>
    rcases List.mem_append.mp hmem with hmem | hmem
    · obtain ⟨job, now, hd, hid⟩ := ih hmem
      exact ⟨job, now, List.mem_append_left _ hd, hid⟩
    · have hback := Life.handedBack_mem_marks.mp hmem
      cases d with
      | abandon job now =>
        simp only [Life.handsBack, Bool.and_eq_true, decide_eq_true_eq] at hback
        exact ⟨job, now, by simp, hback.1⟩
      | _ => cases hback

/-- The chronicle has brought the task to a stage that fits. -/
theorem Chronicle.stage {c : Config} {s : Scheduler W} (hs : Scheduler.create c = .ok s)
    (h : Chronicle id (fresh s) deeds w marks) :
    ∃ stage, Stage.unseen.follow? marks = some stage ∧ stage.Fits (w.life id) := by
  generalize hstart : fresh s = start at h
  induction h with
  | refl =>
    obtain rfl := hstart
    have hlife := ((Sound.fresh hs).lives id).unseen rfl
    exact ⟨.unseen, rfl, by rw [hlife]; exact ⟨fun _ => rfl, by simp, by simp, by simp⟩⟩
  | step chronicle h ih =>
    obtain ⟨stage, hfollow, hfits⟩ := ih
    have hw : Reachable _ := ⟨c, s, _, hs, hstart ▸ chronicle.run⟩
    obtain ⟨stage', hnext, hfits'⟩ := (h.life hw.sound id).follow (hw.sound.lives id) hfits
    exact ⟨stage', Stage.follow?_append_eq_some.mpr ⟨stage, hfollow, hnext⟩, hfits'⟩

/-- Every run has one chronicle of a task at least, and every chronicle of it keeps the laws: a task
is planned, started once it has been planned or handed back, and so on. The count of a task in the
index is that of the outcomes published. -/
theorem Run.chronicled {c : Config} {s : Scheduler W} (run : Run (fresh s) deeds w)
    (hs : Scheduler.create c = .ok s) (id : TaskId) :
    (∃ marks, Chronicle id (fresh s) deeds w marks) ∧
      (∀ marks, Chronicle id (fresh s) deeds w marks →
        marks.filterMap Mark.kind? = w.eventsOf id ∧ Mark.Lawful marks) ∧
      ∀ t, w.scheduler.task? id = some t →
        t.executionCount.toNat = min ((w.eventsOf id).countP EventKind.isOutcome) 4294967295 := by
  refine ⟨run.exists_chronicle id, fun marks h => ?_, fun t ht => ?_⟩
  · obtain ⟨stage, hfollow, -⟩ := h.stage hs
    have hevents := h.events
    have hnone : (fresh s).eventsOf id = [] := rfl
    rw [hnone, List.nil_append] at hevents
    exact ⟨hevents.symm, Stage.lawful hfollow⟩
  · have hw : w.Reachable := ⟨c, s, deeds, hs, run⟩
    rw [eventsOf, List.countP_map]
    exact (hw.booked id).present t ht

/-- The job of a task is handed back, its first attempt fails, and its second is under way when the
task is cancelled. -/
theorem chronicled_handedBack : ∃ (w : World Nat) (deeds : List (Deed Nat)) (marks : List Mark)
    (t : Task Nat), Run sample deeds w ∧ Chronicle (.ofNat 1) sample deeds w marks ∧
    marks.filterMap Mark.kind? = [.scheduled, .started, .started, .failed, .scheduled, .started,
      .cancelled, .completed] ∧ Mark.Lawful marks ∧ w.scheduler.task? (.ofNat 1) = some t ∧
    t.executionCount = 2 ∧
    t.executionCount.toNat =
      min ((w.eventsOf (.ofNat 1)).countP EventKind.isOutcome) 4294967295 := by
  have created : Scheduler.create {} = .ok ({ config := {} } : Scheduler Nat) := rfl
  obtain ⟨w, hplay, hevents, t, ht, htwice⟩ : ∃ w ∈ sample.play?
      [.accept .dueNow .sample .epoch .epoch, .claim .epoch, .abandon .sample .epoch, .claim .epoch,
        .attempt .sample .epoch, .finish .sample 0 .failureSample .epoch, .claim .last,
        .attempt .sample .epoch, .cancel (.ofNat 1), .finish .sample 0 .successSample .epoch],
      w.eventsOf (.ofNat 1) = [.scheduled, .started, .started, .failed, .scheduled, .started,
        .cancelled, .completed] ∧ ∃ t ∈ w.scheduler.task? (.ofNat 1),
        t.executionCount = 2 := by decide +kernel
  have run := Run.of_play? hplay
  obtain ⟨⟨marks, chronicle⟩, hlaws, hcount⟩ := run.chronicled created (.ofNat 1)
  obtain ⟨hmarks, hlawful⟩ := hlaws marks chronicle
  exact ⟨w, _, marks, t, run, chronicle, hmarks.trans hevents, hlawful, ht, htwice,
    hcount t ht⟩

end World

end Timetable
