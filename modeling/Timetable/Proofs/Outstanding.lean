import Timetable.Proofs.Exclusion
import Timetable.Proofs.InFlight
import Timetable.Proofs.Ledger
import Timetable.Proofs.Listings
import Timetable.Proofs.Terminal

/-!
# Attempts that outlive their task

A task that runs has one job out. A job that is out may also belong to a task that was cancelled
after its claim, and such a task may have been evicted since. There are no other jobs.
-/
namespace Timetable

variable {W : Type}

namespace Life

variable {l l' : Life W} {delay : Span} {id : TaskId} {d : Deed W}

/-- A task that was evicted with its job out had been cancelled. -/
def Overtaken (l : Life W) : Prop :=
  l.task = none → l.jobs ≠ [] → ∀ s ∈ l.evicted, s.status = .cancelled

theorem Overtaken.of_task {t : Task W} (ht : l.task = some t) : l.Overtaken := by
  intro hnone
  rw [ht] at hnone
  cases hnone

/-- Only a cancelled task ends while its job is out, so only such a task is evicted then. -/
theorem Step.overtaken (h : Step delay id l d l') (hl : l.Sound) (hb : l.Booked)
    (ho : l.Overtaken) :
    l'.Overtaken := by
  cases h with
  | aside => exact ho
  | accept | claim | finish | abandon | cancel | switch => exact .of_task rfl
  | attempt _ h => exact fun ht _ => ho ht (by simp [h])
  | finishGone _ h ht | abandonGone _ h ht => exact fun _ _ => ho ht (by simp [h])
  | @evict t ht hterm =>
    intro _ hjobs s hs
    rw [hb.unevicted (by simp [ht]), List.nil_append, List.mem_singleton] at hs
    obtain ⟨x, hx⟩ := List.exists_mem_of_ne_nil _ hjobs
    rw [hs]
    exact hl.cancelled_of_job ht hterm hx

end Life

namespace World

variable {w : World W} {d : Dispatch W} {id : TaskId}

/-- Whether the task of the job has been cancelled, be it still in the index or not. -/
def isStray (w : World W) (d : Dispatch W) : Bool :=
  (w.lastSeen? d.job.id).any fun s => s.status = .cancelled

/-- The jobs that are out though their tasks have been cancelled. -/
def strays (w : World W) : List (Dispatch W) := w.jobs.filter w.isStray

theorem Reachable.overtaken (hw : w.Reachable) (id : TaskId) : (w.life id).Overtaken := by
  refine hw.induction (motive := fun w => (w.life id).Overtaken) (fun c s hs => ?_)
    fun w d w' hw h ih => ?_
  · rw [((Sound.fresh hs).lives id).unseen rfl]
    exact fun _ h => absurd rfl h
  · exact (h.life hw.sound id).overtaken (hw.sound.lives id) (hw.booked id) ih

theorem lastSeen?_of_task {t : Task W} (ht : w.scheduler.task? id = some t) :
    w.lastSeen? id = some t.toSnapshot := by
  rw [lastSeen?, Scheduler.snapshot?, ht]
  rfl

theorem mem_jobsOf : d ∈ w.jobsOf id ↔ d ∈ w.jobs ∧ d.job.id = id := by
  simp [jobsOf]

/-- A task that has gone while its job is out was last seen cancelled. -/
theorem Reachable.lastSeen?_of_gone (hw : w.Reachable) (hd : d ∈ w.jobs)
    (ht : w.scheduler.task? d.job.id = none) :
    ∃ s, w.lastSeen? d.job.id = some s ∧ s.status = .cancelled := by
  have hjobs : d ∈ (w.life d.job.id).jobs := mem_jobsOf.mpr ⟨hd, rfl⟩
  obtain ⟨before, after, hsplit⟩ := List.append_of_mem hjobs
  have hadmission := (hw.sound.lives d.job.id).admitted_of_job hsplit
  obtain ⟨s, hs, -⟩ := (hw.booked d.job.id).gone hadmission ht
  have hcancelled :=
    hw.overtaken d.job.id ht (List.ne_nil_of_mem hjobs) s (hs ▸ List.mem_singleton_self s)
  have hfind : (w.evicted.find? fun s => s.id = d.job.id) = some s := by
    rw [← List.head?_filter]
    exact congrArg List.head? hs
  exact ⟨s, by rw [lastSeen?, Scheduler.snapshot?, ht, hfind]; rfl, hcancelled⟩

/-- A job strays unless its task runs. -/
theorem Reachable.isStray_eq_false (hw : w.Reachable) (hd : d ∈ w.jobs) :
    w.isStray d = false ↔ ∃ t, w.scheduler.task? d.job.id = some t ∧ t.status = .running := by
  rw [isStray]
  cases ht : w.scheduler.task? d.job.id with
  | none =>
    obtain ⟨s, hs, hcancelled⟩ := hw.lastSeen?_of_gone hd ht
    simp [hs, hcancelled]
  | some t =>
    obtain ⟨before, after, hsplit⟩ := List.append_of_mem (mem_jobsOf.mpr ⟨hd, rfl⟩)
    rcases ((hw.sound.lives d.job.id).status_of_job hsplit ht).2 with hst | hst <;>
      simp [lastSeen?_of_task ht, hst]

/-- The jobs that do not stray are those of the tasks that run, one for each. -/
theorem Reachable.running_perm (hw : w.Reachable) :
    ((w.jobs.filter fun d => !w.isStray d).map fun d => d.job.id).Perm
      ((w.scheduler.tasks.filter fun t => t.status = .running).map fun t => t.id) := by
  have hcoherent := hw.sound.coherent
  have hjobs := hw.sound.once.sublist ((List.filter_sublist (p := fun d => !w.isStray d)).map _)
  have htasks :=
    hcoherent.once.sublist ((List.filter_sublist (p := fun t => t.status = .running)).map _)
  refine (List.perm_ext_iff_of_nodup hjobs htasks).mpr fun id => ?_
  simp only [List.mem_map, List.mem_filter, decide_eq_true_eq, Bool.not_eq_true']
  constructor
  · rintro ⟨d, ⟨hd, hstray⟩, rfl⟩
    obtain ⟨t, ht, hst⟩ := (hw.isStray_eq_false hd).mp hstray
    exact ⟨t, ⟨(hcoherent.task?_eq_some.mp ht).1, hst⟩, Scheduler.id_of_task? ht⟩
  · rintro ⟨t, ⟨ht, hst⟩, rfl⟩
    have htask : w.scheduler.task? t.id = some t := hcoherent.task?_eq_some.mpr ⟨ht, rfl⟩
    have hwork := ((hw.sound.lives t.id).standing t htask).running hst
    obtain ⟨d, hjob⟩ : ∃ d, w.jobsOf t.id = [d] := by
      rcases hw.sound.held htask with ⟨hsome, -⟩ | ⟨-, hjob⟩
      · simp [hwork] at hsome
      · exact hjob
    have hmem : d ∈ w.jobsOf t.id := hjob ▸ List.mem_singleton_self d
    obtain ⟨hd, hid⟩ : d ∈ w.jobs ∧ d.job.id = t.id := mem_jobsOf.mp hmem
    exact ⟨d, ⟨hd, (hw.isStray_eq_false hd).mpr ⟨t, hid ▸ htask, hst⟩⟩, hid⟩

/-- Every job is the one of a task that runs, or it strays. -/
theorem Reachable.inFlight_eq_running (hw : w.Reachable) :
    w.scheduler.inFlight = w.scheduler.tasks.countP (fun t => t.status = .running) +
      w.strays.length := by
  have hrunning := hw.running_perm.length_eq
  rw [List.length_map, List.length_map] at hrunning
  rw [hw.inFlight_eq, List.countP_eq_length_filter, ← hrunning, strays, Nat.add_comm]
  exact List.length_eq_length_filter_add w.isStray

end World

end Timetable
