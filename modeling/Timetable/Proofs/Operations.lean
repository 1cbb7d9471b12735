import Timetable.Proofs.Conservation
import Timetable.Proofs.Floor

/-!
# Steps made of operations

A step of a workshop is what its operations amount to when nothing comes between them: the functions
of the pool are runs on its floor. So whatever a workshop can get into, its floor can get into.
-/
namespace Timetable

variable {J : Type} {s s' : Workshop J} {m : Motion J}

namespace Pool

variable {p p' : Pool J} {n : Nat}

theorem Sound.worker?_eq (hp : p.Sound) {before after : List (Worker J)} {w : Worker J}
    (h : p.workers = before ++ w :: after) : p.worker? w.number = some w :=
  (find?_of_nodup hp.distinct).mpr ⟨by simp [h], rfl⟩

/-- Only an idle worker takes a job. -/
theorem take?_idle {k : Pickup J} (h : p.take? n = some k) :
    ∃ w before after, p.workers = before ++ w :: after ∧ w.job = none := by
  unfold take? at h
  split at h
  · rename_i hw _
    obtain ⟨-, before, after, hsplit⟩ := worker?_eq_some hw
    exact ⟨_, before, after, hsplit, rfl⟩
  · cases h

/-- A worker leaves when no job waits, and a core worker only when none will come. -/
theorem retire?_reason {w : Worker J} (hw : p.worker? n = some w) (h : p.retire? n = some p') :
    p.waiting = [] ∧ (w.role = .surplus ∨ p.isOpen = false) := by
  unfold retire? at h
  rw [hw] at h
  split at h
  · rename_i heq
    split at h
    · rename_i hreason
      obtain rfl := Option.some.inj heq
      simpa using hreason
    · cases h
  · cases h

end Pool

namespace Workshop

theorem unlocked_floor (s : Workshop J) : s.floor.Unlocked := by
  intro c hc
  obtain ⟨x, -, rfl⟩ := List.mem_map.mp hc
  cases x <;> rfl

theorem floor_calls {before after : List (Submission J)} {x : Submission J}
    (h : s.calls = before ++ x :: after) :
    s.floor.calls = before.map Submission.handing ++ x.handing :: after.map Submission.handing := by
  simp [floor, h]

theorem floor_hands {before after : List (Worker J)} {w : Worker J}
    (h : s.pool.workers = before ++ w :: after) :
    s.floor.hands = before.map Worker.hand ++ w.hand :: after.map Worker.hand := by
  simp [floor, h]

theorem floor_hands_of_idle {before after : List (Worker J)} {w : Worker J}
    (h : s.pool.workers = before ++ w :: after) (hidle : w.job = none) :
    s.floor.hands = before.map Worker.hand ++ ⟨w.number, w.role, .resting⟩ ::
      after.map Worker.hand := by
  rw [floor_hands h, Worker.hand, hidle]

theorem present_floor (n : Nat) : s.floor.Present n ↔ s.pool.worker? n ≠ none := by
  rw [ne_eq, Pool.worker?_eq_none, not_not, Floor.Present]
  simp [floor, Pool.numbers, Worker.hand]

theorem filter_handles (s : Workshop J) : (s.handles.filter (s.floor.Present ·)) =
    s.handles.filter fun n => (s.pool.worker? n).isSome :=
  List.filter_congr fun n _ => by cases h : s.pool.worker? n <;> simp [present_floor, h]

/-- A check for growth reads how many jobs are queued, then how many workers are idle, and takes the
last place before it hires. -/
theorem grow_operations {before after : List (Submission J)}
    (h : s.calls = before ++ .sent :: after) :
    s.floor.Leads
      (floor
        { s with pool := s.pool.grow, calls := before ++ (Submission.grown s.pool ++ after) }) := by
  have start : s.floor.Leads s.floor := .refl
  have measured := start.step (.proceed (floor_calls h) .measure)
  by_cases hidle : s.pool.counts.idle < s.pool.counts.queued
  · have pressed := measured.step (.proceed rfl (.press hidle))
    by_cases hlive : s.pool.counts.live < s.pool.config.maxSize.toNat
    · have reserved := pressed.step (.proceed rfl (.reserve hlive))
      have numbered := reserved.step (.number rfl)
      have readied := numbered.step (.proceed rfl (.ready _))
      have hired := readied.step (.hire rfl)
      have hgrow : s.pool.grow = s.pool.hire .surplus := if_pos ⟨hidle, hlive⟩
      simpa [floor, hgrow, Submission.grown, Pool.hire, Submission.handing, Worker.hand,
        PoolCounts.apply, PoolCounts.alter] using hired
    · have full := pressed.step (.finish rfl (.full (Nat.not_lt.mp hlive)))
      have hgrow : s.pool.grow = s.pool := if_neg fun hboth => hlive hboth.2
      simpa [floor, hgrow, Submission.grown, PoolCounts.apply] using full
  · have content := measured.step (.finish rfl (.content (Nat.not_lt.mp hidle)))
    have hgrow : s.pool.grow = s.pool := if_neg fun hboth => hidle hboth.1
    simpa [floor, hgrow, Submission.grown, PoolCounts.apply] using content

/-- A worker lowers two counts between receiving a job and beginning it. -/
theorem begin_operations (hp : s.pool.Sound) {n : Nat} {k : Pickup J} (h : s.pool.take? n = some k)
    (hb : k.begins = true) :
    s.floor.Leads (floor { s with pool := k.pool, begun := s.begun ++ [k.job] }) := by
  have start : s.floor.Leads s.floor := .refl
  obtain ⟨hflag, rest, before, w, after, hwait, hsplit, -, hidle, hk⟩ := hp.take?_begins h hb
  have hhands := floor_hands_of_idle hsplit hidle
  have received := start.step (.receive hhands hwait)
  have dequeued := received.step (.work rfl (.dequeue k.job))
  have roused := dequeued.step (.work rfl (.rouse k.job))
  have starting := roused.step (.work rfl (.proceed k.job hflag))
  have started := starting.step (.work rfl (.start k.job))
  simpa [floor, hk, Worker.hand, PoolCounts.apply, PoolCounts.alter] using started

/-- A worker that hands a job back is not idle while it does so. -/
theorem late_operations (hp : s.pool.Sound) {n : Nat} {k : Pickup J} (h : s.pool.take? n = some k)
    (hb : k.begins = false) :
    s.floor.Leads (floor { s with pool := k.pool, abandoned := s.abandoned ++ [k.job] }) := by
  have start : s.floor.Leads s.floor := .refl
  obtain ⟨hflag, rest, hwait, hk⟩ := Pool.take?_late h hb
  obtain ⟨w, before, after, hsplit, hidle⟩ := Pool.take?_idle h
  have hcount : s.pool.counts.idle - 1 + 1 = s.pool.counts.idle := by
    rw [hp.idle, Pool.idleWorkers, hsplit]
    simp [hidle]
    omega
  have hhands := floor_hands_of_idle hsplit hidle
  have received := start.step (.receive hhands hwait)
  have dequeued := received.step (.work rfl (.dequeue k.job))
  have roused := dequeued.step (.work rfl (.rouse k.job))
  have heeded := roused.step (.work rfl (.heed k.job hflag))
  have declined := heeded.step (.work rfl (.decline k.job))
  have rejoined := declined.step (.work rfl .rejoin)
  simpa [floor, hk, hsplit, hidle, Worker.hand, PoolCounts.apply, PoolCounts.alter, hcount]
    using rejoined

/-- A worker that leaves stops waiting before it is counted out. -/
theorem retire_operations (hp : s.pool.Sound) {n : Nat} {p : Pool J}
    (h : s.pool.retire? n = some p) :
    s.floor.Leads (floor { s with pool := p }) := by
  have start : s.floor.Leads s.floor := .refl
  obtain ⟨before, w, after, hsplit, rfl, hidle, rfl⟩ := hp.retire?_eq_some h
  obtain ⟨hwait, hrole⟩ := Pool.retire?_reason (hp.worker?_eq hsplit) h
  have hhands := floor_hands_of_idle hsplit hidle
  have left := start.step (.leave hhands hwait hrole)
  have withdrawn := left.step (.work rfl .withdraw)
  have departed := withdrawn.step (.depart rfl)
  simpa [floor, PoolCounts.apply, PoolCounts.alter] using departed

/-- A step of a workshop is a run on its floor. -/
theorem Step.operations (h : Step s m s') (hp : s.pool.Sound) : s.floor.Leads s'.floor := by
  have start : s.floor.Leads s.floor := .refl
  cases h with
  | offer job =>
    have offered := start.step (.offer job)
    simpa [floor, Submission.handing] using offered
  | @pass before after job h hflag =>
    have passed := start.step (.proceed (floor_calls h) (.pass job hflag))
    simpa [floor, Submission.handing, PoolCounts.apply] using passed
  | @refuse before after job h hflag =>
    have refused := start.step (.proceed (floor_calls h) (.refuse job hflag))
    have handed := refused.step (.finish rfl (.handBack job))
    simpa [floor, turnAway, Pool.reject, PoolCounts.apply] using handed
  | @post before after job p h hpost =>
    obtain ⟨hopen, rfl⟩ := Pool.post?_eq_some hpost
    have counted := start.step (.proceed (floor_calls h) (.count job s.unlocked_floor hopen))
    have sent := counted.step (.send rfl)
    have posted := sent.step (.proceed rfl .post)
    simpa [floor, Submission.handing, PoolCounts.apply, PoolCounts.alter] using posted
  | @bounce before after job h hpost =>
    have hclosed : s.pool.isOpen = false := by simpa [Pool.post?] using hpost
    have refused := start.step (.proceed (floor_calls h) (.bounce job s.unlocked_floor hclosed))
    have handed := refused.step (.finish rfl (.handBack job))
    simpa [floor, turnAway, Pool.reject, PoolCounts.apply] using handed
  | @grow before after h => exact grow_operations h
  | @register before after n h =>
    have registered := start.step (.register (floor_calls h))
    rw [show s.floor.handles = s.handles from rfl, filter_handles] at registered
    simpa [floor] using registered
  | begin h hb => exact begin_operations hp h hb
  | late h hb => exact late_operations hp h hb
  | complete hbusy h =>
    obtain ⟨before, w, after, job, hsplit, -, hw, -, rfl⟩ := hp.complete?_eq_some h
    have hhands : s.floor.hands =
        before.map Worker.hand ++ ⟨w.number, w.role, .executing job⟩ :: after.map Worker.hand := by
      rw [floor_hands hsplit, Worker.hand, hw]
    have ended := start.step (.work hhands (.finish job))
    have released := ended.step (.work rfl .release)
    have completed := released.step (.work rfl .complete)
    have rejoined := completed.step (.work rfl .rejoin)
    simpa [floor, Worker.hand, PoolCounts.apply, PoolCounts.alter] using rejoined
  | retire h => exact retire_operations hp h
  | raise h => exact start.step (.raise h)
  | close h => exact start.step (.close (by simp [floor, h, Closing.winding]) s.unlocked_floor)
  | drain h hdrain =>
    obtain ⟨rest, hwait, rfl⟩ := Pool.drain?_eq_some hdrain
    have drawn := start.step (.draw (by simp [floor, h, Closing.winding]) hwait)
    have struck := drawn.step (.strike rfl)
    have discarded := struck.step (.discard rfl)
    simpa [floor, h, Closing.winding, PoolCounts.apply, PoolCounts.alter] using discarded
  | collect h hempty => exact start.step (.collect (by simp [floor, h, Closing.winding]) hempty)
  | @join awaited h hgone =>
    have hclosing : s.floor.closing = .joining awaited := by simp [floor, h, Closing.winding]
    exact start.step (.join hclosing fun n hn => by simp [present_floor, hgone n hn])
  | @expire awaited h =>
    have hclosing : s.floor.closing = .joining awaited := by simp [floor, h, Closing.winding]
    exact start.step (.expire hclosing)
  | again h => exact start.step (.again h)

/-- A run of a workshop is a run on its floor. -/
theorem Run.floor {motions : List (Motion J)} (run : Run s motions s') (hs : s.Reachable) :
    s.floor.Leads s'.floor := by
  have hboth : s'.Reachable ∧ s.floor.Leads s'.floor := by
    induction run with
    | refl => exact ⟨hs, .refl⟩
    | step _ h ih => exact ⟨ih.1.step h, ih.2.trans (h.operations ih.1.sound.1.pool)⟩
  exact hboth.2

theorem Reachable.floor (hs : s.Reachable) : s.floor.Reachable := by
  obtain ⟨c, p, motions, hp, run⟩ := hs
  exact ⟨c, p, hp, run.floor (.opened hp)⟩

end Workshop

end Timetable
