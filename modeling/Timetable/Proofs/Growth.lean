import Timetable.Proofs.OneWorker
import Timetable.Proofs.PoolBounds

/-!
# A pool grows in time

Every job that is sent is followed by a check for growth, and until that check is made the job may
wait although every worker is busy. So the jobs that wait are never more than the idle workers and
the checks still to come together, unless the pool has as many workers as it may have. A worker that
takes a job lowers both sides, and one that leaves finds nobody waiting.
-/
namespace Timetable

variable {J : Type}

namespace Pool

variable {p p' : Pool J} {n number : Nat} {job : J}

/-- Every job that waits has an idle worker or one of so many checks still to come, or there are no
more workers to have. -/
def Backed (p : Pool J) (checks : Nat) : Prop :=
  p.counts.queued ≤ p.counts.idle + checks ∨ p.counts.live = p.config.maxSize.toNat

theorem Backed.post? (hp : p.Backed n) (h : p.post? job = some p') : p'.Backed (n + 1) := by
  obtain ⟨-, rfl⟩ := post?_eq_some h
  exact hp.imp_left fun hfew => by simpa [← Nat.add_assoc] using hfew

/-- A check settles for one job: it finds enough idle workers, or it hires one, or it may not. -/
theorem Backed.grow (hp : p.Backed (n + 1)) (hlimit : p.counts.live ≤ p.config.maxSize.toNat) :
    p.grow.Backed n := by
  rw [Pool.grow]
  split
  · rename_i hroom
    have hfew := hp.resolve_right (Nat.ne_of_lt hroom.2)
    left
    show p.counts.queued ≤ p.counts.idle + 1 + n
    omega
  · rename_i hroom
    rcases Nat.lt_or_ge p.counts.idle p.counts.queued with hmore | hfew
    · have hfull : p.config.maxSize.toNat ≤ p.counts.live :=
        Nat.le_of_not_lt fun hlive => hroom ⟨hmore, hlive⟩
      exact .inr (Nat.le_antisymm hlimit hfull)
    · exact .inl (Nat.le_add_right_of_le hfew)

/-- A worker that takes a job was idle. -/
theorem Backed.begins (hp : p.Backed n) (hs : p.Sound) {k : Pickup J} (h : p.take? number = some k)
    (hb : k.begins = true) : k.pool.Backed n := by
  obtain ⟨-, rest, before, w, after, -, hsplit, -, hidle, hk⟩ := hs.take?_begins h hb
  have hone : 1 ≤ p.counts.idle := by
    rw [hs.idle, idleWorkers, hsplit, List.length_map]
    exact List.length_pos_of_mem (a := w) (by simp [hidle])
  rw [hk]
  refine hp.imp_left fun hfew => ?_
  show p.counts.queued - 1 ≤ p.counts.idle - 1 + n
  omega

theorem Backed.completes (hp : p.Backed n) (hs : p.Sound) (h : p.complete? number = some p') :
    p'.Backed n := by
  obtain ⟨before, w, after, job, -, -, -, -, rfl⟩ := hs.complete?_eq_some h
  refine hp.imp_left fun hfew => ?_
  show p.counts.queued ≤ p.counts.idle + 1 + n
  omega

/-- A worker that leaves finds nobody waiting. -/
theorem Backed.of_retires (hs : p.Sound) (h : p.retire? number = some p') : p'.Backed n := by
  obtain ⟨before, w, after, hsplit, rfl, -, rfl⟩ := hs.retire?_eq_some h
  obtain ⟨hwait, -⟩ := retire?_reason (hs.worker?_eq hsplit) h
  have hnone : p.counts.queued = 0 := by rw [hs.queued, hwait, List.length_nil]
  exact .inl (by simp [hnone])

theorem Backed.drain? (hp : p.Backed n) (h : p.drain? = some (job, p')) : p'.Backed n := by
  obtain ⟨rest, -, rfl⟩ := drain?_eq_some h
  exact hp.imp_left fun hfew => Nat.le_trans (Nat.sub_le ..) hfew

/-- An idle worker can take the oldest job. -/
theorem Sound.exists_take? (hs : p.Sound) (hflag : p.isStopping = false) {rest : List J}
    (hwait : p.waiting = job :: rest)
    (hn : number ∈ p.idleWorkers) :
    ∃ k, p.take? number = some k ∧ k.job = job ∧ k.begins = true := by
  obtain ⟨w, hw, rfl⟩ := List.mem_map.mp hn
  obtain ⟨hmem, hidle⟩ := List.mem_filter.mp hw
  obtain ⟨number, role, work⟩ := w
  obtain rfl : work = none := by simpa using hidle
  have hfind : p.worker? number = some ⟨number, role, none⟩ :=
    (find?_of_nodup hs.distinct).mpr ⟨hmem, rfl⟩
  rw [take?, hfind, hwait, hflag]
  exact ⟨_, rfl, rfl, rfl⟩

end Pool

/-- Whether a call has sent its job and has still to check for growth. -/
def Submission.isSent : Submission J → Bool
  | sent => true
  | _ => false

namespace Workshop

variable {s s' : Workshop J} {m : Motion J}

/-- How many checks for growth are still to come. -/
def checks (s : Workshop J) : Nat := s.calls.countP Submission.isSent

/-- A call in its place changes the number of checks by what it has still to do itself. -/
theorem checks_of_calls {before after : List (Submission J)} {x : Submission J}
    (h : s.calls = before ++ x :: after) :
    s.checks = (before ++ after).countP Submission.isSent + (if x.isSent then 1 else 0) := by
  simp only [checks, h, List.countP_append, List.countP_cons]
  omega

theorem Step.backed (h : Step s m s') (hs : s.Reachable) (hflag : s'.pool.isStopping = false)
    (hb : s.pool.Backed s.checks) : s'.pool.Backed s'.checks := by
  have hp := hs.sound.1.pool
  cases h with
  | offer job => simpa [checks, Submission.isSent] using hb
  | pass h | register h =>
    rw [checks_of_calls h] at hb
    simpa [checks, Submission.isSent] using hb
  | refuse h | bounce h =>
    rw [checks_of_calls h] at hb
    exact hb
  | post h hpost =>
    rw [checks_of_calls h] at hb
    rw [checks_of_calls rfl]
    exact Pool.Backed.post? hb hpost
  | @grow before after h =>
    have hgrown : (Submission.grown s.pool).countP Submission.isSent = 0 := by
      rw [Submission.grown]
      split <;> rfl
    have hchecks : (before ++ (Submission.grown s.pool ++ after)).countP Submission.isSent =
        (before ++ after).countP Submission.isSent := by
      simp [hgrown]
    rw [checks_of_calls h] at hb
    rw [checks, hchecks]
    exact Pool.Backed.grow hb hs.floor.sound.limit
  | begin h hbegins => exact hb.begins hp h hbegins
  | late h hbegins =>
    obtain ⟨hstopping, rest, -, hk⟩ := Pool.take?_late h hbegins
    rw [hk] at hflag
    exact absurd (hstopping.symm.trans hflag) (by decide)
  | complete _ h => exact hb.completes hp h
  | retire h => exact .of_retires hp h
  | raise => cases hflag
  | close | collect | join | expire | again => exact hb
  | drain _ h => exact hb.drain? h

/-- However many calls submit jobs at a time, the jobs that wait are covered by the idle workers and
the checks still to come. -/
theorem Reachable.backed (hs : s.Reachable) (hflag : s.pool.isStopping = false) :
    s.pool.Backed s.checks := by
  obtain ⟨c, p, motions, hp, run⟩ := hs
  induction run with
  | refl =>
    have hnone : p.counts.queued = 0 := by
      rw [(Pool.create_new hp).queued, (Pool.create_new hp).waiting, List.length_nil]
    exact .inl (hnone ▸ Nat.zero_le _)
  | step run h ih =>
    have hbefore : Reachable _ := ⟨c, p, _, hp, run⟩
    refine h.backed hbefore hflag (ih ?_)
    by_contra hraised
    have hstays := h.stays_stopping hbefore (eq_true_of_ne_false hraised)
    exact absurd (hstays.symm.trans hflag) (by decide)

/-- No job waits behind busy workers while the pool could have more of them. -/
structure Grown (s : Workshop J) : Prop where
  backed : s.pool.counts.queued ≤ s.pool.counts.idle ∨
    s.pool.counts.live = s.pool.config.maxSize.toNat
  /-- Below the maximum every job that waits has an idle worker to itself. -/
  manned : s.pool.counts.live < s.pool.config.maxSize.toNat →
    s.pool.waiting.length ≤ s.pool.idleWorkers.length
  /-- Below the maximum some worker can begin the oldest job, and so can every idle one. -/
  ready : s.pool.counts.live < s.pool.config.maxSize.toNat → ∀ job rest,
    s.pool.waiting = job :: rest →
    s.pool.idleWorkers ≠ [] ∧ ∀ n ∈ s.pool.idleWorkers, ∃ s', Step s (.begin n job) s'

/-- Before a shutdown, in every moment at which no check for growth is still to come, the pool has
grown as far as it had to. -/
theorem Reachable.grows_in_time (hs : s.Reachable) (hflag : s.pool.isStopping = false)
    (hchecks : Submission.sent ∉ s.calls) : s.Grown := by
  have hp := hs.sound.1.pool
  have hnone : s.checks = 0 := by
    refine List.countP_eq_zero.mpr fun x hx => ?_
    cases x with
    | sent => exact absurd hx hchecks
    | entered | admitted | hired => simp [Submission.isSent]
  have hbacked : s.pool.counts.queued ≤ s.pool.counts.idle ∨
      s.pool.counts.live = s.pool.config.maxSize.toNat := by
    have := hs.backed hflag
    rwa [hnone] at this
  have hmanned (hroom : s.pool.counts.live < s.pool.config.maxSize.toNat) :
      s.pool.waiting.length ≤ s.pool.idleWorkers.length := by
    rw [← hp.queued, ← hp.idle]
    exact hbacked.resolve_right (Nat.ne_of_lt hroom)
  refine ⟨hbacked, hmanned, fun hroom job rest hwait => ⟨fun hempty => ?_, fun n hn => ?_⟩⟩
  · have := hmanned hroom
    rw [hwait, hempty] at this
    exact absurd this (Nat.not_succ_le_zero _)
  · obtain ⟨k, hk, rfl, hbegins⟩ := hp.exists_take? hflag hwait hn
    exact ⟨_, .begin hk hbegins⟩

/-- One worker is busy, and the two jobs sent after it have each had a worker hired, although both
were sent before the first check was made. -/
theorem grows_for_both : ∃ s : Workshop Nat, s.Reachable ∧ s.pool.counts.live = 3 ∧
    s.pool.counts.active = 1 ∧ s.pool.waiting = [2, 3] ∧ s.Grown := by
  have opened := Reachable.opened (J := Nat) (c := sampleConfig 4) rfl
  have first := opened.submit 1 rfl rfl
  have begun := first.step (@Step.begin _ _ 0 _ rfl rfl)
  have second := begun.step (.offer 2)
  have admitted := second.step (@Step.pass _ _ [] [] 2 rfl rfl)
  have posted := admitted.step (@Step.post _ _ [] [] 2 _ rfl rfl)
  have third := posted.step (.offer 3)
  have passed := third.step (@Step.pass _ _ [.sent] [] 3 rfl rfl)
  have sent := passed.step (@Step.post _ _ [.sent] [] 3 _ rfl rfl)
  have grown := sent.step (@Step.grow _ _ [] [.sent] rfl)
  have again := grown.step (@Step.grow _ _ [.hired 1] [] rfl)
  refine ⟨_, again, rfl, rfl, rfl, again.grows_in_time rfl ?_⟩
  show Submission.sent ∉ [Submission.hired 1, Submission.hired 2]
  simp

end Workshop

end Timetable
