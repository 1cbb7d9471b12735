import Timetable.Proofs.PoolBounds
import Timetable.Proofs.WindingDown

/-!
# One call at a time, one worker

When the calls that submit jobs come one after the other, the jobs get into the channel in the order
in which they are offered. When a pool may have one worker only, that worker is at rest whenever it
takes a job.
-/
namespace Timetable

variable {J : Type}

/-- The job of a call that has read the flag. -/
def Submission.admitted? : Submission J → Option J
  | admitted job => some job
  | entered _ | sent | hired _ => none

namespace Workshop

variable {s s' : Workshop J} {m : Motion J}

/-- One call at most is under way, and what gets into the channel is what was offered first. -/
structure Serial (s : Workshop J) : Prop where
  single : s.calls.length ≤ 1
  sent : s.accepted ++ s.calls.filterMap Submission.admitted? <+: s.offered
  /-- Before a shutdown nothing is turned away. -/
  all : s.pool.isStopping = false → s.offered = s.accepted ++ s.calls.filterMap Submission.job?

theorem Serial.opened (p : Pool J) : (Workshop.opened p).Serial where
  single := Nat.zero_le _
  sent := List.nil_prefix
  all _ := rfl

/-- The one call is the only one. -/
theorem Serial.calls_eq (hs : s.Serial) {before after : List (Submission J)} {c : Submission J}
    (h : s.calls = before ++ c :: after) : before = [] ∧ after = [] :=
  eq_nil_of_length_le_one h hs.single

/-- A step that leaves the calls alone. -/
theorem Serial.keep (hs : s.Serial) (hcalls : s'.calls = s.calls)
    (haccepted : s'.accepted = s.accepted) (hoffered : s'.offered = s.offered)
    (hflag : s.pool.isStopping = true → s'.pool.isStopping = true) :
    s'.Serial where
  single := hcalls ▸ hs.single
  sent := by
    rw [hcalls, haccepted, hoffered]
    exact hs.sent
  all hgoing := by
    have hbefore : s.pool.isStopping = false := by
      by_contra hne
      exact absurd (hgoing.symm.trans (hflag (by simpa using hne))) (by decide)
    rw [hcalls, haccepted, hoffered]
    exact hs.all hbefore

/-- A call that turns its job away, or that no longer holds one, comes nearer to its end. -/
theorem Serial.ended (hs : s.Serial) (hsingle : s'.calls.length ≤ 1)
    (hcalls : s'.calls.filterMap Submission.job? = []) (haccepted : s'.accepted = s.accepted)
    (hoffered : s'.offered = s.offered)
    (hall : s'.pool.isStopping = false → s.pool.isStopping = false ∧
      s.calls.filterMap Submission.job? = []) :
    s'.Serial where
  single := hsingle
  sent := by
    have hnone : s'.calls.filterMap Submission.admitted? = [] := by
      refine List.filterMap_eq_nil_iff.mpr fun c hc => ?_
      have hjob := List.filterMap_eq_nil_iff.mp hcalls c hc
      cases c with
      | admitted => cases hjob
      | entered | sent | hired => rfl
    rw [hnone, haccepted, hoffered, List.append_nil]
    exact (List.prefix_append _ _).trans hs.sent
  all hgoing := by
    obtain ⟨hbefore, hnone⟩ := hall hgoing
    have hoffered' := hs.all hbefore
    rw [hnone] at hoffered'
    rw [hcalls, haccepted, hoffered, hoffered']

/-- No call begins while another one is under way. -/
theorem Step.serial (h : Step s m s') (hr : s.Reachable) (hs : s.Serial)
    (hone : ∀ job, m = .offer job → s.calls = []) : s'.Serial := by
  have hflag := h.stays_stopping hr
  cases h with
  | offer job =>
    have hcalls := hone job rfl
    have hsent := hs.sent
    have hall := hs.all
    rw [hcalls] at hsent hall
    refine ⟨by simp [hcalls], ?_, fun hgoing => ?_⟩
    · simp only [hcalls, List.nil_append, List.filterMap_cons, Submission.admitted?,
        List.filterMap_nil, List.append_nil] at hsent ⊢
      exact hsent.trans (List.prefix_append _ _)
    · simp [hcalls, hall hgoing, Submission.job?]
  | @pass before after job h hgoing =>
    obtain ⟨rfl, rfl⟩ := hs.calls_eq h
    have hall := hs.all hgoing
    rw [h] at hall
    refine ⟨by simp, ?_, fun _ => hall⟩
    rw [hall]
    exact List.prefix_refl _
  | @refuse before after job h hstopping =>
    obtain ⟨rfl, rfl⟩ := hs.calls_eq h
    exact hs.ended (by simp [turnAway]) rfl rfl rfl fun hgoing =>
      absurd (hstopping.symm.trans hgoing) (by decide)
  | @bounce before after job h hclosed =>
    obtain ⟨rfl, rfl⟩ := hs.calls_eq h
    have hshut : s.pool.isOpen = false := by simpa [Pool.post?] using hclosed
    have hstopping : s.pool.isStopping = true := hr.floor.sound.staged.shut hshut
    exact hs.ended (by simp [turnAway]) rfl rfl rfl fun hgoing =>
      absurd (hstopping.symm.trans hgoing) (by decide)
  | @post before after job p h hpost =>
    obtain ⟨rfl, rfl⟩ := hs.calls_eq h
    obtain ⟨-, rfl⟩ := Pool.post?_eq_some hpost
    have hsent := hs.sent
    have hall := hs.all
    rw [h] at hsent hall
    refine ⟨by simp, ?_, fun hgoing => ?_⟩
    · show s.accepted ++ [job] ++ [] <+: s.offered
      rw [List.append_nil]
      exact hsent
    · show s.offered = s.accepted ++ [job] ++ []
      rw [List.append_nil]
      exact hall hgoing
  | @grow before after h =>
    obtain ⟨rfl, rfl⟩ := hs.calls_eq h
    rw [List.nil_append, List.append_nil] at *
    have hhired : (Submission.grown s.pool).length ≤ 1 ∧
        (Submission.grown s.pool).filterMap Submission.job? = [] := by
      rw [Submission.grown]
      split <;> simp [Submission.job?]
    have hsame : s.pool.grow.isStopping = s.pool.isStopping := by
      rcases s.pool.grow_cases with hg | hg
      · rw [hg]
        rfl
      · rw [hg]
    exact hs.ended hhired.1 hhired.2 rfl rfl fun hgoing =>
      ⟨hsame ▸ hgoing, by simp [h, Submission.job?]⟩
  | @register before after n h =>
    obtain ⟨rfl, rfl⟩ := hs.calls_eq h
    exact hs.ended (by simp) rfl rfl rfl fun hgoing => ⟨hgoing, by simp [h, Submission.job?]⟩
  | _ => exact hs.keep rfl rfl rfl hflag

/-! ## The size of the pool -/

theorem Step.config (h : Step s m s') (hr : s.Reachable) : s'.pool.config = s.pool.config :=
  (h.operations hr.sound.1.pool).config_eq

theorem Reachable.workers_le (hr : s.Reachable) :
    s.pool.workers.length ≤ s.pool.config.maxSize.toNat := by
  have hlimit := hr.floor.sound.limit
  rw [← hr.sound.1.pool.live]
  exact hlimit

/-- The one worker of a pool has nothing to do when it takes a job. -/
theorem Reachable.engaged_of_take (hr : s.Reachable) (hone : s.pool.config.maxSize = 1) {n : Nat}
    {k : Pickup J} (h : s.pool.take? n = some k) (hb : k.begins = true) : s.pool.engaged = [] := by
  obtain ⟨-, rest, before, w, after, -, hworkers, -, hidle, -⟩ := hr.sound.1.pool.take?_begins h hb
  have hle := hr.workers_le
  rw [hone, UInt64.toNat_one] at hle
  obtain ⟨rfl, rfl⟩ := eq_nil_of_length_le_one hworkers hle
  simp [Pool.engaged, hworkers, hidle]

end Workshop

end Timetable
