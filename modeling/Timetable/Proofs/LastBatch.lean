import Mathlib.Algebra.GroupWithZero.Nat
import Mathlib.Data.Prod.Lex
import Timetable.Proofs.Return

/-!
# The last batch

A thread that delivers takes one batch after the other, and meanwhile the hooks that it calls may
publish more, as may all other threads. Whatever it does but the work of a hook brings it nearer to
the end: with an announcement there is one notice less, and between two announcements there are only
so many hooks to call and calls for delivery to come back, for those of its own hooks never wait.
What other threads do meanwhile leaves it where it is, unless they publish.
-/
namespace Timetable

namespace Outbox

variable {o o' : Outbox} {me t : Thread} {errands : List Errand}

/-- While a thread delivers nobody takes its place. -/
theorem run?_reach_of_deliverer {target : Nat} (h : o.run? me (.reach target) = some (o', errands))
    (hd : o.deliverer = some t) : o' = o ∧ errands = [] := by
  rcases run?_reach_eq_some h with ⟨ho, herrands, -⟩ | ⟨-, -, hnone⟩
  · exact ⟨ho, herrands⟩
  · rw [hd] at hnone
    cases hnone

/-- A thread that delivers waits for nobody. -/
theorem exists_run? (h : o.deliverer = some me) (e : Errand) :
    ∃ o' errands, o.run? me e = some (o', errands) := by
  cases e with
  | reach target =>
    by_cases hdone : target ≤ o.delivered
    · exact ⟨o, [], by simp [run?, turn, hdone]⟩
    · exact ⟨o, [], by simp [run?, turn, hdone, h]⟩
  | drain =>
    by_cases hempty : o.waiting.isEmpty
    · exact ⟨_, _, if_pos hempty⟩
    · exact ⟨_, _, if_neg hempty⟩
  | _ => exact ⟨_, _, rfl⟩

end Outbox

/-- How many steps a chore takes up to the next announcement, the work of a hook not counted. -/
def Chore.steps : Chore → Nat
  | .work => 0
  | .hook => 2
  | .guard => 1
  | .errand .deliver => 2
  | .errand (.reach _) => 1
  | .errand .drain => 1
  | .errand (.announce _) => 0
  | .errand (.credit _) => 1

namespace Crew

variable {c c' d : Crew} {t u : Thread} {l rest : List Chore}

/-! ## What is left of a delivery -/

/-- What a thread goes on with after its delivery. -/
def below : List Chore → List Chore
  | [] => []
  | .errand .drain :: rest => rest
  | _ :: rest => below rest

theorem below_cons {x : Chore} (hx : x ≠ .errand .drain) : below (x :: l) = below l := by
  cases x with
  | errand e =>
    cases e with
    | drain => exact absurd rfl hx
    | _ => rfl
  | _ => rfl

theorem below_append (hl : .errand .drain ∉ l) : below (l ++ rest) = below rest := by
  induction l with
  | nil => rfl
  | cons x l ih =>
    rw [List.mem_cons, not_or] at hl
    rw [List.cons_append, below_cons (Ne.symm hl.1), ih hl.2]

theorem below_works (more : Nat) : below (List.replicate more .work ++ l) = below l :=
  below_append fun h => by cases List.eq_of_mem_replicate h

/-- The errands of a batch on an agenda. -/
theorem map_batch (notices : List Notice) (size : Nat) (rest : List Chore) :
    (notices.map Errand.announce ++ [Errand.credit size, .drain]).map .errand ++ rest =
      batchChores notices size rest := by
  simp [batchChores, Function.comp_def]

theorem below_batch (notices : List Notice) (size : Nat) :
    below (batchChores notices size rest) = rest := by
  rw [batchChores, below_append (by simp)]
  rfl

theorem unannounced_append (l rest : List Chore) :
    unannounced (l ++ rest) = unannounced l ++ unannounced rest := by
  induction l with
  | nil => rfl
  | cons x l ih =>
    cases x with
    | errand e =>
      cases e with
      | announce n => exact congrArg (n :: ·) ih
      | _ => exact ih
    | _ => exact ih

theorem unannounced_works (n : Nat) : unannounced (List.replicate n .work) = [] :=
  (Idle.works (works_replicate n)).apart.none.1

theorem unannounced_hooks (n : Nat) : unannounced (List.replicate n .hook) = [] :=
  (Calling.hooks n).apart.none.1

theorem unannounced_batch (notices : List Notice) (size : Nat) (rest : List Chore) :
    unannounced (batchChores notices size rest) = notices ++ unannounced rest := by
  induction notices with
  | nil => rfl
  | cons n notices ih => exact congrArg (n :: ·) ih

theorem sum_steps_batch (notices : List Notice) (size : Nat) (rest : List Chore) :
    ((batchChores notices size rest).map Chore.steps).sum = (rest.map Chore.steps).sum + 2 := by
  induction notices with
  | nil =>
    change 1 + (1 + (rest.map Chore.steps).sum) = _
    omega
  | cons n notices ih => simpa [batchChores, Chore.steps] using ih

/-- A panic only takes chores away. -/
theorem unwind_suffix (l : List Chore) : unwind l <:+ l := by
  induction l with
  | nil => exact List.suffix_rfl
  | cons x l ih =>
    cases x with
    | guard => exact List.suffix_cons ..
    | _ => exact ih.trans (List.suffix_cons ..)

/-- What is left to a thread that delivers: notices to announce, and then steps up to the next
announcement. A batch that is not taken yet adds two of these, to give credit for it and to look
for another. -/
def remaining (c : Crew) (t : Thread) : Nat ×ₗ Nat :=
  toLex ((unannounced (c.agenda t)).length + c.outbox.waiting.length,
    ((c.agenda t).map Chore.steps).sum + 2 * c.outbox.waiting.length)

/-- What a delivery leaves behind when it is over: everything published is announced, the thread
goes on with what it has to do afterwards, and whoever publishes next delivers. -/
structure Cleared (c : Crew) (t : Thread) (rest : List Chore) : Prop where
  waiting : c.outbox.waiting = []
  delivered : c.outbox.delivered = c.outbox.published
  deliverer : c.outbox.deliverer = none
  notified : c.notified = c.published
  agenda : c.agenda t = rest
  next : ∀ (u : Thread) (notices : List Notice), notices ≠ [] →
    (c.outbox.publish notices).run? u (.reach (c.outbox.publish notices).published) =
      some ((c.outbox.publish notices).stepUp u, [.drain])

/-! ## Steps of the thread that delivers -/

namespace Sound

theorem agenda_ne_nil (hs : c.Sound) (hd : c.outbox.deliverer = some t) : c.agenda t ≠ [] :=
  List.ne_nil_of_mem ((hs.accounted.single t).mpr hd)

/-- A thread that delivers is never held up. -/
theorem exists_step (hs : c.Sound) (hd : c.outbox.deliverer = some t) : ∃ c', Step c t c' := by
  obtain ⟨x, l, hagenda⟩ := List.exists_cons_of_ne_nil (hs.agenda_ne_nil hd)
  cases x with
  | work => exact ⟨_, .work hagenda 0⟩
  | hook => exact ⟨_, .hook hagenda 0⟩
  | guard => exact ⟨_, .caught hagenda⟩
  | errand e =>
    by_cases hannounce : ∃ n, e = .announce n
    · obtain ⟨n, rfl⟩ := hannounce
      exact ⟨_, .announce hagenda 0⟩
    · obtain ⟨o, errands, ho⟩ := Outbox.exists_run? hd e
      exact ⟨_, .errand hagenda (fun n hn => hannounce ⟨n, hn⟩) ho⟩

/-- When nothing waits for a thread that looks for another batch, its delivery is over. -/
theorem cleared (hs : c.Sound) (h : c.agenda t = .errand .drain :: l)
    (hempty : c.outbox.waiting = []) :
    Cleared { c.give t l with outbox := c.outbox.stepDown } t l := by
  have hx := not_idle_errand (e := .drain) (by simp) (by simp)
  obtain ⟨-, notices, size, hdelivers, hfront⟩ := hs.front h hx
  cases hfront with
  | own _ _ _ hidle => exact absurd hidle (hx _)
  | drain =>
    have hpublished := hdelivers.published
    rw [hempty, List.append_nil, List.append_nil] at hpublished
    have hall : c.outbox.delivered = c.outbox.published := by
      rw [hs.count, hpublished]
      exact hdelivers.delivered
    refine ⟨hempty, hall, rfl, hpublished.symm, give_agenda .., fun u notices hne => ?_⟩
    have hlength := List.length_pos_iff.mpr hne
    have hmore : ¬ c.outbox.published + notices.length ≤ c.outbox.delivered := by omega
    simp [Outbox.run?, Outbox.turn, Outbox.publish, Outbox.stepDown, hmore]

/-- A hook that panics takes nothing of the delivery along. -/
theorem below_unwind (hs : c.Sound) (hd : c.outbox.deliverer = some t)
    (h : c.agenda t = .work :: l) :
    below (unwind l) = below l := by
  obtain ⟨own, tail, hown, rfl, hfree⟩ := hs.free h (.inl rfl)
  cases hfree with
  | apart hne => exact absurd hd hne
  | inside =>
    rw [hown.unwind, below_append fun hmem => by cases hown _ hmem]
    rfl

end Sound

/-- A thread that delivers goes on with its delivery, or the delivery is over. -/
theorem Step.goes_on (h : Step c t c') (hs : c.Sound) (hd : c.outbox.deliverer = some t) :
    (c'.outbox.deliverer = some t ∧ below (c'.agenda t) = below (c.agenda t)) ∨
      Cleared c' t (below (c.agenda t)) := by
  cases h with
  | takeUp h => exact absurd h (hs.agenda_ne_nil hd)
  | work h more => exact .inl ⟨hd, by rw [give_agenda, below_works, h]; rfl⟩
  | publish h notices more =>
    refine .inl ⟨hd, ?_⟩
    change below ((c.give t _).agenda t) = _
    rw [give_agenda, h, List.cons_append, below_cons (by simp), below_works]
    rfl
  | panic h => exact .inl ⟨hd, by rw [give_agenda, hs.below_unwind hd h, h]; rfl⟩
  | hook h more => exact .inl ⟨hd, by rw [give_agenda, below_works, h]; rfl⟩
  | caught h => exact .inl ⟨hd, by rw [give_agenda, h]; rfl⟩
  | announce h audience =>
    refine .inl ⟨hd, ?_⟩
    change below ((c.give t _).agenda t) = _
    rw [give_agenda, h, below_append fun hmem => by cases List.eq_of_mem_replicate hmem]
    rfl
  | @errand e l o errands h hquiet ho =>
    have hagenda (o : Outbox) (chores : List Chore) :
        { c.give t chores with outbox := o }.agenda t = chores :=
      give_agenda ..
    rw [hagenda, h]
    cases e with
    | deliver | credit =>
      cases ho
      exact .inl ⟨hd, rfl⟩
    | reach target =>
      obtain ⟨rfl, rfl⟩ := Outbox.run?_reach_of_deliverer ho hd
      exact .inl ⟨hd, rfl⟩
    | drain =>
      rcases Outbox.run?_drain_eq_some ho with ⟨hempty, rfl, rfl⟩ | ⟨-, rfl, rfl⟩
      · exact .inr (hs.cleared h hempty)
      · refine .inl ⟨hd, ?_⟩
        rw [map_batch, below_batch]
        rfl
    | announce n => exact absurd rfl (hquiet n)

/-- The work of a hook that calls nobody adds nothing to what is left. -/
theorem Step.remaining_le (h : Step c t c') (hwork : (c.agenda t).head? = some .work)
    (hcall : (c'.agenda t).head? ≠ some (.errand .deliver)) : c'.remaining t ≤ c.remaining t := by
  rw [remaining, remaining]
  apply Prod.Lex.toLex_mono
  cases h with
  | work h more => simp [h, unannounced_append, unannounced_works, unannounced, Chore.steps]
  | publish h notices more =>
    change ((c.give t _).agenda t).head? ≠ _ at hcall
    simp at hcall
  | @panic rest h =>
    obtain ⟨dropped, hrest⟩ := unwind_suffix rest
    rw [give_agenda, h]
    generalize unwind rest = left at hrest ⊢
    subst hrest
    simp [unannounced_append, unannounced, Chore.steps]
  | takeUp h | hook h | caught h | announce h | errand h => simp [h] at hwork

/-- With every step but the work of a hook less is left to a thread that delivers. -/
theorem Step.remaining_lt (h : Step c t c') (hs : c.Sound) (hd : c.outbox.deliverer = some t)
    (hwork : (c.agenda t).head? ≠ some .work) (hd' : c'.outbox.deliverer = some t) :
    c'.remaining t < c.remaining t := by
  rw [remaining, remaining, Prod.Lex.toLex_lt_toLex]
  cases h with
  | takeUp h => exact absurd h (hs.agenda_ne_nil hd)
  | work h | publish h | panic h => simp [h] at hwork
  | hook h more =>
    right
    simp [h, unannounced_append, unannounced_works, unannounced, Chore.steps]
  | caught h =>
    right
    simp [h, unannounced, Chore.steps]
  | announce h audience =>
    left
    simp [h, unannounced_append, unannounced_hooks, unannounced]
  | @errand e l o errands h hquiet ho =>
    right
    cases e with
    | deliver | credit =>
      cases ho
      simp [h, unannounced, Chore.steps, Outbox.credit]
    | reach target =>
      obtain ⟨rfl, rfl⟩ := Outbox.run?_reach_of_deliverer ho hd
      simp [h, unannounced, Chore.steps]
    | drain =>
      rcases Outbox.run?_drain_eq_some ho with ⟨-, rfl, -⟩ | ⟨hne, rfl, rfl⟩
      · cases hd'
      · have hlength := List.length_pos_iff.mpr hne
        rw [map_batch]
        simp only [give_agenda, h, unannounced_batch, unannounced, sum_steps_batch,
          List.length_append, List.length_nil, List.map_cons, List.sum_cons, Chore.steps]
        omega
    | announce n => exact absurd rfl (hquiet n)

/-! ## Steps of other threads -/

/-- What others do leaves a thread that delivers where it was, and what waits for it too if they
publish nothing. -/
structure Undisturbed (t : Thread) (c c' : Crew) : Prop where
  deliverer : c'.outbox.deliverer = c.outbox.deliverer
  agenda : c'.agenda t = c.agenda t
  delivered : c'.outbox.delivered = c.outbox.delivered
  waiting : c'.published = c.published → c'.outbox.waiting = c.outbox.waiting

theorem Undisturbed.remaining (h : Undisturbed t c c') (hpublished : c'.published = c.published) :
    c'.remaining t = c.remaining t := by
  rw [Crew.remaining, Crew.remaining, h.agenda, h.waiting hpublished]

theorem Step.undisturbed (h : Step c u c') (hu : u ≠ t) (hs : c.Sound)
    (hd : c.outbox.deliverer = some t) :
    Undisturbed t c c' := by
  have hagenda := h.agenda_of_ne hu.symm
  -- batches are taken, and credit is given for them, by the thread that delivers
  have hfront {e : Errand} {l : List Chore} (h : c.agenda u = .errand e :: l)
      (he : ∀ own, ¬ Idle (.errand e :: own)) : False :=
    hu (Option.some.inj ((hs.front h he).1.symm.trans hd))
  cases h with
  | publish h notices more =>
    refine ⟨rfl, hagenda, rfl, fun heq => ?_⟩
    obtain rfl : notices = [] := by simpa using heq
    exact List.append_nil _
  | @errand e l o errands h hquiet ho =>
    cases e with
    | deliver =>
      cases ho
      exact ⟨rfl, hagenda, rfl, fun _ => rfl⟩
    | reach target =>
      obtain ⟨rfl, rfl⟩ := Outbox.run?_reach_of_deliverer ho hd
      exact ⟨rfl, hagenda, rfl, fun _ => rfl⟩
    | drain | credit => exact (hfront h (not_idle_errand (by simp) (by simp))).elim
    | announce n => exact absurd rfl (hquiet n)
  | _ => exact ⟨rfl, hagenda, rfl, fun _ => rfl⟩

end Crew

end Timetable
