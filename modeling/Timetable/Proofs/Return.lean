import Timetable.Proofs.Delivery

/-!
# When a call for delivery returns

A call notes how many notices are published when it begins. It returns when credit is given for so
many, so that the hooks of the last one have run too, or when its thread has delivered until nothing
waited. Only a hook's call returns at once: the delivery that called the hook goes on after it.
-/
namespace Timetable.Crew

variable {c c' : Crew} {me : Thread} {rest : List Chore}

/-- The step of a thread with an errand. -/
theorem Step.of_errand (h : Step c me c') {e : Errand} (hagenda : c.agenda me = .errand e :: rest)
    (hquiet : ∀ n, e ≠ .announce n) :
    ∃ o errands, c.outbox.run? me e = some (o, errands) ∧
      c' = { c.give me (errands.map .errand ++ rest) with outbox := o } := by
  cases h with
  | @errand e' rest' o errands h _ ho =>
    obtain ⟨he, rfl⟩ := List.cons.inj (hagenda.symm.trans h)
    obtain rfl := Chore.errand.inj he
    exact ⟨o, errands, ho, rfl⟩
  | announce h =>
    obtain ⟨he, -⟩ := List.cons.inj (hagenda.symm.trans h)
    exact absurd (Chore.errand.inj he) (hquiet _)
  | takeUp h | work h | publish h | panic h | hook h | caught h => cases hagenda.symm.trans h

/-- A thread delivers until credit is given for everything published. -/
theorem Step.stepsDown (h : Step c me c') (hs : c.Sound) {t : Thread}
    (hd : c.outbox.deliverer = some t) :
    c'.outbox.deliverer = some t ∨ c'.outbox.delivered = c'.published.length := by
  cases h with
  | @errand e rest o errands h hquiet ho =>
    cases e with
    | deliver =>
      obtain ⟨rfl, rfl⟩ := Prod.mk.inj (Option.some.inj ho)
      exact .inl hd
    | reach target =>
      rcases Outbox.run?_reach_eq_some ho with ⟨rfl, -, -⟩ | ⟨-, -, hnone⟩
      · exact .inl hd
      · rw [hd] at hnone
        cases hnone
    | drain =>
      have hx := not_idle_errand (e := .drain) (by simp) (by simp)
      obtain ⟨-, notices, size, hdelivers, hfront⟩ := hs.front h hx
      rcases Outbox.run?_drain_eq_some ho with ⟨hempty, rfl, -⟩ | ⟨-, rfl, -⟩
      · cases hfront with
        | own _ _ _ hidle => exact absurd hidle (hx _)
        | drain =>
          have hpublished := hdelivers.published
          rw [hempty, List.append_nil, List.append_nil] at hpublished
          right
          rw [give_published, hpublished]
          exact hdelivers.delivered
      · exact .inl hd
    | announce n => exact absurd rfl (hquiet n)
    | credit size =>
      obtain ⟨rfl, rfl⟩ := Prod.mk.inj (Option.some.inj ho)
      exact .inl hd
  | _ => exact .inl hd

/-- A thread becomes the one that delivers by a step of its own. -/
theorem Step.not_deliverer (h : Step c me c') {t : Thread} (ht : t ≠ me)
    (hd : c.outbox.deliverer ≠ some t) : c'.outbox.deliverer ≠ some t := by
  cases h with
  | @errand e rest o errands h hquiet ho =>
    cases e with
    | reach target =>
      rcases Outbox.run?_reach_eq_some ho with ⟨rfl, -, -⟩ | ⟨rfl, -, -⟩
      · exact hd
      · exact fun e => ht (Option.some.inj e).symm
    | drain =>
      rcases Outbox.run?_drain_eq_some ho with ⟨-, rfl, -⟩ | ⟨-, rfl, -⟩
      · exact fun e => by cases e
      · exact hd
    | announce n => exact absurd rfl (hquiet n)
    | _ =>
      obtain ⟨rfl, rfl⟩ := Prod.mk.inj (Option.some.inj ho)
      exact hd
  | _ => exact hd

/-- How a thread stands that called for the delivery of some notices, with this to do afterwards: it
has not looked yet, it waits, it delivers, or credit is given for them. -/
inductive Awaits (c : Crew) (t : Thread) (notices : List Notice) (rest : List Chore) : Prop
  | calling (hd : c.outbox.deliverer ≠ some t) (h : c.agenda t = .errand .deliver :: rest)
  | waiting (hd : c.outbox.deliverer ≠ some t) {target : Nat} (htarget : notices.length ≤ target)
    (h : c.agenda t = .errand (.reach target) :: rest)
  | delivering (hd : c.outbox.deliverer = some t)
  | credited (h : notices.length ≤ c.outbox.delivered)

theorem Sound.delivered_le (hs : c.Sound) : c.outbox.delivered ≤ c.notified.length := by
  cases hd : c.outbox.deliverer with
  | none => exact Nat.le_of_eq (hs.rests hd).delivered
  | some t =>
    obtain ⟨notices, size, hdelivers⟩ := hs.delivers t hd
    have hfits := hdelivers.fits
    have hdelivered := hdelivers.delivered
    omega

theorem Sound.notified_prefix (hs : c.Sound) : c.notified <+: c.published := by
  rw [hs.accounted.order, List.append_assoc]
  exact List.prefix_append ..

theorem Step.delivered_le (h : Step c me c') : c.outbox.delivered ≤ c'.outbox.delivered := by
  cases h with
  | @errand e rest o errands h hquiet ho =>
    cases e with
    | reach target =>
      rcases Outbox.run?_reach_eq_some ho with ⟨rfl, -, -⟩ | ⟨rfl, -, -⟩ <;> exact Nat.le_refl _
    | drain =>
      rcases Outbox.run?_drain_eq_some ho with ⟨-, rfl, -⟩ | ⟨-, rfl, -⟩ <;> exact Nat.le_refl _
    | deliver =>
      cases ho
      exact Nat.le_refl _
    | credit size =>
      cases ho
      exact Nat.le_add_right ..
    | announce n => exact absurd rfl (hquiet n)
  | _ => exact Nat.le_refl _

/-- A step takes a thread nearer to the end of its call. -/
theorem Step.awaits (h : Step c me c') (hs : c.Sound) {t : Thread} {notices : List Notice}
    (hpublished : notices <+: c.published) (ha : c.Awaits t notices rest) :
    c'.Awaits t notices rest := by
  cases ha with
  | calling hd hagenda =>
    by_cases ht : t = me
    · subst ht
      obtain ⟨o, errands, ho, rfl⟩ := h.of_errand hagenda (by simp)
      obtain ⟨rfl, rfl⟩ := Prod.mk.inj (Option.some.inj ho)
      have htarget : notices.length ≤ c.outbox.published := hs.count ▸ hpublished.length_le
      exact .waiting hd htarget (by simp)
    · exact .calling (h.not_deliverer ht hd) ((h.agenda_of_ne ht).trans hagenda)
  | @waiting hd target htarget hagenda =>
    by_cases ht : t = me
    · subst ht
      obtain ⟨o, errands, ho, rfl⟩ := h.of_errand hagenda (by simp)
      rcases Outbox.run?_reach_eq_some ho with ⟨rfl, rfl, hreached⟩ | ⟨rfl, rfl, -⟩
      · have hdone : target ≤ c.outbox.delivered := hreached.resolve_right hd
        exact .credited (Nat.le_trans htarget hdone)
      · exact .delivering rfl
    · exact .waiting (h.not_deliverer ht hd) htarget ((h.agenda_of_ne ht).trans hagenda)
  | delivering hd =>
    rcases h.stepsDown hs hd with hd | hall
    · exact .delivering hd
    · exact .credited (hall ▸ (hpublished.trans h.published_prefix).length_le)
  | credited hn => exact .credited (Nat.le_trans hn h.delivered_le)

/-- However a run goes on, a thread that called for a delivery awaits it. -/
theorem Run.awaits (run : Run c c') (hc : c.Reachable) {t : Thread}
    (ha : c.Awaits t c.published rest) :
    c.published <+: c'.published ∧ c'.Awaits t c.published rest := by
  induction run with
  | refl => exact ⟨List.prefix_refl _, ha⟩
  | tail run h ih =>
    obtain ⟨me, h⟩ := h
    exact ⟨ih.1.trans h.published_prefix, h.awaits (hc.run run).sound ih.1 ih.2⟩

/-- A call for delivery that no hook made begins on a thread that does not deliver. -/
theorem Sound.awaits (hs : c.Sound) (h : c.agenda me = .errand .deliver :: rest)
    (houter : .guard ∉ rest) : Works rest ∧ c.Awaits me c.published rest := by
  obtain ⟨own, tail, hown, rfl, hfree⟩ := hs.free h (.inr (.inl rfl))
  cases hfree with
  | apart hd => exact ⟨by simpa using hown, .calling hd h⟩
  | inside => simp at houter

/-- A call for delivery that no hook made returns only when credit is given for everything
published before. -/
theorem Sound.returned (hs : c.Sound) (hrest : Works rest) {notices : List Notice}
    (ha : c.Awaits me notices rest) (h : c.agenda me = rest) :
    notices.length ≤ c.outbox.delivered := by
  cases ha with
  | calling _ hagenda => exact absurd (hagenda.symm.trans h) (List.cons_ne_self _ _)
  | waiting _ _ hagenda => exact absurd (hagenda.symm.trans h) (List.cons_ne_self _ _)
  | delivering hd =>
    obtain ⟨notices, size, hdelivers⟩ := hs.delivers me hd
    exact absurd hdelivers.agenda.drain_mem (h ▸ (Idle.works hrest).drain_not_mem)
  | credited hn => exact hn

/-- In whatever order threads publish and deliver, every notice is announced once and in its
turn, and a call for delivery comes back when all that was published before it is announced
and credited. -/
theorem Reachable.delivered_in_order (hc : c.Reachable) :
    c.Accounted ∧ ∀ me rest, c.agenda me = .errand .deliver :: rest → .guard ∉ rest →
      ∀ c', Run c c' → c'.agenda me = rest →
        c.published <+: c'.notified ∧ c.published.length ≤ c'.outbox.delivered := by
  refine ⟨hc.sound.accounted, fun me rest h houter c' run hreturned => ?_⟩
  obtain ⟨hrest, hawaits⟩ := hc.sound.awaits h houter
  obtain ⟨hpublished, hawaits'⟩ := run.awaits hc hawaits
  have hs := (hc.run run).sound
  have hcredited := hs.returned hrest hawaits' hreturned
  have hnotified := Nat.le_trans hcredited hs.delivered_le
  exact ⟨List.prefix_of_prefix_length_le hpublished hs.notified_prefix hnotified, hcredited⟩

/-- A thread that has just published a notice. -/
def sample : Crew :=
  let n : Notice := ⟨.scheduled, { id := .ofNat 1, name := "report", createdAt := .epoch }⟩
  { (({} : Crew).give (.caller 0) [.work]).give (.caller 0) [.errand .deliver] with
    outbox := Outbox.publish {} [n]
    published := [n] }

theorem reachable_sample : sample.Reachable := by
  have works : Reachable _ := .single ⟨.caller 0, .takeUp rfl⟩
  exact works.tail ⟨.caller 0, .publish rfl sample.published 0⟩

/-- A thread delivers its notice; a hook panics, and the call comes back all the same. -/
theorem delivered_despite_panic : ∃ c : Crew, Run sample c ∧ c.agenda (.caller 0) = [] ∧
    (sample.published <+: c.notified ∧ sample.published.length ≤ c.outbox.delivered) ∧
    c.Accounted := by
  have waits : Run sample _ := .single ⟨.caller 0, .errand (e := .deliver) rfl (by simp) rfl⟩
  have delivers := waits.tail ⟨.caller 0, .errand (e := .reach 1) rfl (by simp) rfl⟩
  have takes := delivers.tail ⟨.caller 0, .errand (e := .drain) rfl (by simp) rfl⟩
  have announces := takes.tail ⟨.caller 0, .announce rfl 1⟩
  have calls := announces.tail ⟨.caller 0, .hook rfl 1⟩
  have panics := calls.tail ⟨.caller 0, .panic rfl⟩
  have credits := panics.tail ⟨.caller 0, .errand (e := .credit 1) rfl (by simp) rfl⟩
  have returns := credits.tail ⟨.caller 0, .errand (e := .drain) rfl (by simp) rfl⟩
  exact ⟨_, returns, rfl,
    reachable_sample.delivered_in_order.2 (.caller 0) [] rfl (by simp) _ returns rfl,
    (reachable_sample.run returns).delivered_in_order.1⟩

end Timetable.Crew
