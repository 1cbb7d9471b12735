import Timetable.Proofs.Agenda

/-!
# Notices are delivered once and in order

One thread at a time delivers, and the notices on its agenda are those it took from the outbox and
has not announced yet. Every notice published is therefore announced, on that agenda, or in the
outbox, in this order. While nobody delivers and something waits, some thread has still to ask for
its delivery, so nothing is left in an outbox that no thread is concerned with.
-/
namespace Timetable.Crew

/-- Whether a thread with that agenda has still to ask for the delivery of everything published. -/
def Owes (total : Nat) (l : List Chore) : Prop :=
  ∃ e rest, l = .errand e :: rest ∧ (e = .deliver ∨ ∃ target, e = .reach target ∧ total ≤ target)

/-- The thread delivers, and the notices are in their places. -/
structure Delivers (c : Crew) (t : Thread) (notices : List Notice) (size : Nat) : Prop where
  agenda : Delivering notices size (c.agenda t)
  fits : notices.length ≤ size
  published : c.published = c.notified ++ notices ++ c.outbox.waiting
  delivered : c.outbox.delivered + size = c.notified.length + notices.length

/-- Nobody delivers, and whoever published last sees to the delivery. -/
structure Rests (c : Crew) : Prop where
  published : c.published = c.notified ++ c.outbox.waiting
  delivered : c.outbox.delivered = c.notified.length
  owed : c.outbox.waiting ≠ [] → ∃ t, Owes c.published.length (c.agenda t)

/-- The crew's notices are accounted for. -/
structure Sound (c : Crew) : Prop where
  count : c.outbox.published = c.published.length
  idle : ∀ t, c.outbox.deliverer ≠ some t → Idle (c.agenda t)
  rests : c.outbox.deliverer = none → c.Rests
  delivers : ∀ t, c.outbox.deliverer = some t → ∃ notices size, c.Delivers t notices size

variable {c c' : Crew} {me : Thread} {l rest : List Chore}

/-- A thread is free to change its own part of its agenda: it does not deliver, or it
is in a hook. -/
inductive Free (c : Crew) (me : Thread) : List Chore → Prop
  | apart (h : c.outbox.deliverer ≠ some me) : Free c me []
  | inside {rest : List Chore} {notices : List Notice} {size : Nat}
    (h : c.outbox.deliverer = some me) (left : Nat) (hrest : Works rest)
    (fits : notices.length ≤ size)
    (published : c.published = c.notified ++ notices ++ c.outbox.waiting)
    (delivered : c.outbox.delivered + size = c.notified.length + notices.length) :
    Free c me (.guard :: (List.replicate left .hook ++ batchChores notices size rest))

namespace Sound

/-- A thread at work, calling for a delivery or waiting for one is free to change its own part. -/
theorem free (hs : c.Sound) {x : Chore} (h : c.agenda me = x :: l)
    (hx : x = .work ∨ x = .errand .deliver ∨ ∃ target, x = .errand (.reach target)) :
    ∃ own rest, Works own ∧ l = own ++ rest ∧ c.Free me rest := by
  by_cases hd : c.outbox.deliverer = some me
  · obtain ⟨notices, size, hdelivers⟩ := hs.delivers me hd
    have hfront := hdelivers.agenda
    rw [h] at hfront
    cases hfront.front with
    | own _ _ left hidle hrest =>
      exact ⟨_, _, hidle.works_tail, rfl,
        .inside hd left hrest hdelivers.fits hdelivers.published hdelivers.delivered⟩
    | _ => simp at hx
  · have hidle := hs.idle me hd
    rw [h] at hidle
    exact ⟨l, [], hidle.works_tail, (List.append_nil l).symm, .apart hd⟩

/-- A free thread changes its own part, and may publish. Unless a notice waits that nobody delivers,
it need not owe a delivery. -/
theorem change (hs : c.Sound) (hfree : c.Free me rest) (hl : Idle l) (notices : List Notice)
    (howes : c.outbox.deliverer = none → c.outbox.waiting ++ notices ≠ [] →
      Owes (c.published.length + notices.length) (l ++ rest) ∨
        notices = [] ∧ ¬ Owes c.published.length (c.agenda me)) :
    Sound { c.give me (l ++ rest) with
      outbox := c.outbox.publish notices
      published := c.published ++ notices } := by
  refine ⟨?_, ?_, ?_, ?_⟩
  · simp [Outbox.publish, hs.count]
  · intro t ht
    by_cases htme : t = me
    · subst htme
      cases hfree with
      | apart => simpa using hl
      | inside h => exact absurd h ht
    · simpa [htme] using hs.idle t ht
  · intro hd
    have hrests := hs.rests hd
    refine ⟨by simp [Outbox.publish, hrests.published], hrests.delivered, fun hwaiting => ?_⟩
    rcases howes hd hwaiting with howes | ⟨rfl, hnot⟩
    · exact ⟨me, by simpa using howes⟩
    · obtain ⟨t, ht⟩ := hrests.owed (by simpa [Outbox.publish] using hwaiting)
      have htme : t ≠ me := fun e => hnot (e ▸ ht)
      exact ⟨t, by simpa [htme] using ht⟩
  · intro t ht
    by_cases htme : t = me
    · subst htme
      cases hfree with
      | apart h => exact absurd ht h
      | @inside last batch size _ left hlast fits published delivered =>
        refine ⟨batch, size, ?_, fits, by simp [Outbox.publish, published], delivered⟩
        have hagenda := Delivering.announcing (.inside hl left) batch size hlast
        simpa using hagenda
    · obtain ⟨batch, size, hdelivers⟩ := hs.delivers t ht
      exact ⟨batch, size, by simpa [htme] using hdelivers.agenda, hdelivers.fits,
        by simp [Outbox.publish, hdelivers.published], hdelivers.delivered⟩

/-- A free thread changes its own part and publishes nothing. -/
theorem change_quietly (hs : c.Sound) (hfree : c.Free me rest) (hl : Idle l)
    (howes : c.outbox.deliverer = none → c.outbox.waiting ≠ [] →
      Owes c.published.length (l ++ rest) ∨ ¬ Owes c.published.length (c.agenda me)) :
    Sound (c.give me (l ++ rest)) := by
  have hchange := hs.change hfree hl [] fun hd hwaiting => by
    rcases howes hd (by simpa using hwaiting) with howes | hnot
    · exact .inl (by simpa using howes)
    · exact .inr ⟨rfl, hnot⟩
  have houtbox : c.outbox.publish [] = c.outbox := by simp [Outbox.publish]
  rw [houtbox, List.append_nil] at hchange
  exact hchange

theorem not_owes_of_work {total : Nat} {l : List Chore} (h : l = .work :: rest) :
    ¬ Owes total l := by
  rintro ⟨e, rest', heq, -⟩
  rw [h] at heq
  cases heq

/-- One thread delivers, and the others go on as before. -/
theorem delivered_by (hs : c.Sound) (hothers : ∀ t, t ≠ me → c.outbox.deliverer ≠ some t)
    (hagendas : ∀ t, t ≠ me → c'.agenda t = c.agenda t) (hd : c'.outbox.deliverer = some me)
    (hcount : c'.outbox.published = c'.published.length) (notices : List Notice) (size : Nat)
    (hdelivers : c'.Delivers me notices size) : c'.Sound := by
  refine ⟨hcount, fun t ht => ?_, fun e => ?_, fun t ht => ?_⟩
  · have htme : t ≠ me := fun e => ht (e ▸ hd)
    rw [hagendas t htme]
    exact hs.idle t (hothers t htme)
  · rw [hd] at e
    cases e
  · obtain rfl := Option.some.inj (hd.symm.trans ht)
    exact ⟨notices, size, hdelivers⟩

theorem only (hd : c.outbox.deliverer = some me) : ∀ t, t ≠ me → c.outbox.deliverer ≠ some t :=
  fun _ htme ht => htme (Option.some.inj (ht.symm.trans hd))

/-- A free thread panics. -/
theorem panicked (hs : c.Sound) (hfree : c.Free me rest) (h : c.agenda me = .work :: l) :
    Sound (c.give me (unwind rest)) := by
  cases hfree with
  | apart hd =>
    exact hs.change_quietly (.apart hd) (.works works_nil) fun _ _ => .inr (not_owes_of_work h)
  | @inside last batch size hd left hlast fits published delivered =>
    have hagenda := Delivering.announcing (.hooks left) batch size hlast
    exact hs.delivered_by (only hd) (fun t htme => by simp [htme]) hd hs.count batch size
      ⟨by simpa [unwind] using hagenda, fits, published, delivered⟩

/-- Only the thread that delivers has anything else to do than the free ones. -/
theorem front (hs : c.Sound) {x : Chore} (h : c.agenda me = x :: l)
    (hx : ∀ own, ¬ Idle (x :: own)) :
    c.outbox.deliverer = some me ∧
      ∃ notices size, c.Delivers me notices size ∧ Front notices size x l := by
  have hd : c.outbox.deliverer = some me := by
    by_contra hd
    have hidle := hs.idle me hd
    rw [h] at hidle
    exact hx l hidle
  obtain ⟨notices, size, hdelivers⟩ := hs.delivers me hd
  have hfront := hdelivers.agenda
  rw [h] at hfront
  exact ⟨hd, notices, size, hdelivers, hfront.front⟩

theorem caught (hs : c.Sound) (h : c.agenda me = .guard :: l) : Sound (c.give me l) := by
  obtain ⟨hd, notices, size, hdelivers, hfront⟩ := hs.front h not_idle_guard
  cases hfront with
  | own _ _ _ hidle => exact absurd hidle (not_idle_guard _)
  | guard _ _ left hrest =>
    refine hs.delivered_by (only hd) (fun t htme => by simp [htme]) hd hs.count notices size
      ⟨?_, hdelivers.fits, hdelivers.published, hdelivers.delivered⟩
    simpa using Delivering.announcing (.hooks left) notices size hrest

theorem hooked (hs : c.Sound) (h : c.agenda me = .hook :: l) (more : Nat) :
    Sound (c.give me (List.replicate more .work ++ .guard :: l)) := by
  obtain ⟨hd, notices, size, hdelivers, hfront⟩ := hs.front h not_idle_hook
  cases hfront with
  | own _ _ _ hidle => exact absurd hidle (not_idle_hook _)
  | hook _ _ left hrest =>
    refine hs.delivered_by (only hd) (fun t htme => by simp [htme]) hd hs.count notices size
      ⟨?_, hdelivers.fits, hdelivers.published, hdelivers.delivered⟩
    simpa using Delivering.announcing (.inside (.works (works_replicate more)) left)
      notices size hrest

/-- A thread with nothing to do takes up work. -/
theorem tookUp (hs : c.Sound) (h : c.agenda me = []) : Sound (c.give me [.work]) := by
  have hd : c.outbox.deliverer ≠ some me := fun hd => by
    obtain ⟨notices, size, hdelivers⟩ := hs.delivers me hd
    have hmem := hdelivers.agenda.drain_mem
    rw [h] at hmem
    cases hmem
  refine hs.change_quietly (.apart hd) (.works (works_replicate 1)) fun _ _ => .inr ?_
  rintro ⟨e, rest, hagenda, -⟩
  rw [h] at hagenda
  cases hagenda

theorem announced (hs : c.Sound) {n : Notice} (h : c.agenda me = .errand (.announce n) :: l)
    (audience : Nat) :
    Sound { c.give me (List.replicate audience .hook ++ l) with
      notified := c.notified ++ [n] } := by
  have hx := not_idle_errand (e := .announce n) (by simp) (by simp)
  obtain ⟨hd, notices, size, hdelivers, hfront⟩ := hs.front h hx
  cases hfront with
  | own _ _ _ hidle => exact absurd hidle (hx _)
  | announce _ notices _ hrest =>
    have hfits := hdelivers.fits
    have hdelivered := hdelivers.delivered
    rw [List.length_cons] at hfits hdelivered
    refine hs.delivered_by (only hd) (fun t htme => by simp [htme]) hd hs.count notices size
      ⟨?_, by omega, ?_, ?_⟩
    · simpa using Delivering.announcing (.hooks audience) notices size hrest
    · simp [hdelivers.published]
    · rw [List.length_append, List.length_singleton]
      change c.outbox.delivered + size = _
      omega

theorem credited (hs : c.Sound) {size : Nat} (h : c.agenda me = .errand (.credit size) :: l) :
    Sound { c.give me l with outbox := c.outbox.credit size } := by
  have hx := not_idle_errand (e := .credit size) (by simp) (by simp)
  obtain ⟨hd, notices, batch, hdelivers, hfront⟩ := hs.front h hx
  cases hfront with
  | own _ _ _ hidle => exact absurd hidle (hx _)
  | credit _ hrest =>
    refine hs.delivered_by (only hd) (fun t htme => by simp [htme]) hd hs.count [] 0
      ⟨?_, Nat.le_refl 0, hdelivers.published, hdelivers.delivered⟩
    simpa using Delivering.draining hrest

theorem drained (hs : c.Sound) (h : c.agenda me = .errand .drain :: l) {o : Outbox}
    {errands : List Errand} (ho : c.outbox.run? me .drain = some (o, errands)) :
    Sound { c.give me (errands.map .errand ++ l) with outbox := o } := by
  have hx := not_idle_errand (e := .drain) (by simp) (by simp)
  obtain ⟨hd, notices, batch, hdelivers, hfront⟩ := hs.front h hx
  cases hfront with
  | own _ _ _ hidle => exact absurd hidle (hx _)
  | drain hrest =>
    have hpublished := hdelivers.published
    have hdelivered := hdelivers.delivered
    rw [List.append_nil] at hpublished
    rcases Outbox.run?_drain_eq_some ho with ⟨hempty, rfl, rfl⟩ | ⟨-, rfl, rfl⟩
    · refine ⟨hs.count, fun t _ => ?_, fun _ =>
        ⟨hpublished, hdelivered, fun hne => absurd hempty hne⟩, fun t ht => by cases ht⟩
      by_cases htme : t = me
      · subst htme
        simpa using Idle.works hrest
      · simpa [htme] using hs.idle t (only hd t htme)
    · refine hs.delivered_by (only hd) (fun t htme => by simp [htme]) hd hs.count
        c.outbox.waiting c.outbox.waiting.length
        ⟨?_, Nat.le_refl _, by simp [hpublished], ?_⟩
      · simpa [batchChores, Function.comp_def] using
          Delivering.announcing (.hooks 0) c.outbox.waiting c.outbox.waiting.length hrest
      · change c.outbox.delivered + _ = _
        rw [Nat.add_zero] at hdelivered
        rw [hdelivered]
        rfl

theorem called (hs : c.Sound) (h : c.agenda me = .errand .deliver :: l) :
    Sound (c.give me (.errand (.reach c.outbox.published) :: l)) := by
  obtain ⟨own, rest, hown, rfl, hfree⟩ := hs.free h (.inr (.inl rfl))
  refine hs.change_quietly (l := .errand (.reach c.outbox.published) :: own) hfree (.reach _ hown)
    fun _ _ => .inl ⟨_, _, rfl, .inr ⟨_, rfl, Nat.le_of_eq hs.count.symm⟩⟩

theorem reached (hs : c.Sound) {target : Nat} (h : c.agenda me = .errand (.reach target) :: l)
    {o : Outbox} {errands : List Errand}
    (ho : c.outbox.run? me (.reach target) = some (o, errands)) :
    Sound { c.give me (errands.map .errand ++ l) with outbox := o } := by
  obtain ⟨own, rest, hown, rfl, hfree⟩ := hs.free h (.inr (.inr ⟨target, rfl⟩))
  rcases Outbox.run?_reach_eq_some ho with ⟨rfl, rfl, hreached⟩ | ⟨rfl, rfl, hnone⟩
  · have hchange := hs.change_quietly hfree (.works hown) fun hd hwaiting => .inr ?_
    · exact hchange
    rintro ⟨e, tail, heq, howes⟩
    obtain ⟨he, -⟩ := List.cons.inj (h.symm.trans heq)
    obtain rfl := Chore.errand.inj he
    rcases howes with howes | ⟨_, howes, htotal⟩
    · cases howes
    · obtain rfl := Errand.reach.inj howes
      have hrests := hs.rests hd
      have hlength := congrArg List.length hrests.published
      have hpositive := List.length_pos_iff.mpr hwaiting
      have hdelivered := hrests.delivered
      rw [List.length_append] at hlength
      rcases hreached with hreached | hmine
      · omega
      · rw [hd] at hmine
        cases hmine
  · have hrests := hs.rests hnone
    cases hfree with
    | inside hd =>
      rw [hnone] at hd
      cases hd
    | apart =>
      refine hs.delivered_by (fun t _ e => ?_) (fun t htme => by simp [htme]) rfl hs.count [] 0
        ⟨?_, Nat.le_refl 0, ?_, ?_⟩
      · rw [hnone] at e
        cases e
      · simpa using Delivering.draining hown
      · simpa [Outbox.stepUp] using hrests.published
      · exact hrests.delivered

end Sound

/-- Every step keeps the notices accounted for. -/
theorem Step.sound (h : Step c me c') (hs : c.Sound) : c'.Sound := by
  cases h with
  | takeUp h => exact hs.tookUp h
  | @work rest h more =>
    obtain ⟨own, rest, hown, rfl, hfree⟩ := hs.free h (.inl rfl)
    rw [← List.append_assoc]
    exact hs.change_quietly hfree (.works ((works_replicate more).append hown)) fun _ _ =>
      .inr (Sound.not_owes_of_work h)
  | @publish rest h notices more =>
    obtain ⟨own, rest, hown, rfl, hfree⟩ := hs.free h (.inl rfl)
    have hchange := hs.change hfree (.deliver ((works_replicate more).append hown)) notices
      fun _ _ => .inl ⟨_, _, rfl, .inl rfl⟩
    simpa using hchange
  | @panic rest h =>
    obtain ⟨own, rest, hown, rfl, hfree⟩ := hs.free h (.inl rfl)
    rw [hown.unwind]
    exact hs.panicked hfree h
  | hook h more => exact hs.hooked h more
  | caught h => exact hs.caught h
  | announce h audience => exact hs.announced h audience
  | @errand e rest o errands h hquiet ho =>
    cases e with
    | deliver =>
      obtain ⟨rfl, rfl⟩ := Prod.mk.inj (Option.some.inj ho)
      exact hs.called h
    | reach target => exact hs.reached h ho
    | drain => exact hs.drained h ho
    | announce n => exact absurd rfl (hquiet n)
    | credit size =>
      obtain ⟨rfl, rfl⟩ := Prod.mk.inj (Option.some.inj ho)
      exact hs.credited h

theorem Reachable.sound (h : c.Reachable) : c.Sound := by
  induction h with
  | refl =>
    exact ⟨rfl, fun _ _ => .works works_nil, fun _ => ⟨rfl, rfl, fun h => absurd rfl h⟩, by simp⟩
  | tail _ h ih =>
    obtain ⟨t, h⟩ := h
    exact h.sound ih

/-! ## Every notice has its place -/

/-- The notices that the thread which delivers has still to announce. -/
def announcing (c : Crew) : List Notice :=
  (c.outbox.deliverer.map fun t => unannounced (c.agenda t)).getD []

/-- The size of the batch being delivered. -/
def batch (c : Crew) : Nat := (c.outbox.deliverer.map fun t => uncredited (c.agenda t)).getD 0

/-- Every notice has its place, and one thread delivers at most. -/
structure Accounted (c : Crew) : Prop where
  /-- What is announced is what was published, in this order; the rest is on its way. -/
  order : c.published = c.notified ++ c.announcing ++ c.outbox.waiting
  account : c.outbox.delivered + c.batch + c.outbox.waiting.length = c.outbox.published
  count : c.outbox.published = c.published.length
  single : ∀ t, .errand .drain ∈ c.agenda t ↔ c.outbox.deliverer = some t
  announcer : ∀ t, unannounced (c.agenda t) ≠ [] → c.outbox.deliverer = some t
  /-- When no thread is inside a call for delivery, everything published is announced. -/
  quiet : (∀ t e, .errand e ∉ c.agenda t) →
    c.outbox.waiting = [] ∧ c.outbox.delivered = c.outbox.published ∧ c.notified = c.published

theorem Sound.accounted (hs : c.Sound) : c.Accounted := by
  have single : ∀ t, .errand .drain ∈ c.agenda t ↔ c.outbox.deliverer = some t := by
    intro t
    constructor
    · intro hmem
      by_contra hd
      exact (hs.idle t hd).drain_not_mem hmem
    · intro hd
      obtain ⟨notices, size, hdelivers⟩ := hs.delivers t hd
      exact hdelivers.agenda.drain_mem
  have announcer : ∀ t, unannounced (c.agenda t) ≠ [] → c.outbox.deliverer = some t := by
    intro t hne
    by_contra hd
    exact hne (hs.idle t hd).apart.none.1
  cases hd : c.outbox.deliverer with
  | none =>
    have hrests := hs.rests hd
    have hannouncing : c.announcing = [] := by simp [announcing, hd]
    have hbatch : c.batch = 0 := by simp [batch, hd]
    refine ⟨?_, ?_, hs.count, hd ▸ single, hd ▸ announcer, fun hquiet => ?_⟩
    · rw [hannouncing, List.append_nil]
      exact hrests.published
    · rw [hbatch, hs.count, hrests.delivered, hrests.published, List.length_append, Nat.add_zero]
    · have hempty : c.outbox.waiting = [] := by
        by_contra hwaiting
        obtain ⟨t, e, rest, hagenda, -⟩ := hrests.owed hwaiting
        exact hquiet t e (by simp [hagenda])
      have hpublished := hrests.published
      rw [hempty, List.append_nil] at hpublished
      exact ⟨hempty, by rw [hrests.delivered, hs.count, hpublished], hpublished.symm⟩
  | some t =>
    obtain ⟨notices, size, hdelivers⟩ := hs.delivers t hd
    obtain ⟨hnotices, hsize⟩ := hdelivers.agenda.parts
    have hannouncing : c.announcing = notices := by simp [announcing, hd, hnotices]
    have hbatch : c.batch = size := by simp [batch, hd, hsize]
    refine ⟨?_, ?_, hs.count, hd ▸ single, hd ▸ announcer, fun hquiet => ?_⟩
    · rw [hannouncing]
      exact hdelivers.published
    · have hdelivered := hdelivers.delivered
      have hlength := congrArg List.length hdelivers.published
      have hcount := hs.count
      simp only [List.length_append] at hlength
      omega
    · exact absurd hdelivers.agenda.drain_mem (hquiet t .drain)

end Timetable.Crew
