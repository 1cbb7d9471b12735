import Timetable.Proofs.Registry

/-!
# Each notice reaches the listeners of its moment

A notice, once announced, owes a call to each of the listeners registered then that has a hook for
it; its calls stand on the agenda until they are made, and neither what its hooks do nor a panic
takes any of them away. Notices inside a hook have higher numbers and stand above.
-/
namespace Timetable.Forum

variable {R T : Type} {f f' : Forum R T} {x : Happening R T} {number : Nat}
  {rest own l : List (Duty R T)}

/-! ## The agenda -/

/-- An agenda with a caller at work on top, or a notice whose hooks are being called. Below a notice
stands the caller that made it, and the hook in which it was made. -/
inductive Stacked : Option Nat → List (Duty R T) → Prop
  | nil : Stacked none []
  | work {l : List (Duty R T)} (h : Stacked none l) : Stacked none (.work :: l)
  | guard {number : Nat} {l : List (Duty R T)} (h : Stacked (some number) l) :
    Stacked none (.guard :: l)
  | hook {number : Nat} {l : List (Duty R T)} (event : Event) (task : T) (id : ListenerId)
    (listener : Listener R)
    (h : Stacked (some number) l) : Stacked (some number) (.hook number event task id listener :: l)
  | done {number : Nat} {l : List (Duty R T)} (h : Stacked none l)
    (below : ∀ n ∈ numbers l, n < number) :
    Stacked (some number) (.done number :: l)

/-- Nothing of a notice: work, and the end of a hook. -/
def Aside (l : List (Duty R T)) : Prop := ∀ d ∈ l, d = .work ∨ d = .guard

theorem Aside.numbers_eq (h : Aside l) : numbers l = [] := by
  apply List.filterMap_eq_nil_iff.mpr
  intro d hd
  rcases h d hd with rfl | rfl <;> rfl

theorem Aside.callsDue_eq (h : Aside l) (number : Nat) : callsDue number l = [] := by
  apply callsDue_eq_nil
  rw [h.numbers_eq]
  exact List.not_mem_nil

theorem Aside.done_not_mem (h : Aside l) (number : Nat) : .done number ∉ l := by
  intro hmem
  rcases h _ hmem with h | h <;> cases h

theorem aside_nil : Aside ([] : List (Duty R T)) := fun _ h => absurd h List.not_mem_nil

theorem Aside.work (h : Aside l) : Aside (.work :: l) := by
  intro d hd
  rcases List.mem_cons.mp hd with rfl | hd
  · exact .inl rfl
  · exact h d hd

theorem aside_work (more : Nat) : Aside (List.replicate more .work : List (Duty R T)) := fun _ h =>
  .inl (List.eq_of_mem_replicate h)

theorem Stacked.works (h : Stacked none l) (more : Nat) :
    Stacked none (List.replicate more .work ++ l) := by
  induction more with
  | zero => exact h
  | succ more ih => exact .work ih

/-- A panic leaves everything that belongs to a notice where it is. -/
theorem Stacked.unwind {o : Option Nat} (h : Stacked o l) (ho : o = none) :
    ∃ own o', l = own ++ unwind l ∧ Aside own ∧ Stacked o' (unwind l) := by
  induction h with
  | nil => exact ⟨[], none, rfl, aside_nil, .nil⟩
  | work _ ih =>
    obtain ⟨own, o', heq, hown, hstacked⟩ := ih rfl
    exact ⟨.work :: own, o', congrArg (.work :: ·) heq, hown.work, hstacked⟩
  | @guard number l h =>
    refine ⟨[.guard], some number, rfl, ?_, h⟩
    intro d hd
    exact .inr (List.mem_singleton.mp hd)
  | hook | done => cases ho

theorem Stacked.hooks {number : Nat} (h : Stacked (some number) rest) (event : Event) (task : T)
    (audience : List (ListenerId × Listener R)) :
    Stacked (some number) (audience.map (fun e => .hook number event task e.1 e.2) ++ rest) := by
  induction audience with
  | nil => exact h
  | cons e audience ih => exact .hook event task e.1 e.2 ih

/-! ## What is owed -/

/-- A notice was announced after the first part of the history: what is owed to the
listeners registered then has been called since or stands on the agenda, and nothing is left
of it once it is over. -/
structure Owes (f : Forum R T) (before : List (Happening R T)) (number : Nat)
    (event : Event) (task : T) (after : List (Happening R T)) : Prop where
  first : callsOf number before = []
  account : callsOf number after ++ callsDue number f.agenda = owed before event task
  ahead : .returned number ∈ after ∨ .done number ∈ f.agenda
  finished : .returned number ∈ after → number ∉ numbers f.agenda

/-- The history, the registry and the agenda fit together. -/
structure Sound (f : Forum R T) : Prop where
  registry : f.Registry
  stacked : ∃ o, Stacked o f.agenda
  pending : ∀ n ∈ numbers f.agenda, n < f.notices
  numbered : ∀ x ∈ f.history, ∀ n, x.number? = some n → n < f.notices
  announced : ∀ n < f.notices, ∃ event task, .announced n event task ∈ f.history
  owes : ∀ before number event task after,
    f.history = before ++ .announced number event task :: after →
    f.Owes before number event task after

variable {before after : List (Happening R T)} {event : Event} {task : T}

theorem Owes.ahead_cons {d : Duty R T} (h : f.Owes before number event task after)
    (hagenda : f.agenda = d :: rest)
    (hd : d ≠ .done number) : .returned number ∈ after ∨ .done number ∈ rest := by
  have hahead := h.ahead
  rw [hagenda] at hahead
  exact hahead.imp_right fun hmem => (List.mem_cons.mp hmem).resolve_left hd.symm

/-- Two agendas that differ in nothing of a notice. -/
theorem Owes.change {own own' : List (Duty R T)} (h : f.Owes before number event task after)
    (hagenda : f.agenda = own ++ rest) (hagenda' : f'.agenda = own' ++ rest) (hown : Aside own)
    (hown' : Aside own') (news : List (Happening R T)) (hnews : ∀ x ∈ news, x.number? = none) :
    f'.Owes before number event task (after ++ news) := by
  have hcalls : callsOf number news = [] := callsOf_eq_nil fun x hx => by
    rw [hnews x hx]; exact nofun
  have hreturned : .returned number ∉ news := fun hmem => by cases hnews _ hmem
  refine ⟨h.first, ?_, ?_, fun hmem => ?_⟩
  · rw [callsOf_append, hcalls, List.append_nil, ← h.account, hagenda, hagenda', callsDue_append,
      callsDue_append, hown.callsDue_eq, hown'.callsDue_eq]
  · have hahead := h.ahead
    rw [hagenda, List.mem_append] at hahead
    rw [hagenda', List.mem_append, List.mem_append]
    rcases hahead with hmem | hmem | hmem
    · exact .inl (.inl hmem)
    · exact absurd hmem (hown.done_not_mem number)
    · exact .inr (.inr hmem)
  · have hfinished := h.finished ((List.mem_append.mp hmem).resolve_right hreturned)
    rw [hagenda, numbers_append, hown.numbers_eq] at hfinished
    rw [hagenda', numbers_append, hown'.numbers_eq]
    exact hfinished

/-- A step that has nothing to do with a notice. -/
theorem Sound.aside (hf : f.Sound) (own own' rest : List (Duty R T)) (hregistry : f'.Registry)
    (hagenda : f.agenda = own ++ rest) (hagenda' : f'.agenda = own' ++ rest) (hown : Aside own)
    (hown' : Aside own') (hstacked : ∃ o, Stacked o f'.agenda) (hnotices : f'.notices = f.notices)
    (hhistory : f'.history = f.history ∨ ∃ x, f'.history = f.history ++ [x] ∧ x.number? = none) :
    f'.Sound := by
  have hnumbers : numbers f'.agenda = numbers f.agenda := by
    rw [hagenda, hagenda', numbers_append, numbers_append, hown.numbers_eq, hown'.numbers_eq]
  rcases hhistory with hsame | ⟨x, hgrown, hx⟩
  · refine ⟨hregistry, hstacked, ?_, ?_, ?_, ?_⟩
    · rw [hnumbers, hnotices]
      exact hf.pending
    · rw [hsame, hnotices]
      exact hf.numbered
    · rw [hsame, hnotices]
      exact hf.announced
    · intro before number event task after hsplit
      rw [hsame] at hsplit
      have howes := (hf.owes _ _ _ _ _ hsplit).change hagenda hagenda' hown hown' [] (by simp)
      rwa [List.append_nil] at howes
  · refine ⟨hregistry, hstacked, ?_, ?_, ?_, ?_⟩
    · rw [hnumbers, hnotices]
      exact hf.pending
    · intro y hy n hn
      rw [hgrown, List.mem_append, List.mem_singleton] at hy
      rw [hnotices]
      rcases hy with hy | rfl
      · exact hf.numbered y hy n hn
      · rw [hx] at hn
        cases hn
    · intro n hn
      rw [hnotices] at hn
      obtain ⟨event, task, hmem⟩ := hf.announced n hn
      exact ⟨event, task, by rw [hgrown]; exact List.mem_append_left _ hmem⟩
    · intro before number event task after hsplit
      rw [hgrown] at hsplit
      rcases concat_eq_append_cons hsplit with ⟨-, rfl, -⟩ | ⟨front, rfl, hold⟩
      · cases hx
      · exact (hf.owes _ _ _ _ _ hold).change hagenda hagenda' hown hown' [x] (by simpa using hx)

/-- A caller at work has no notice above the one in whose hook it is. -/
theorem Sound.below (hf : f.Sound) (h : f.agenda = .work :: rest) : Stacked none rest := by
  obtain ⟨o, hstacked⟩ := hf.stacked
  rw [h] at hstacked
  cases hstacked with
  | work hstacked => exact hstacked

theorem Sound.worked (hf : f.Sound) (hregistry : f'.Registry)
    (h : f.agenda = .work :: rest) (more : Nat)
    (hagenda : f'.agenda = List.replicate more .work ++ rest) (hnotices : f'.notices = f.notices)
    (hhistory : f'.history = f.history ∨ ∃ x, f'.history = f.history ++ [x] ∧ x.number? = none) :
    f'.Sound := by
  refine hf.aside [.work] (List.replicate more .work) rest hregistry h hagenda (aside_work 1)
    (aside_work more) ?_ hnotices hhistory
  rw [hagenda]
  exact ⟨none, (hf.below h).works more⟩

/-- A step that belongs to a notice. -/
theorem Sound.grow (hf : f.Sound) (hregistry : f'.Registry)
    (hhistory : f'.history = f.history ++ [x])
    (hnotices : f.notices ≤ f'.notices) (hstacked : ∃ o, Stacked o f'.agenda)
    (hpending : ∀ n ∈ numbers f'.agenda, n < f'.notices)
    (hx : ∀ n, x.number? = some n → n < f'.notices)
    (hannounced : f'.notices = f.notices ∨ f'.notices = f.notices + 1 ∧
      ∃ event task, x = .announced f.notices event task)
    (hkept : ∀ before number event task after, number < f.notices →
      f.Owes before number event task after → f'.Owes before number event task (after ++ [x]))
    (hnew : ∀ number event task, x = .announced number event task →
      f'.Owes f.history number event task []) :
    f'.Sound := by
  refine ⟨hregistry, hstacked, hpending, ?_, ?_, ?_⟩
  · intro y hy n hn
    rw [hhistory, List.mem_append, List.mem_singleton] at hy
    rcases hy with hy | rfl
    · exact Nat.lt_of_lt_of_le (hf.numbered y hy n hn) hnotices
    · exact hx n hn
  · intro n hn
    rw [hhistory]
    by_cases hold : n < f.notices
    · obtain ⟨event, task, hmem⟩ := hf.announced n hold
      exact ⟨event, task, List.mem_append_left _ hmem⟩
    · rcases hannounced with hsame | ⟨hmore, event, task, rfl⟩
      · omega
      · obtain rfl : n = f.notices := by omega
        exact ⟨event, task, List.mem_append_right _ (List.mem_singleton_self _)⟩
  · intro before number event task after hsplit
    rw [hhistory] at hsplit
    rcases concat_eq_append_cons hsplit with ⟨rfl, hlast, rfl⟩ | ⟨front, rfl, hold⟩
    · exact hnew number event task hlast.symm
    · have hmem : .announced number event task ∈ f.history := by
        rw [hold]
        exact List.mem_append_right _ List.mem_cons_self
      exact hkept _ _ _ _ _ (hf.numbered _ hmem number rfl) (hf.owes _ _ _ _ _ hold)

theorem callsDue_hooks (number : Nat) (event : Event) (task : T)
    (audience : List (ListenerId × Listener R)) :
    callsDue number (audience.map fun e => .hook number event task e.1 e.2) =
      audience.map fun e => event.callTo task e.1 := by
  rw [callsDue, List.filterMap_map, ← List.filterMap_eq_map]
  apply List.filterMap_congr
  intro e _
  simp [Duty.callOf?]

theorem numbers_hooks {n : Nat} {audience : List (ListenerId × Listener R)}
    (h : n ∈ numbers (audience.map fun e => .hook number event task e.1 e.2)) : n = number := by
  obtain ⟨d, hd, hn⟩ := List.mem_filterMap.mp h
  obtain ⟨e, -, rfl⟩ := List.mem_map.mp hd
  exact (Option.some.inj hn).symm

/-- A new notice owes what the registry at that moment asks for. -/
theorem Sound.notify (hf : f.Sound) (hregistry : f'.Registry) (h : f.agenda = .work :: rest)
    (hagenda : f'.agenda = (f.notifier.audience event.kind).map
      (fun e => .hook f.notices event task e.1 e.2) ++ .done f.notices :: rest)
    (hhistory : f'.history = f.history ++ [.announced f.notices event task])
    (hnotices : f'.notices = f.notices + 1) : f'.Sound := by
  have hpending := hf.pending
  rw [h] at hpending
  have hbelow : ∀ n ∈ numbers rest, n < f.notices := hpending
  have hstacked := hf.below h
  have hnone : callsDue f.notices rest = [] :=
    callsDue_eq_nil fun hmem => Nat.lt_irrefl _ (hbelow _ hmem)
  have hnumbers : ∀ n ∈ numbers f'.agenda, n = f.notices ∨ n ∈ numbers rest := by
    intro n hn
    rw [hagenda, numbers_append, List.mem_append] at hn
    rcases hn with hn | hn
    · exact .inl (numbers_hooks hn)
    · exact List.mem_cons.mp hn
  refine hf.grow hregistry hhistory (by omega) ?_ ?_ ?_ (.inr ⟨hnotices, event, task, rfl⟩) ?_ ?_
  · rw [hagenda]
    exact ⟨some f.notices, (Stacked.done hstacked hbelow).hooks event task _⟩
  · intro n hn
    rcases hnumbers n hn with rfl | hn
    · omega
    · have := hbelow n hn
      omega
  · intro n hn
    obtain rfl := Option.some.inj hn
    omega
  · intro before number event' task' after hlt howes
    have hne : f.notices ≠ number := by omega
    have hold : callsDue number f'.agenda = callsDue number f.agenda := by
      have hhooks : callsDue number ((f.notifier.audience event.kind).map
          fun e => Duty.hook f.notices event task e.1 e.2) = [] :=
        callsDue_eq_nil fun hmem => hne (numbers_hooks hmem).symm
      rw [hagenda, callsDue_append, hhooks, h]
      rfl
    refine ⟨howes.first, ?_, ?_, fun hmem hn => ?_⟩
    · rw [callsOf_concat rfl, hold, howes.account]
    · rw [hagenda]
      refine (howes.ahead_cons h (by simp)).imp (List.mem_append_left _) fun hmem => ?_
      exact List.mem_append_right _ (List.mem_cons_of_mem _ hmem)
    · have hfinished := howes.finished ((List.mem_append.mp hmem).resolve_right (by simp))
      rw [h] at hfinished
      exact hfinished ((hnumbers number hn).resolve_left (Ne.symm hne))
  · intro number event' task' heq
    cases heq
    refine ⟨callsOf_eq_nil fun y hy hn => ?_, ?_, .inr ?_, nofun⟩
    · exact Nat.lt_irrefl _ (hf.numbered y hy _ hn)
    · have hdone : callsDue f.notices (.done f.notices :: rest) = [] := hnone
      rw [hagenda, callsDue_append, callsDue_hooks, hdone, List.append_nil, owed,
        ← hf.registry.entries]
      rfl
    · rw [hagenda]
      exact List.mem_append_right _ List.mem_cons_self

/-- A hook that is called is taken from what stands on the agenda. -/
theorem Sound.hook {id : ListenerId} {listener : Listener R} (hf : f.Sound)
    (hregistry : f'.Registry)
    (h : f.agenda = .hook number event task id listener :: rest) (more : Nat)
    (hagenda : f'.agenda = List.replicate more .work ++ .guard :: rest)
    (hhistory : f'.history = f.history ++ [.called number listener (event.callTo task id)])
    (hnotices : f'.notices = f.notices) : f'.Sound := by
  have hpending := hf.pending
  rw [h] at hpending
  have hnumbers : numbers f'.agenda = numbers rest := by
    rw [hagenda, numbers_append, (aside_work more).numbers_eq]
    rfl
  have hdue (n : Nat) : callsDue n f'.agenda = callsDue n rest := by
    rw [hagenda, callsDue_append, (aside_work more).callsDue_eq]
    rfl
  refine hf.grow hregistry hhistory (by omega) ?_ ?_ ?_ (.inl hnotices) ?_ (by simp)
  · obtain ⟨o, hstacked⟩ := hf.stacked
    rw [h] at hstacked
    rw [hagenda]
    cases hstacked with
    | hook _ _ _ _ hstacked => exact ⟨none, (Stacked.guard hstacked).works more⟩
  · rw [hnumbers, hnotices]
    exact fun n hn => hpending n (List.mem_cons_of_mem _ hn)
  · intro n hn
    obtain rfl := Option.some.inj hn
    rw [hnotices]
    exact hpending _ List.mem_cons_self
  · intro before other event' task' after _ howes
    have haccount := howes.account
    refine ⟨howes.first, ?_, ?_, fun hmem hn => ?_⟩
    · rw [← haccount, callsOf_append, hdue, h, List.append_assoc]
      by_cases heq : number = other
      · simp [callsOf, callsDue, Happening.callOf?, Duty.callOf?, heq]
      · simp [callsOf, callsDue, Happening.callOf?, Duty.callOf?, heq]
    · rw [hagenda]
      refine (howes.ahead_cons h (by simp)).imp (List.mem_append_left _) fun hmem => ?_
      exact List.mem_append_right _ (List.mem_cons_of_mem _ hmem)
    · have hfinished := howes.finished ((List.mem_append.mp hmem).resolve_right (by simp))
      rw [hnumbers] at hn
      rw [h] at hfinished
      exact hfinished (List.mem_cons_of_mem _ hn)

/-- A notice is over when all it owes has been called. -/
theorem Sound.done (hf : f.Sound) (hregistry : f'.Registry) (h : f.agenda = .done number :: rest)
    (hagenda : f'.agenda = rest) (hhistory : f'.history = f.history ++ [.returned number])
    (hnotices : f'.notices = f.notices) : f'.Sound := by
  have hpending := hf.pending
  rw [h] at hpending
  obtain ⟨o, hstacked⟩ := hf.stacked
  rw [h] at hstacked
  cases hstacked with
  | done hstacked hbelow =>
    refine hf.grow hregistry hhistory (by omega) ⟨none, by rwa [hagenda]⟩ ?_ ?_
      (.inl hnotices) ?_ (by simp)
    · rw [hagenda, hnotices]
      exact fun n hn => hpending n (List.mem_cons_of_mem _ hn)
    · intro n hn
      obtain rfl := Option.some.inj hn
      rw [hnotices]
      exact hpending _ List.mem_cons_self
    · intro before other event' task' after _ howes
      have hdue : callsDue other f'.agenda = callsDue other f.agenda := by
        rw [hagenda, h]
        rfl
      refine ⟨howes.first, ?_, ?_, fun hmem hn => ?_⟩
      · rw [callsOf_concat rfl, hdue, howes.account]
      · rcases howes.ahead with hmem | hmem
        · exact .inl (List.mem_append_left _ hmem)
        · rw [h] at hmem
          rcases List.mem_cons.mp hmem with heq | hmem
          · cases heq
            exact .inl (List.mem_append_right _ List.mem_cons_self)
          · rw [hagenda]
            exact .inr hmem
      · rw [hagenda] at hn
        rcases List.mem_append.mp hmem with hmem | hmem
        · have hfinished := howes.finished hmem
          rw [h] at hfinished
          exact hfinished (List.mem_cons_of_mem _ hn)
        · cases List.mem_singleton.mp hmem
          exact Nat.lt_irrefl _ (hbelow _ hn)

/-- Every step keeps history, registry and agenda together. -/
theorem Step.sound (h : Step f f') (hf : f.Sound) : f'.Sound := by
  have hregistry := h.registry hf.registry
  cases h with
  | takeUp h =>
    exact hf.aside [] [.work] [] hregistry h rfl aside_nil (aside_work 1) ⟨none, .work .nil⟩
      rfl (.inl rfl)
  | work h more => exact hf.worked hregistry h more rfl rfl (.inl rfl)
  | add h l => exact hf.worked hregistry h 0 rfl rfl (.inr ⟨_, rfl, rfl⟩)
  | remove h id => exact hf.worked hregistry h 0 rfl rfl (.inr ⟨_, rfl, rfl⟩)
  | notify h event task => exact hf.notify hregistry h rfl rfl rfl
  | panic h =>
    obtain ⟨own, o, heq, hown, hleft⟩ := (hf.below h).unwind rfl
    rw [heq] at h
    exact hf.aside (.work :: own) [] _ hregistry h rfl hown.work aside_nil ⟨o, hleft⟩ rfl (.inl rfl)
  | hook h more => exact hf.hook hregistry h more rfl rfl rfl
  | @caught rest h =>
    obtain ⟨o, hstacked⟩ := hf.stacked
    rw [h] at hstacked
    cases hstacked with
    | guard hstacked =>
      have hguard : Aside ([.guard] : List (Duty R T)) :=
        fun d hd => .inr (List.mem_singleton.mp hd)
      exact hf.aside [.guard] [] rest hregistry h rfl hguard aside_nil ⟨_, hstacked⟩ rfl (.inl rfl)
  | done h => exact hf.done hregistry h rfl rfl rfl

theorem Reachable.sound (h : f.Reachable) : f.Sound := by
  induction h with
  | refl =>
    refine ⟨⟨rfl, ?_, List.nodup_nil, ?_, ?_, ?_, rfl⟩, ⟨none, .nil⟩, ?_, ?_, ?_, ?_⟩
    · simp
    · simp
    · simp
    · simp
    · simp [numbers]
    · simp
    · simp
    · simp
  | tail _ h ih => exact h.sound ih

/-! ## Notices come to an end -/

theorem Step.history_prefix (h : Step f f') : f.history <+: f'.history := by
  cases h with
  | takeUp | work | panic | caught => exact List.prefix_refl _
  | _ => exact List.prefix_append ..

theorem Run.history_prefix (run : Run f f') : f.history <+: f'.history := by
  induction run with
  | refl => exact List.prefix_refl _
  | tail _ h ih => exact ih.trans h.history_prefix

/-- When hooks do no more, one thing is done after the other until nothing is left to do. -/
theorem exists_idle (hl : f.agenda = l) : ∃ f', Run f f' ∧ f'.agenda = [] ∧
    ∀ number, .done number ∈ l → .returned number ∈ f'.history := by
  induction l generalizing f with
  | nil => exact ⟨f, .refl, hl, fun _ h => absurd h List.not_mem_nil⟩
  | cons d l ih =>
    -- the head of the agenda goes, and a notice that is over is recorded
    obtain ⟨f₁, run, hagenda, hdone⟩ : ∃ f₁, Run f f₁ ∧ f₁.agenda = l ∧
        ∀ number, d = .done number → .returned number ∈ f₁.history := by
      cases d with
      | work => exact ⟨_, .single (.work hl 0), rfl, nofun⟩
      | hook number event task id listener =>
        exact ⟨_, .tail (.single (.hook hl 0)) (.caught rfl), rfl, nofun⟩
      | guard => exact ⟨_, .single (.caught hl), rfl, nofun⟩
      | done number =>
        refine ⟨_, .single (.done hl), rfl, fun other heq => ?_⟩
        cases heq
        exact List.mem_append_right _ List.mem_cons_self
    obtain ⟨f', run', hidle, hreturned⟩ := ih hagenda
    refine ⟨f', run.trans run', hidle, fun number hmem => ?_⟩
    rcases List.mem_cons.mp hmem with heq | hmem
    · exact (Run.history_prefix run').subset (hdone number heq.symm)
    · exact hreturned number hmem

/-- Notices reach whom they should, and the registry answers as it should. -/
structure Faithful (f : Forum R T) : Prop where
  registry : f.notifier.entries = registered f.history
  /-- No number is given to two listeners. -/
  distinct : ((f.history.filterMap Happening.added?).map Prod.fst).Nodup
  /-- A notice calls the hooks of the listeners registered when it began, in their order
  and once each. -/
  notices : ∀ before number event task after,
    f.history = before ++ .announced number event task :: after →
    callsOf number before = [] ∧ callsOf number after <+: owed before event task ∧
      (.returned number ∈ after → callsOf number after = owed before event task)
  /-- Hooks are called by notices only. -/
  announced : ∀ number, callsOf number f.history ≠ [] → ∃ event task,
    .announced number event task ∈ f.history
  /-- No notice is lost: all that were made come to their end when the hooks do. -/
  ends : ∃ f', Run f f' ∧ f'.agenda = [] ∧
    ∀ number event task, .announced number event task ∈ f.history → .returned number ∈ f'.history
  /-- A removal finds the listener if it is registered, and removes no other. -/
  removals : ∀ before id found after, f.history = before ++ .removed id found :: after →
    (found = true ↔ id ∈ (registered before).map Prod.fst) ∧
      registered (before ++ [.removed id found]) = (registered before).filter fun e => e.1 ≠ id
  /-- A listener is found and removed at most once. -/
  once : ∀ id, f.history.countP (Happening.removes id) ≤ 1
  size : f.notifier.size + f.history.countP Happening.isRemoval =
    (f.history.filterMap Happening.added?).length

theorem Sound.ends (hf : f.Sound) : ∃ f', Run f f' ∧ f'.agenda = [] ∧
    ∀ number event task, .announced number event task ∈ f.history →
    .returned number ∈ f'.history := by
  obtain ⟨f', run, hidle, hdone⟩ := exists_idle (rfl : f.agenda = f.agenda)
  refine ⟨f', run, hidle, fun number event task hmem => ?_⟩
  obtain ⟨before, after, hsplit⟩ := List.append_of_mem hmem
  rcases (hf.owes _ _ _ _ _ hsplit).ahead with hreturned | hahead
  · apply (Run.history_prefix run).subset
    rw [hsplit]
    exact List.mem_append_right _ (List.mem_cons_of_mem _ hreturned)
  · exact hdone number hahead

/-- However calls to a notifier follow each other and stand inside each other, and whatever hooks
do or panic. -/
theorem Reachable.broadcast_exact (h : f.Reachable) : f.Faithful := by
  have hf := h.sound
  refine ⟨hf.registry.entries, hf.registry.distinct, ?_, ?_, hf.ends, ?_, hf.registry.once,
    hf.registry.size⟩
  · intro before number event task after hsplit
    have howes := hf.owes before number event task after hsplit
    refine ⟨howes.first, ⟨_, howes.account⟩, fun hreturned => ?_⟩
    rw [← howes.account, callsDue_eq_nil (howes.finished hreturned), List.append_nil]
  · intro number hcalls
    by_contra hnone
    apply hcalls
    apply callsOf_eq_nil
    intro x hx hnumber
    exact hnone (hf.announced number (hf.numbered x hx number hnumber))
  · intro before id found after hsplit
    have hanswer := hf.registry.answered before id found after hsplit
    refine ⟨hanswer, registered_removed id found fun hfalse hmem => ?_⟩
    rw [hanswer.mpr hmem] at hfalse
    cases hfalse

end Timetable.Forum
