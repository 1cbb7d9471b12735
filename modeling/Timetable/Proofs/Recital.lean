import Timetable.Proofs.Broadcasts
import Timetable.Scenario.Broadcast

/-!
# Scripted listeners at a notifier

Scripted listeners that the user adds, removes and notifies are callers of a notifier like any
others: whatever happens when scripts are run happens at a forum, and the hooks that are noted are
the ones called there. So scripts show nothing but what is true of every notifier.
-/
namespace Timetable.Scenario.Broadcast

open Forum

/-- The scripts that a notice still calls are its hooks, and everything else that
scripts do is work. -/
inductive Plays : List Item → List (Duty (Script Call) String) → Prop
  | nil : Plays [] []
  | call {items : List Item} {duties : List (Duty (Script Call) String)} (c : Call)
    (h : Plays items duties) :
    Plays (.call c :: items) (.work :: duties)
  | crash {items : List Item} {duties : List (Duty (Script Call) String)} (h : Plays items duties) :
    Plays (.crash :: items) (.work :: duties)
  | hook {items : List Item} {duties : List (Duty (Script Call) String)} (number : Nat)
    (event : Event)
    (task : String) (id : ListenerId) (l : Listener (Script Call)) (h : Plays items duties) :
    Plays (.hook l.reaction task event :: items) (.hook number event task id l :: duties)
  | guard {items : List Item} {duties : List (Duty (Script Call) String)} (h : Plays items duties) :
    Plays (.guard :: items) (.guard :: duties)
  | done {items : List Item} {duties : List (Duty (Script Call) String)} (number : Nat)
    (h : Plays items duties) :
    Plays items (.done number :: duties)

/-- A hook that was noted is the one that was called. -/
def Heard.Tells (x : Heard) (called : Listener (Script Call) × HookCall String) : Prop :=
  x.listener = called.1.reaction.name ∧ x.task = called.2.task ∧ x.event.kind = called.2.hook ∧
    x.event.error? = called.2.error

/-- The listener whose hook was called, and the call. -/
def heard? : Happening (Script Call) String → Option (Listener (Script Call) × HookCall String)
  | .called _ l call => some (l, call)
  | _ => none

/-- The hooks called after the first part of a history have been noted, the latest first. -/
def Noted (past history : List (Happening (Script Call) String)) (log : List Heard) : Prop :=
  ∃ news, history = past ++ news ∧ List.Forall₂ Heard.Tells log.reverse (news.filterMap heard?)

/-- Scripts are run at a forum; since that part of its history their hooks have been noted. -/
structure Mirrors (past : List (Happening (Script Call) String)) (f : Forum (Script Call) String)
    (s : State) (items : List Item) : Prop where
  notifier : f.notifier = s.notifier
  agenda : Plays items f.agenda
  log : Noted past f.history s.log

variable {past history : List (Happening (Script Call) String)} {f : Forum (Script Call) String}
  {s : State} {item : Item} {items rest : List Item} {duties : List (Duty (Script Call) String)}
  {log : List Heard}

theorem noted_nil (history : List (Happening (Script Call) String)) : Noted history history [] :=
  ⟨[], (List.append_nil _).symm, .nil⟩

theorem Noted.silent (h : Noted past history log) {x : Happening (Script Call) String}
    (hx : heard? x = none) :
    Noted past (history ++ [x]) log := by
  obtain ⟨news, rfl, htells⟩ := h
  refine ⟨news ++ [x], List.append_assoc .., ?_⟩
  simpa [hx] using htells

theorem Noted.called (h : Noted past history log) (number : Nat) (event : Event) (task : String)
    (id : ListenerId) (l : Listener (Script Call)) :
    Noted past (history ++ [.called number l (event.callTo task id)])
      (⟨l.reaction.name, task, event⟩ :: log) := by
  obtain ⟨news, rfl, htells⟩ := h
  refine ⟨news ++ [.called number l (event.callTo task id)], List.append_assoc .., ?_⟩
  rw [List.reverse_cons, List.filterMap_append]
  exact List.rel_append htells (.cons ⟨rfl, rfl, rfl, rfl⟩ .nil)

theorem Plays.unwind (h : Plays items duties) :
    Plays (Broadcast.unwind items) (Forum.unwind duties) := by
  induction h with
  | nil => exact .nil
  | guard h => exact h
  | call _ _ ih | crash _ ih | hook _ _ _ _ _ _ ih | done _ _ ih => exact ih

theorem Plays.calls (h : Plays rest duties) (calls : List Call) :
    Plays (calls.map .call ++ rest) (List.replicate calls.length .work ++ duties) := by
  induction calls with
  | nil => exact h
  | cons c calls ih => exact .call c ih

theorem Plays.hooks (h : Plays rest duties) (number : Nat) (event : Event) (task : String)
    (audience : List (ListenerId × Listener (Script Call))) :
    Plays (audience.map (fun (_, l) => .hook l.reaction task event) ++ rest)
      (audience.map (fun e => .hook number event task e.1 e.2) ++ duties) := by
  induction audience with
  | nil => exact h
  | cons e audience ih => exact .hook number event task e.1 e.2 ih

/-- What a hook does is work up to its end. -/
theorem Plays.react (h : Plays rest duties) (l : Script Call) (event : Event) :
    ∃ more, Plays (State.react l event ++ rest)
      (List.replicate more .work ++ .guard :: duties) := by
  let calls := l.steps.flatMap fun step => if step.1 = event.kind then step.2 else []
  have hcalls : State.react l event =
      calls.map .call ++ (if l.crashes.contains event.kind then [.crash] else []) ++ [.guard] := by
    have hsteps :
        (l.steps.flatMap fun step => if step.1 = event.kind then step.2.map Item.call else []) =
        calls.map .call := by
      rw [List.map_flatMap]
      congr 1
      funext step
      by_cases hkind : step.1 = event.kind <;> simp [hkind]
    rw [← hsteps]
    rfl
  rw [hcalls, List.append_assoc, List.append_assoc]
  split
  · refine ⟨calls.length + 1, ?_⟩
    rw [List.replicate_succ', List.append_assoc]
    exact (Plays.crash (.guard h)).calls calls
  · exact ⟨calls.length, (Plays.guard h).calls calls⟩

/-- Notices that are over are taken off first. -/
theorem Mirrors.clear (h : Mirrors past f s items) : ∃ f', Run f f' ∧ Mirrors past f' s items ∧
    ∀ number duties, f'.agenda ≠ .done number :: duties := by
  obtain ⟨hnotifier, hagenda, hlog⟩ := h
  generalize hl : f.agenda = l at hagenda
  induction l generalizing f with
  | nil => exact ⟨f, .refl, ⟨hnotifier, hl ▸ hagenda, hlog⟩, by simp [hl]⟩
  | cons d l ih =>
    by_cases hdone : ∃ number, d = .done number
    · obtain ⟨number, rfl⟩ := hdone
      cases hagenda with
      | done _ h =>
        let f₁ : Forum (Script Call) String :=
          { f with agenda := l, history := f.history ++ [.returned number] }
        have step : Step f f₁ := .done hl
        obtain ⟨f', run, hmirrors, hclear⟩ := ih (f := f₁) hnotifier (hlog.silent rfl) rfl h
        exact ⟨f', .head step run, hmirrors, hclear⟩
    · refine ⟨f, .refl, ⟨hnotifier, hl ▸ hagenda, hlog⟩, fun number duties heq =>
        hdone ⟨number, ?_⟩⟩
      exact (List.cons.inj (hl.symm.trans heq)).1

/-- A call that a script or the user makes is one that a caller makes. -/
theorem Mirrors.perform (hnotifier : f.notifier = s.notifier) (hagenda : f.agenda = .work :: duties)
    (hplays : Plays rest duties) (hlog : Noted past f.history s.log) (c : Call) :
    ∃ f', Step f f' ∧ Mirrors past f' (s.perform c).1 ((s.perform c).2.2 ++ rest) := by
  cases c with
  | add l =>
    refine ⟨_, .add hagenda ⟨l.hooks, l⟩, ?_, hplays, hlog.silent rfl⟩
    rw [hnotifier]
    rfl
  | remove name =>
    cases hfind : s.names.find? fun n => n.1 = name with
    | none =>
      -- a name without a number is not even looked up
      simp only [State.perform, hfind]
      exact ⟨_, .work hagenda 0, hnotifier, hplays, hlog⟩
    | some named =>
      simp only [State.perform, hfind]
      refine ⟨_, .remove hagenda named.2, ?_, hplays, hlog.silent rfl⟩
      rw [hnotifier]
  | notify task event =>
    refine ⟨_, .notify hagenda event task, hnotifier, ?_, hlog.silent rfl⟩
    rw [hnotifier]
    exact (Plays.done f.notices hplays).hooks f.notices event task _

/-- What is done of scripts is done at the forum. -/
theorem Mirrors.run (h : Mirrors past f s (item :: rest)) :
    ∃ f', Run f f' ∧ Mirrors past f' (s.run rest item).1 (s.run rest item).2 := by
  obtain ⟨f, run, ⟨hnotifier, hagenda, hlog⟩, hclear⟩ := h.clear
  generalize hl : f.agenda = l at hagenda
  cases hagenda with
  | call c h =>
    obtain ⟨f', step, hmirrors⟩ := Mirrors.perform hnotifier hl h hlog c
    exact ⟨f', run.tail step, hmirrors⟩
  | crash h => exact ⟨_, run.tail (.panic hl), hnotifier, h.unwind, hlog⟩
  | hook number event task id l h =>
    obtain ⟨more, hplays⟩ := h.react l.reaction event
    exact ⟨_, run.tail (.hook hl more), hnotifier, hplays, hlog.called number event task id l⟩
  | guard h => exact ⟨_, run.tail (.caught hl), hnotifier, h, hlog⟩
  | done number h => exact absurd hl (hclear number _)

/-- How far the calls of a user get, with what is still to do. What earlier calls led to
has been read. -/
inductive State.Leads : State → List Item → Prop
  | fresh : Leads {} []
  | request {s : State} (h : Leads s []) (c : Call) :
    Leads ({ s with log := [] }.perform c).1 ({ s with log := [] }.perform c).2.2
  | run {s : State} {item : Item} {rest : List Item} (h : Leads s (item :: rest)) :
    Leads (s.run rest item).1 (s.run rest item).2

theorem State.Leads.runAll (h : s.Leads items) (limit : Nat) :
    ∃ rest, (s.runAll limit items).Leads rest := by
  induction limit generalizing s items with
  | zero => cases items <;> exact ⟨_, h⟩
  | succ limit ih =>
    cases items with
    | nil => exact ⟨_, h⟩
    | cons item rest => exact ih h.run

/-- Whatever scripts do happens at a forum. -/
theorem State.Leads.mirrors (h : s.Leads items) :
    ∃ past f, Forum.Reachable f ∧ Mirrors past f s items := by
  induction h with
  | fresh => exact ⟨[], {}, .refl, rfl, .nil, noted_nil []⟩
  | @request s _ c ih =>
    obtain ⟨past, f, hreachable, hmirrors⟩ := ih
    obtain ⟨f, run, ⟨hnotifier, hagenda, -⟩, hclear⟩ := hmirrors.clear
    have hidle : f.agenda = [] := by
      generalize hl : f.agenda = l at hagenda
      cases hagenda with
      | nil => rfl
      | done number h => exact absurd hl (hclear number _)
    have takeUp : Step f { f with agenda := [.work] } := .takeUp hidle
    obtain ⟨f', step, hmirrors⟩ :=
      Mirrors.perform (s := { s with log := [] }) (f := { f with agenda := [.work] })
      hnotifier rfl .nil (noted_nil f.history) c
    refine ⟨f.history, f', ((hreachable.trans run).tail takeUp).tail step, ?_⟩
    rwa [List.append_nil] at hmirrors
  | run _ ih =>
    obtain ⟨past, f, hreachable, hmirrors⟩ := ih
    obtain ⟨f', run, hmirrors⟩ := hmirrors.run
    exact ⟨past, f', hreachable.trans run, hmirrors⟩

/-- What a call of the user leads to, as far as it is followed. -/
theorem State.Leads.after_request (h : s.Leads []) (c : Call) :
    ∃ rest, (s.request c).1.Leads rest :=
  (h.request c).runAll stepLimit

/-! ## Nested notices -/

/-- Takes its place in the middle of a notice. -/
def latecomer : Script Call := { name := "latecomer", hooks := .all }

/-- Leaves at the first failure, and brings another listener in and tells it. -/
def fickle : Script Call where
  name := "fickle"
  hooks := .ofList [.failed]
  steps := [(.failed, [.remove "fickle", .add latecomer, .notify "inner" .completed])]

/-- Panics in every hook. -/
def nervous : Script Call := { name := "nervous", hooks := .all, crashes := EventKind.all }

/-- The user has added two listeners. -/
def attended : State := ((State.perform {} (.add fickle)).1.perform (.add nervous)).1

theorem attended_leads : attended.Leads [] :=
  (State.Leads.fresh.request (.add fickle)).request (.add nervous)

/-- The newcomer hears the notice that began after it came, not the one in which it came. -/
theorem faithful_despite_nesting : ∃ past f, f.Faithful ∧
    (∃ rest, Mirrors past f (attended.request (.notify "outer" (.failed "boom"))).1 rest) ∧
    (attended.request (.notify "outer" (.failed "boom"))).2.log =
      [⟨"fickle", "outer", .failed "boom"⟩, ⟨"nervous", "inner", .completed⟩,
        ⟨"latecomer", "inner", .completed⟩, ⟨"nervous", "outer", .failed "boom"⟩] := by
  obtain ⟨rest, hleads⟩ := attended_leads.after_request (.notify "outer" (.failed "boom"))
  obtain ⟨past, f, hreachable, hmirrors⟩ := hleads.mirrors
  exact ⟨past, f, hreachable.broadcast_exact, ⟨rest, hmirrors⟩, by decide +kernel⟩

end Timetable.Scenario.Broadcast
