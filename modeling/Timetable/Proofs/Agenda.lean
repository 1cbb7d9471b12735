import Timetable.Proofs.Crew

/-!
# Agendas in the course of a delivery

A thread that does not deliver has work to do, and may have called for a delivery. A thread that
delivers has a drain on its agenda, below it nothing but work, and above it what is left of a batch.
On top of that are the hooks still to call for the announcement made last, and on top of them is
what the hook has to do that runs, like the agenda of a thread of its own.
-/
namespace Timetable.Crew

/-- Nothing but work. -/
def Works (l : List Chore) : Prop := ∀ x ∈ l, x = .work

/-- The agenda of a thread, or of one of its hooks, that does not deliver. -/
inductive Idle : List Chore → Prop
  | works {l : List Chore} (h : Works l) : Idle l
  | deliver {l : List Chore} (h : Works l) : Idle (.errand .deliver :: l)
  | reach {l : List Chore} (target : Nat) (h : Works l) : Idle (.errand (.reach target) :: l)

/-- What is left of the hooks of an announcement. -/
inductive Calling : List Chore → Prop
  | hooks (left : Nat) : Calling (List.replicate left .hook)
  | inside {l : List Chore} (h : Idle l) (left : Nat) :
    Calling (l ++ .guard :: List.replicate left .hook)

/-- The part of an agenda that is left of a batch: notices to announce, credit to give, and the next
batch to take. -/
def batchChores (notices : List Notice) (size : Nat) (rest : List Chore) : List Chore :=
  notices.map (fun n => .errand (.announce n)) ++ .errand (.credit size) :: .errand .drain :: rest

/-- The agenda of a thread that delivers, with the notices it has still to announce and the size of
the batch they come from. -/
inductive Delivering : List Notice → Nat → List Chore → Prop
  | draining {rest : List Chore} (h : Works rest) : Delivering [] 0 (.errand .drain :: rest)
  | announcing {calls rest : List Chore} (hcalls : Calling calls)
    (notices : List Notice) (size : Nat)
    (h : Works rest) : Delivering notices size (calls ++ batchChores notices size rest)

section Agendas

variable {l l' rest : List Chore} {x : Chore}

theorem works_nil : Works [] := fun _ hx => absurd hx List.not_mem_nil

theorem works_replicate (n : Nat) : Works (List.replicate n .work) := fun _ hx =>
  List.eq_of_mem_replicate hx

theorem Works.append (h : Works l) (h' : Works l') : Works (l ++ l') := fun x hx =>
  (List.mem_append.mp hx).elim (h x) (h' x)

theorem Works.tail (h : Works (x :: l)) : Works l := fun y hy => h y (List.mem_cons_of_mem _ hy)

theorem Works.unwind (h : Works l) (rest : List Chore) :
    Crew.unwind (l ++ rest) = Crew.unwind rest := by
  induction l with
  | nil => rfl
  | cons y l ih =>
    have hy := h y List.mem_cons_self
    subst hy
    exact ih h.tail

theorem Idle.works_tail (h : Idle (x :: l)) : Works l := by
  cases h with
  | works h => exact h.tail
  | deliver h => exact h
  | reach target h => exact h

/-- A thread that does not deliver works, calls for a delivery or waits for one. -/
theorem Idle.plain (h : Idle l) :
    ∀ x ∈ l, x = .work ∨ x = .errand .deliver ∨ ∃ target, x = .errand (.reach target) := by
  intro x hx
  cases h with
  | works h => exact .inl (h x hx)
  | deliver h =>
    rcases List.mem_cons.mp hx with rfl | hx
    · exact .inr (.inl rfl)
    · exact .inl (h x hx)
  | reach target h =>
    rcases List.mem_cons.mp hx with rfl | hx
    · exact .inr (.inr ⟨target, rfl⟩)
    · exact .inl (h x hx)

end Agendas

variable {l rest : List Chore}

/-- What a delivering thread does next, and its agenda after that. -/
inductive Front : List Notice → Nat → Chore → List Chore → Prop
  | drain {rest : List Chore} (h : Works rest) : Front [] 0 (.errand .drain) rest
  | own {x : Chore} {own rest : List Chore} (notices : List Notice) (size left : Nat)
    (hx : Idle (x :: own)) (hrest : Works rest) : Front notices size x
      (own ++ .guard :: (List.replicate left .hook ++ batchChores notices size rest))
  | guard {rest : List Chore} (notices : List Notice) (size left : Nat) (hrest : Works rest) :
    Front notices size .guard (List.replicate left .hook ++ batchChores notices size rest)
  | hook {rest : List Chore} (notices : List Notice) (size left : Nat) (hrest : Works rest) :
    Front notices size .hook (List.replicate left .hook ++ batchChores notices size rest)
  | announce {rest : List Chore} (n : Notice) (notices : List Notice) (size : Nat)
    (hrest : Works rest) :
    Front (n :: notices) size (.errand (.announce n)) (batchChores notices size rest)
  | credit {rest : List Chore} (size : Nat) (hrest : Works rest) :
    Front [] size (.errand (.credit size)) (.errand .drain :: rest)

theorem Delivering.front {notices : List Notice} {size : Nat} {x : Chore}
    (h : Delivering notices size (x :: l)) : Front notices size x l := by
  generalize hagenda : x :: l = agenda at h
  cases h with
  | draining h =>
    obtain ⟨rfl, rfl⟩ := List.cons.inj hagenda
    exact .drain h
  | announcing hcalls notices size hrest =>
    cases hcalls with
    | hooks left =>
      cases left with
      | zero =>
        cases notices with
        | nil =>
          obtain ⟨rfl, rfl⟩ := List.cons.inj hagenda
          exact .credit size hrest
        | cons n notices =>
          obtain ⟨rfl, rfl⟩ := List.cons.inj hagenda
          exact .announce n notices size hrest
      | succ left =>
        obtain ⟨rfl, rfl⟩ := List.cons.inj hagenda
        exact .hook notices size left hrest
    | @inside own hown left =>
      rw [List.append_assoc, List.cons_append] at hagenda
      cases own with
      | nil =>
        obtain ⟨rfl, rfl⟩ := List.cons.inj hagenda
        exact .guard notices size left hrest
      | cons y own =>
        obtain ⟨rfl, rfl⟩ := List.cons.inj hagenda
        exact .own notices size left hown hrest

theorem Delivering.drain_mem {notices : List Notice} {size : Nat} (h : Delivering notices size l) :
    .errand .drain ∈ l := by
  cases h <;> simp [batchChores]

theorem Idle.drain_not_mem (h : Idle l) : .errand .drain ∉ l := fun hmem => by
  have := h.plain _ hmem
  simp at this

theorem not_idle_guard (own : List Chore) : ¬ Idle (.guard :: own) := fun h => by
  have := h.plain .guard List.mem_cons_self
  simp at this

theorem not_idle_hook (own : List Chore) : ¬ Idle (.hook :: own) := fun h => by
  have := h.plain .hook List.mem_cons_self
  simp at this

theorem not_idle_errand {e : Errand} (h : e ≠ .deliver) (h' : ∀ target, e ≠ .reach target)
    (own : List Chore) : ¬ Idle (.errand e :: own) := fun hidle => by
  have := hidle.plain (.errand e) List.mem_cons_self
  simp [h, h'] at this

/-! ## What is left of a batch -/

/-- The notices on an agenda that are still to be announced. -/
def unannounced : List Chore → List Notice
  | [] => []
  | .errand (.announce n) :: l => n :: unannounced l
  | _ :: l => unannounced l

/-- The size of the batches on an agenda for which credit is still to be given. -/
def uncredited : List Chore → Nat
  | [] => 0
  | .errand (.credit size) :: l => size + uncredited l
  | _ :: l => uncredited l

/-- Nothing of a batch. -/
def Apart (l : List Chore) : Prop :=
  ∀ x ∈ l, (∀ n, x ≠ .errand (.announce n)) ∧ ∀ size, x ≠ .errand (.credit size)

theorem Idle.apart (h : Idle l) : Apart l := by
  intro x hx
  rcases h.plain x hx with rfl | rfl | ⟨target, rfl⟩ <;> simp

theorem Calling.apart (h : Calling l) : Apart l := by
  have hooks : ∀ left, Apart (List.replicate left .hook) := fun left x hx => by
    rw [List.eq_of_mem_replicate hx]
    simp
  cases h with
  | hooks left => exact hooks left
  | inside hown left =>
    intro x hx
    rcases List.mem_append.mp hx with hx | hx
    · exact hown.apart x hx
    · rcases List.mem_cons.mp hx with rfl | hx
      · simp
      · exact hooks left x hx

theorem Apart.skip (h : Apart l) (rest : List Chore) :
    unannounced (l ++ rest) = unannounced rest ∧ uncredited (l ++ rest) = uncredited rest := by
  induction l with
  | nil => exact ⟨rfl, rfl⟩
  | cons x l ih =>
    have ih := ih fun y hy => h y (List.mem_cons_of_mem x hy)
    have hx := h x List.mem_cons_self
    rw [List.cons_append, unannounced, uncredited]
    · exact ih
    · exact fun size e => hx.2 size e
    · exact fun n e => hx.1 n e

theorem Apart.none (h : Apart l) : unannounced l = [] ∧ uncredited l = 0 := by
  have hskip := h.skip []
  rw [List.append_nil] at hskip
  exact hskip

theorem batchChores_parts (notices : List Notice) (size : Nat) (h : Works rest) :
    unannounced (batchChores notices size rest) = notices ∧
      uncredited (batchChores notices size rest) = size := by
  induction notices with
  | nil =>
    have hrest := (Idle.works h).apart.none
    simp [batchChores, unannounced, uncredited, hrest]
  | cons n notices ih => exact ⟨congrArg (n :: ·) ih.1, ih.2⟩

/-- The agenda of a thread that delivers shows what is left of the batch. -/
theorem Delivering.parts {notices : List Notice} {size : Nat} (h : Delivering notices size l) :
    unannounced l = notices ∧ uncredited l = size := by
  cases h with
  | draining h => exact (Idle.works h).apart.none
  | @announcing calls rest hcalls notices size hrest =>
    have hskip := hcalls.apart.skip (batchChores notices size rest)
    have hparts := batchChores_parts notices size hrest
    exact ⟨hskip.1.trans hparts.1, hskip.2.trans hparts.2⟩

end Timetable.Crew
