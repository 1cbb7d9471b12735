import Timetable.Proofs.Floor
import Timetable.Proofs.Workers

/-!
# Who stays in a pool

While the channel of a pool is open its core workers stay, and a worker that leaves was a surplus
worker that waited in vain. Until a shutdown gives up, the handle of every worker is with the pool,
with the call that shuts it down, or with the call that has hired the worker.
-/
namespace Timetable

variable {J : Type}

/-! ## Core workers -/

/-- Whether the worker does not wait for jobs any more. -/
def Stance.isLeaving : Stance J → Bool
  | leaving | parting => true
  | _ => false

theorem Stance.Step.isLeaving {isStopping : Bool} {x y : Stance J} {e : Effect}
    (h : x.Step isStopping e y) :
    y.isLeaving = x.isLeaving := by
  cases h <;> rfl

namespace Floor

variable {s s' : Floor J} {e : Effect}

/-- How many core workers there are. -/
def core (s : Floor J) : Nat := s.hands.countP fun w => w.role = .core

/-- While the channel is open the core workers stay. -/
structure Manned (s : Floor J) : Prop where
  core : s.isOpen = true → s.core = s.config.coreSize.toNat
  leaving : ∀ w ∈ s.hands, w.stance.isLeaving = true → w.role = .surplus ∨ s.isOpen = false

/-- A step after which a worker stands elsewhere. -/
theorem Manned.move (hs : s.Manned) {before after : List (Hand J)} {n : Nat} {role : WorkerRole}
    {x y : Stance J} (h : s.hands = before ++ ⟨n, role, x⟩ :: after)
    (hhands : s'.hands = before ++ ⟨n, role, y⟩ :: after)
    (hopen : s'.isOpen = s.isOpen) (hconfig : s'.config = s.config)
    (hleaving : y.isLeaving = true → x.isLeaving = true ∨ role = .surplus ∨ s.isOpen = false) :
    s'.Manned where
  core ho := by
    rw [hconfig, ← hs.core (hopen ▸ ho)]
    simp [Floor.core, h, hhands, List.countP_cons]
  leaving w hw hout := by
    rw [hopen]
    rw [hhands] at hw
    rcases List.mem_append.mp hw with hw | hw
    · exact hs.leaving w (h ▸ List.mem_append_left _ hw) hout
    · rcases List.mem_cons.mp hw with rfl | hw
      · rcases hleaving hout with hx | hrole
        · exact hs.leaving ⟨n, role, x⟩ (by simp [h]) hx
        · exact hrole
      · exact hs.leaving w (by simp [h, hw]) hout

theorem Step.manned (h : Step s e s') (hs : s.Manned) : s'.Manned := by
  cases h with
  | offer | proceed | send | finish | number | register | raise | draw | strike | discard | collect
    | join | expire | again => exact ⟨hs.core, hs.leaving⟩
  | @hire before after n h =>
    refine ⟨fun ho => ?_, fun w hw hout => ?_⟩
    · rw [← hs.core ho]
      simp [Floor.core]
    · rcases List.mem_append.mp hw with hw | hw
      · exact hs.leaving w hw hout
      · exact .inl (by rw [List.mem_singleton.mp hw])
  | receive h => exact hs.move h rfl rfl rfl (by simp [Stance.isLeaving])
  | work h hx => exact hs.move h rfl rfl rfl fun hy => .inl (hx.isLeaving ▸ hy)
  | leave h _ hrole => exact hs.move h rfl rfl rfl fun _ => .inr hrole
  | @depart before after n role h =>
    have hsub : ∀ w ∈ before ++ after, w ∈ s.hands := fun w hw => by
      rw [h]
      exact ((List.sublist_cons_self _ after).append_left before).subset hw
    refine ⟨fun ho => ?_, fun w hw => hs.leaving w (hsub w hw)⟩
    have hrole : role = .surplus := by
      rcases hs.leaving ⟨n, role, .parting⟩ (by simp [h]) rfl with hrole | hclosed
      · exact hrole
      · exact absurd (ho.symm.trans hclosed) (by decide)
    rw [← hs.core ho]
    simp [Floor.core, h, hrole]
  | close h => exact ⟨nofun, fun w _ _ => .inr rfl⟩

/-! ## Handles -/

/-- Where a worker's handle is, if the shutdown has not given up. -/
def Held (s : Floor J) (n : Nat) : Prop :=
  n ∈ s.handles ∨ n ∈ s.closing.awaited ∨ .hired n ∈ s.calls

/-- Unless the shutdown has given up, every worker's handle is somewhere. -/
def Tended (s : Floor J) : Prop :=
  s.closing ≠ .returned false → ∀ w ∈ s.hands, s.Held w.number

/-- An operation of a call that has hired nobody. -/
theorem Held.of_calls {n : Nat} (h : s.Held n) {before after : List (Handing J)} {x : Handing J}
    (hcalls : s.calls = before ++ x :: after) (hx : ∀ n, x ≠ .hired n) (rest : List (Handing J))
    (hcalls' : s'.calls = before ++ (rest ++ after)) (hhandles : s'.handles = s.handles)
    (hclosing : s'.closing = s.closing) : s'.Held n := by
  rw [Held, hhandles, hclosing, hcalls']
  exact h.imp_right (Or.imp_right fun hmem => mem_of_replaced hcalls hmem (hx n).symm rest)

theorem Proceeds.ne_hired {x y : Handing J} (h : s.Proceeds x e y) (n : Nat) : x ≠ .hired n := by
  cases h <;> nofun

theorem Returns.ne_hired {x : Handing J} (h : s.Returns x e) (n : Nat) : x ≠ .hired n := by
  cases h <;> nofun

theorem Tended.move (hs : s.Tended) {before after : List (Hand J)} {n : Nat} {role : WorkerRole}
    {x y : Stance J} (h : s.hands = before ++ ⟨n, role, x⟩ :: after)
    (hhands : s'.hands = before ++ ⟨n, role, y⟩ :: after) (hcalls : s'.calls = s.calls)
    (hhandles : s'.handles = s.handles) (hclosing : s'.closing = s.closing) : s'.Tended := by
  intro hne w hw
  rw [Held, hhandles, hclosing, hcalls]
  rw [hhands] at hw
  rw [hclosing] at hne
  rcases List.mem_append.mp hw with hw | hw
  · exact hs hne w (by simp [h, hw])
  · rcases List.mem_cons.mp hw with rfl | hw
    · exact hs hne ⟨n, role, x⟩ (by simp [h])
    · exact hs hne w (by simp [h, hw])

theorem Step.tended (h : Step s e s') (hst : s.Staged) (hs : s.Tended) : s'.Tended := by
  cases h with
  | offer job =>
    exact fun hne w hw =>
      (hs hne w hw).imp_right (Or.imp_right (List.mem_append_left _))
  | @proceed before after x y e h hx =>
    exact fun hne w hw => (hs hne w hw).of_calls h hx.ne_hired [y] rfl rfl rfl
  | send h => exact fun hne w hw => (hs hne w hw).of_calls h nofun [.sent] rfl rfl rfl
  | finish h hx => exact fun hne w hw => (hs hne w hw).of_calls h hx.ne_hired [] rfl rfl rfl
  | number h => exact fun hne w hw => (hs hne w hw).of_calls h nofun [.numbered s.hired] rfl rfl rfl
  | @hire before after n h =>
    intro hne w hw
    rcases List.mem_append.mp hw with hw | hw
    · exact (hs hne w hw).of_calls h nofun [.hired n] rfl rfl rfl
    · rw [List.mem_singleton.mp hw]
      exact .inr (.inr (by simp))
  | @register before after n h =>
    intro hne w hw
    rcases hs hne w hw with hhandle | hawaited | hcall
    · have hpresent : s.Present w.number := List.mem_map_of_mem hw
      exact .inl (List.mem_append_left _ (List.mem_filter.mpr ⟨hhandle, decide_eq_true hpresent⟩))
    · exact .inr (.inl hawaited)
    · by_cases heq : w.number = n
      · exact .inl (by simp [heq])
      · exact .inr (.inr (by simpa [h, heq] using hcall))
  | receive h => exact hs.move h rfl rfl rfl rfl
  | work h => exact hs.move h rfl rfl rfl rfl
  | leave h => exact hs.move h rfl rfl rfl rfl
  | @depart before after n role h =>
    intro hne w hw
    refine hs hne w ?_
    rw [h]
    exact ((List.sublist_cons_self _ after).append_left before).subset hw
  | raise h =>
    intro _ w hw
    have hheld := hs (by simp [hst.uncalled h]) w hw
    rwa [Held, hst.uncalled h] at hheld
  | close h | draw h | strike h | discard h =>
    intro _ w hw
    have hheld := hs (by simp [h]) w hw
    rwa [Held, h] at hheld
  | collect h =>
    intro _ w hw
    rcases hs (by simp [h]) w hw with hhandle | hawaited | hcall
    · exact .inr (.inl hhandle)
    · simp [h, Winding.awaited] at hawaited
    · exact .inr (.inr hcall)
  | join h hgone =>
    intro _ w hw
    rcases hs (by simp [h]) w hw with hhandle | hawaited | hcall
    · exact .inl hhandle
    · rw [h] at hawaited
      exact absurd (List.mem_map_of_mem hw) (hgone _ hawaited)
    · exact .inr (.inr hcall)
  | expire h => exact fun hne => absurd rfl hne
  | again h => exact hs

/-! ## Leaving -/

/-- The only way to stop waiting is to leave. -/
theorem Step.leaving (h : Step s e s') {w : Hand J} (hw : w ∈ s'.hands)
    (hout : w.stance.isLeaving = true) :
    (∃ v ∈ s.hands, v.number = w.number ∧ v.stance.isLeaving = true) ∨
      (⟨w.number, w.role, .resting⟩ ∈ s.hands ∧ s.waiting = []) := by
  have hsame (hw : w ∈ s.hands) : ∃ v ∈ s.hands, v.number = w.number ∧ v.stance.isLeaving = true :=
    ⟨w, hw, rfl, hout⟩
  cases h with
  | offer | proceed | send | finish | number | register | raise | close | draw | strike | discard
    | collect | join | expire | again => exact .inl (hsame hw)
  | hire h =>
    rcases List.mem_append.mp hw with hw | hw
    · exact .inl (hsame hw)
    · rw [List.mem_singleton.mp hw] at hout
      cases hout
  | receive h hwait =>
    rw [List.mem_append, List.mem_cons] at hw
    rcases hw with hw | rfl | hw
    · exact .inl (hsame (by simp [h, hw]))
    · cases hout
    · exact .inl (hsame (by simp [h, hw]))
  | @work before after n role x y e h hx =>
    rw [List.mem_append, List.mem_cons] at hw
    rcases hw with hw | rfl | hw
    · exact .inl (hsame (by simp [h, hw]))
    · exact .inl ⟨⟨n, role, x⟩, by simp [h], rfl, hx.isLeaving ▸ hout⟩
    · exact .inl (hsame (by simp [h, hw]))
  | leave h hwait =>
    rw [List.mem_append, List.mem_cons] at hw
    rcases hw with hw | rfl | hw
    · exact .inl (hsame (by simp [h, hw]))
    · exact .inr ⟨by simp [h], hwait⟩
    · exact .inl (hsame (by simp [h, hw]))
  | depart h =>
    rw [List.mem_append] at hw
    rcases hw with hw | hw <;> exact .inl (hsame (by simp [h, hw]))

/-- A worker that goes has left its wait. -/
theorem Step.gone (h : Step s e s') {w : Hand J} (hw : w ∈ s.hands)
    (hgone : ¬ s'.Present w.number) :
    w.stance.isLeaving = true := by
  have hstays (hw : w ∈ s'.hands) : w.stance.isLeaving = true :=
    absurd (List.mem_map_of_mem hw) hgone
  cases h with
  | offer | proceed | send | finish | number | register | raise | close | draw | strike | discard
    | collect | join | expire | again => exact hstays hw
  | hire h => exact hstays (List.mem_append_left _ hw)
  | receive h | work h | leave h =>
    have hmem : w.number ∈ s.hands.map Hand.number := List.mem_map_of_mem hw
    exact absurd (by simpa [Present, h] using hmem) hgone
  | depart h =>
    rw [h, List.mem_append, List.mem_cons] at hw
    rcases hw with hw | rfl | hw
    · exact hstays (List.mem_append_left _ hw)
    · rfl
    · exact hstays (List.mem_append_right _ hw)

end Floor

/-! ## A new pool -/

namespace Pool

theorem hireCore_config (p : Pool J) (n : Nat) : (p.hireCore n).config = p.config := by
  induction n generalizing p with
  | zero => rfl
  | succ n ih => exact ih (p.hire .core)

theorem hireCore_live (p : Pool J) (n : Nat) : (p.hireCore n).counts.live = p.counts.live + n := by
  induction n generalizing p with
  | zero => rfl
  | succ n ih =>
    rw [hireCore, ih]
    simp [hire]
    omega

theorem hireCore_role (p : Pool J) (n : Nat) (h : ∀ w ∈ p.workers, w.role = .core) :
    ∀ w ∈ (p.hireCore n).workers, w.role = .core := by
  induction n generalizing p with
  | zero => exact h
  | succ n ih =>
    refine ih (p.hire .core) fun w hw => ?_
    rcases List.mem_append.mp hw with hw | hw
    · exact h w hw
    · rw [List.mem_singleton.mp hw]

theorem create_config {c : PoolConfig} {p : Pool J} (h : create c = .ok p) : p.config = c := by
  unfold create at h
  split at h
  · cases h
  · obtain rfl := Except.ok.inj h
    exact hireCore_config _ _

/-- A new pool has its core workers and no others, and they are not too many. -/
theorem create_core {c : PoolConfig} {p : Pool J} (h : create c = .ok p) :
    p.config.coreSize ≤ p.config.maxSize ∧ p.counts.live = p.config.coreSize.toNat ∧
      ∀ w ∈ p.workers, w.role = .core := by
  unfold create at h
  split at h
  · cases h
  · rename_i hfault
    obtain rfl := Except.ok.inj h
    rw [hireCore_config, hireCore_live]
    refine ⟨?_, Nat.zero_add _, hireCore_role _ _ (by simp)⟩
    unfold PoolConfig.fault? at hfault
    split at hfault
    · cases hfault
    · split at hfault
      · cases hfault
      · rename_i hmax
        exact UInt64.not_lt.mp hmax

end Pool

namespace Floor

variable {c : PoolConfig} {p : Pool J}

theorem Manned.opened (h : Pool.create c = .ok p) : (Workshop.opened p).floor.Manned where
  core _ := by
    obtain ⟨-, hlive, hcore⟩ := Pool.create_core h
    have hrole : (fun w : Worker J => decide (w.hand.role = .core)) = fun w =>
      decide (w.role = .core) := rfl
    rw [Floor.core, Workshop.floor, Workshop.opened]
    simp only [List.countP_map, Function.comp_def, hrole]
    rw [List.countP_eq_length.mpr (by simpa using hcore), ← (Pool.create_new h).live, hlive]
  leaving w hw hout := by
    obtain ⟨v, hv, rfl⟩ := List.mem_map.mp hw
    rw [hand_of_create h hv] at hout
    cases hout

theorem Tended.opened (p : Pool J) : (Workshop.opened p).floor.Tended := by
  intro _ w hw
  obtain ⟨v, hv, rfl⟩ := List.mem_map.mp hw
  exact .inl (List.mem_map_of_mem hv)

end Floor

end Timetable
