import Mathlib.Data.List.Nodup
import Timetable.Proofs.Forum

/-!
# The registry and its history

The registry of a forum holds the listeners that were added and have not been removed since, in the
order in which they were added. No number is given twice, a removal finds its listener just if it is
registered, and nobody is removed twice.
-/
namespace Timetable.Forum

variable {R T : Type} {f f' : Forum R T} {x : Happening R T}

/-- The registry is as the history tells, and every answer was right. -/
structure Registry (f : Forum R T) : Prop where
  entries : f.notifier.entries = registered f.history
  drawn : ∀ e ∈ f.history.filterMap Happening.added?, e.1.number < f.notifier.added
  distinct : ((f.history.filterMap Happening.added?).map Prod.fst).Nodup
  removed_drawn : ∀ id, f.history.any (Happening.removes id) → id.number < f.notifier.added
  answered : ∀ before id found after, f.history = before ++ .removed id found :: after →
    (found = true ↔ id ∈ (registered before).map Prod.fst)
  once : ∀ id, f.history.countP (Happening.removes id) ≤ 1
  size : f.notifier.size + f.history.countP Happening.isRemoval =
    (f.history.filterMap Happening.added?).length

theorem map_fst_registered_sublist (history : List (Happening R T)) :
    ((registered history).map Prod.fst).Sublist
      ((history.filterMap Happening.added?).map Prod.fst) :=
  List.filter_sublist.map _

theorem any_fst_eq (entries : List (ListenerId × Listener R)) (id : ListenerId) :
    (entries.any fun e => e.1 = id) = true ↔ id ∈ entries.map Prod.fst := by
  rw [List.any_eq_true, List.mem_map]
  simp only [decide_eq_true_eq]

/-- Of distinct numbers one is taken away, if it is there. -/
theorem length_filter_ne (entries : List (ListenerId × Listener R)) (id : ListenerId)
    (h : (entries.map Prod.fst).Nodup) :
    (entries.filter fun e => e.1 ≠ id).length + (if id ∈ entries.map Prod.fst then 1 else 0) =
      entries.length := by
  induction entries with
  | nil => rfl
  | cons e entries ih =>
    rw [List.map_cons, List.nodup_cons] at h
    have ih := ih h.2
    by_cases he : e.1 = id
    · rw [he] at h
      rw [if_neg h.1] at ih
      simp only [he, List.filter_cons, ne_eq, not_true_eq_false, decide_false, List.map_cons,
        List.mem_cons, true_or, if_true, List.length_cons]
      exact congrArg (· + 1) ih
    · simp only [he, Ne.symm he, List.filter_cons, ne_eq, not_false_eq_true, decide_true, if_true,
        List.map_cons, List.mem_cons, false_or, List.length_cons] at ih ⊢
      omega

/-- What is neither an addition nor a removal changes nothing. -/
theorem Registry.aside (hf : f.Registry) (hnotifier : f'.notifier = f.notifier)
    (hhistory : f'.history = f.history ++ [x]) (hadded : x.added? = none)
    (hremoves : ∀ id, x.removes id = false)
    (hremoval : ∀ id found, x ≠ .removed id found) : f'.Registry := by
  have hadditions :
      f'.history.filterMap Happening.added? = f.history.filterMap Happening.added? := by
    simp [hhistory, hadded]
  have hnot : x.isRemoval = false := by
    cases x with
    | removed id found => exact absurd rfl (hremoval id found)
    | _ => rfl
  refine ⟨?_, ?_, ?_, ?_, ?_, ?_, ?_⟩
  · rw [hnotifier, hhistory, registered_append hadded hremoves, hf.entries]
  · rw [hnotifier, hadditions]
    exact hf.drawn
  · rw [hadditions]
    exact hf.distinct
  · intro id h
    rw [hhistory, List.any_append, List.any_cons, hremoves id] at h
    rw [hnotifier]
    exact hf.removed_drawn id (by simpa using h)
  · intro before id found after hsplit
    rw [hhistory] at hsplit
    rcases concat_eq_append_cons hsplit with ⟨-, heq, -⟩ | ⟨front, -, hsplit⟩
    · exact absurd heq.symm (hremoval id found)
    · exact hf.answered before id found front hsplit
  · intro id
    rw [hhistory, List.countP_append, List.countP_singleton, hremoves id]
    exact hf.once id
  · rw [hhistory, List.countP_append, List.countP_singleton, hnot, ← hhistory,
      hadditions, hnotifier]
    exact hf.size

theorem Registry.add (hf : f.Registry) (l : Listener R)
    (hnotifier : f'.notifier = (f.notifier.add l).2)
    (hhistory : f'.history = f.history ++ [.added (f.notifier.add l).1 l]) : f'.Registry := by
  have hnew : f.history.any (Happening.removes (f.notifier.add l).1) = false := by
    rw [← Bool.not_eq_true]
    intro h
    have := hf.removed_drawn _ h
    exact Nat.lt_irrefl _ this
  have hadditions : f'.history.filterMap Happening.added? =
      f.history.filterMap Happening.added? ++ [((f.notifier.add l).1, l)] := by
    rw [hhistory, List.filterMap_append]
    rfl
  have hgrows : f'.notifier.added = f.notifier.added + 1 := by rw [hnotifier]; rfl
  refine ⟨?_, ?_, ?_, ?_, ?_, ?_, ?_⟩
  · rw [hnotifier, hhistory, registered_added hnew, ← hf.entries]
    rfl
  · intro e he
    rw [hadditions, List.mem_append, List.mem_singleton] at he
    rw [hgrows]
    rcases he with he | rfl
    · exact Nat.lt_succ_of_lt (hf.drawn e he)
    · exact Nat.lt_succ_self _
  · rw [hadditions, List.map_append, List.map_singleton]
    rw [List.nodup_append]
    refine ⟨hf.distinct, List.nodup_singleton _, ?_⟩
    intro id hid other hother heq
    obtain ⟨e, he, rfl⟩ := List.mem_map.mp hid
    have hlt := hf.drawn e he
    rw [heq, List.mem_singleton.mp hother] at hlt
    exact Nat.lt_irrefl _ hlt
  · intro id h
    rw [hhistory, List.any_append, Bool.or_eq_true] at h
    rw [hgrows]
    rcases h with h | h
    · exact Nat.lt_succ_of_lt (hf.removed_drawn id h)
    · simp [Happening.removes] at h
  · intro before id found after hsplit
    rw [hhistory] at hsplit
    rcases concat_eq_append_cons hsplit with ⟨-, heq, -⟩ | ⟨front, -, hsplit⟩
    · cases heq
    · exact hf.answered before id found front hsplit
  · intro id
    rw [hhistory, List.countP_append]
    simpa [Happening.removes] using hf.once id
  · have hsize : f'.notifier.size = f.notifier.size + 1 := by
      rw [hnotifier, Notifier.size, Notifier.add, List.length_append]
      rfl
    have hcount : f'.history.countP Happening.isRemoval = f.history.countP Happening.isRemoval := by
      simp [hhistory, Happening.isRemoval]
    have hold := hf.size
    rw [hsize, hcount, hadditions, List.length_append, List.length_singleton]
    omega

theorem Registry.remove (hf : f.Registry) (id : ListenerId)
    (hnotifier : f'.notifier = (f.notifier.remove id).2)
    (hhistory : f'.history = f.history ++ [.removed id (f.notifier.remove id).1]) :
    f'.Registry := by
  have hadditions :
      f'.history.filterMap Happening.added? = f.history.filterMap Happening.added? := by
    rw [hhistory, List.filterMap_append]
    exact List.append_nil _
  have hfound : (f.notifier.remove id).1 = true ↔ id ∈ (registered f.history).map Prod.fst := by
    rw [← hf.entries]
    exact any_fst_eq _ id
  have hnodup := hf.distinct.sublist (map_fst_registered_sublist f.history)
  have hdrawn (h : (f.notifier.remove id).1 = true) : id.number < f.notifier.added := by
    have hmem := (map_fst_registered_sublist f.history).subset (hfound.mp h)
    obtain ⟨e, he, rfl⟩ := List.mem_map.mp hmem
    exact hf.drawn e he
  have hadded : f'.notifier.added = f.notifier.added := by rw [hnotifier]; rfl
  -- who is registered has not been removed before
  have hnever (h : (f.notifier.remove id).1 = true) :
      f.history.countP (Happening.removes id) = 0 := by
    obtain ⟨e, he, rfl⟩ := List.mem_map.mp (hfound.mp h)
    have hkept := (List.mem_filter.mp he).2
    rw [Bool.not_eq_true', List.any_eq_false] at hkept
    exact List.countP_eq_zero.mpr hkept
  refine ⟨?_, ?_, ?_, ?_, ?_, ?_, ?_⟩
  · rw [hnotifier, hhistory, registered_removed, ← hf.entries]
    · rfl
    · intro hfalse hmem
      rw [hfound.mpr hmem] at hfalse
      cases hfalse
  · rw [hadditions, hadded]
    exact hf.drawn
  · rw [hadditions]
    exact hf.distinct
  · intro other h
    rw [hhistory, List.any_append, Bool.or_eq_true] at h
    rw [hadded]
    rcases h with h | h
    · exact hf.removed_drawn other h
    · simp only [List.any_cons, List.any_nil, Bool.or_false, Happening.removes, Bool.and_eq_true,
        decide_eq_true_eq] at h
      exact h.2 ▸ hdrawn h.1
  · intro before other found after hsplit
    rw [hhistory] at hsplit
    rcases concat_eq_append_cons hsplit with ⟨rfl, heq, -⟩ | ⟨front, -, hsplit⟩
    · cases heq
      exact hfound
    · exact hf.answered before other found front hsplit
  · intro other
    rw [hhistory, List.countP_append, List.countP_singleton]
    have hold := hf.once other
    split
    · rename_i h
      simp only [Happening.removes, Bool.and_eq_true, decide_eq_true_eq] at h
      have hzero := hnever h.1
      rw [h.2] at hzero
      omega
    · exact hold
  · have hlength := length_filter_ne f.notifier.entries id (hf.entries ▸ hnodup)
    have hold := hf.size
    have hsize : f'.notifier.size = (f.notifier.entries.filter fun e => e.1 ≠ id).length := by
      rw [hnotifier]; rfl
    have hcount : f'.history.countP Happening.isRemoval = f.history.countP Happening.isRemoval +
        if id ∈ f.notifier.entries.map Prod.fst then 1 else 0 := by
      have hfound :
          (Happening.removed (R := R) (T := T) id (f.notifier.remove id).1).isRemoval = true ↔
        id ∈ f.notifier.entries.map Prod.fst := any_fst_eq _ id
      simp only [hhistory, List.countP_append, List.countP_singleton, hfound]
    unfold Notifier.size at hold
    rw [hadditions, hcount, hsize]
    omega

/-- Every step keeps the registry as the history tells. -/
theorem Step.registry (h : Step f f') (hf : f.Registry) : f'.Registry := by
  cases h with
  | takeUp | work | panic | caught =>
    exact ⟨hf.entries, hf.drawn, hf.distinct, hf.removed_drawn, hf.answered, hf.once, hf.size⟩
  | add _ l => exact hf.add l rfl rfl
  | remove _ id => exact hf.remove id rfl rfl
  | notify | hook | done => exact hf.aside rfl rfl rfl (fun _ => rfl) (by simp)

end Timetable.Forum
