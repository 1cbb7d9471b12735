/-!
# Priorities

How urgent a task is. Of the tasks that are due, the more urgent run first.
-/
namespace Timetable

/-- The four levels of urgency. -/
inductive Priority where
  | low
  | normal
  | high
  | critical
deriving DecidableEq, Repr

namespace Priority

/-- The level as a number, the more urgent the greater. -/
def rank : Priority → Nat
  | low => 1
  | normal => 2
  | high => 3
  | critical => 4

/-- Tasks are of normal priority unless they say otherwise. -/
instance : Inhabited Priority := ⟨normal⟩

instance : LE Priority := ⟨fun a b => a.rank ≤ b.rank⟩

instance (a b : Priority) : Decidable (a ≤ b) := inferInstanceAs (Decidable (a.rank ≤ b.rank))

/-- The word for the level in data. -/
def name : Priority → String
  | low => "low"
  | normal => "normal"
  | high => "high"
  | critical => "critical"

/-- The word for the level in descriptions. -/
def title : Priority → String
  | low => "Low"
  | normal => "Normal"
  | high => "High"
  | critical => "Critical"

/-- All levels, the least urgent first. -/
def all : List Priority := [low, normal, high, critical]

theorem mem_all (p : Priority) : p ∈ all := by cases p <;> decide

/-- No two levels share a rank. -/
theorem rank_inj {a b : Priority} : a.rank = b.rank ↔ a = b := by
  cases a <;> cases b <;> decide

end Priority

end Timetable
