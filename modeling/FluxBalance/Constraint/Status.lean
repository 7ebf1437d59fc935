/-!
# Constraint status

Whether a system of equations determines its unknowns, judged by their numbers alone.
-/

namespace FluxBalance

/-- How the number of equations compares with the number of unknowns. -/
inductive ConstraintStatus where
  | tooMany
  | tooFew
  | constrained
  deriving Repr, DecidableEq

namespace ConstraintStatus

/-- The status for given numbers of equations and unknowns. -/
def ofCounts (equations unknowns : Nat) : ConstraintStatus :=
  if unknowns < equations then tooMany
  else if equations = unknowns then constrained
  else tooFew

/-- The status's name in messages. -/
def name : ConstraintStatus → String
  | tooMany => "CONSTRAINT_ERROR"
  | tooFew => "NOT_CONSTRAINED"
  | constrained => "CONSTRAINED"

/-- The status's code. -/
def code : ConstraintStatus → Int
  | tooMany => -1
  | tooFew => 0
  | constrained => 1

theorem ofCounts_eq_constrained {n m : Nat} : ofCounts n m = constrained ↔ n = m := by
  unfold ofCounts
  split
  · simp only [reduceCtorEq, false_iff]
    omega
  · split <;> simp_all

theorem ofCounts_eq_tooMany {n m : Nat} : ofCounts n m = tooMany ↔ m < n := by
  unfold ofCounts
  split
  · simp_all
  · split <;> simp_all

end ConstraintStatus

end FluxBalance
