import FluxBalance.Error

/-!
# Coordinates of unknowns

An unknown of a network is one potential component of one node. Its coordinates are checked
when they are put together: neither may be negative or exceed a limit.
-/

namespace FluxBalance

/-- The coordinates of one unknown. -/
structure ComponentIndex where
  node : Nat
  component : Nat
  deriving Repr, DecidableEq

namespace ComponentIndex

/-- The usual limit of a coordinate, the largest 32-bit word. -/
def usualLimit : Nat := Nat.pow 2 32 - 1

/-- One coordinate, which has to lie between zero and the limit. -/
def checkCoordinate (label : String) (value : Int) (limit : Nat) : Except IndexOverflow Nat :=
  if 0 ≤ value ∧ value ≤ limit then .ok value.toNat
  else .error (.coordinate label value limit)

/-- The coordinates of a node and a component; the node is looked at first. -/
def new (node component : Int) (limit : Nat) : Except IndexOverflow ComponentIndex := do
  let n ← checkCoordinate "node" node limit
  let c ← checkCoordinate "component" component limit
  return ⟨n, c⟩

/-- A coordinate is accepted exactly if it lies between zero and the limit. -/
theorem checkCoordinate_eq_ok_iff {label : String} {value : Int} {limit n : Nat} :
    checkCoordinate label value limit = .ok n ↔ value = n ∧ n ≤ limit := by
  unfold checkCoordinate
  split
  · simp only [Except.ok.injEq]; omega
  · simp only [reduceCtorEq, false_iff]; omega

/-- Whether one unknown comes before another or is the same: by the node, then by the
component. -/
def le (a b : ComponentIndex) : Bool :=
  a.node < b.node || (a.node == b.node && a.component ≤ b.component)

theorem le_trans {a b c : ComponentIndex} (hab : le a b) (hbc : le b c) : le a c := by
  simp only [le, Bool.or_eq_true, Bool.and_eq_true, decide_eq_true_eq, beq_iff_eq] at *
  omega

theorem le_total (a b : ComponentIndex) : le a b || le b a := by
  simp only [le, Bool.or_eq_true, Bool.and_eq_true, decide_eq_true_eq, beq_iff_eq]
  omega

/-- A list of unknowns in ascending order, repetitions included. -/
def sort (xs : List ComponentIndex) : List ComponentIndex := xs.mergeSort le

/-- A sorted list is in ascending order. -/
theorem pairwise_sort (xs : List ComponentIndex) : (sort xs).Pairwise (le · ·) :=
  @List.pairwise_mergeSort _ le (fun _ _ _ => le_trans) le_total xs

/-- Sorting neither adds nor drops unknowns. -/
theorem sort_perm (xs : List ComponentIndex) : (sort xs).Perm xs := List.mergeSort_perm xs le

end ComponentIndex

end FluxBalance
