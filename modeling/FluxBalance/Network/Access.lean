import FluxBalance.Error

/-!
# Access to a node

A node may be read by any number of readers at once, or be written by one writer alone. Whoever
enters receives a guard and leaves through it later. Guards may be left in any order.
-/

namespace FluxBalance

/-- Who is inside a node at present. -/
inductive Access where
  /-- This many readers; the node is free if there are none. -/
  | shared (readers : Nat)
  /-- One writer. -/
  | exclusive
  deriving Repr, DecidableEq, Inhabited

/-- What is left again after entering. -/
inductive Guard where
  | shared
  | exclusive
  deriving Repr, DecidableEq

namespace Access

/-- Nobody is inside. -/
def free : Access := shared 0

/-- Whether somebody is inside. -/
def isBorrowed (a : Access) : Bool := a != free

/-- The number of readers, or minus one for a writer. -/
def counter : Access → Int
  | shared n => n
  | exclusive => -1

/-- One more reader enters. A writer keeps readers out. -/
def enterShared : Access → Except BorrowConflict Access
  | shared n => .ok (shared (n + 1))
  | exclusive => .error .exclusive

/-- A writer enters. Whoever is inside keeps it out. -/
def enterExclusive : Access → Except BorrowConflict Access
  | shared 0 => .ok exclusive
  | shared (n + 1) => .error (.readers (n + 1))
  | exclusive => .error .exclusive

/-- Somebody enters and receives a guard of the given kind. -/
def enter : Guard → Access → Except BorrowConflict Access
  | .shared => enterShared
  | .exclusive => enterExclusive

/-- Whoever holds the guard leaves. -/
def leave : Guard → Access → Access
  | .shared, shared n => shared (n - 1)
  | .shared, exclusive => exclusive
  | .exclusive, _ => free

/-- A reader is kept out exactly by a writer. -/
theorem enterShared_isOk_iff {a : Access} : (a.enterShared).isOk ↔ a ≠ exclusive := by
  cases a <;> simp [enterShared, Except.isOk, Except.toBool]

/-- A writer is kept out exactly by somebody who is inside. -/
theorem enterExclusive_isOk_iff {a : Access} : (a.enterExclusive).isOk ↔ a = free := by
  rcases a with ⟨_ | n⟩ | _ <;> simp [enterExclusive, free, Except.isOk, Except.toBool]

/-- Entering and leaving at once changes nothing. -/
theorem leave_of_enter {g : Guard} {a b : Access} (h : a.enter g = .ok b) : b.leave g = a := by
  cases g <;> cases a <;> simp [enter, enterShared, enterExclusive] at h
  · subst h; simp [leave]
  · rename_i n
    cases n <;> simp at h
    subst h; rfl

end Access

end FluxBalance
