import FluxBalance.DenseMatrix.Basic
import FluxBalance.Error

/-!
# Gains as they are given

The gain of an element may be given as a matrix, as a number, as a list of numbers or as nested
lists, and numbers may be given as texts. There are two readings. `Gain.toMatrix` keeps the
shape: a number is a 1×1 matrix, a list of numbers is a column, and any other list is a list of
rows. `Gain.values` forgets the shape: it is the list of all numbers, which have to form a
rectangular block.
-/

namespace FluxBalance

/-- A gain as it is given. -/
inductive Gain (α : Type) where
  | matrix (A : DenseMatrix α)
  | number (x : α)
  /-- An integer that is too large to be a scalar. -/
  | oversized
  | text (s : String)
  /-- The absence of a value. -/
  | nothing
  | list (items : List (Gain α))
  deriving Inhabited

namespace Gain

variable {α : Type}

/-- Whether the gain is one number. -/
def isNumber : Gain α → Bool
  | number _ | oversized => true
  | _ => false

/-- The characters of a text, each as a text of its own. -/
def letters (s : String) : List (Gain α) := s.toList.map fun c => text (String.ofList [c])

/-- The parts of a gain that is read as a row: the items of a list, or the characters of a
text. -/
def row? : Gain α → Option (List (Gain α))
  | list items => some items
  | text s => some (letters s)
  | matrix A => some (A.toList.map number)
  | _ => none

/-! ### As a matrix -/

section

variable [Scalar α]

/-- One entry of a matrix. A list is no entry. -/
def entry : Gain α → Except (Error α) α
  | number x => .ok x
  | oversized => .error (.fault .overflow)
  | text s =>
    match Scalar.ofText? s with
    | some x => .ok x
    | none => .error (.fault .badValue)
  | _ => .error (.element .invalidGain)

/-- A list of rows as a matrix. The rows have to be rows and of one length before the entries
are looked at. -/
def ofRows (items : List (Gain α)) : Except (Error α) (DenseMatrix α) := do
  let rows ← items.mapM fun r =>
    match r.row? with
    | some parts => .ok parts
    | none => .error (.element .invalidGain)
  let width := (rows.headD []).length
  if rows.any fun r => r.length != width then throw (.element .invalidGain)
  let values ← rows.mapM fun r => r.mapM entry
  match DenseMatrix.ofRows values with
  | .ok A => .ok A
  | .error _ => .error (.element .invalidGain)

/-- A list as a matrix: numbers alone form a column, anything else is rows. -/
def ofItems (items : List (Gain α)) : Except (Error α) (DenseMatrix α) :=
  if !items.isEmpty && items.all isNumber then do return .column (← items.mapM entry)
  else ofRows items

/-- The gain as a matrix. -/
def toMatrix : Gain α → Except (Error α) (DenseMatrix α)
  | matrix A => .ok A
  | list items => ofItems items
  | text s => ofItems (letters s)
  | nothing => .error (.element .invalidGain)
  | g => do return .column [← g.entry]

end

/-! ### As a list of numbers -/

/-- The most levels that nested lists may have. -/
def depthLimit : Nat := 64

mutual

/-- The lengths of nested lists, from the outermost to the innermost; none if they do not form
a rectangular block. -/
def extents? : Gain α → Option (List Nat)
  | list items => do
    let inner ← commonExtents? items
    return items.length :: inner.getD []
  | matrix A => some [A.rows, A.cols]
  | _ => some []

/-- The extents that all items have in common: none if they differ, and an inner none if there
are no items. -/
def commonExtents? : List (Gain α) → Option (Option (List Nat))
  | [] => some none
  | g :: rest => do
    let first ← g.extents?
    match ← commonExtents? rest with
    | none => return some first
    | some others => if first = others then return some first else none

end

mutual

/-- The innermost items of nested lists, in order. -/
def leaves : Gain α → List (Gain α)
  | list items => allLeaves items
  | matrix A => A.toList.map number
  | g => [g]

/-- The innermost items of all gains of a list. -/
def allLeaves : List (Gain α) → List (Gain α)
  | [] => []
  | g :: rest => g.leaves ++ allLeaves rest

end

section

variable [Scalar α]

/-- One number of a block. The absence of a value counts as an undefined number. -/
def leafValue : Gain α → Except (Error α) α
  | number x => .ok x
  | oversized => .error (.fault .overflow)
  | text s =>
    match Scalar.ofText? s with
    | some x => .ok x
    | none => .error (.element .invalidGain)
  | nothing => .ok (0 / 0)
  | _ => .error (.element .invalidGain)

/-- All numbers of the gain, row after row. -/
def values (g : Gain α) : Except (Error α) (List α) :=
  match g with
  | matrix A => .ok A.toList
  | g =>
    match g.extents? with
    | none => .error (.element .invalidGain)
    | some extents =>
      if depthLimit < extents.length then .error (.element .invalidGain)
      else g.leaves.mapM leafValue

end

end Gain

end FluxBalance
