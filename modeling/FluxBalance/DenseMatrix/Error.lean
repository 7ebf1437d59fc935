/-!
# Matrix errors

What a matrix operation can refuse, and the outcome of an attempted inversion. Each cause
carries the indices or shapes that its message shows.
-/

namespace FluxBalance

/-- The result of an attempt to invert a matrix in place. -/
inductive InversionOutcome where
  | determinantZero
  | singularZeroValue
  | zeroDuringElimination
  | unknownInternalError
  | success
  deriving Repr, DecidableEq, Inhabited

namespace InversionOutcome

/-- The outcome's name in messages. -/
def name : InversionOutcome → String
  | determinantZero => "DETERMINANT_ZERO"
  | singularZeroValue => "SINGULAR_ZERO_VALUE"
  | zeroDuringElimination => "ZERO_DURING_ELIMINATION"
  | unknownInternalError => "UNKNOWN_INTERNAL_ERROR"
  | success => "SUCCESS"

/-- The outcome's code across the handle facade; success is the largest 32-bit word. -/
def code : InversionOutcome → Nat
  | determinantZero => 0
  | singularZeroValue => 1
  | zeroDuringElimination => 2
  | unknownInternalError => 3
  | success => 0xFFFFFFFF

end InversionOutcome

/-- Why a matrix operation is refused. -/
inductive MatrixError where
  /-- A row or column index lies outside the shape. -/
  | outOfBounds (row col : Int) (rows cols : Nat)
  /-- A shape with a negative side. -/
  | negativeShape (rows cols : Int)
  /-- An identity of negative size. -/
  | negativeIdentity (size : Int)
  /-- Rows of different lengths. -/
  | raggedRows
  /-- A flat list that does not fill the asked number of rows. -/
  | unfillable (elements : Nat) (rows : Int)
  /-- A product of shapes that do not fit. -/
  | product (rows cols rows' cols' : Nat)
  /-- A sum or difference of different shapes; the first argument is the verb. -/
  | elementwise (verb : String) (rows cols rows' cols' : Nat)
  /-- An augmentation by a matrix with another number of rows. -/
  | augment (rows rows' : Nat)
  /-- A block whose second corner comes before its first. -/
  | corners (r1 c1 r2 c2 : Int)
  /-- The determinant of a matrix that is not square. -/
  | determinantShape
  /-- The inversion of a matrix that is not square. -/
  | inversionShape (rows cols : Nat)
  /-- An inversion that was tried and failed. -/
  | inversion (outcome : InversionOutcome)
  deriving Repr, DecidableEq

/-- The message of a matrix error. -/
def MatrixError.message : MatrixError → String
  | outOfBounds row col rows cols =>
    s!"Index ({row}, {col}) is outside a {rows}x{cols} matrix."
  | negativeShape rows cols => s!"Cannot build a {rows}x{cols} matrix."
  | negativeIdentity n => s!"Cannot build a {n}x{n} identity matrix."
  | raggedRows => "All rows must have the same number of columns."
  | unfillable elements rows => s!"{elements} elements cannot fill {rows} rows."
  | product r c r2 c2 => s!"Cannot multiply a {r}x{c} matrix by a {r2}x{c2} matrix."
  | elementwise verb r c r2 c2 =>
    s!"Cannot {verb} a {r}x{c} matrix and a {r2}x{c2} matrix."
  | augment r r2 => s!"Cannot augment a matrix with {r} rows with one of {r2} rows."
  | corners r1 c1 r2 c2 => s!"Corner ({r2}, {c2}) precedes corner ({r1}, {c1})."
  | determinantShape => "The determinant is only defined for square matrices."
  | inversionShape r c => s!"Cannot invert a {r}x{c} matrix."
  | inversion outcome => "Matrix inversion failed: " ++ outcome.name ++ "."

end FluxBalance
