import FluxBalance.DenseMatrix.Inversion
import FluxBalance.Handles.Table
import FluxBalance.Json.Basic
import FluxBalance.Text.Alphabet

/-!
# Operations on handles

The operations of the facade. Each one takes a fixed number of arguments, finds the objects
behind the handles among them, and works on these objects.
-/

namespace FluxBalance

/-- What a call answers. -/
inductive Reply where
  /-- A handle, a code or a truth value. -/
  | code (n : Int)
  | real (x : Float)
  | text (s : String)
  | document (j : Json)
  | nothing

/-- The operations of the facade. -/
inductive Operation where
  | newMatrix | newIdentity | cloneMatrix | freeMatrix
  | readEntry | writeEntry
  | swapRows | scaleRow | scaleMatrix | addRow | addScaledRow
  | multiply | augment | subset | trace | transpose | invert
  | newContext | newUsualContext | addConstant | freeContext
  | solveEquation
  | newBuilder | constrain | constraintStatus | buildSystem | freeBuilder | showBuilder
  | specifyVariable | solveSystem | freeSystem
  | newDeclared | declareVariable | freeDeclared
  | solvePool
  | releaseText | countHandles
  deriving Repr, DecidableEq

namespace Operation

open HandleAction

/-! ### Matrices -/

/-- A matrix result. -/
def fitting {β : Type} : Except MatrixError β → HandleAction β
  | .ok b => pure b
  | .error cause => throw (.matrix cause)

/-- A new object's handle as a reply. -/
def created (x : HandledObject) : HandleAction Reply := do return .code (← create x)

/-- The reply of an operation that succeeds without a result. -/
def done : Reply := .code 1

/-- Changes a matrix in place. -/
def changeMatrix (m : Argument) (f : DenseMatrix Float → HandleAction (DenseMatrix Float)) :
    HandleAction Reply := do
  let (h, A) ← matrix m
  update h (.matrix (← f A))
  return done

/-- Makes a new matrix of a given one. -/
def deriveMatrix (m : Argument) (f : DenseMatrix Float → HandleAction (DenseMatrix Float)) :
    HandleAction Reply := do
  let (_, A) ← matrix m
  created (.matrix (← f A))

/-- The operations on matrices. -/
def runMatrix : Operation → List Argument → HandleAction Reply
  | newMatrix, [rows, cols] => do
    let r ← understood rows.index
    let c ← understood cols.index
    created (.matrix (← fitting (DenseMatrix.new r c)))
  | newIdentity, [size] => do
    let n ← understood size.index
    created (.matrix (← fitting (DenseMatrix.newIdentity n)))
  | cloneMatrix, [m] => deriveMatrix m fun A => return A
  | freeMatrix, [m] => do
    destroy .matrix m
    return done
  | readEntry, [m, row, col] => do
    let (_, A) ← matrix m
    let r ← understood row.index
    let c ← understood col.index
    return .real (← fitting (A.get r c))
  | writeEntry, [m, row, col, value] => changeMatrix m fun A => do
    let r ← understood row.index
    let c ← understood col.index
    let _ ← fitting (A.get r c)
    fitting (A.set r c (← understood value.entry))
  | swapRows, [m, r1, r2] => changeMatrix m fun A => do
    let i ← understood r1.index
    let j ← understood r2.index
    fitting (A.swapRows i j)
  | scaleRow, [m, row, s] => changeMatrix m fun A => do
    let i ← understood row.index
    fitting (A.scaleRow i (← understood s.factor))
  | scaleMatrix, [m, s] => changeMatrix m fun A => return A.scale (← understood s.factor)
  | addRow, [m, r1, r2] => changeMatrix m fun A => do
    let i ← understood r1.index
    let j ← understood r2.index
    fitting (A.addRow i j)
  | addScaledRow, [m, r1, r2, s] => changeMatrix m fun A => do
    let i ← understood r1.index
    let j ← understood r2.index
    fitting (A.addScaledRow i j (← understood s.factor))
  | multiply, [a, b] => deriveMatrix a fun A => do
    let (_, B) ← matrix b
    fitting (A.product B)
  | augment, [a, b] => deriveMatrix a fun A => do
    let (_, B) ← matrix b
    fitting (A.augment B)
  | subset, [m, r1, c1, r2, c2] => deriveMatrix m fun A => do
    let i ← understood r1.index
    let j ← understood c1.index
    let k ← understood r2.index
    let l ← understood c2.index
    fitting (A.subset i j k l)
  | trace, [m] => do
    let (_, A) ← matrix m
    return .real (A.trace?.getD (0.0 / 0.0))
  | transpose, [m] => deriveMatrix m fun A => return A.transpose
  | invert, [m] => do
    let (h, A) ← matrix m
    let (outcome, B) ← fitting A.tryInvert
    update h (.matrix B)
    return .code outcome.code
  | _, _ => throw (.fault .wrongType)

/-! ### Contexts and single equations -/

/-- A name for a constant or an unknown. Only texts are looked at, and only identifiers are
names. -/
def nameIn : Argument → HandleAction String
  | .text s => if Text.isIdentifier s then pure s else throw (.fault .badValue)
  | _ => throw (.fault .notText)

/-- A bound of an interval. An integer beyond the scalars is a bound only if every scalar
respects it. -/
def boundOf (a : Argument) (isUpper : Bool) : Except Fault Float := do
  let x ← a.compared
  match a with
  | .int n =>
    if !x.isFinite && (decide (n < 0) == isUpper) then throw .overflow
    return x
  | _ => return x

/-- The bound that a guess is moved to, if it lies outside of the interval. -/
def movedTo? (guess lo hi : Float) (lower upper : Argument) : Option Argument :=
  if guess < lo then some lower else if hi < guess then some upper else none

/-- The value of an unknown in a document. A guess that was moved to a bound and has stayed there
is written as the bound was given. -/
def foundValue (x : Float) : Option Argument → Json
  | some (.int n) => if Number.ofInt? n == some x then .int n else .float x
  | _ => .float x

/-- Solves an equation and answers the value of its unknown. -/
def solveOne (equation ctx guess lower upper margin limit : Argument) : HandleAction Reply := do
  let c ← constants ctx
  let n ← understood limit.index
  let g ← understood guess.number
  if ← understood (lower.exceeds upper) then throw (.domain .emptyInterval)
  let lo ← understood (boundOf lower false)
  let hi ← understood (boundOf upper true)
  let (name, x) ←
    computed (FluxBalance.solveEquation equation.equation c ⟨g, lo, hi⟩ margin.margin n)
  return .document (.obj [(name, foundValue x (movedTo? g lo hi lower upper))])

/-- The operations on contexts, and the solution of single equations. -/
def runContext : Operation → List Argument → HandleAction Reply
  | newContext, [] => created (.context [])
  | newUsualContext, [] => created (.context Context.usual)
  | addConstant, [ctx, name, value] => do
    let n ← nameIn name
    let x ← understood value.number
    let (h, c) ← context ctx
    update h (.context (c.set n x))
    return done
  | freeContext, [ctx] => do
    destroy .context ctx
    return done
  | solveEquation, [equation, ctx, guess, lower, upper, margin, limit] =>
    solveOne equation ctx guess lower upper margin limit
  | _, _ => throw (.fault .wrongType)

/-! ### Builders and systems -/

/-- Named numbers as a document. -/
def valuesDocument (xs : List (String × Float)) : Json := .obj (xs.map fun p => (p.1, .float p.2))

/-- Sets where an unknown is looked for: first the guess, then the interval. -/
def specify (target name guess lower upper : Argument) : HandleAction Reply := do
  let (h, s) ← system target
  match name with
  | .text n =>
    if !s.unknowns.contains n then return .code 0
    if ← understood (lower.exceeds upper) then return .code 0
    let g ← understood guess.number
    let s := s.changeSearch n fun search => { search with guess := g }
    update h (.system s)
    let lo ← understood lower.number
    let hi ← understood upper.number
    update h (.system (s.changeSearch n fun search => { search with bounds := (lo, hi) }))
    return done
  | _ => return .code 0

/-- The operations on builders and systems. -/
def runSystem : Operation → List Argument → HandleAction Reply
  | newBuilder, [equation, ctx] => do
    let c ← constants ctx
    created (.builder (← computed (SystemBuilder.new equation.equation c)))
  | constrain, [target, equation] => do
    let (h, b) ← builder target
    let (status, b) ← computed (b.tryConstrain equation.equation)
    update h (.builder b)
    return .code status.code
  | constraintStatus, [target] => do
    let (_, b) ← builder target
    return .code b.status.code
  | buildSystem, [target] => do
    let (_, b) ← builder target
    created (.system (← computed (b.build unbounded)))
  | freeBuilder, [target] => do
    destroy .builder target
    return done
  | showBuilder, [target] => do
    let (_, b) ← builder target
    return .text b.written
  | specifyVariable, [target, name, guess, lower, upper] => specify target name guess lower upper
  | solveSystem, [target, margin, limit] => do
    let (_, s) ← system target
    let n ← understood limit.index
    return .document (valuesDocument (← computed (s.solve margin.margin n)))
  | freeSystem, [target] => do
    destroy .system target
    return done
  | _, _ => throw (.fault .wrongType)

/-! ### Pools -/

/-- The table with where to look for an unknown set. -/
def declare (d : List (String × Search Float)) (name : String) (search : Search Float) :
    List (String × Search Float) :=
  if d.any fun p => p.1 == name then d.map fun p => if p.1 == name then (name, search) else p
  else d ++ [(name, search)]

/-- Solves a block of equations and answers the steps and the values. -/
def solveBlock (block ctx declared margin limit : Argument) : HandleAction Reply := do
  let d ← declarations declared
  let c ← constants ctx
  let n ← understood limit.index
  match block with
  | .text s =>
    let (steps, rest) ← computed (Pool.solve s c ⟨d, unbounded, margin.margin, n⟩)
    return .document (.obj [("log", .arr (steps.map fun s => .str s.written)),
      ("solution", valuesDocument rest.known)])
  | _ => throw (.fault .wrongType)

/-- The operations on declared unknowns and pools. -/
def runPool : Operation → List Argument → HandleAction Reply
  | newDeclared, [] => created (.declared [])
  | declareVariable, [target, name, guess, lower, upper] => do
    let n ← nameIn name
    let g ← understood guess.number
    let lo ← understood lower.number
    let hi ← understood upper.number
    let (h, d) ← HandleAction.declared target
    update h (.declared (declare d n ⟨g, lo, hi⟩))
    return done
  | freeDeclared, [target] => do
    destroy .declared target
    return done
  | solvePool, [block, ctx, declared, margin, limit] => solveBlock block ctx declared margin limit
  | _, _ => throw (.fault .wrongType)

/-! ### All operations -/

/-- What an operation does and answers. A wrong number of arguments is refused. -/
def run (op : Operation) (args : List Argument) : HandleAction Reply :=
  match op with
  | newMatrix | newIdentity | cloneMatrix | freeMatrix | readEntry | writeEntry | swapRows
  | scaleRow | scaleMatrix | addRow | addScaledRow | multiply | augment | subset | trace
  | transpose | invert => runMatrix op args
  | newContext | newUsualContext | addConstant | freeContext | solveEquation =>
    runContext op args
  | newBuilder | constrain | constraintStatus | buildSystem | freeBuilder | showBuilder
  | specifyVariable | solveSystem | freeSystem => runSystem op args
  | newDeclared | declareVariable | freeDeclared | solvePool => runPool op args
  | releaseText =>
    match args with
    | [_] => return done
    | _ => throw (.fault .wrongType)
  | countHandles =>
    match args with
    | [] => return .code (← get).size
    | _ => throw (.fault .wrongType)

end Operation

end FluxBalance
