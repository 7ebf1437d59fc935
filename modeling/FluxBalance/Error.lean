import FluxBalance.DenseMatrix.Error
import FluxBalance.Number.Decimal
import FluxBalance.Text.Quoted

/-!
# Errors

Everything that an operation of this library can refuse, by cause. A cause carries what its
message shows, so the wording is in one place, `Error.message`.

The causes called faults are those that do not belong to the domain: an argument of the wrong
type, a key that is not there, a division by zero in plain arithmetic. The solvers turn some of
them, the arithmetic ones, into errors of the equation that was being evaluated; which ones
they are is said by `Error.isArithmetic`.
-/

namespace FluxBalance

/-! ### Names of equations -/

/-- How an equation of a system is called in messages. -/
inductive EquationName where
  /-- A name given as text. -/
  | text (name : String)
  /-- The position in a list of equations without names. -/
  | position (index : Nat)
  /-- The balance of one potential component of a node. -/
  | balance (node component : Nat)
  deriving Repr, DecidableEq

/-- The written form of an equation's name. -/
def EquationName.written : EquationName → String
  | text name => Text.quoted name
  | position index => toString index
  | balance node component =>
    "ComponentIndex(node=" ++ toString node ++ ", component=" ++ toString component ++ ")"

/-! ### Causes -/

/-- Why a text is not an equation. -/
inductive ExpressionError where
  | blank
  | emptySide (text : String)
  | manyEquals (text : String)
  | unreadable (text : String)
  | notScalar (text : String)
  deriving Repr, DecidableEq

/-- The message of an expression error. -/
def ExpressionError.message : ExpressionError → String
  | blank => "Equation text must be a non-empty string."
  | emptySide text => "Equation '" ++ text ++ "' has an empty side."
  | manyEquals text => "Equation '" ++ text ++ "' contains more than one '='."
  | unreadable text => "Could not parse equation '" ++ text ++ "'"
  | notScalar text => "Equation '" ++ text ++ "' is not a scalar expression."

/-- Why a function or an equation has no value, or no root, where one was asked for. -/
inductive DomainError where
  /-- The equation is undefined at the point. -/
  | undefinedAt (text : String)
  /-- The equation's value at the point is infinite or not a number. -/
  | notFiniteAt (text : String)
  /-- The point does not say what a variable of the equation is. -/
  | missingValue (name text : String)
  | notEvaluable
  | functionNotFinite
  | derivativeVanished
  | emptyInterval
  | noRoot
  | residualNotFinite
  /-- What a residual function reports in its own words. -/
  | reported (text : String)
  deriving Repr, DecidableEq

/-- The message of a domain error. -/
def DomainError.message : DomainError → String
  | undefinedAt text => "'" ++ text ++ "' is undefined"
  | notFiniteAt text => "'" ++ text ++ "' is not finite"
  | missingValue name text =>
    "No value given for variable " ++ Text.quoted name ++ " of '" ++ text ++ "'."
  | notEvaluable => "Function could not be evaluated"
  | functionNotFinite => "Function is not finite"
  | derivativeVanished => "Derivative vanished"
  | emptyInterval => "Empty interval"
  | noRoot => "No root"
  | residualNotFinite => "residual is not finite"
  | reported text => text

/-- Why equations cannot be counted into a system. -/
inductive ConstraintError where
  /-- An equation that should have one unknown has these. -/
  | unknowns (text : String) (found : List String)
  /-- The first equation of a builder is not an equation. -/
  | seedRejected (cause : ExpressionError)
  /-- The counts of equations and unknowns, and the name of the status that follows. -/
  | notConstrained (equations unknowns : Nat) (status : String)
  deriving Repr, DecidableEq

/-- The message of a constraint error. -/
def ConstraintError.message : ConstraintError → String
  | unknowns text found =>
    "'" ++ text ++ "' must contain exactly one unknown, found " ++ Text.quotedList found ++ "."
  | seedRejected cause => "Seed equation rejected: " ++ cause.message
  | notConstrained n m status =>
    "Cannot build a system with " ++ toString n ++ " equations and " ++ toString m
      ++ " unknowns (" ++ status ++ ")."

/-- Why a coordinate of an unknown is too large to be addressed. -/
inductive IndexOverflow where
  | coordinate (label : String) (value : Int) (limit : Nat)
  | nodes (count : Nat)
  | components (count : Nat)
  deriving Repr, DecidableEq

/-- The message of an index overflow. -/
def IndexOverflow.message : IndexOverflow → String
  | coordinate label value limit =>
    label ++ " index " ++ toString value ++ " does not fit in [0, " ++ toString limit ++ "]."
  | nodes count => toString count ++ " nodes exceed the addressable index range."
  | components count =>
    "A node with " ++ toString count ++ " components exceeds the addressable index range."

/-- Why access to a node is refused. -/
inductive BorrowConflict where
  | exclusive
  | readers (count : Nat)
  | drivenLoop (node : Nat)
  deriving Repr, DecidableEq

/-- The message of a borrow conflict. -/
def BorrowConflict.message : BorrowConflict → String
  | exclusive => "Node is already mutably borrowed."
  | readers count => "Node is borrowed by " ++ toString count ++ " reader(s)."
  | drivenLoop node =>
    "Node " ++ toString node ++ " is driven around a loop of potential-driving elements."

/-- Why an element cannot be made. -/
inductive ElementError (α : Type) where
  | invalidGain
  | columnShape (what : String) (components rows cols : Nat)
  | squareShape (what : String) (components rows cols : Nat)
  | selfLoop (node : Int)
  | componentCounts (input output : Int) (inputCount outputCount : Nat)
  | bothLocked (input output : Int)
  | notAnElement (description : String)
  | notInLibrary (library name : String)
  | unknownName (name : String)
  | ambiguousName (name : String)
  | valueCount (what : String) (components count : Nat)
  | conductorValues (count : Nat)
  | convectionValues (count : Nat)
  | notPositive (what : String) (values : List α)
  deriving Repr, DecidableEq

/-- The message of an element error. -/
def ElementError.message : ElementError Float → String
  | invalidGain => "Invalid gain"
  | columnShape what n r c =>
    what ++ " gain must be " ++ toString n ++ "x1 (or 1x1), got " ++ toString r ++ "x"
      ++ toString c ++ "."
  | squareShape what n r c =>
    what ++ " gain must be " ++ toString n ++ "x" ++ toString n ++ " (or 1x1), got "
      ++ toString r ++ "x" ++ toString c ++ "."
  | selfLoop node => "An element cannot connect node " ++ toString node ++ " to itself."
  | componentCounts i o n m =>
    "Nodes " ++ toString i ++ " and " ++ toString o ++ " have " ++ toString n ++ " and "
      ++ toString m ++ " potential components."
  | bothLocked i o =>
    "Cannot drive a potential between nodes " ++ toString i ++ " and " ++ toString o
      ++ ": both are locked."
  | notAnElement description => "Element constructor returned " ++ description ++ "."
  | notInLibrary library name => "'" ++ library ++ "' has no element named '" ++ name ++ "'."
  | unknownName name => "Element name '" ++ name ++ "' is unknown; give a model type."
  | ambiguousName name => "Element name '" ++ name ++ "' is ambiguous; give a model type."
  | valueCount what n k =>
    what ++ " needs 1 or " ++ toString n ++ " values, got " ++ toString k ++ "."
  | conductorValues k =>
    "A conductor needs either [k / L] or [L, k], got " ++ toString k ++ " values."
  | convectionValues k =>
    "A convection interface needs only the coefficient [h], got " ++ toString k ++ " values."
  | notPositive what values =>
    what ++ " must be positive, got " ++ Number.shortestList values ++ "."

/-- A cause outside the domain. -/
inductive Fault where
  | wrongType
  | badValue
  | unknownKey
  | badIndex
  | divisionByZero
  | overflow
  | arithmetic
  | unknownFunction (name : String)
  | notText
  | badEncoding
  | other (name : String)
  deriving Repr, DecidableEq

/-- What is wrong at one place of a model document. -/
inductive ComplaintKind where
  | missing
  | unexpected
  | notObject
  | notDictionary
  | notList
  | notText
  | notInteger
  | notNumber
  | notTruth
  | tooShort
  | negative
  | unreadableKey
  | invalidJson
  /-- A rule of the document is broken, which is said in words. -/
  | rule (text : String)
  deriving Repr, DecidableEq

/-- The name of a kind of complaint. -/
def ComplaintKind.name : ComplaintKind → String
  | missing => "missing"
  | unexpected => "extra_forbidden"
  | notObject => "model_type"
  | notDictionary => "dict_type"
  | notList => "list_type"
  | notText => "string_type"
  | notInteger => "int_type"
  | notNumber => "float_type"
  | notTruth => "bool_type"
  | tooShort => "too_short"
  | negative => "greater_than_equal"
  | unreadableKey => "int_parsing"
  | invalidJson => "json_invalid"
  | rule _ => "value_error"

/-- One complaint about a model document. -/
structure Complaint where
  /-- The keys and indices that lead to the place. -/
  path : List String
  kind : ComplaintKind
  deriving Repr, DecidableEq

/-- Complaints are listed by their places, and those about one place by their kinds. -/
def Complaint.le (a b : Complaint) : Bool :=
  decide (a.path < b.path) || (a.path == b.path && decide (a.kind.name ≤ b.kind.name))

/-! ### All errors -/

/-- Everything that can go wrong. -/
inductive Error (α : Type) where
  | matrix (cause : MatrixError)
  /-- A node without potential components. -/
  | nodeWidth (components : Int)
  /-- A potential of another shape than the node's. -/
  | potentialShape (components rows cols : Nat)
  | expression (cause : ExpressionError)
  | domain (cause : DomainError)
  /-- The evaluation of one equation of a system failed. -/
  | evaluation (equation : EquationName) (cause : Error α)
  | margin
  | iterationLimit (limit : Int) (residual : Option α)
  | unequalCounts (equations unknowns : Nat)
  | singularJacobian (outcome : InversionOutcome)
  | constraint (cause : ConstraintError)
  | noNodes
  | indexOverflow (cause : IndexOverflow)
  | borrow (cause : BorrowConflict)
  | missingEndpoint (index : Int) (count : Nat)
  | element (cause : ElementError α)
  | studyConfigured
  | model (complaints : List Complaint)
  /-- A handle that is not live or is of another kind. -/
  | handle
  | fault (cause : Fault)
  /-- No failure, but a computation that goes on for ever. Nobody is told about it. -/
  | endless
  deriving DecidableEq

namespace Error

variable {α : Type}

/-- Whether the error is a fault outside the domain. -/
def isFault : Error α → Bool
  | fault _ => true
  | _ => false

/-- Whether the error is one of evaluation: a solver may meet it while it computes a residual,
and reports it as an error of that residual. -/
def isArithmetic : Error α → Bool
  | domain _ | evaluation .. | expression _ | margin | element _ | indexOverflow _
  | nodeWidth _ | potentialShape .. | model _ => true
  | matrix (.outOfBounds ..) | matrix (.inversion _) => false
  | matrix _ => true
  | fault .divisionByZero | fault .badValue | fault .overflow | fault .arithmetic
  | fault .badEncoding => true
  | _ => false

/-- The wording of an error; faults outside the domain have none, and neither has what never
ends. -/
def message : Error Float → String
  | matrix cause => cause.message
  | nodeWidth n =>
    "A node needs at least one potential component, got " ++ toString n ++ "."
  | potentialShape n r c =>
    "Node potential is " ++ toString n ++ "x1, got " ++ toString r ++ "x" ++ toString c ++ "."
  | expression cause => cause.message
  | domain cause => cause.message
  | evaluation equation cause =>
    let head := "Equation " ++ equation.written ++ " could not be evaluated"
    if cause.isFault then head else head ++ ": " ++ cause.message
  | margin => "The convergence margin must be positive"
  | iterationLimit limit residual =>
    "No convergence within " ++ toString limit ++ " iterations" ++
      (match residual with
        | some r => " (last max |residual| = " ++ Number.threePlaces r ++ ")."
        | none => ".")
  | unequalCounts equations unknowns =>
    toString equations ++ " equations cannot determine " ++ toString unknowns ++ " unknowns."
  | singularJacobian outcome => "Jacobian could not be inverted (" ++ outcome.name ++ ")."
  | constraint cause => cause.message
  | noNodes => "The study has no nodes to solve for."
  | indexOverflow cause => cause.message
  | borrow cause => cause.message
  | missingEndpoint index count =>
    "Node " ++ toString index ++ " does not exist (" ++ toString count ++ " nodes)."
  | element cause => cause.message
  | studyConfigured => "This study was already configured; use the BuiltStudy it returned."
  | model _ => "Invalid model document"
  | handle => "Not a live handle of this kind."
  | fault _ | endless => ""

end Error

end FluxBalance
