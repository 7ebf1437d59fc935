import FluxBalance.Equation.Reader
import FluxBalance.Scalar
import FluxBalance.Error

/-!
# Equations and their expressions

An equation is given as a text. With one equality sign it says that its two sides are equal and
stands for their difference; without one it stands for itself. `parse` makes a simplified
expression of the text, and an `Expression` is one in which the constants of a context have been
put in for their names. What is left are the unknowns.

Everything works over any type of scalars that is `Evaluable`. Doubles are the type that the
program computes with; over the rationals nothing is rounded.
-/

namespace FluxBalance

open FluxBalance.Equation

/-- Scalars for which equations can be evaluated. -/
class Evaluable (α : Type) extends Scalar α where
  /-- What an expression is evaluated to on the way. -/
  Value : Type
  /-- The operations on these values. -/
  arithmetic : Arithmetic Value
  /-- How decimals are computed with. -/
  rules : DecimalRules
  /-- A scalar as a constant of an equation. -/
  toConstant : α → Constant
  /-- A scalar as a value. -/
  toValue : α → Value
  /-- The scalar that a value is, if it is one. -/
  ofValue? : Value → Option α

instance {α : Type} [e : Evaluable α] : Arithmetic (Evaluable.Value α) := e.arithmetic

instance : Evaluable Float where
  Value := Quantity
  arithmetic := inferInstance
  rules := doubleRules
  toConstant := Constant.ofDouble
  toValue := .real
  ofValue?
    | .real x => some x
    | .complex .. => none

instance : Evaluable Rat where
  Value := Rat
  arithmetic := inferInstance
  rules := rationalRules
  toConstant := .decimal
  toValue q := q
  ofValue? := some

/-! ### Equality signs -/

namespace Equation

/-- The texts between the single equality signs of a text. A sign that is part of a comparison
does not count. The second argument is the character before the text. -/
def splitAtEquals : List Char → Option Char → List (List Char)
  | [], _ => [[]]
  | c :: rest, before =>
    let following := splitAtEquals rest (some c)
    if c = '=' && !partOfComparison before && rest.head? != some '=' then [] :: following
    else
      match following with
      | part :: parts => (c :: part) :: parts
      | [] => [[c]]
where
  /-- Whether an equality sign after the character belongs to a comparison. -/
  partOfComparison (before : Option Char) : Bool :=
    match before with
    | some c => c = '<' || c = '>' || c = '=' || c = '!'
    | none => false

/-- The text whose value is to be zero: the text itself, or the difference of its two sides. -/
def residualText (text : String) : Except ExpressionError String :=
  match splitAtEquals text.toList none with
  | [_] => .ok text
  | [left, right] =>
    if left.all Text.isBlank || right.all Text.isBlank then .error (.emptySide text)
    else .ok ("(" ++ String.ofList left ++ ") - (" ++ String.ofList right ++ ")")
  | _ => .error (.manyEquals text)

/-- The formula of an equation. -/
def readFormula (text : String) : Except ExpressionError Formula := do
  if Text.isAllBlank text then throw .blank
  let body ← residualText text
  match Operand.ofText? body with
  | none => throw (.unreadable text)
  | some (.scalar f) => return f
  | some _ => throw (.notScalar text)

section

variable {α : Type}

/-- The simplified expression of an equation. -/
def parse (rules : DecimalRules) (text : String) : Except (Error α) (Expr Constant) :=
  match readFormula text with
  | .error e => .error (.expression e)
  | .ok f =>
    match f.simplify rules with
    | .ok e => .ok e
    | .error .unreadable => .error (.expression (.unreadable text))
    | .error .divisionByZero => .error (.fault .divisionByZero)

end

end Equation

/-! ### Contexts -/

/-- Named constants. -/
abbrev Context (α : Type) := List (String × α)

namespace Context

variable {α : Type}

/-- The value of a name. -/
def lookup? (context : Context α) (name : String) : Option α :=
  (context.find? fun p => p.1 == name).map (·.2)

/-- Whether a name has a value. -/
def contains (context : Context α) (name : String) : Bool := context.any fun p => p.1 == name

/-- The context with the value of a name set; a new name comes last. -/
def set (context : Context α) (name : String) (value : α) : Context α :=
  if context.contains name then context.map fun p => if p.1 == name then (name, value) else p
  else context ++ [(name, value)]

/-- The usual constants: the ratio of a circle's circumference to its diameter, and the base of
the natural logarithms. -/
def usual : Context Float := [("pi", 3.141592653589793), ("e", 2.718281828459045)]

end Context

/-! ### Expressions with a context -/

section

variable {α : Type} [Evaluable α]

/-- The names of an equation that are not in the context. -/
def freeVariables (text : String) (context : Context α) : Except (Error α) (List String) := do
  let e ← Equation.parse (Evaluable.rules α) text
  return e.vars.filter fun n => !context.contains n

/-- An equation with the constants of a context put in. -/
structure Expression (α : Type) [Evaluable α] where
  /-- The text of the equation. -/
  text : String
  /-- The simplified expression. -/
  expr : Expr Constant
  /-- The expression with the values of its constants. -/
  prepared : Expr (Literal (Evaluable.Value α)) := expr.prepare
  /-- The unknowns in ascending order. -/
  vars : List String := expr.vars

/-- The constants of a context that occur in an expression, in the order in which they are put
in: infinite and undefined ones first, then by name. -/
def constantsFor (context : Context α) (e : Expr Constant) : List (String × Constant) :=
  let all := e.vars.filterMap fun n =>
    (context.lookup? n).map fun x => (n, Evaluable.toConstant x)
  all.filter (fun p => !p.2.isFinite) ++ all.filter (fun p => p.2.isFinite)

/-- The expression of an equation in a context. -/
def Expression.ofText (text : String) (context : Context α) :
    Except (Error α) (Expression α) := do
  let e ← Equation.parse (Evaluable.rules α) text
  match e.replaceVars (Evaluable.rules α) (constantsFor context e) with
  | .ok e => return { text := text, expr := e }
  | .error .unreadable => throw (.fault .badValue)
  | .error .divisionByZero => throw (.fault .divisionByZero)

/-- The value of an expression, given the values of its unknowns. It is an error if one of them
is not given, and if the value does not exist or is not finite. -/
def Expression.evaluate (e : Expression α) (values : String → Option α) :
    Except (Error α) α := do
  match e.vars.find? fun n => (values n).isNone with
  | some n => throw (.domain (.missingValue n e.text))
  | none =>
    match e.prepared.evaluatePrepared fun n => (values n).map Evaluable.toValue with
    | .error .undefined => throw (.domain (.undefinedAt e.text))
    | .error (.unknownFunction name) => throw (.fault (.unknownFunction name))
    | .ok v =>
      match Evaluable.ofValue? v with
      | none => throw (.domain (.undefinedAt e.text))
      | some x =>
        if Scalar.isFinite x then return x else throw (.domain (.notFiniteAt e.text))

/-- The written form of an expression: its text and its unknowns. -/
def Expression.written (e : Expression α) : String :=
  "Expression(" ++ Text.quoted e.text ++ ", variables=" ++ Text.quotedTuple e.vars ++ ")"

end

end FluxBalance
