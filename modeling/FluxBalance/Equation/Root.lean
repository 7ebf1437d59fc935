import FluxBalance.Equation.Expression
import FluxBalance.Newton.Scalar

/-!
# Equations with one unknown

An equation that has exactly one unknown is solved for it.
-/

namespace FluxBalance

variable {α : Type} [Evaluable α]

/-- What a solver without a state computes. -/
abbrev Computation (α β : Type) := EStateM (Error α) Unit β

/-- The result of a computation without a state. -/
def Computation.result {β : Type} (c : Computation α β) : Except (Error α) β :=
  match c.run () with
  | .ok b _ => .ok b
  | .error e _ => .error e

/-- Where to look for an unknown. -/
structure Search (α : Type) where
  guess : α
  bounds : Newton.Interval α

/-- The value of an expression with one unknown, as a function of that unknown. -/
def Expression.asFunction (e : Expression α) (name : String) : Newton.ScalarFunction α Unit :=
  fun x => Newton.lift (e.evaluate fun n => if n = name then some x else none)

/-- The name of the unknown of an equation and its value. -/
def solveEquation (text : String) (context : Context α) (search : Search α) (margin : α)
    (limit : Int) : Except (Error α) (String × α) := do
  let e ← Expression.ofText text context
  match e.vars with
  | [name] =>
    let value ← Computation.result (Newton.solveScalar (e.asFunction name) search.guess margin
      limit (some search.bounds) Newton.defaultStep)
    return (name, value)
  | found => throw (.constraint (.unknowns text found))

end FluxBalance
