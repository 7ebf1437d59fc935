import FluxBalance.Constraint.Status
import FluxBalance.Equation.Root
import FluxBalance.Newton.System

/-!
# Building constrained systems

A `SystemBuilder` starts from one equation and takes further ones as long as there are not more
equations than unknowns. Once there are as many, it can be made a `ConstrainedSystem`, which is
solved by Newton's method. Whether the equations are independent is not looked at.
-/

namespace FluxBalance

variable {α : Type} [Evaluable α]

/-! ### Builders -/

/-- Equations that share a context. -/
structure SystemBuilder (α : Type) [Evaluable α] where
  context : Context α
  /-- The equations in the order in which they were taken. -/
  equations : List (Expression α)

namespace SystemBuilder

/-- The unknowns of a list of equations, each one once, in ascending order. -/
def unknownsOf (equations : List (Expression α)) : List String :=
  (equations.flatMap (·.vars)).foldr Equation.Expr.insertName []

/-- The unknowns of all equations. -/
def unknowns (b : SystemBuilder α) : List String := unknownsOf b.equations

/-- The texts of the equations. -/
def texts (b : SystemBuilder α) : List String := b.equations.map (·.text)

/-- The status by the numbers of equations and unknowns. -/
def status (b : SystemBuilder α) : ConstraintStatus :=
  .ofCounts b.equations.length b.unknowns.length

/-- The builder that holds one equation. -/
def new (text : String) (context : Context α) : Except (Error α) (SystemBuilder α) :=
  match Expression.ofText text context with
  | .ok e => .ok ⟨context, [e]⟩
  | .error (.expression cause) => .error (.constraint (.seedRejected cause))
  | .error e => .error e

/-- Tries to take one more equation. A text that is no equation, or one that would make the
equations too many, is rejected and leaves the builder as it is. -/
def tryConstrain (b : SystemBuilder α) (text : String) :
    Except (Error α) (ConstraintStatus × SystemBuilder α) :=
  match Expression.ofText text b.context with
  | .error (.expression _) => .ok (.tooMany, b)
  | .error e => .error e
  | .ok e =>
    let larger := { b with equations := b.equations ++ [e] }
    if larger.status = .tooMany then .ok (.tooMany, b) else .ok (larger.status, larger)

/-- The written form of a builder: its equations and its unknowns. -/
def written (b : SystemBuilder α) : String :=
  "SystemBuilder(equations=" ++ Text.quotedList b.texts ++ ", variables="
    ++ Text.quotedList b.unknowns ++ ")"

end SystemBuilder

/-! ### Constrained systems -/

/-- A system with as many equations as unknowns, and where to look for the unknowns. -/
structure ConstrainedSystem (α : Type) [Evaluable α] where
  equations : List (Expression α)
  searches : List (String × Search α)

/-- The interval without bounds, from minus to plus infinity. -/
def unbounded : Newton.Interval Float := (-1.0 / 0.0, 1.0 / 0.0)

/-- The system that a builder holds, once it is constrained. The unknowns are first looked for
at one, in the given interval. -/
def SystemBuilder.build (b : SystemBuilder α) (bounds : Newton.Interval α) :
    Except (Error α) (ConstrainedSystem α) :=
  if b.status = .constrained then
    .ok ⟨b.equations, b.unknowns.map fun n => (n, ⟨1, bounds⟩)⟩
  else
    .error (.constraint
      (.notConstrained b.equations.length b.unknowns.length b.status.name))

namespace ConstrainedSystem

/-- The unknowns. -/
def unknowns (s : ConstrainedSystem α) : List String := s.searches.map (·.1)

/-- Changes where an unknown is looked for. -/
def changeSearch (s : ConstrainedSystem α) (name : String) (f : Search α → Search α) :
    ConstrainedSystem α :=
  { s with searches := s.searches.map fun p => if p.1 == name then (p.1, f p.2) else p }

/-- Sets where an unknown is looked for. It fails for a name that is no unknown and for an
interval whose ends are in the wrong order. -/
def specify (s : ConstrainedSystem α) (name : String) (search : Search α) :
    Option (ConstrainedSystem α) :=
  if s.unknowns.contains name && !Scalar.lt search.bounds.2 search.bounds.1 then
    some (s.changeSearch name fun _ => search)
  else none

/-- The residuals of a list of equations. Each is called by its position and its text. -/
def residuals (equations : List (Expression α)) : List (Newton.Residual String α Unit) :=
  equations.mapIdx fun i e =>
    { name := .text ("[" ++ toString i ++ "] " ++ e.text)
      value := fun x =>
        Newton.lift (e.evaluate fun n => (x.find? fun p => p.1 == n).map (·.2)) }

/-- The values of the unknowns. -/
def solve (s : ConstrainedSystem α) (margin : α) (limit : Int) :
    Except (Error α) (List (String × α)) :=
  Computation.result (Newton.solveSystem (residuals s.equations)
    (s.searches.map fun p => (p.1, p.2.guess)) (.ofMargin margin limit)
    fun n => (s.searches.find? fun p => p.1 == n).map fun p => p.2.bounds)

end ConstrainedSystem

end FluxBalance
