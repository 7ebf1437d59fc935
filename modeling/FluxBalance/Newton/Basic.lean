import FluxBalance.Scalar
import FluxBalance.Error

/-!
# Newton iterations: settings and stencils

What the iterations for one unknown and for a system of unknowns share: their settings, the
step of a finite difference, and the restriction of a number to an interval.

A function to be solved may fail, and it may read and write a state that survives its failure.
So it is a computation of type `EStateM (Error α) σ α`; a function without a state is one that
leaves every state alone.
-/

namespace FluxBalance.Newton

/-- An interval, given by its lower and its upper bound. -/
abbrev Interval (α : Type) := α × α

/-- Settings of the iterations. -/
structure Config (α : Type) where
  /-- The iteration has converged once every residual is smaller than this. -/
  margin : α
  /-- How many iterates may be tried. -/
  limit : Int
  /-- The step of a finite difference, relative to the size of the unknown. -/
  step : α
  /-- Whether an update is shortened until the residuals have become smaller. -/
  damping : Bool
  /-- The factor by which an update is shortened. -/
  shorten : α
  /-- The factor by which the residuals have to become smaller. -/
  decrease : α

section

variable {α : Type} [Scalar α]

/-- The usual relative step of a finite difference, one millionth. -/
def defaultStep : α := Scalar.ofRat (mkRat 1 1000000)

/-- The usual convergence margin, one ten-thousandth. -/
def defaultMargin : α := Scalar.ofRat (mkRat 1 10000)

/-- The usual settings for a margin and a limit. -/
def Config.ofMargin (margin : α) (limit : Int) : Config α where
  margin := margin
  limit := limit
  step := defaultStep
  damping := false
  shorten := Scalar.ofRat (mkRat 1 2)
  decrease := Scalar.ofRat (mkRat 9 10)

/-- Fails unless the margin is positive. -/
def checkMargin (margin : α) : Except (Error α) Unit :=
  if Scalar.lt 0 margin then .ok () else .error .margin

/-- The absolute step of a finite difference at `x`: relative to `x`, but never relative to
less than one. -/
def absoluteStep (x step : α) : α := step * Scalar.max 1 (Scalar.abs x)

/-- A number moved to the nearest end of an interval that it lies outside of. -/
def clamp (x : α) : Option (Interval α) → α
  | none => x
  | some (lo, hi) => Scalar.min (Scalar.max x lo) hi

/-- A division that fails on zero. -/
def divide (x y : α) : Except (Error α) α :=
  if Scalar.eq y 0 then .error (.fault .divisionByZero) else .ok (x / y)

/-- A result as a computation that leaves the state alone. -/
def lift {σ β : Type} : Except (Error α) β → EStateM (Error α) σ β
  | .ok b => pure b
  | .error e => throw e

end

end FluxBalance.Newton
