import FluxBalance.Newton.Basic

/-!
# One unknown

Newton's method for a root of a function of one variable. The derivative is a central
difference, and every iterate is clamped into the interval of the root, if one is given.
-/

namespace FluxBalance.Newton

variable {α σ : Type} [Scalar α]

/-- A function of one variable. -/
abbrev ScalarFunction (α σ : Type) := α → EStateM (Error α) σ α

/-- The value of a function, which has to be finite. Arithmetic failures of the function
become errors of its domain. -/
def evaluateAt (f : ScalarFunction α σ) (x : α) : EStateM (Error α) σ α := fun s =>
  match f x s with
  | .ok y s => if Scalar.isFinite y then .ok y s else .error (.domain .functionNotFinite) s
  | .error e s =>
    match e with
    | .domain _ | .evaluation .. => .error e s
    | _ => if e.isArithmetic then .error (.domain .notEvaluable) s else .error e s

/-- The derivative of a function by a central difference. -/
def centralDifference (f : ScalarFunction α σ) (x step : α) : EStateM (Error α) σ α := do
  let h := absoluteStep x step
  let above ← evaluateAt f (x + h)
  let below ← evaluateAt f (x - h)
  lift (divide (above - below) (Scalar.two * h))

/-- The iterate after `x`, where the function has the value `y`. An iterate that the interval
keeps at `x` although the method would leave it shows that there is no root to be reached. -/
def scalarUpdate (f : ScalarFunction α σ) (bounds : Option (Interval α)) (step x y : α) :
    EStateM (Error α) σ α := do
  let slope ← centralDifference f x step
  if Scalar.eq slope 0 || !Scalar.isFinite slope then throw (.domain .derivativeVanished)
  let proposed := x - y / slope
  let next := clamp proposed bounds
  if Scalar.eq next x && !Scalar.eq next proposed then throw (.domain .noRoot)
  return next

/-- The iteration from `x` with the given number of iterates left. `last` is the size of the
residual at the iterate before, if there was one. -/
def scalarIterate (f : ScalarFunction α σ) (margin : α) (limit : Int)
    (bounds : Option (Interval α)) (step : α) : Nat → Option α → α → EStateM (Error α) σ α
  | 0, last, _ => throw (.iterationLimit limit last)
  | n + 1, _, x => do
    let y ← evaluateAt f x
    if Scalar.lt (Scalar.abs y) margin then return x
    let next ← scalarUpdate f bounds step x y
    scalarIterate f margin limit bounds step n (some (Scalar.abs y)) next

/-- A root of a function of one variable: a point at which the function is smaller than the
margin, reached from the guess within the limit. -/
def solveScalar (f : ScalarFunction α σ) (guess margin : α) (limit : Int)
    (bounds : Option (Interval α)) (step : α) : EStateM (Error α) σ α := do
  lift (checkMargin margin)
  if let some (lo, hi) := bounds then
    if Scalar.lt hi lo then throw (.domain .emptyInterval)
  scalarIterate f margin limit bounds step limit.toNat none (clamp guess bounds)

end FluxBalance.Newton
