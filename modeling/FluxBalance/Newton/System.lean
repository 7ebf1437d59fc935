import FluxBalance.Newton.Basic
import FluxBalance.DenseMatrix.Inversion

/-!
# Systems of unknowns

Newton's method for as many equations as unknowns. The Jacobian is estimated column by column
with central differences and inverted by elimination; an update may be shortened until the
largest residual has become smaller.

The loop that shortens an update is not bounded. With a factor that is not less than one it may go
on for ever, so `searchFrom` is a partial function; a call that never comes back is written as one
that fails with `Error.endless`.
-/

namespace FluxBalance.Newton

/-- Values of the unknowns, in the order in which the unknowns are listed. -/
abbrev Assignment (ν α : Type) := List (ν × α)

/-- A named residual: a function of all unknowns that is to become zero. -/
structure Residual (ν α σ : Type) where
  /-- What the equation is called in messages. -/
  name : EquationName
  /-- The value of the residual. -/
  value : Assignment ν α → EStateM (Error α) σ α

section

variable {ν α σ : Type} [Scalar α]

/-! ### Evaluation -/

/-- The value of one residual, which has to be finite. Its arithmetic failures become errors
of the equation. -/
def Residual.evaluate (r : Residual ν α σ) (x : Assignment ν α) : EStateM (Error α) σ α := fun s =>
  match r.value x s with
  | .ok y s =>
    if Scalar.isFinite y then .ok y s
    else .error (.evaluation r.name (.domain .residualNotFinite)) s
  | .error e s => if e.isArithmetic then .error (.evaluation r.name e) s else .error e s

/-- The values of all residuals at a point, in order; the first failure ends it. -/
def evaluateAll (x : Assignment ν α) :
    List (Residual ν α σ) → EStateM (Error α) σ (List α)
  | [] => return []
  | r :: rs => do
    let y ← r.evaluate x
    let ys ← evaluateAll x rs
    return y :: ys

/-- The point with the value at position `j` replaced. -/
def setAt (x : Assignment ν α) (j : Nat) (value : α) : Assignment ν α :=
  x.modify j fun entry => (entry.1, value)

/-! ### The Jacobian -/

/-- The difference quotients of all residuals in the direction of the unknown at position
`j`. -/
def jacobianColumn (residuals : List (Residual ν α σ)) (step : α) (x : Assignment ν α) (j : Nat)
    (xj : α) : EStateM (Error α) σ (List α) := do
  let h := absoluteStep xj step
  let above ← evaluateAll (setAt x j (xj + h)) residuals
  let below ← evaluateAll (setAt x j (xj - h)) residuals
  (above.zip below).mapM fun (a, b) => lift (divide (a - b) (Scalar.two * h))

/-- The columns of the Jacobian for the unknowns from position `j` on. -/
def jacobianColumns (residuals : List (Residual ν α σ)) (step : α) (x : Assignment ν α) :
    Nat → List (ν × α) → EStateM (Error α) σ (List (List α))
  | _, [] => return []
  | j, (_, xj) :: rest => do
    let column ← jacobianColumn residuals step x j xj
    let columns ← jacobianColumns residuals step x (j + 1) rest
    return column :: columns

/-- The matrix with the given columns of height `n`. -/
def ofColumns (n : Nat) (columns : List (List α)) : DenseMatrix α :=
  let a := (columns.map (·.toArray)).toArray
  DenseMatrix.ofFn n a.size fun i j => (a.getD j #[]).getD i 0

/-- The Jacobian of the residuals at a point. -/
def jacobian (residuals : List (Residual ν α σ)) (step : α) (x : Assignment ν α) :
    EStateM (Error α) σ (DenseMatrix α) := do
  return ofColumns residuals.length (← jacobianColumns residuals step x 0 x)

/-! ### Updates -/

/-- The intervals of the unknowns that have one. -/
abbrev Bounds (ν α : Type) := ν → Option (Interval α)

/-- The point that lies the given multiple of an update away, clamped into the bounds. -/
def moveBy (bounds : Bounds ν α) (x : Assignment ν α) (update : List α) (length : α) :
    Assignment ν α :=
  (x.zip update).map fun ((name, value), d) =>
    (name, clamp (value + length * d) (bounds name))

/-- The update of a Newton step: minus the inverse of the Jacobian times the residuals. -/
def newtonUpdate (inverse : DenseMatrix α) (values : List α) : List α :=
  ((inverse.times (DenseMatrix.column values)).neg).toList

/-- The shortest length of an update that is tried. -/
def shortestLength : α := Scalar.ofRat (mkRat 1 10000)

/-- The largest residual at a trial point; none if some equation has no value there. Any other
failure ends the search. -/
def trialResidual (residuals : List (Residual ν α σ)) (x : Assignment ν α) :
    EStateM (Error α) σ (Option α) := fun s =>
  match evaluateAll x residuals s with
  | .ok values s => .ok (some (Scalar.maxAbs values)) s
  | .error (.evaluation ..) s => .ok none s
  | .error e s => .error e s

section

variable (residuals : List (Residual ν α σ)) (bounds : Bounds ν α) (x : Assignment ν α)
  (update : List α) (target shorten : α)

/-- The search for the length of an update, from `length` on, in a state. The first length whose
trial finds a largest residual below `target` is taken. When the lengths have fallen to the shortest
one, that one is taken; a length that is no number leaves the point where it is. The lengths need
not fall if `shorten` is not less than one, and a search that goes on for ever has no result. -/
def searchFrom (length : α) (s : σ) :
    Option (EStateM.Result (Error α) σ (Assignment ν α)) :=
  if Scalar.lt shortestLength length then
    let trial := moveBy bounds x update length
    match trialResidual residuals trial s with
    | .error e s => some (.error e s)
    | .ok size s =>
      if size.any fun size => Scalar.lt size target then some (.ok trial s)
      else by
        -- A tactic makes the call, so that the term keeps no record of where it was written.
        apply searchFrom
        · exact length * shorten
        · exact s
  else if Scalar.le length shortestLength then
    some (.ok (moveBy bounds x update shortestLength) s)
  else some (.ok x s)
partial_fixpoint

end

/-- The search for the length of an update, from its full length on, for a largest residual that has
become smaller by the required factor. -/
def search (residuals : List (Residual ν α σ)) (cfg : Config α) (bounds : Bounds ν α)
    (x : Assignment ν α) (update : List α) (worst : α) :
    EStateM (Error α) σ (Assignment ν α) := fun s =>
  (searchFrom residuals bounds x update (cfg.decrease * worst) cfg.shorten 1 s).getD
    (.error .endless s)

/-- The point after `x`, where the residuals have the given values. -/
def systemUpdate (residuals : List (Residual ν α σ)) (cfg : Config α) (bounds : Bounds ν α)
    (x : Assignment ν α) (values : List α) : EStateM (Error α) σ (Assignment ν α) := do
  let J ← jacobian residuals cfg.step x
  let (outcome, inverse) := J.invertSquare
  if outcome ≠ .success then throw (.singularJacobian outcome)
  let update := newtonUpdate inverse values
  if cfg.damping then
    search residuals cfg bounds x update (Scalar.maxAbs values)
  else
    return moveBy bounds x update 1

/-! ### The iteration -/

/-- The iteration from `x` with the given number of iterates left. `last` is the largest
residual at the iterate before, if there was one. -/
def systemIterate (residuals : List (Residual ν α σ)) (cfg : Config α) (bounds : Bounds ν α) :
    Nat → Option α → Assignment ν α → EStateM (Error α) σ (Assignment ν α)
  | 0, last, _ => throw (.iterationLimit cfg.limit last)
  | n + 1, _, x => do
    let values ← evaluateAll x residuals
    let worst := Scalar.maxAbs values
    if Scalar.lt worst cfg.margin then return x
    let next ← systemUpdate residuals cfg bounds x values
    systemIterate residuals cfg bounds n (some worst) next

/-- A point at which every residual is smaller than the margin, reached from the guess within
the limit. There have to be as many residuals as unknowns. -/
def solveSystem (residuals : List (Residual ν α σ)) (guess : Assignment ν α) (cfg : Config α)
    (bounds : Bounds ν α) : EStateM (Error α) σ (Assignment ν α) := do
  lift (checkMargin cfg.margin)
  if residuals.length ≠ guess.length then
    throw (.unequalCounts residuals.length guess.length)
  systemIterate residuals cfg bounds cfg.limit.toNat none
    (guess.map fun (name, value) => (name, clamp value (bounds name)))

end

end FluxBalance.Newton
