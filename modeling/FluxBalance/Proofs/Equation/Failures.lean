import FluxBalance.Equation.Root
import FluxBalance.Proofs.Newton.Failures

/-!
# How equations fail

An equation that can be read fails to have a value for two reasons: it is undefined at the point, or
it calls a function that nobody knows. The second is not a matter of the point. It is passed on
through everything that evaluates equations, and nothing else comes out of there but errors of the
solvers and a division by a step that has vanished. Reading an equation may fail besides with two
faults that nobody wraps, and so may solving it, which also counts its unknowns.

## Main definitions and results

* `Error.OfSolver`: the errors that the solvers raise on their own account;
* `SolvingError`, `EquationError`: the errors of evaluating and solving equations, without and with
  those of reading them;
* `Expr.errsBy_fraction`, `errsBy_solveEquation`: how evaluating and solving an equation fails.
-/

namespace FluxBalance

open FluxBalance.Computation Equation

/-! ### Unknown functions -/

namespace Equation

/-- The names of the unknown functions that an expression calls. -/
def Expr.calls {κ : Type} : Expr κ → List String
  | const _ | var _ => []
  | unknown name => [name]
  | add a b | mul a b | pow a b | apply₂ _ a b | applied a b => a.calls ++ b.calls
  | apply _ a => a.calls

/-- If the obstacle is that a function is not known, then it is one of the given ones. -/
def Obstacle.Among (names : List String) (o : Obstacle) : Prop :=
  ∀ f, o = .unknownFunction f → f ∈ names

variable {V : Type} {names : List String}

/-- A missing value is undefined, and no unknown function. -/
private theorem errsBy_orUndefined (v : Option V) :
    ErrsBy (Obstacle.Among names) (orUndefined v) := by
  cases v with
  | some x => exact .ok x
  | none => exact .error fun _ h => by cases h

variable [Arithmetic V]

private theorem Fraction.errsBy_value (q : Fraction V) : ErrsBy (Obstacle.Among names) q.value := by
  obtain ⟨_ | n, _ | d⟩ := q
  · exact .bind (errsBy_orUndefined _) fun _ => .ok _
  · exact .bind (errsBy_orUndefined _) fun _ => errsBy_orUndefined _
  · exact .ok n
  · exact errsBy_orUndefined _

private theorem errsBy_exactPower (b : V) (q : Rat) :
    ErrsBy (Obstacle.Among names) (exactPower b q) := by
  unfold exactPower
  split
  · exact .ok b
  · split
    · exact errsBy_orUndefined _
    · exact .bind (errsBy_orUndefined _) fun _ => errsBy_orUndefined _

/-- A power meets no unknown functions but those of its base and its exponent. -/
private theorem Expr.errsBy_fraction_pow {p : String → Option V} {inside : Bool}
    {a b : Expr (Literal V)} (ha : ErrsBy (Obstacle.Among names) (a.fraction p false))
    (hb : ErrsBy (Obstacle.Among names) (b.fraction p false)) :
    ErrsBy (Obstacle.Among names) ((a.pow b).fraction p inside) := by
  refine .bind ha fun _ => .bind (Fraction.errsBy_value _) fun x => ?_
  refine .bind hb fun _ => .bind (Fraction.errsBy_value _) fun y => ?_
  have hgeneral : ErrsBy (Obstacle.Among names)
      (do return Fraction.whole (← orUndefined (Arithmetic.pow x y))) :=
    .bind (errsBy_orUndefined _) fun _ => .ok _
  dsimp only
  split
  · split
    · exact .bind (errsBy_exactPower x _) fun _ => .ok _
    · split
      · exact .bind (errsBy_exactPower x _) fun _ => .ok _
      · split
        · exact .bind (errsBy_exactPower x _) fun _ =>
            .bind (Fraction.errsBy_value _) fun _ => .ok _
        · exact hgeneral
  · exact hgeneral

/-- **Evaluating an expression meets no unknown functions but those that it calls.** -/
theorem Expr.errsBy_fraction (p : String → Option V) :
    ∀ {inside : Bool} {e : Expr (Literal V)}, e.calls ⊆ names →
      ErrsBy (Obstacle.Among names) (e.fraction p inside)
  | _, const c, _ => .bind (errsBy_orUndefined _) fun _ => .ok _
  | _, var name, _ => .bind (errsBy_orUndefined _) fun _ => .ok _
  | _, unknown name, h => .error fun f hf => by
    cases hf
    exact h (List.mem_singleton_self name)
  | _, applied f a, h => by
    unfold fraction
    exact errsBy_fraction p (List.append_subset.mp h).1
  | _, apply f a, h => .bind (errsBy_fraction p h) fun _ =>
      .bind (Fraction.errsBy_value _) fun _ => .bind (errsBy_orUndefined _) fun _ => .ok _
  | _, add a b, h =>
    -- Both parts are evaluated one after the other, and each of them is divided out.
    .bind (errsBy_fraction p (List.append_subset.mp h).1) fun _ =>
      .bind (Fraction.errsBy_value _) fun _ =>
        .bind (errsBy_fraction p (List.append_subset.mp h).2) fun _ =>
          .bind (Fraction.errsBy_value _) fun _ => .ok _
  | _, apply₂ _ a b, h =>
    .bind (errsBy_fraction p (List.append_subset.mp h).1) fun _ =>
      .bind (Fraction.errsBy_value _) fun _ =>
        .bind (errsBy_fraction p (List.append_subset.mp h).2) fun _ =>
          .bind (Fraction.errsBy_value _) fun _ => .bind (errsBy_orUndefined _) fun _ => .ok _
  | inside, mul a b, h => by
    refine .bind (errsBy_fraction p (List.append_subset.mp h).1) fun _ => ?_
    refine .bind (errsBy_fraction p (List.append_subset.mp h).2) fun _ => ?_
    split
    · exact .ok _
    · exact .bind (Fraction.errsBy_value _) fun _ => .ok _
  | _, pow a b, h =>
    errsBy_fraction_pow (errsBy_fraction p (List.append_subset.mp h).1)
      (errsBy_fraction p (List.append_subset.mp h).2)

end Equation

/-! ### Errors of equations -/

/-- The errors that the solvers raise on their own account: the text is no equation, a value or a
root does not exist, or the iteration does not get to an end. -/
inductive Error.OfSolver {α : Type} : Error α → Prop
  | expression (cause : ExpressionError) : OfSolver (.expression cause)
  | domain (cause : DomainError) : OfSolver (.domain cause)
  | evaluation (name : EquationName) (cause : Error α) : OfSolver (.evaluation name cause)
  | margin : OfSolver .margin
  | unequalCounts (equations unknowns : Nat) : OfSolver (.unequalCounts equations unknowns)
  | singularJacobian (outcome : InversionOutcome) : OfSolver (.singularJacobian outcome)
  | iterationLimit (limit : Int) (last : Option α) : OfSolver (.iterationLimit limit last)

variable {α : Type} [Evaluable α] {K L : String → Prop}

/-- The errors of evaluating and solving equations that have been read and call no unknown functions
but those of the given kind. -/
inductive SolvingError (K : String → Prop) : Error α → Prop
  | solver {cause : Error α} : cause.OfSolver → SolvingError K cause
  | vanishedStep (x : α) :
    Scalar.eq (Scalar.two * Newton.absoluteStep x Newton.defaultStep) 0 = true →
      SolvingError K (.fault .divisionByZero)
  | unknownFunction {f : String} : K f → SolvingError K (.fault (.unknownFunction f))

/-- The errors of reading, evaluating and solving equations that call no unknown functions but those
of the given kind. -/
inductive EquationError (K : String → Prop) : Error α → Prop
  | solving {cause : Error α} : SolvingError K cause → EquationError K cause
  | constraint (cause : ConstraintError) : EquationError K (.constraint cause)
  | badValue : EquationError K (.fault .badValue)
  | divisionByZero : EquationError K (.fault .divisionByZero)

theorem SolvingError.mono (h : ∀ f, K f → L f) {e : Error α} (he : SolvingError K e) :
    SolvingError L e := by
  cases he with
  | solver he => exact .solver he
  | vanishedStep x hx => exact .vanishedStep x hx
  | unknownFunction hf => exact .unknownFunction (h _ hf)

theorem SolvingError.iterate {e : Error α} (he : Newton.IterateError Newton.defaultStep e) :
    SolvingError K e := by
  cases he with
  | notFinite name => exact .solver (.evaluation name _)
  | divisionByZero x hx => exact .vanishedStep x hx
  | singularJacobian outcome => exact .solver (.singularJacobian outcome)
  | iterationLimit limit last => exact .solver (.iterationLimit limit last)

/-! ### Reading -/

/-- The expression calls the unknown function. -/
def Expression.Calls (e : Expression α) (f : String) : Prop := f ∈ e.prepared.calls

/-- The equation calls the unknown function when the values of some context are put in. -/
def CallsUnknown (α : Type) [Evaluable α] (text f : String) : Prop :=
  ∃ (known : Context α) (e : Expression α), Expression.ofText text known = .ok e ∧ e.Calls f

/-- The errors of reading an equation. -/
inductive ReadingError : Error α → Prop
  | expression (cause : ExpressionError) : ReadingError (.expression cause)
  | badValue : ReadingError (.fault .badValue)
  | divisionByZero : ReadingError (.fault .divisionByZero)

omit [Evaluable α] in
private theorem errsBy_parse (rules : DecimalRules) (text : String) :
    ErrsBy (ReadingError (α := α)) (Equation.parse rules text) := by
  unfold Equation.parse
  split
  · exact .error (.expression _)
  · split
    · exact .ok _
    · exact .error (.expression _)
    · exact .error .divisionByZero

/-- Reading an equation fails by a `ReadingError`. -/
theorem errsBy_ofText (text : String) (context : Context α) :
    ErrsBy ReadingError (Expression.ofText text context) := by
  refine .bind (errsBy_parse _ text) fun e => ?_
  split
  · exact .ok _
  · exact .error .badValue
  · exact .error .divisionByZero

/-- An equation fails to be read with errors of equations only. -/
theorem equationError_of_ofText (text : String) (context : Context α) :
    ErrsBy (EquationError K) (Expression.ofText text context) := by
  refine (errsBy_ofText text context).mono fun e he => ?_
  cases he with
  | expression cause => exact .solving (.solver (.expression cause))
  | badValue => exact .badValue
  | divisionByZero => exact .divisionByZero

/-! ### Evaluating -/

/-- An expression without a value is undefined, or it calls an unknown function. -/
theorem Expression.errsBy_evaluate {e : Expression α} (h : ∀ f, e.Calls f → K f)
    (values : String → Option α) : ErrsBy (SolvingError K) (e.evaluate values) := by
  unfold Expression.evaluate
  split
  · exact .error (.solver (.domain _))
  · split
    · exact .error (.solver (.domain _))
    · rename_i name hname
      have hcalls : ErrsBy (Obstacle.Among e.prepared.calls)
          (e.prepared.evaluatePrepared fun n => (values n).map Evaluable.toValue) :=
        .bind (Expr.errsBy_fraction _ (List.Subset.refl _)) fun _ => Fraction.errsBy_value _
      exact .error (.unknownFunction (h name (hcalls _ hname name rfl)))
    · split
      · exact .error (.solver (.domain _))
      · split
        · exact .ok _
        · exact .error (.solver (.domain _))

/-! ### Solving one equation -/

omit [Evaluable α] in
theorem failsBy_lift {σ β : Type} {P : σ → Prop} {Q : Error α → Prop} {x : Except (Error α) β}
    (h : ErrsBy Q x) : FailsBy P Q (Newton.lift x : EStateM (Error α) σ β) := by
  cases x with
  | ok b => exact .pure b
  | error e => exact .throw (h e rfl)

omit [Evaluable α] in
/-- The result of a computation fails as the computation does. -/
theorem errsBy_result {β : Type} {Q : Error α → Prop} {c : Computation α β}
    (h : FailsBy (fun _ => True) Q c) : ErrsBy Q (Computation.result c) := by
  intro e he
  unfold Computation.result at he
  rw [EStateM.run] at he
  cases hc : c () with
  | ok b s =>
    rw [hc] at he
    cases he
  | error cause s =>
    rw [hc] at he
    cases he
    exact h () trivial _ s hc

/-- **An equation fails to be solved** when it is read, when its `unknowns` are counted, or when it
is evaluated. -/
theorem errsBy_solveEquation {Q : Error α → Prop} {text : String} {context : Context α}
    (hread : ErrsBy Q (Expression.ofText text context))
    (hcount : ∀ {e : Expression α}, Expression.ofText text context = .ok e → e.vars.length ≠ 1 →
      Q (.constraint (.unknowns text e.vars)))
    (hsolve : ∀ {e : Expression α}, Expression.ofText text context = .ok e →
      ∀ cause, SolvingError e.Calls cause → Q cause)
    (search : Search α) (margin : α) (limit : Int) :
    ErrsBy Q (solveEquation text context search margin limit) := by
  refine .bind_of_ok hread fun e he => ?_
  split
  · refine .bind (.mono (errsBy_result ?_) (hsolve he)) fun _ => .ok _
    exact Newton.failsBy_solveScalar (fun _ => .iterate) (fun _ => .solver (.domain _))
      (fun x => failsBy_lift (e.errsBy_evaluate (fun _ hf => hf) _)) (.solver .margin) _ _ _ _
  · rename_i hmany
    refine .error (hcount he fun hone => ?_)
    obtain ⟨name, hname⟩ := List.length_eq_one_iff.mp hone
    exact hmany name hname

/-- An equation fails to be solved with errors of equations only. -/
theorem equationError_of_solveEquation {text : String} {context : Context α}
    (h : ∀ {e : Expression α}, Expression.ofText text context = .ok e → ∀ f, e.Calls f → K f)
    (search : Search α) (margin : α) (limit : Int) :
    ErrsBy (EquationError K) (solveEquation text context search margin limit) :=
  errsBy_solveEquation (equationError_of_ofText text context)
    (fun _ _ => .constraint _) (fun he _ hcause => .solving (hcause.mono (h he))) search margin
    limit

end FluxBalance
