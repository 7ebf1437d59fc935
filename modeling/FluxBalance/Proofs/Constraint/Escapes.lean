import FluxBalance.Proofs.Constraint.Failures
import FluxBalance.Proofs.Constraint.Leftover
import FluxBalance.Proofs.Newton.Step

/-!
# Errors that a pool lets out

A block of equations is meant to be solved, or to fail with an error of the solvers. It fails at the
first step that fails, and such a step may let an error out that none of the solvers has raised: it
comes from a single equation, read with the values that are known by then.

The unknowns of an equation are counted twice. The first count, by which the equation is chosen, is
that of its names without a value. The second one, which has to be one for the solver, is that of
the names left once the values have been put in, and names may drop out with others. So an equation
that has been chosen may be refused.

## Main definitions and results

* `LetsOut`: the step that is due lets out an error that `Escapes`;
* `solve_eq_error_iff`: a block fails exactly at a step of a `Run`;
* `solved_or_ofSolver_iff`: a block is solved or fails by an `Error.OfSolver` exactly if no pool of
  its run `LetsOut` an error;
* `exists_error_not_ofSolver`: the equations `vanishing` let one out.
-/

namespace FluxBalance.Pool

open Equation

variable {α : Type} [Evaluable α] {s : Settings α} {p q : Pending α} {steps : List Step}
  {cause : Error α}

/-! ### The first step that fails -/

/-- Every step takes an equation at least. -/
theorem Run.length_le (h : Run s p steps q) :
    steps.length + q.equations.length ≤ p.equations.length := by
  induction h with
  | nil p => simp
  | @cons p p' rest d steps hstep _ ih =>
    have hlt := length_lt_of_step hstep
    rw [List.length_cons]
    omega

/-- A step that finds something to do, or fails at it, finds equations in the pool. -/
private theorem ne_nil_of_step (h : step s p ≠ .ok none) : p.equations ≠ [] := by
  obtain ⟨equations, known⟩ := p
  rintro rfl
  exact h rfl

/-- A `Run` up to a step that fails makes `run` fail. -/
theorem Run.run_eq_error (h : Run s p steps q) (hstep : step s q = .error cause) :
    ∀ {n : Nat}, steps.length < n → run s n p = .error cause := by
  induction h with
  | nil p =>
    rintro (_ | n) hn
    · cases hn
    have hne : p.equations ≠ [] := ne_nil_of_step (by rw [hstep]; nofun)
    rw [run, if_neg (by simpa using hne), hstep]
    rfl
  | @cons p p' rest d steps hd _ ih =>
    rintro (_ | n) hn
    · cases hn
    have hne : p.equations ≠ [] := ne_nil_of_step (by rw [hd]; nofun)
    rw [run, if_neg (by simpa using hne), hd]
    simp only [bind, Except.bind]
    rw [ih hstep (Nat.lt_of_succ_lt_succ hn)]

/-- **A block fails exactly at a step that its solution comes to.** -/
theorem solve_eq_error_iff {text : String} {context : Context α} :
    solve text context s = .error cause ↔
      ∃ steps p, Run s ⟨split text, context⟩ steps p ∧ step s p = .error cause := by
  refine ⟨Pool.run_eq_error, ?_⟩
  rintro ⟨steps, p, hrun, hstep⟩
  have hpos : 0 < p.equations.length :=
    List.length_pos_of_ne_nil (ne_nil_of_step (by rw [hstep]; nofun))
  exact hrun.run_eq_error hstep (Nat.lt_of_lt_of_le (by omega) hrun.length_le)

/-! ### Equations that lose their unknown -/

/-- Equations that do not have one unknown are passed over. -/
private theorem solveSingle_append {known : Context α} {after : List String} :
    ∀ {front before : List String},
      (∀ e ∈ front, ∃ names, freeVariables e known = .ok names ∧ names.length ≠ 1) →
      solveSingle s known before (front ++ after) =
        solveSingle s known (front.reverse ++ before) after
  | [], _, _ => rfl
  | e :: front, before, h => by
    obtain ⟨⟨names, hnames, hmany⟩, hfront⟩ := List.forall_mem_cons.mp h
    have hhead : solveSingle s known before (e :: front ++ after) =
        solveSingle s known (e :: before) (front ++ after) := by
      rw [List.cons_append, solveSingle, hnames]
      simp only [bind, Except.bind]
      split
      · exact absurd rfl hmany
      · rfl
    rw [hhead, solveSingle_append hfront, List.reverse_cons, List.append_assoc,
      List.singleton_append]

/-- An equation is refused from which the values known have removed the unknown. -/
private theorem solveEquation_of_lost {equation : String} {known : Context α} {e : Expression α}
    (he : Expression.ofText equation known = .ok e) (hvars : e.vars = []) (search : Search α)
    (margin : α) (limit : Int) :
    solveEquation equation known search margin limit =
      .error (.constraint (.unknowns equation [])) := by
  rw [solveEquation, he]
  simp only [bind, Except.bind, hvars]
  rfl

/-- **The first equation with one open name ends the solution if that name drops out.** -/
theorem solve_of_lost {text equation name : String} {context : Context α}
    {front after : List String} {e : Expression α} (hrun : Run s ⟨split text, context⟩ steps p)
    (hp : p.equations = front ++ equation :: after)
    (hfront : ∀ e ∈ front, ∃ names, freeVariables e p.known = .ok names ∧ names.length ≠ 1)
    (hname : freeVariables equation p.known = .ok [name])
    (he : Expression.ofText equation p.known = .ok e) (hvars : e.vars = []) :
    solve text context s = .error (.constraint (.unknowns equation [])) := by
  refine solve_eq_error_iff.mpr ⟨steps, p, hrun, ?_⟩
  have hsingle : solveSingle s p.known [] p.equations =
      .error (.constraint (.unknowns equation [])) := by
    rw [hp, solveSingle_append hfront, solveSingle, hname]
    simp only [bind, Except.bind]
    rw [solveEquation_of_lost he hvars]
  rw [step, hsingle]
  rfl

/-- With the value zero for `k`, the name `x` drops out. -/
def vanishing : String := "k*x = 1"

/-- The system `vanishing` is not solved: the equation that has been chosen has lost its unknown. -/
private theorem solve_vanishing :
    solve vanishing [("k", 0)] .usual = .error (.constraint (.unknowns vanishing [])) := by
  have hsplit : split vanishing = [] ++ vanishing :: [] := by decide +kernel
  have hname : freeVariables vanishing ([("k", 0)] : Context Float) = .ok ["x"] :=
    except_toOption_eq_some.mp (by decide +kernel)
  have hread : (Expression.ofText vanishing ([("k", 0)] : Context Float)).toOption.map (·.vars) =
      some [] := by decide +kernel
  obtain ⟨e, he, hvars⟩ := Option.map_eq_some_iff.mp hread
  exact solve_of_lost (.nil _) hsplit nofun hname (except_toOption_eq_some.mp he) hvars

/-! ### What gets out -/

/-- What `Escapes` is not an error of the solvers. -/
private theorem Escapes.not_ofSolver {equation : String} {known : Context α}
    (h : Escapes equation known cause) : ¬ cause.OfSolver := by
  cases h <;> exact nofun

/-- A `StepError` is an error of the solvers or one that `Escapes`. -/
private theorem StepError.ofSolver_or_escapes [Newton.ProperStep α] (h : StepError p cause) :
    cause.OfSolver ∨ ∃ equation ∈ p.equations, Escapes equation p.known cause := by
  cases h with
  | solving h =>
    cases h with
    | solver h => exact .inl h
    | vanishedStep x hx =>
      rw [Newton.ProperStep.divisor_ne_zero] at hx
      cases hx
    | unknownFunction hf => exact hf.elim
  | escapes hmem h => exact .inr ⟨_, hmem, h⟩

/-- The step that is due fails with an error that escapes from an equation which is still in the
pool, read with the values known by then. -/
def LetsOut (s : Settings α) (p : Pending α) : Prop :=
  ∃ cause, step s p = .error cause ∧ ∃ equation ∈ p.equations, Escapes equation p.known cause

/-- **A block of equations is solved or fails with an error of the solvers exactly if no step that
its solution comes to lets an error out**: a constraint error of an equation that has lost its
unknown, a fault of one that cannot be read with the values known by then, or the fault that a
function is not known. -/
theorem solved_or_ofSolver_iff [Newton.ProperStep α] (text : String) (context : Context α)
    (s : Settings α) :
    ((∃ steps rest, solve text context s = .ok (steps, rest)) ∨
        ∃ cause, solve text context s = .error cause ∧ cause.OfSolver) ↔
      ∀ steps p, Run s ⟨split text, context⟩ steps p → ¬ LetsOut s p := by
  constructor
  · rintro h steps p hrun ⟨cause, hstep, equation, -, hescapes⟩
    have hsolve : solve text context s = .error cause :=
      solve_eq_error_iff.mpr ⟨steps, p, hrun, hstep⟩
    rw [hsolve] at h
    rcases h with ⟨_, _, ⟨⟩⟩ | ⟨_, ⟨⟩, hsolver⟩
    exact hescapes.not_ofSolver hsolver
  · intro h
    cases hsolve : solve text context s with
    | ok result => exact .inl ⟨result.1, result.2, rfl⟩
    | error cause =>
      obtain ⟨steps, p, hrun, hstep⟩ := solve_eq_error_iff.mp hsolve
      rcases (stepError_of_step s cause hstep).ofSolver_or_escapes with hsolver | hescapes
      · exact .inr ⟨cause, rfl, hsolver⟩
      · exact absurd ⟨cause, hstep, hescapes⟩ (h steps p hrun)

/-- So the solution of `vanishing` comes to a pool that `LetsOut` an error. -/
theorem letsOut_vanishing :
    ∃ steps p, Run .usual ⟨split vanishing, [("k", 0)]⟩ steps p ∧ LetsOut .usual p := by
  by_contra hnone
  push Not at hnone
  rcases (solved_or_ofSolver_iff vanishing [("k", 0)] .usual).mpr hnone with
    ⟨steps, rest, hok⟩ | ⟨cause, herror, hsolver⟩
  · rw [solve_vanishing] at hok
    cases hok
  · rw [solve_vanishing] at herror
    cases herror
    cases hsolver

/-- **Errors that are none of the solvers' do get out**, also where the values known are finite and
the margin and the limit are positive. -/
theorem exists_error_not_ofSolver :
    ¬ ∀ (text : String) (context : Context Float) (s : Settings Float) (cause : Error Float),
      (∀ p ∈ context, Scalar.isFinite p.2 = true) → Scalar.lt 0 s.margin = true → 0 < s.limit →
      solve text context s = .error cause → cause.OfSolver := by
  intro h
  have hsolver := h vanishing [("k", 0)] .usual _ (by decide +kernel) (by decide +kernel)
    (by decide) solve_vanishing
  cases hsolver

/-- The other ways out: when `k` is put in as zero, reading an equation divides by it or compares an
infinite number; and a function is not known. -/
example : ∀ q ∈ [("x % k = 1", Fault.divisionByZero), ("max(x, 1/k) = 1", .badValue),
      ("foo(x) = 1", .unknownFunction "foo")],
    (match solve q.1 ([("k", 0)] : Context Float) .usual with
      | .error (.fault fault) => decide (fault = q.2)
      | _ => false) = true := by decide +kernel

end FluxBalance.Pool
