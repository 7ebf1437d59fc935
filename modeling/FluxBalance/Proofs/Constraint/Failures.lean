import FluxBalance.Proofs.Constraint.Account
import FluxBalance.Proofs.Equation.Failures

/-!
# How systems and pools fail

A system that has been built fails to be solved as its equations do. A pool reads and counts its
equations anew at every step, since more and more names become known. Most of what could go wrong
with this does not: a seed is never rejected, because its text has been read before, and a system is
built only when it is constrained. What is left, besides the errors of the solvers, are the errors
of single equations that `Escapes` lists, at some point of the run.

## Main definitions and results

* `Escapes`: the errors of a single equation that are none of the solvers';
* `StepError`, `stepError_of_step`: how a `step` of a pool fails;
* `run_eq_error`: a `run` fails at a step that it has come to.
-/

namespace FluxBalance

open FluxBalance.Computation Equation

variable {α : Type} [Evaluable α] {K : String → Prop} {Q : Error α → Prop}

/-! ### Systems -/

/-- **A system fails to be solved as its equations do.** -/
theorem ConstrainedSystem.errsBy_solve {s : ConstrainedSystem α}
    (h : ∀ e ∈ s.equations, ∀ f, e.Calls f → K f) (margin : α) (limit : Int) :
    ErrsBy (SolvingError K) (s.solve margin limit) := by
  refine errsBy_result (Newton.failsBy_solveSystem rfl (.solver .margin)
    (fun _ => .solver (.unequalCounts _ _)) (fun _ => .iterate) (fun _ _ _ _ => .true _)
    (fun r hr x _ => ?_) (Newton.over_true _) _)
  obtain ⟨i, hi, rfl⟩ := List.mem_mapIdx.mp hr
  refine Newton.failsBy_evaluate (.solver (.evaluation _ _)) (failsBy_lift ?_)
  refine (Expression.errsBy_evaluate (h _ (List.getElem_mem hi)) _).mono fun e he => ?_
  dsimp only
  split
  · exact .solver (.evaluation _ _)
  · exact he

/-! ### Builders -/

namespace SystemBuilder

/-- A new builder fails as the reading of its seed does. -/
theorem errsBy_new {text : String} {context : Context α}
    (hseed : ∀ cause, Expression.ofText text context = .error (.expression cause) →
      Q (.constraint (.seedRejected cause)))
    (hread : ErrsBy Q (Expression.ofText text context)) : ErrsBy Q (new text context) := by
  unfold new
  split
  · exact .ok _
  · rename_i cause hcause
    exact .error (hseed cause hcause)
  · rename_i e _ he
    exact .error (hread e he)

/-- An attempt fails as the reading of the equation does. -/
theorem errsBy_tryConstrain {b : SystemBuilder α} {text : String}
    (hread : ErrsBy Q (Expression.ofText text b.context)) : ErrsBy Q (b.tryConstrain text) := by
  unfold tryConstrain
  split
  · exact .ok _
  · rename_i e _ he
    exact .error (hread e he)
  · dsimp only
    split
    · exact .ok _
    · exact .ok _

/-- A builder fails to make a system only if it is not constrained. -/
theorem errsBy_build {b : SystemBuilder α}
    (h : b.status ≠ .constrained → ∀ n m status, Q (.constraint (.notConstrained n m status)))
    (bounds : Newton.Interval α) : ErrsBy Q (b.build bounds) := by
  unfold build
  split
  · exact .ok _
  · rename_i hstatus
    exact .error (h hstatus _ _ _)

end SystemBuilder

namespace Pool

/-! ### Errors of pools -/

/-- The errors other than those of the solvers that an equation raises with the given values
known. -/
inductive Escapes (equation : String) (known : Context α) : Error α → Prop
  /-- The equation has one name that is not known, but this name drops out when the known values
  are put in. -/
  | lost {name : String} {e : Expression α} : freeVariables equation known = .ok [name] →
    Expression.ofText equation known = .ok e → e.vars = [] →
    Escapes equation known (.constraint (.unknowns equation []))
  /-- The equation is put together of operations that cannot be carried out on its constants. -/
  | unread {fault : Fault} : Expression.ofText equation known = .error (.fault fault) →
    Escapes equation known (.fault fault)
  /-- The equation calls a function that is not known. -/
  | unknownFunction {e : Expression α} {f : String} : Expression.ofText equation known = .ok e →
    e.Calls f → Escapes equation known (.fault (.unknownFunction f))

/-- The errors of a step of a pool. -/
inductive StepError (p : Pending α) : Error α → Prop
  | solving {cause : Error α} : SolvingError (fun _ => False) cause → StepError p cause
  | escapes {equation : String} {cause : Error α} : equation ∈ p.equations →
    Escapes equation p.known cause → StepError p cause

/-- Some equation of the pool calls the unknown function. -/
def Calls (p : Pending α) (f : String) : Prop :=
  ∃ equation ∈ p.equations, ∃ e : Expression α, Expression.ofText equation p.known = .ok e ∧
    e.Calls f

variable {p q : Pending α}

private theorem StepError.of_solving {cause : Error α} (h : SolvingError (Calls p) cause) :
    StepError p cause := by
  cases h with
  | solver h => exact .solving (.solver h)
  | vanishedStep x hx => exact .solving (.vanishedStep x hx)
  | unknownFunction hf =>
    obtain ⟨equation, hmem, e, he, hf⟩ := hf
    exact .escapes hmem (.unknownFunction he hf)

/-- Reading an equation of the pool fails by a `StepError`. -/
private theorem stepError_of_ofText {equation : String} (hmem : equation ∈ p.equations) :
    ErrsBy (StepError p) (Expression.ofText equation p.known) := by
  intro e he
  cases errsBy_ofText _ _ e he with
  | expression cause => exact .solving (.solver (.expression cause))
  | badValue => exact .escapes hmem (.unread he)
  | divisionByZero => exact .escapes hmem (.unread he)

/-! ### One step -/

variable (s : Settings α)

/-- An equation that has been counted as having one unknown is solved for it, or it has none. -/
private theorem stepError_of_solveEquation {equation name : String} (hmem : equation ∈ p.equations)
    (hname : freeVariables equation p.known = .ok [name]) (search : Search α) :
    ErrsBy (StepError p) (solveEquation equation p.known search s.margin s.limit) := by
  refine errsBy_solveEquation (stepError_of_ofText hmem) (fun {e} he hne => ?_)
    (fun {e} he cause hcause => ?_) _ _ _
  · -- What is left of the names is not one name, so it is none.
    have hlength : e.vars.length ≤ [name].length :=
      (List.subperm_of_subset (Expression.nodup_vars_of_ofText he)
        (Expression.mem_freeVariables_of_mem_vars he hname)).length_le
    have hvars : e.vars = [] := by
      rw [List.length_singleton] at hlength
      exact List.eq_nil_of_length_eq_zero (by omega)
    rw [hvars]
    exact .escapes hmem (.lost hname he hvars)
  · exact .of_solving (hcause.mono fun f hf => ⟨equation, hmem, e, he, hf⟩)

/-- Solving a single equation of the pool fails by a `StepError`. -/
private theorem stepError_of_solveSingle : ∀ {before after : List String}, after ⊆ p.equations →
    ErrsBy (StepError p) (solveSingle s p.known before after)
  | _, [], _ => .ok _
  | before, equation :: after, h => by
    obtain ⟨hmem, hafter⟩ := List.cons_subset.mp h
    refine .bind_of_ok (fun e he => ?_) fun names hnames => ?_
    · exact stepError_of_ofText hmem e (Expression.ofText_of_freeVariables he)
    · split
      · exact .bind (stepError_of_solveEquation s hmem hnames _) fun _ => .ok _
      · exact stepError_of_solveSingle hafter

/-- Gathering equations of the pool fails by a `StepError`. -/
private theorem stepError_of_gather : ∀ {texts : List String} {b : SystemBuilder α},
    b.context = p.known → texts ⊆ p.equations → ErrsBy (StepError p) (gather b texts)
  | [], _, _, _ => .ok _
  | text :: texts, b, hb, h => by
    obtain ⟨hmem, htexts⟩ := List.cons_subset.mp h
    have hread : ErrsBy (StepError p) (Expression.ofText text b.context) := by
      rw [hb]
      exact stepError_of_ofText hmem
    refine .bind_of_ok (SystemBuilder.errsBy_tryConstrain hread) fun ⟨status, b'⟩ hb' => ?_
    have hcontext : b'.context = p.known := by
      rcases SystemBuilder.tryConstrain_eq_ok hb' with ⟨-, rfl, -⟩ | ⟨e, -, rfl, -⟩
      · exact hb
      · exact hb
    dsimp only
    split
    · exact .ok _
    · exact stepError_of_gather hcontext htexts

/-- The equations of a system that has been gathered around a seed are equations of the pool. -/
private theorem calls_of_gather {i : Nat} {seed : String} {b b' : SystemBuilder α}
    {system : ConstrainedSystem α} (hseed : seed ∈ p.equations)
    (hb : SystemBuilder.new seed p.known = .ok b)
    (hb' : gather b (p.equations.eraseIdx i) = .ok b') (hsystem : b'.build s.bounds = .ok system) :
    ∀ e ∈ (specifyAll s system).equations, ∀ f, e.Calls f → Calls p f := by
  obtain ⟨-, rfl⟩ := SystemBuilder.build_eq_ok hsystem
  obtain ⟨e₀, he₀, rfl⟩ := SystemBuilder.new_eq_ok hb
  obtain ⟨taken, es, hsub, hread, rfl⟩ := gather_eq_ok hb'
  intro e he f hf
  rw [specifyAll_eq] at he
  rcases List.mem_append.mp he with he | he
  · obtain rfl := List.mem_singleton.mp he
    exact ⟨seed, hseed, e, he₀, hf⟩
  · obtain ⟨text, htext, hread⟩ := exists_of_mem_of_forall₂ hread e he
    exact ⟨text, List.mem_of_mem_eraseIdx (hsub.subset htext), e, hread, hf⟩

/-- Where all equations can be read, no seed is rejected; and what is built is constrained. -/
private theorem stepError_of_solveSubsystem
    (hnames : ∀ e ∈ p.equations, ∃ names, freeVariables e p.known = .ok names) :
    ∀ {seeds : List (Nat × String)}, (∀ q ∈ seeds, q.2 ∈ p.equations) →
      ErrsBy (StepError p) (solveSubsystem s p seeds)
  | [], _ => .ok _
  | (i, seed) :: rest, hseeds => by
    obtain ⟨hseed, hrest⟩ := List.forall_mem_cons.mp hseeds
    refine .bind_of_ok (SystemBuilder.errsBy_new (fun cause hcause => ?_)
      (stepError_of_ofText hseed)) fun b hb => ?_
    · obtain ⟨names, hok⟩ := hnames seed hseed
      exact absurd hcause (Expression.ofText_ne_expression hok cause)
    have hcontext : b.context = p.known := by
      obtain ⟨e, -, rfl⟩ := SystemBuilder.new_eq_ok hb
      rfl
    refine .bind_of_ok (stepError_of_gather hcontext fun e => List.mem_of_mem_eraseIdx)
      fun b' hb' => ?_
    split
    · exact stepError_of_solveSubsystem hnames hrest
    · rename_i hstatus
      refine .bind_of_ok (SystemBuilder.errsBy_build (fun hne => absurd hne hstatus) _)
        fun system hsystem => ?_
      have hsolve := ConstrainedSystem.errsBy_solve (calls_of_gather s hseed hb hb' hsystem)
        s.margin s.limit
      exact .bind (hsolve.mono fun _ => .of_solving) fun _ => .ok _

/-- **How a step fails.** -/
theorem stepError_of_step : ErrsBy (StepError p) (step s p) := by
  refine .bind_of_ok (stepError_of_solveSingle s (List.Subset.refl _)) fun r hr => ?_
  split
  · exact .ok _
  · refine stepError_of_solveSubsystem s (fun e he => ?_) fun q hq => ?_
    · exact (solveSingle_eq_none hr e he).imp fun _ h => h.1
    · exact List.mem_of_getElem? (mem_seeds.mp hq)

/-! ### Runs -/

/-- A step leaves no equations in the pool that were not there before. -/
private theorem subset_of_step {d : Step} (h : step s p = .ok (some (d, q))) :
    q.equations ⊆ p.equations := by
  rcases step_eq_ok h with ⟨_, ⟨⟩, hsingle⟩ | ⟨-, hsub⟩
  · obtain ⟨front, e, rest, _, _, _, heq, -, -, -, rfl⟩ := solveSingle_eq_some hsingle
    rw [heq]
    exact ((List.sublist_cons_self e rest).append_left front).subset
  · obtain ⟨_, -, _, _, _, _, -, -, -, -, -, rfl⟩ := solveSubsystem_eq_some hsub
    exact List.filter_sublist.subset

variable {s}

/-- Along a `Run` no equations come into the pool. -/
theorem Run.subset {steps : List Step} (h : Run s p steps q) : q.equations ⊆ p.equations := by
  induction h with
  | nil p => exact List.Subset.refl _
  | cons hstep _ ih => exact List.Subset.trans ih (subset_of_step s hstep)

/-- **A `Run` fails at a step that it has come to.** -/
theorem run_eq_error {cause : Error α} : ∀ {n : Nat} {p : Pending α}, run s n p = .error cause →
    ∃ steps q, Run s p steps q ∧ step s q = .error cause
  | 0, _, h => by cases h
  | n + 1, p, h => by
    unfold run at h
    split at h
    · cases h
    rcases except_bind_eq_error.mp h with hstep | ⟨o, ho, h⟩
    · exact ⟨[], p, .nil p, hstep⟩
    · cases o with
      | none => cases h
      | some done =>
        rcases except_bind_eq_error.mp h with hrun | ⟨_, _, h⟩
        · obtain ⟨steps, q, hsteps, hstep⟩ := run_eq_error hrun
          exact ⟨_, q, .cons ho hsteps, hstep⟩
        · cases h

/-- A block of equations fails to be solved with errors of equations only. -/
theorem errsBy_solve {text : String} {context : Context α}
    (h : ∀ equation ∈ split text, ∀ f, CallsUnknown α equation f → K f) :
    ErrsBy (EquationError K) (solve text context s) := by
  intro e he
  obtain ⟨steps, q, hrun, hstep⟩ := run_eq_error he
  cases stepError_of_step s e hstep with
  | solving he => exact .solving (he.mono fun _ => False.elim)
  | escapes hmem he =>
    cases he with
    | lost => exact .constraint _
    | unread hread => exact equationError_of_ofText _ _ _ hread
    | unknownFunction hread hf =>
      exact .solving (.unknownFunction (h _ (hrun.subset hmem) _ ⟨_, _, hread, hf⟩))

end Pool

end FluxBalance
