import FluxBalance.Proofs.Constraint.Subsystem
import FluxBalance.Proofs.Newton.Patience
import FluxBalance.Proofs.Newton.Stencils
import FluxBalance.Proofs.Study.Solution

/-!
# Patience of all solvers

Whatever is solved by an iteration is `Patient` as the iteration is. An equation, a
`ConstrainedSystem` and a network run a single iteration; its limit decides nothing else. A pool
runs one iteration after the other, and each of them starts from what the ones before have found.
With a larger limit each step finds the same, so the pools after it are the same, and the whole run
is repeated step by step.

## Main definitions and results

* `patient_solvers`: with a larger limit equations, systems, pools and networks are solved as
  before.
-/

namespace FluxBalance

open FluxBalance.Computation

variable {α : Type}

/-! ### Equations and constrained systems -/

section

variable [Evaluable α] [Scalar.Lawful α] {margin : α} {limit limit' : Int}

omit [Evaluable α] [Scalar.Lawful α] in
/-- What is computed without a state is found as well if the computation returns as well. -/
private theorem approximates_result {β : Type} {c c' : Computation α β}
    (h : ∀ b u, c () = .ok b u → c' () = .ok b u) : Approximates c.result c'.result := by
  intro b hb
  unfold Computation.result at hb ⊢
  split at hb
  · rename_i found u hrun
    have hrun' : c'.run () = .ok found u := h found u hrun
    rw [hrun']
    exact hb
  · cases hb

/-- An equation that is solved within a limit is solved within every larger one. -/
private theorem approximates_solveEquation (text : String) (context : Context α) (search : Search α)
    (margin : α) (hle : limit ≤ limit') :
    Approximates (solveEquation text context search margin limit)
      (solveEquation text context search margin limit') := by
  refine .bind (.refl _) fun e => ?_
  split
  · exact .bind (approximates_result fun _ _ h =>
      (Newton.patient_solveScalar h).larger_limit limit' hle) fun _ => .refl _
  · exact .refl _

/-- A system that is solved within a limit is solved within every larger one. -/
private theorem approximates_solveSystem (system : ConstrainedSystem α) (margin : α)
    (hle : limit ≤ limit') :
    Approximates (system.solve margin limit) (system.solve margin limit') :=
  approximates_result fun _ _ h => (Newton.patient_solveSystem h).larger_limit limit' hle

/-! ### Pools -/

namespace Pool

variable {s : Settings α}

/-- With a larger limit a single equation is solved as before, or it is solved at last. -/
private theorem approximates_solveSingle (hle : s.limit ≤ limit') (known : Context α) :
    ∀ before after : List String, Approximates (solveSingle s known before after)
      (solveSingle { s with limit := limit' } known before after)
  | _, [] => .refl _
  | before, equation :: after => by
    refine .bind (.refl _) fun names => ?_
    split
    · exact .bind (approximates_solveEquation _ _ _ _ hle) fun _ => .refl _
    · exact approximates_solveSingle hle known (equation :: before) after

/-- With a larger limit a subsystem is solved as before, or it is solved at last. -/
private theorem approximates_solveSubsystem (hle : s.limit ≤ limit') (pending : Pending α) :
    ∀ seeds : List (Nat × String), Approximates (solveSubsystem s pending seeds)
      (solveSubsystem { s with limit := limit' } pending seeds)
  | [] => .refl _
  | _ :: seeds => by
    refine .bind (.refl _) fun b => .bind (.refl _) fun b' => ?_
    refine .ite (approximates_solveSubsystem hle pending seeds) (.bind (.refl _) fun system => ?_)
    exact .bind (approximates_solveSystem _ _ hle) fun _ => .refl _

/-- With a larger limit a `step` of a pool succeeds as before, or it succeeds at last. -/
private theorem approximates_step (hle : s.limit ≤ limit') (pending : Pending α) :
    Approximates (step s pending) (step { s with limit := limit' } pending) := by
  refine .bind (approximates_solveSingle hle _ _ _) fun single => ?_
  cases single with
  | some done => exact .refl _
  | none => exact approximates_solveSubsystem hle pending _

/-- With a larger limit a `run` of a pool succeeds as before, by induction on its steps. -/
private theorem approximates_run (hle : s.limit ≤ limit') : ∀ (n : Nat) (pending : Pending α),
    Approximates (run s n pending) (run { s with limit := limit' } n pending)
  | 0, _ => .refl _
  | n + 1, pending => by
    refine .ite (.refl _) (.bind (approximates_step hle pending) fun next => ?_)
    cases next with
    | none => exact .refl _
    | some done => exact .bind (approximates_run hle n done.2) fun _ => .refl _

end Pool

end

/-! ### Networks -/

/-- A network that is solved within a limit is solved within every larger one, and it is left the
same. -/
private theorem Network.solve_of_le [Scalar α] [Scalar.Lawful α] {margin : α} {limit limit' : Int}
    {indexLimit : Nat} {net after : Network α} {sol : Solution α} (hle : limit ≤ limit')
    (h : solve margin limit indexLimit net = .ok sol after) :
    solve margin limit' indexLimit net = .ok sol after := by
  obtain ⟨hrange, guess, saved, hguess, hsaved, hfrom⟩ := solve_eq_ok_iff.mp h
  obtain ⟨x, net₁, hx, hrest⟩ := bind_eq_ok.mp hfrom
  have hx' := (Newton.patient_solveSystem hx).larger_limit limit' hle
  exact solve_eq_ok_iff.mpr
    ⟨hrange, guess, saved, hguess, hsaved, bind_eq_ok.mpr ⟨x, net₁, hx', hrest⟩⟩

/-! ### All solvers -/

section

variable [Evaluable α] [Scalar.Lawful α]

/-- **Patience never hurts.** If a function of one variable or a system, damped or not, is solved
with a margin and a limit, then it is solved with every larger limit, and the result is the same;
and with every larger margin it is solved within the limit, after no more updates. If a block of
equations, a constrained system or a network is solved with a limit, then it is solved with every
larger limit, and the result is the same. -/
theorem patient_solvers {ν σ : Type} :
    (∀ (f : Newton.ScalarFunction α σ) (guess margin : α) (limit : Int)
      (bounds : Option (Newton.Interval α)) (step x : α) (s s' : σ),
      Newton.solveScalar f guess margin limit bounds step s = .ok x s' →
        (Newton.scalarLoop f bounds step).Patient
          (fun margin limit => Newton.solveScalar f guess margin limit bounds step s)
          margin limit (Newton.clamp guess bounds) s x s') ∧
    (∀ (rs : List (Newton.Residual ν α σ)) (guess : Newton.Assignment ν α) (cfg : Newton.Config α)
      (bounds : Newton.Bounds ν α) (x : Newton.Assignment ν α) (s s' : σ),
      Newton.solveSystem rs guess cfg bounds s = .ok x s' →
        (Newton.systemLoop rs cfg bounds).Patient
          (fun margin limit =>
            Newton.solveSystem rs guess { cfg with margin := margin, limit := limit } bounds s)
          cfg.margin cfg.limit (guess.map fun u => (u.1, Newton.clamp u.2 (bounds u.1))) s x s') ∧
    (∀ (text : String) (context : Context α) (s : Pool.Settings α) (limit : Int), s.limit ≤ limit →
      Approximates (Pool.solve text context s)
        (Pool.solve text context { s with limit := limit })) ∧
    (∀ (system : ConstrainedSystem α) (margin : α) (limit limit' : Int), limit ≤ limit' →
      Approximates (system.solve margin limit) (system.solve margin limit')) ∧
    ∀ (margin : α) (limit limit' : Int) (indexLimit : Nat) (net after : Network α)
      (sol : Solution α), limit ≤ limit' →
      Network.solve margin limit indexLimit net = .ok sol after →
        Network.solve margin limit' indexLimit net = .ok sol after :=
  ⟨fun _ _ _ _ _ _ _ _ _ => Newton.patient_solveScalar,
    fun _ _ _ _ _ _ _ => Newton.patient_solveSystem,
    fun text context _ _ hle => Pool.approximates_run hle (Pool.split text).length ⟨_, context⟩,
    fun system margin _ _ => approximates_solveSystem system margin,
    fun _ _ _ _ _ _ _ => Network.solve_of_le⟩

end

/-- Settings for a block of equations, with exact arithmetic. -/
def Pool.Settings.exact : Pool.Settings Rat := ⟨[], (-10, 10), mkRat 1 100, 5⟩

/-- Two equations with two unknowns, and their product. -/
def sumAndDifference : String := "x + y = 3\nx - y = 1\nz = x*y"

/-- A square that is four, as a `ConstrainedSystem`. -/
def squareIsFour : Except (Error Rat) (ConstrainedSystem Rat) :=
  SystemBuilder.new "x*x = 4" [] >>= fun b => b.build (0, 10)

/-- The square root of two is found as a root and as the solution of a damped system, a block is
solved by a subsystem and a single equation, and a constrained system and the `divider` are solved:
all of them within some limit, hence within a larger one. -/
theorem patient_squareLessTwo :
    (∃ x s', Newton.solveScalar Newton.squareFunction 5 (mkRat 1 100) 50 (some (0, 3))
        (mkRat 1 1000) () = .ok x s' ∧
      (Newton.scalarLoop Newton.squareFunction (some (0, 3)) (mkRat 1 1000)).Patient
        (fun margin limit => Newton.solveScalar Newton.squareFunction 5 margin limit (some (0, 3))
          (mkRat 1 1000) ()) (mkRat 1 100) 50 (Newton.clamp 5 (some (0, 3))) () x s') ∧
    (∃ x s', Newton.solveSystem Newton.squareResiduals [("x", 5)] Newton.dampedConfig
        (fun _ => some (0, 3)) () = .ok x s' ∧
      ∀ limit, 50 ≤ limit → Newton.solveSystem Newton.squareResiduals [("x", 5)]
        { Newton.dampedConfig with limit := limit } (fun _ => some (0, 3)) () = .ok x s') ∧
    (∃ result, Pool.solve sumAndDifference [] .exact = .ok result ∧
      Pool.solve sumAndDifference [] { Pool.Settings.exact with limit := 100 } = .ok result) ∧
    (∃ system found, squareIsFour = .ok system ∧ system.solve (mkRat 1 100) 10 = .ok found ∧
      system.solve (mkRat 1 100) 1000 = .ok found) ∧
    ∃ sol after, Network.solve (mkRat 1 10000) 2 ComponentIndex.usualLimit Network.divider =
        .ok sol after ∧
      Network.solve (mkRat 1 10000) 100 ComponentIndex.usualLimit Network.divider =
        .ok sol after := by
  obtain ⟨hscalar, hsystem, hblock, hconstrained, hnetwork⟩ :=
    patient_solvers (α := Rat) (ν := String) (σ := Unit)
  have hroot : succeeded (Newton.solveScalar Newton.squareFunction 5 (mkRat 1 100) 50 (some (0, 3))
      (mkRat 1 1000) ()) = true := by decide +kernel
  have hdamped : succeeded (Newton.solveSystem Newton.squareResiduals [("x", 5)]
      Newton.dampedConfig (fun _ => some (0, 3)) ()) = true := by
    rw [Newton.solveSystem_eq_within 1 (by decide +kernel)]
    decide +kernel
  have hpool : (Pool.solve sumAndDifference [] .exact).toOption.isSome = true := by decide +kernel
  have hfour : (squareIsFour >>= fun system => system.solve (mkRat 1 100) 10).toOption.isSome =
      true := by decide +kernel
  have hdivider : succeeded (Network.solve (mkRat 1 10000) 2 ComponentIndex.usualLimit
      Network.divider) = true := by decide +kernel
  obtain ⟨x, s', hx⟩ := succeeded_eq_true_iff.mp hroot
  obtain ⟨y, u, hy⟩ := succeeded_eq_true_iff.mp hdamped
  obtain ⟨result, hresult⟩ := Option.isSome_iff_exists.mp hpool
  have hresult := except_toOption_eq_some.mp hresult
  obtain ⟨found, hfound⟩ := Option.isSome_iff_exists.mp hfour
  obtain ⟨system, hbuilt, hfound⟩ := except_bind_eq_ok.mp (except_toOption_eq_some.mp hfound)
  obtain ⟨sol, after, hsol⟩ := succeeded_eq_true_iff.mp hdivider
  exact ⟨⟨x, s', hx, hscalar _ _ _ _ _ _ _ _ _ hx⟩,
    ⟨y, u, hy, (hsystem _ _ _ _ _ _ _ hy).larger_limit⟩,
    ⟨result, hresult, hblock _ _ _ _ (by decide) _ hresult⟩,
    ⟨system, found, hbuilt, hfound, hconstrained _ _ _ _ (by decide) _ hfound⟩,
    ⟨sol, after, hsol, hnetwork _ _ _ _ _ _ _ (by decide) hsol⟩⟩

end FluxBalance
