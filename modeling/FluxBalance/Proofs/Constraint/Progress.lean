import FluxBalance.Proofs.Constraint.Escapes
import FluxBalance.Proofs.Constraint.Intervals

/-!
# Every step makes progress

A step takes at least one equation out of the pool, whichever kind it is of: a single equation by
its position, a subsystem by the texts of its equations. The names that it finds have not been known
before, and they are as many as the equations that it lists. So there are no more steps than
equations, and the solution of a block comes to an end by itself: the pool is empty, or no step is
left, or a step fails. To allow it more steps than there are equations makes no difference.

## Main definitions and results

* `Progress`, `progress_of_step`: what every completed `step` does with a pool;
* `Ends`, `ends_and_progress`: how the solution of a block comes to an end, and that `run` needs no
  more steps than there are equations.
-/

namespace FluxBalance.Pool

open Equation

variable {α : Type} [Evaluable α] {s : Settings α} {p p' rest : Pending α} {d : Step}
  {steps : List Step}

/-! ### One step -/

/-- What a completed step does with a pool. -/
structure Progress (p p' : Pending α) (d : Step) : Prop where
  /-- Equations leave the pool, one at least; the others stay in their order. -/
  sublist : p'.equations.Sublist p.equations
  fewer : p'.equations.length < p.equations.length
  /-- What is listed are the names that were not known and are known now, each one once, and there
  is one at least. -/
  mem_names_iff : ∀ name, name ∈ d.names ↔
    p.known.contains name = false ∧ p'.known.contains name = true
  nodup : d.names.Nodup
  ne_nil : d.names ≠ []
  /-- There are as many of them as equations that are listed. -/
  length_eq : d.names.length = d.equations.length
  /-- A subsystem is solved only if each equation of the pool can be read and none has exactly one
  name without a value. -/
  subsystem : ∀ names used, d = .subsystem names used → ∀ e ∈ p.equations,
    ∃ unknowns, freeVariables e p.known = .ok unknowns ∧ unknowns.length ≠ 1

/-- A step takes equations out of the pool and keeps the order of the others. -/
private theorem sublist_of_step (h : step s p = .ok (some (d, p'))) :
    p'.equations.Sublist p.equations := by
  rcases step_eq_ok h with ⟨_, ⟨⟩, hsingle⟩ | ⟨-, hsub⟩
  · obtain ⟨front, e, after, _, _, _, heq, -, -, -, rfl⟩ := solveSingle_eq_some hsingle
    rw [heq]
    exact (List.sublist_cons_self e after).append_left front
  · obtain ⟨_, -, _, _, _, _, -, -, -, -, -, rfl⟩ := solveSubsystem_eq_some hsub
    exact List.filter_sublist

/-- What is listed by a step is what has become known by it. -/
private theorem Advances.mem_names_iff (h : Advances s p p' d) (name : String) :
    name ∈ d.names ↔ p.known.contains name = false ∧ p'.known.contains name = true := by
  constructor
  · exact fun hname => ⟨h.unknown name hname, h.found name hname⟩
  · rintro ⟨hbefore, hafter⟩
    by_contra hname
    rw [← Context.isSome_lookup?, h.kept name hname, Context.isSome_lookup?, hbefore] at hafter
    cases hafter

/-- A step finds as many names as it lists equations, and one at least. -/
private theorem length_names_of_step [Scalar.Lawful α] (h : step s p = .ok (some (d, p'))) :
    d.names.length = d.equations.length ∧ d.names ≠ [] := by
  rcases step_eq_ok h with ⟨_, ⟨⟩, hsingle⟩ | ⟨-, hsub⟩
  · obtain ⟨_, _, _, _, _, _, -, -, -, rfl, -⟩ := solveSingle_eq_some hsingle
    exact ⟨rfl, List.cons_ne_nil _ _⟩
  · obtain ⟨es, rfl, hsolves⟩ := solves_of_solveSubsystem hsub
    have hlength : (SystemBuilder.unknownsOf es).length = es.length := hsolves.length_eq.symm
    refine ⟨hlength.trans (List.length_map Expression.text).symm, List.ne_nil_of_length_pos ?_⟩
    exact hlength ▸ List.length_pos_of_ne_nil hsolves.ne_nil

/-- **Every completed step makes progress**, whichever kind it is of. -/
theorem progress_of_step [Scalar.Lawful α] (h : step s p = .ok (some (d, p'))) :
    Progress p p' d where
  sublist := sublist_of_step h
  fewer := length_lt_of_step h
  mem_names_iff := (advances_of_step h).mem_names_iff
  nodup := (advances_of_step h).nodup
  ne_nil := (length_names_of_step h).2
  length_eq := (length_names_of_step h).1
  subsystem := by
    rintro names used rfl
    rcases step_eq_ok h with ⟨_, ⟨⟩, hsingle⟩ | ⟨hnone, -⟩
    · obtain ⟨_, _, _, _, _, _, -, -, -, ⟨⟩, -⟩ := solveSingle_eq_some hsingle
    · exact solveSingle_eq_none hnone

/-! ### Whole runs -/

/-- To allow more steps than there are equations makes no difference. -/
private theorem run_eq_run : ∀ {n m : Nat} {p : Pending α}, p.equations.length ≤ n →
    p.equations.length ≤ m → run s n p = run s m p
  | 0, 0, _, _, _ => rfl
  | 0, m + 1, p, hn, _ => by
    have hnil : p.equations = [] := List.eq_nil_of_length_eq_zero (Nat.le_zero.mp hn)
    rw [run, run, if_pos (List.isEmpty_iff.mpr hnil)]
    rfl
  | n + 1, 0, p, _, hm => by
    have hnil : p.equations = [] := List.eq_nil_of_length_eq_zero (Nat.le_zero.mp hm)
    rw [run, run, if_pos (List.isEmpty_iff.mpr hnil)]
    rfl
  | n + 1, m + 1, p, hn, hm => by
    rw [run, run]
    split
    · rfl
    cases hstep : step s p with
    | error cause => rfl
    | ok o =>
      cases o with
      | none => rfl
      | some done =>
        obtain ⟨d, p'⟩ := done
        have hlt := length_lt_of_step hstep
        have hrest : run s n p' = run s m p' := run_eq_run (by omega) (by omega)
        simp only [bind, Except.bind]
        rw [hrest]

/-- How the solution of a block ends: at a pool to which its steps lead. -/
inductive Ends (s : Settings α) (text : String) (context : Context α) : Prop
  /-- Everything is solved, or no step is left. -/
  | done {steps : List Step} {rest : Pending α} : solve text context s = .ok (steps, rest) →
    Run s ⟨split text, context⟩ steps rest → rest.equations = [] ∨ step s rest = .ok none →
    Ends s text context
  /-- A step fails. -/
  | failed {steps : List Step} {p : Pending α} {cause : Error α} :
    solve text context s = .error cause → Run s ⟨split text, context⟩ steps p →
    step s p = .error cause → Ends s text context

private theorem solve_ends (s : Settings α) (text : String) (context : Context α) :
    Ends s text context := by
  cases hsolve : solve text context s with
  | ok result =>
    obtain ⟨steps, rest⟩ := result
    exact .done hsolve (run_eq_ok hsolve)
      (stuck_of_run (p := ⟨split text, context⟩) (Nat.le_refl _) hsolve)
  | error cause =>
    obtain ⟨steps, p, hrun, hstep⟩ := solve_eq_error_iff.mp hsolve
    exact .failed hsolve hrun hstep

/-- **The solution of a block comes to an end**, because each of its steps makes progress. It ends
at a pool that its steps lead to, and more steps than there are equations are never needed.
However far it has come, it has made no more steps than equations have left the pool. -/
theorem ends_and_progress [Scalar.Lawful α] (s : Settings α) (text : String)
    (context : Context α) :
    Ends s text context ∧
    (∀ n, (split text).length ≤ n →
      run s n ⟨split text, context⟩ = solve text context s) ∧
    (∀ steps rest, solve text context s = .ok (steps, rest) →
      (steps.map Step.written).length ≤ (split text).length) ∧
    ∀ steps p, Run s ⟨split text, context⟩ steps p →
      steps.length + p.equations.length ≤ (split text).length ∧
        ∀ d p', step s p = .ok (some (d, p')) → Progress p p' d := by
  refine ⟨solve_ends s text context, fun n hn => run_eq_run hn (Nat.le_refl _),
    fun steps rest h => ?_, fun steps p hrun => ⟨hrun.length_le, fun d p' => progress_of_step⟩⟩
  have hle : steps.length + rest.equations.length ≤ (split text).length := (run_eq_ok h).length_le
  rw [List.length_map]
  omega

/-- Two steps of either kind solve three equations: the first one finds two names, the second one
the third. -/
theorem progress_crossing : ∃ p₁ p₂ : Pending Float,
    step .inverted ⟨split crossing, []⟩ =
      .ok (some (.subsystem ["x", "y"] ["x + y = 2", "x - y = 0"], p₁)) ∧
    Progress ⟨split crossing, []⟩ p₁ (.subsystem ["x", "y"] ["x + y = 2", "x - y = 0"]) ∧
    step .inverted p₁ = .ok (some (.single "z" "z = 2*x", p₂)) ∧
    Progress p₁ p₂ (.single "z" "z = 2*x") := by
  obtain ⟨rest, hsolve, -⟩ := solve_crossing
  obtain ⟨-, -, -, hprogress⟩ := ends_and_progress .inverted crossing []
  cases run_eq_ok hsolve with
  | @cons p p₁ _ d steps hfirst hrun =>
    cases hrun with
    | @cons p p₂ _ d steps hsecond hrun' =>
      exact ⟨p₁, p₂, hfirst, (hprogress [] _ (.nil _)).2 _ _ hfirst, hsecond,
        (hprogress [_] _ (.cons hfirst (.nil _))).2 _ _ hsecond⟩

end FluxBalance.Pool
