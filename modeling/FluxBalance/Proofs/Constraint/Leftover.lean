import FluxBalance.Proofs.Constraint.Pool

/-!
# What a pool leaves over

The search for subsystems is greedy: a builder keeps every equation that it may take, in the order
of the text, and drops none of them again. So a subsystem that can be solved may be overlooked,
when equations with unrelated unknowns come before it. What the search does rule out are the
subsystems that consist of an equation with several unknowns and an initial stretch of the others:
each of these has more unknowns than equations. In particular this holds of all that is left over,
taken together, unless every unknown drops out when the known values are put in.

## Main definitions and results

* `ExactlyConstrained`: equations with as many `openNames` as there are equations;
* `Stuck`, `stuck_of_solve`: what can be said of the equations that `solve` leaves over;
* `exists_exactlyConstrained_leftover`: of the equations `overlooked` some could be solved together.
-/

namespace FluxBalance

open Equation

variable {α : Type} [Evaluable α]

namespace Pool

/-! ### Open names -/

/-- The names of an equation that have no value; none if the equation cannot be read. -/
def openNamesOf (known : Context α) (equation : String) : List String :=
  match freeVariables equation known with
  | .ok names => names
  | .error _ => []

/-- The names of several equations that have no value, each one once. -/
def openNames (known : Context α) (equations : List String) : List String :=
  (equations.flatMap (openNamesOf known)).foldr Expr.insertName []

private theorem mem_openNames {known : Context α} {equations : List String} {name : String} :
    name ∈ openNames known equations ↔ ∃ e ∈ equations, name ∈ openNamesOf known e := by
  rw [openNames, Expr.mem_foldr_insertName, List.mem_flatMap]

/-- More equations have no fewer open names. -/
private theorem length_openNames_le {known : Context α} {texts more : List String}
    (h : texts ⊆ more) : (openNames known texts).length ≤ (openNames known more).length := by
  refine (List.subperm_of_subset (Expr.nodup_foldr_insertName _) fun name hname => ?_).length_le
  obtain ⟨text, htext, hopen⟩ := mem_openNames.mp hname
  exact mem_openNames.mpr ⟨text, h htext, hopen⟩

/-- Equations have no more unknowns than they have open names. A name may have dropped out when
the values of others were put in. -/
private theorem length_unknownsOf_le_openNames {known : Context α} {texts : List String}
    {es : List (Expression α)}
    (hread : List.Forall₂ (fun text e => Expression.ofText text known = .ok e) texts es)
    (hnames : ∀ text ∈ texts, ∃ names, freeVariables text known = .ok names) :
    (SystemBuilder.unknownsOf es).length ≤ (openNames known texts).length := by
  refine (List.subperm_of_subset (SystemBuilder.nodup_unknownsOf es) fun name hname => ?_).length_le
  obtain ⟨e, he, hname⟩ := SystemBuilder.mem_unknownsOf.mp hname
  obtain ⟨text, htext, hok⟩ := exists_of_mem_of_forall₂ hread e he
  obtain ⟨free, hfree⟩ := hnames text htext
  refine mem_openNames.mpr ⟨text, htext, ?_⟩
  rw [openNamesOf, hfree]
  exact Expression.mem_freeVariables_of_mem_vars hok hfree name hname

/-! ### Leftovers -/

/-- Equations that could be solved together, by their numbers: there is one at least, each has an
open name, and there are as many open names as equations. -/
def ExactlyConstrained (known : Context α) (equations : List String) : Prop :=
  equations ≠ [] ∧ (∀ e ∈ equations, openNamesOf known e ≠ []) ∧
    (openNames known equations).length = equations.length

instance (known : Context α) (equations : List String) :
    Decidable (ExactlyConstrained known equations) := by
  unfold ExactlyConstrained
  infer_instance

/-- What is known of equations that are left over. -/
structure Stuck (rest : Pending α) : Prop where
  /-- Each can be read, and has no open name or at least two. -/
  single : ∀ e ∈ rest.equations, ∃ names, freeVariables e rest.known = .ok names ∧
    names.length ≠ 1
  /-- An equation with two unknowns or more, together with the first `k` of the others, has more
  open names than there are equations. -/
  gathered : ∀ i seed, rest.equations[i]? = some seed →
    ∃ x, Expression.ofText seed rest.known = .ok x ∧
      (2 ≤ x.vars.length → ∀ k,
        (seed :: (rest.equations.eraseIdx i).take k).length <
          (openNames rest.known (seed :: (rest.equations.eraseIdx i).take k)).length)
  /-- If one of them has an unknown at all, they have more open names than there are equations. -/
  whole : ∀ e ∈ rest.equations, ∀ x, Expression.ofText e rest.known = .ok x → x.vars ≠ [] →
    rest.equations.length < (openNames rest.known rest.equations).length

variable {s : Settings α} {rest : Pending α}

/-- What is gathered around an equation with two unknowns or more, where no step is left. -/
private theorem length_lt_of_step_eq_none (h : step s rest = .ok none) {i : Nat} {seed : String}
    (hseed : rest.equations[i]? = some seed) {x : Expression α}
    (hx : Expression.ofText seed rest.known = .ok x) (htwo : 2 ≤ x.vars.length) (k : Nat) :
    (seed :: (rest.equations.eraseIdx i).take k).length <
      (openNames rest.known (seed :: (rest.equations.eraseIdx i).take k)).length := by
  obtain ⟨done, ⟨⟩, -⟩ | ⟨hsingle, hsub⟩ := step_eq_ok h
  have hnames : ∀ e ∈ rest.equations, ∃ names, freeVariables e rest.known = .ok names :=
    fun e he => (solveSingle_eq_none hsingle e he).imp fun _ h => h.1
  have hothers : ∀ e ∈ rest.equations.eraseIdx i,
      ∃ names, freeVariables e rest.known = .ok names :=
    fun e he => hnames e (List.mem_of_mem_eraseIdx he)
  obtain ⟨b, b', hb, hb', hstatus⟩ := solveSubsystem_eq_none hsub (i, seed) (mem_seeds.mpr hseed)
  obtain ⟨x', hx', rfl⟩ := SystemBuilder.new_eq_ok hb
  obtain rfl : x = x' := Except.ok.inj (hx.symm.trans hx')
  have hopen : 1 < (SystemBuilder.unknownsOf [x]).length := by
    rw [SystemBuilder.length_unknownsOf_singleton hx]
    exact htwo
  -- The builder has taken everything, so the first `k` of the others are a stretch of it.
  obtain ⟨es, hread, hlt⟩ := length_lt_of_gather hb' (fun e he cause => by
    obtain ⟨names, hok⟩ := hothers e he
    exact Expression.ofText_ne_expression hok cause) hopen hstatus
  have hstretch : List.Forall₂ (fun text e => Expression.ofText text rest.known = .ok e)
      (seed :: (rest.equations.eraseIdx i).take k) (x :: es.take k) :=
    .cons hx (List.forall₂_take k hread)
  calc (seed :: (rest.equations.eraseIdx i).take k).length
      = ([x] ++ es.take k).length := hstretch.length_eq
    _ < (SystemBuilder.unknownsOf ([x] ++ es.take k)).length := hlt k
    _ ≤ _ := length_unknownsOf_le_openNames hstretch <| List.forall_mem_cons.mpr
        ⟨hnames seed (List.mem_of_getElem? hseed), fun e he => hothers e (List.mem_of_mem_take he)⟩

/-- Where no step is left, one of the equations has two unknowns or more if any has an unknown:
a builder with a single unknown would be constrained from the start. -/
private theorem exists_two_unknowns (h : step s rest = .ok none) {e : String}
    (he : e ∈ rest.equations) {x : Expression α} (hx : Expression.ofText e rest.known = .ok x)
    (hvars : x.vars ≠ []) :
    ∃ (i : Nat) (seed : String) (y : Expression α), rest.equations[i]? = some seed ∧
      Expression.ofText seed rest.known = .ok y ∧ 2 ≤ y.vars.length := by
  obtain ⟨done, ⟨⟩, -⟩ | ⟨hsingle, hsub⟩ := step_eq_ok h
  obtain ⟨i, hi⟩ := List.mem_iff_getElem?.mp he
  by_contra hfew
  push Not at hfew
  obtain ⟨b, b', hb, hb', hstatus⟩ := solveSubsystem_eq_none hsub (i, e) (mem_seeds.mpr hi)
  obtain ⟨x', hx', rfl⟩ := SystemBuilder.new_eq_ok hb
  obtain rfl : x = x' := Except.ok.inj (hx.symm.trans hx')
  refine hstatus (status_of_gather hb' (fun text htext y hy => ?_) ?_)
  · obtain ⟨j, hj⟩ := List.mem_iff_getElem?.mp (List.mem_of_mem_eraseIdx htext)
    have := hfew j text y hj hy
    omega
  · have hone : x.vars.length = 1 := by
      have hlt := hfew i e x hi hx
      have hpos := List.length_pos_of_ne_nil hvars
      omega
    rw [SystemBuilder.status_eq_constrained_iff, SystemBuilder.unknowns,
      SystemBuilder.length_unknownsOf_singleton hx, hone, List.length_singleton]

/-- A pool that admits no further step is `Stuck`. -/
private theorem stuck_of_step_eq_none (h : step s rest = .ok none) : Stuck rest := by
  obtain ⟨done, ⟨⟩, -⟩ | ⟨hsingle, hsub⟩ := step_eq_ok h
  refine ⟨solveSingle_eq_none hsingle, fun i seed hseed => ?_, fun e he x hx hvars => ?_⟩
  · obtain ⟨b, -, hb, -⟩ := solveSubsystem_eq_none hsub (i, seed) (mem_seeds.mpr hseed)
    obtain ⟨x, hx, -⟩ := SystemBuilder.new_eq_ok hb
    exact ⟨x, hx, length_lt_of_step_eq_none h hseed hx⟩
  · obtain ⟨i, seed, y, hseed, hy, htwo⟩ := exists_two_unknowns h he hx hvars
    have hlt := length_lt_of_step_eq_none h hseed hy htwo (rest.equations.eraseIdx i).length
    rw [List.take_length] at hlt
    have hi : i < rest.equations.length := (List.getElem?_eq_some_iff.mp hseed).1
    have hall : seed :: rest.equations.eraseIdx i ⊆ rest.equations :=
      List.cons_subset.mpr ⟨List.mem_of_getElem? hseed, List.eraseIdx_subset⟩
    calc rest.equations.length
        = (seed :: rest.equations.eraseIdx i).length := by
          rw [List.length_cons, List.length_eraseIdx_add_one hi]
      _ < _ := hlt
      _ ≤ _ := length_openNames_le hall

/-! ### Blocks of equations -/

/-- **What a block of equations leaves over is `Stuck`.** No leftover equation has exactly one open
name, no leftover equation with two unknowns or more is exactly constrained together with an initial
stretch of the others, and neither are all of them together, if there is an unknown. -/
theorem stuck_of_solve {text : String} {context : Context α} {steps : List Step}
    (h : solve text context s = .ok (steps, rest)) : Stuck rest := by
  have hrun : rest.equations = [] ∨ step s rest = .ok none :=
    stuck_of_run (p := ⟨split text, context⟩) (Nat.le_refl _) h
  rcases hrun with hnil | hnone
  · exact ⟨by simp [hnil], by simp [hnil], by simp [hnil]⟩
  · exact stuck_of_step_eq_none hnone

/-- Nothing is declared, and the margin is the usual one. -/
def Settings.usual : Settings Float := ⟨[], unbounded, Newton.defaultMargin, 1000⟩

/-- The last two equations can be solved together, but the first one comes before them. -/
def overlooked : String := "a + b + c + d = 0\nx + y = 1\nx - y = 3"

/-- Both of them are left over. -/
private theorem solve_overlooked :
    ∃ steps rest, solve overlooked [] .usual = .ok (steps, rest) ∧
      ["x + y = 1", "x - y = 3"].Sublist rest.equations ∧
      ExactlyConstrained rest.known ["x + y = 1", "x - y = 3"] := by
  have hleft : (solve overlooked [] .usual).toOption.any (fun r =>
      decide (["x + y = 1", "x - y = 3"].Sublist r.2.equations ∧
        ExactlyConstrained r.2.known ["x + y = 1", "x - y = 3"])) = true := by decide +kernel
  cases hsolve : solve overlooked [] .usual with
  | error e =>
    rw [hsolve] at hleft
    cases hleft
  | ok r =>
    rw [hsolve] at hleft
    exact ⟨r.1, r.2, rfl, of_decide_eq_true hleft⟩

theorem stuck_overlooked :
    ∃ steps rest, solve overlooked [] .usual = .ok (steps, rest) ∧ Stuck rest := by
  obtain ⟨steps, rest, hsolve, -⟩ := solve_overlooked
  exact ⟨steps, rest, hsolve, stuck_of_solve hsolve⟩

/-- **A subsystem may be overlooked**: some equations that are left over are
`ExactlyConstrained`. -/
theorem exists_exactlyConstrained_leftover :
    ¬ ∀ (text : String) (context : Context Float) (s : Settings Float) (steps : List Step)
      (rest : Pending Float), solve text context s = .ok (steps, rest) →
      ∀ es, es.Sublist rest.equations → ¬ ExactlyConstrained rest.known es := by
  obtain ⟨steps, rest, hsolve, hsub, hexact⟩ := solve_overlooked
  intro h
  exact h overlooked [] .usual steps rest hsolve _ hsub hexact

end Pool

end FluxBalance
