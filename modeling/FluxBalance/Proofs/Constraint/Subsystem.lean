import FluxBalance.Proofs.Constraint.Leftover
import FluxBalance.Proofs.Equation.Evaluation
import FluxBalance.Proofs.Newton.Stationary
import FluxBalance.Proofs.Scalar.Doubles

/-!
# What a subsystem step does

A step that solves a subsystem uses as many equations as it finds unknowns. The equations are
counted whether or not they have unknowns themselves, so an equation whose names are all known may
make up for a missing one. Such an equation is a residual that does not vary, and then the iteration
makes no step: the subsystem is solved only if its unknowns happen to solve it where they are first
looked for.

## Main definitions and results

* `Settings.subsystemSearch`: where a subsystem looks for an unknown;
* `eq_of_solve`: a system with a `Steady` equation is solved by its guess only;
* `Solves`, `solves_of_step`: what a step does that solves a subsystem;
* `exists_redundant_equation_used`: of the equations `redundant` one has no unknowns.
-/

namespace FluxBalance

open Equation

variable {α : Type} [Evaluable α]

/-! ### Constrained systems -/

namespace ConstrainedSystem

/-- A system is solved by `Newton.solveSystem` on its `residuals`, guesses and bounds. -/
theorem solve_eq_ok {system : ConstrainedSystem α} {margin : α} {limit : Int}
    {found : List (String × α)} (h : system.solve margin limit = .ok found) :
    ∃ u, Newton.solveSystem (residuals system.equations)
      (system.searches.map fun p => (p.1, p.2.guess)) (.ofMargin margin limit)
      (fun n => (system.searches.find? fun p => p.1 == n).map fun p => p.2.bounds) () =
        .ok found u := by
  unfold solve Computation.result at h
  split at h
  · rename_i found' u hrun
    cases h
    exact ⟨u, hrun⟩
  · cases h

/-- Each equation has its residual. -/
private theorem getElem?_residuals {es : List (Expression α)} {i : Nat} {e : Expression α}
    (h : es[i]? = some e) : ∃ r, (residuals es)[i]? = some r ∧
      ∀ x, r.value x = Newton.lift (e.evaluate (Context.lookup? x)) := by
  unfold residuals
  rw [List.getElem?_mapIdx, h]
  exact ⟨_, rfl, fun _ => rfl⟩

/-- **The values that are found solve every equation up to the margin.** -/
theorem evaluate_of_solve [Scalar.Lawful α] {system : ConstrainedSystem α} {margin : α}
    {limit : Int} {found : List (String × α)} (h : system.solve margin limit = .ok found) :
    found.map Prod.fst = system.unknowns ∧
      ∀ e ∈ system.equations, ∃ y, e.evaluate (Context.lookup? found) = .ok y ∧
        Scalar.lt (Scalar.abs y) margin = true := by
  obtain ⟨u, hrun⟩ := solve_eq_ok h
  have hkeep := Newton.residualsKeep_true (residuals system.equations)
  obtain ⟨hkeys, s, values, -, hvalues, hlt⟩ :=
    Newton.converged_of_solveSystem hkeep (Newton.over_true _) trivial hrun
  rw [List.map_map] at hkeys
  refine ⟨hkeys, fun e he => ?_⟩
  obtain ⟨i, hi⟩ := List.mem_iff_getElem?.mp he
  obtain ⟨r, hr, hvalue⟩ := getElem?_residuals hi
  obtain ⟨s₀, y, s₁, -, hy, -, hplace⟩ :=
    Newton.getElem?_of_evaluateAll (Newton.over_true _) hkeep trivial hvalues hr
  rw [hvalue] at hy
  refine ⟨y, ?_, Scalar.abs_lt_of_maxAbs_lt (Newton.isFinite_of_evaluateAll hvalues) hlt y
    (List.mem_of_getElem? hplace)⟩
  -- The residual gives the value of the equation at the point, or its error.
  cases hev : e.evaluate (Context.lookup? found) with
  | ok z =>
    rw [hev] at hy
    rw [(Computation.pure_eq_ok.mp hy).1]
  | error _ =>
    rw [hev] at hy
    cases hy

/-- **With an equation whose value does not depend on the unknowns** a system is solved only by the
values that the unknowns are first given. -/
theorem eq_of_solve [Scalar.Lawful α] {system : ConstrainedSystem α} {margin : α} {limit : Int}
    {found : List (String × α)} (h : system.solve margin limit = .ok found)
    {e : Expression α} (he : e ∈ system.equations)
    (hclosed : ∀ f g : String → Option α, e.evaluate f = e.evaluate g) :
    found = system.searches.map fun p => (p.1, Newton.clamp p.2.guess
      ((system.searches.find? fun q => q.1 == p.1).map fun q => q.2.bounds)) := by
  obtain ⟨u, hrun⟩ := solve_eq_ok h
  obtain ⟨i, hi⟩ := List.mem_iff_getElem?.mp he
  obtain ⟨r, hr, hvalue⟩ := getElem?_residuals hi
  have hsteady : r.Steady :=
    ⟨e.evaluate fun _ => none, fun x => by rw [hvalue, hclosed _ fun _ => none]⟩
  have hfound := Newton.eq_of_solveSystem_of_steady (List.mem_of_getElem? hr) hsteady hrun
  rw [hfound, List.map_map]
  rfl

/-! ### Values that are found -/

section

variable {es : List (Expression α)} {known : Context α} {search : String → Search α} {margin : α}
  {limit : Int} {found : List (String × α)}

/-- The `unknowns` of a system are those that searches are listed for. -/
private theorem unknowns_map {names : List String} :
    (⟨es, names.map fun n => (n, search n)⟩ : ConstrainedSystem α).unknowns = names := by
  simp [unknowns, Function.comp_def]

variable [Scalar.Lawful α]
  (hfound : (⟨es, (SystemBuilder.unknownsOf es).map fun n => (n, search n)⟩ :
    ConstrainedSystem α).solve margin limit = .ok found)

include hfound

/-- The names of the values that are found are the unknowns. -/
theorem keys_found : found.map Prod.fst = SystemBuilder.unknownsOf es := by
  rw [(evaluate_of_solve hfound).1, unknowns_map]

/-- The values found are put in front of those known. -/
theorem lookup?_found (name : String) :
    (found.foldl (fun c v => c.set v.1 v.2) known).lookup? name =
      (Context.lookup? found name).or (known.lookup? name) := by
  refine Context.lookup?_foldl_set ?_
  rw [keys_found hfound]
  exact SystemBuilder.nodup_unknownsOf es

/-- What is found for other names does not change the value of a name. -/
private theorem lookup?_found_of_not_mem {name : String}
    (hname : name ∉ SystemBuilder.unknownsOf es) :
    (found.foldl (fun c v => c.set v.1 v.2) known).lookup? name = known.lookup? name := by
  have hnone : Context.lookup? found name = none := by
    rw [Context.lookup?_eq_none_iff, keys_found hfound]
    exact hname
  rw [lookup?_found hfound, hnone, Option.none_or]

/-- The values known afterwards solve the equations up to the margin. -/
private theorem evaluate_found (hread : ∀ e ∈ es, Expression.ofText e.text known = .ok e) :
    ∀ e ∈ es, ∃ y,
      e.evaluate (found.foldl (fun c v => c.set v.1 v.2) known).lookup? = .ok y ∧
        Scalar.lt (Scalar.abs y) margin = true := by
  intro e he
  obtain ⟨y, hy, hlt⟩ := (evaluate_of_solve hfound).2 e he
  refine ⟨y, ?_, hlt⟩
  rw [← hy]
  refine Expression.evaluate_congr (hread e he) fun name hname => ?_
  have hmem : name ∈ SystemBuilder.unknownsOf es := SystemBuilder.mem_unknownsOf.mpr ⟨e, he, hname⟩
  rw [lookup?_found hfound]
  cases hvalue : Context.lookup? found name with
  | some v => rfl
  | none =>
    rw [Context.lookup?_eq_none_iff, keys_found hfound] at hvalue
    exact absurd hmem hvalue

/-- If an equation has no unknowns, every unknown keeps the value that it is first given. -/
private theorem lookup?_found_of_closed {e : Expression α} (he : e ∈ es)
    (hread : Expression.ofText e.text known = .ok e) (hvars : e.vars = []) {name : String}
    (hname : name ∈ SystemBuilder.unknownsOf es) :
    (found.foldl (fun c v => c.set v.1 v.2) known).lookup? name =
      some (Newton.clamp (search name).guess (some (search name).bounds)) := by
  have hclosed (f g : String → Option α) : e.evaluate f = e.evaluate g :=
    Expression.evaluate_congr hread (by simp [hvars])
  have hvalue : Context.lookup? found name =
      some (Newton.clamp (search name).guess (some (search name).bounds)) := by
    rw [eq_of_solve hfound he hclosed, List.map_map, Context.lookup?]
    change Option.map _ (((SystemBuilder.unknownsOf es).map fun n => (n, _)).find? _) = _
    rw [Context.find?_map_of_mem hname, Option.map_some, Context.find?_map_of_mem hname,
      Option.map_some]
  rw [lookup?_found hfound, hvalue, Option.some_or]

end

end ConstrainedSystem

namespace Pool

/-! ### Declared searches -/

/-- Where a subsystem looks for an unknown: as it is declared last with an interval whose ends are
in order, and otherwise at one. -/
def Settings.subsystemSearch (s : Settings α) (name : String) : Search α :=
  s.declared.foldl (fun found p =>
    if p.1 == name && !Scalar.lt p.2.bounds.2 p.2.bounds.1 then p.2 else found) ⟨1, s.bounds⟩

/-- Specifying one unknown changes the search for it and no other. -/
private theorem specify_getD {es : List (Expression α)} {names : List String}
    (f : String → Search α) (m : String) (search : Search α) :
    ((⟨es, names.map fun n => (n, f n)⟩ : ConstrainedSystem α).specify m search).getD
        ⟨es, names.map fun n => (n, f n)⟩ =
      ⟨es, names.map fun n =>
        (n, if m == n && !Scalar.lt search.bounds.2 search.bounds.1 then search else f n)⟩ := by
  have hunknowns : (⟨es, names.map fun n => (n, f n)⟩ : ConstrainedSystem α).unknowns = names := by
    simp [ConstrainedSystem.unknowns, Function.comp_def]
  rw [ConstrainedSystem.specify, hunknowns]
  by_cases happlies : (names.contains m && !Scalar.lt search.bounds.2 search.bounds.1) = true
  · obtain ⟨-, hvalid⟩ := Bool.and_eq_true_iff.mp happlies
    rw [if_pos happlies, Option.getD_some, ConstrainedSystem.changeSearch, List.map_map]
    congr 1
    refine List.map_congr_left fun n _ => ?_
    rw [hvalid, Bool.and_true, Function.comp_apply]
    by_cases hn : n = m
    · simp [hn]
    · simp [hn, Ne.symm hn]
  · rw [if_neg happlies, Option.getD_none]
    congr 1
    refine List.map_congr_left fun n hn => ?_
    rw [if_neg]
    intro h
    obtain ⟨hm, hvalid⟩ := Bool.and_eq_true_iff.mp h
    obtain rfl : m = n := by simpa using hm
    exact happlies (Bool.and_eq_true_iff.mpr ⟨by simpa using hn, hvalid⟩)

/-- Specifying all unknowns of a subsystem replaces their searches by `subsystemSearch`. -/
theorem specifyAll_eq (s : Settings α) (es : List (Expression α)) (names : List String) :
    specifyAll s ⟨es, names.map fun n => (n, ⟨1, s.bounds⟩)⟩ =
      ⟨es, names.map fun n => (n, s.subsystemSearch n)⟩ := by
  -- The induction is on the declarations that are left, for the searches found so far.
  have key : ∀ (declared : List (String × Search α)) (f : String → Search α),
      declared.foldl (fun system p => (system.specify p.1 p.2).getD system)
        (⟨es, names.map fun n => (n, f n)⟩ : ConstrainedSystem α) =
      ⟨es, names.map fun n => (n, declared.foldl (fun found p =>
        if p.1 == n && !Scalar.lt p.2.bounds.2 p.2.bounds.1 then p.2 else found) (f n))⟩ := by
    intro declared
    induction declared with
    | nil => exact fun _ => rfl
    | cons p declared ih =>
      intro f
      rw [List.foldl_cons, specify_getD, ih]
      rfl
  exact key s.declared fun _ => ⟨1, s.bounds⟩

/-! ### Subsystem steps -/

/-- What a step does that finds the values of `names` from the equations `es`. -/
structure Solves (s : Settings α) (p p' : Pending α) (names : List String)
    (es : List (Expression α)) : Prop where
  /-- The equations are in the pool. -/
  pooled : ∀ e ∈ es, e.text ∈ p.equations
  /-- They are read with the values that are known. -/
  read : ∀ e ∈ es, Expression.ofText e.text p.known = .ok e
  /-- The names are the `unknowns` of the `equations`, each one once. -/
  names_eq : names = SystemBuilder.unknownsOf es
  /-- There are as many `unknowns` as `equations`, and at least one of them. -/
  length_eq : es.length = names.length
  ne_nil : es ≠ []
  /-- None of them has been known before. -/
  unknown : ∀ name ∈ names, p.known.contains name = false
  /-- The equations leave the pool. -/
  left : p'.equations = p.equations.filter fun text => !(es.map (·.text)).contains text
  /-- What was known before is kept. -/
  kept : ∀ name ∉ names, p'.known.lookup? name = p.known.lookup? name
  /-- The values found solve the equations up to the margin. -/
  solved : ∀ e ∈ es, ∃ y, e.evaluate p'.known.lookup? = .ok y ∧
    Scalar.lt (Scalar.abs y) s.margin = true
  /-- If one of the equations has no unknowns, each value is the one that the unknown is first
  given. -/
  idle : (∃ e ∈ es, e.vars = []) → ∀ name ∈ names, p'.known.lookup? name =
    some (Newton.clamp (s.subsystemSearch name).guess (some (s.subsystemSearch name).bounds))

variable {s : Settings α} {p p' : Pending α}

/-- An unknown of an equation is not known. -/
theorem contains_eq_false_of_mem_vars {text : String} {known : Context α} {e : Expression α}
    (he : Expression.ofText text known = .ok e) {name : String} (hname : name ∈ e.vars) :
    known.contains name = false := by
  obtain ⟨d, hd, -⟩ := except_bind_eq_ok.mp he
  have hfree : freeVariables text known =
      .ok (d.vars.filter fun n => !known.contains n) := by
    rw [freeVariables, hd]
    rfl
  have hmem := Expression.mem_freeVariables_of_mem_vars he hfree name hname
  simpa using (List.mem_filter.mp hmem).2

/-- What is gathered around a seed comes out of the pool. -/
private theorem gathered_eq_ok {b b' : SystemBuilder α} {i : Nat} {seed : String}
    (hseed : p.equations[i]? = some seed) (hb : SystemBuilder.new seed p.known = .ok b)
    (hb' : gather b (p.equations.eraseIdx i) = .ok b') :
    ∃ es, b' = ⟨p.known, es⟩ ∧ es ≠ [] ∧
      ∀ e ∈ es, e.text ∈ p.equations ∧ Expression.ofText e.text p.known = .ok e := by
  obtain ⟨x, hx, rfl⟩ := SystemBuilder.new_eq_ok hb
  obtain ⟨taken, others, hsublist, hread, rfl⟩ := gather_eq_ok hb'
  refine ⟨[x] ++ others, rfl, by simp, List.forall_mem_cons.mpr ⟨?_, fun e he => ?_⟩⟩
  · rw [Expression.text_of_ofText hx]
    exact ⟨List.mem_of_getElem? hseed, hx⟩
  · obtain ⟨text, htext, hok⟩ := exists_of_mem_of_forall₂ hread e he
    rw [Expression.text_of_ofText hok]
    exact ⟨List.mem_of_mem_eraseIdx (hsublist.subset htext), hok⟩

/-- The subsystem that is solved has been gathered from the pool, and its unknowns are looked for as
they are declared. -/
theorem system_of_solveSubsystem {d : Step}
    (h : solveSubsystem s p (p.equations.mapIdx fun i e => (i, e)) = .ok (some (d, p'))) :
    ∃ es found, es ≠ [] ∧
      (∀ e ∈ es, e.text ∈ p.equations ∧ Expression.ofText e.text p.known = .ok e) ∧
      es.length = (SystemBuilder.unknownsOf es).length ∧
      (⟨es, (SystemBuilder.unknownsOf es).map fun n => (n, s.subsystemSearch n)⟩ :
        ConstrainedSystem α).solve s.margin s.limit = .ok found ∧
      d = .subsystem (SystemBuilder.unknownsOf es) (es.map (·.text)) ∧
      p' = ⟨p.equations.filter fun text => !(es.map (·.text)).contains text,
        found.foldl (fun c v => c.set v.1 v.2) p.known⟩ := by
  obtain ⟨q, hq, b, b', system, found, hb, hb', hbuild, hfound, rfl, rfl⟩ :=
    solveSubsystem_eq_some h
  obtain ⟨es, rfl, hne, hall⟩ := gathered_eq_ok (mem_seeds.mp hq) hb hb'
  obtain ⟨hcount, rfl⟩ := SystemBuilder.build_eq_ok hbuild
  have hspecified := specifyAll_eq s es (SystemBuilder.unknownsOf es)
  change (specifyAll s ⟨es, (SystemBuilder.unknownsOf es).map fun n => (n, ⟨1, s.bounds⟩)⟩).solve
    _ _ = _ at hfound
  rw [hspecified] at hfound
  refine ⟨es, found, hne, hall, hcount, hfound, ?_, rfl⟩
  change Step.subsystem (specifyAll s
    ⟨es, (SystemBuilder.unknownsOf es).map fun n => (n, ⟨1, s.bounds⟩)⟩).unknowns _ = _
  rw [hspecified, ConstrainedSystem.unknowns_map]
  rfl

/-- A subsystem that is found is solved, `Solves`. -/
theorem solves_of_solveSubsystem [Scalar.Lawful α] {d : Step}
    (h : solveSubsystem s p (p.equations.mapIdx fun i e => (i, e)) = .ok (some (d, p'))) :
    ∃ es, d = .subsystem (SystemBuilder.unknownsOf es) (es.map (·.text)) ∧
      Solves s p p' (SystemBuilder.unknownsOf es) es := by
  obtain ⟨es, found, hne, hall, hcount, hfound, rfl, rfl⟩ := system_of_solveSubsystem h
  have hread : ∀ e ∈ es, Expression.ofText e.text p.known = .ok e := fun e he => (hall e he).2
  refine ⟨es, rfl, ?_⟩
  exact
    { pooled := fun e he => (hall e he).1
      read := hread
      names_eq := rfl
      length_eq := hcount
      ne_nil := hne
      unknown := by
        intro name hname
        obtain ⟨e, he, hname⟩ := SystemBuilder.mem_unknownsOf.mp hname
        exact contains_eq_false_of_mem_vars (hread e he) hname
      left := rfl
      kept := fun name hname => ConstrainedSystem.lookup?_found_of_not_mem hfound hname
      solved := ConstrainedSystem.evaluate_found hfound hread
      idle := by
        rintro ⟨e, he, hvars⟩ name hname
        exact ConstrainedSystem.lookup?_found_of_closed hfound he (hread e he) hvars hname }

/-- **What a subsystem step does.** This holds at any pool, so it holds of every such step in the
solution of any block of equations. -/
theorem solves_of_step [Scalar.Lawful α] {names used : List String}
    (h : step s p = .ok (some (.subsystem names used, p'))) :
    ∃ es, es.map (·.text) = used ∧ Solves s p p' names es := by
  obtain ⟨_, ⟨⟩, hsingle⟩ | ⟨-, hsub⟩ := step_eq_ok h
  · obtain ⟨front, e, rest, name, found, value, -, -, -, ⟨⟩, -⟩ := solveSingle_eq_some hsingle
  · obtain ⟨es, hstep, hsolves⟩ := solves_of_solveSubsystem hsub
    cases hstep
    exact ⟨es, rfl, hsolves⟩

/-! ### An equation that is counted without having unknowns -/

/-- With the value one for `a`, the second equation has no unknowns. -/
def redundant : String := "x + y = 2\na = 1"

/-- Both equations are used, and two unknowns are found. -/
private theorem step_redundant :
    ∃ p', step .usual ⟨split redundant, [("a", 1)]⟩ =
      .ok (some (.subsystem ["x", "y"] ["x + y = 2", "a = 1"], p')) := by
  have hdone : ((step .usual ⟨split redundant, [("a", 1)]⟩).toOption.bind id).map (·.1) =
      some (.subsystem ["x", "y"] ["x + y = 2", "a = 1"]) := by decide +kernel
  obtain ⟨⟨d, p'⟩, hbind, rfl⟩ := Option.map_eq_some_iff.mp hdone
  obtain ⟨o, ho, rfl⟩ := Option.bind_eq_some_iff.mp hbind
  refine ⟨p', ?_⟩
  cases hstep : step .usual ⟨split redundant, [("a", 1)]⟩ with
  | error e =>
    rw [hstep] at ho
    cases ho
  | ok o' =>
    rw [hstep] at ho
    rw [Option.some.inj ho]

/-- The step that `redundant` begins with uses both equations and finds two unknowns. -/
theorem solves_redundant :
    ∃ p' es, step .usual ⟨split redundant, [("a", 1)]⟩ =
      .ok (some (.subsystem ["x", "y"] ["x + y = 2", "a = 1"], p')) ∧
      es.map (·.text) = ["x + y = 2", "a = 1"] ∧
      Solves .usual ⟨split redundant, [("a", 1)]⟩ p' ["x", "y"] es := by
  obtain ⟨p', hstep⟩ := step_redundant
  obtain ⟨es, htexts, hsolves⟩ := solves_of_step hstep
  exact ⟨p', es, hstep, htexts, hsolves⟩

/-- **An equation without unknowns may be counted**: already the first step in the solution of a
block may use an equation whose names are all known. -/
theorem exists_redundant_equation_used :
    ¬ ∀ (text : String) (context : Context Float) (s : Settings Float) (names used : List String)
      (p' : Pending Float),
      step s ⟨split text, context⟩ = .ok (some (.subsystem names used, p')) →
      ∀ e ∈ used, openNamesOf context e ≠ [] := by
  obtain ⟨p', hstep⟩ := step_redundant
  intro h
  have hopen : openNamesOf ([("a", 1)] : Context Float) "a = 1" = [] := by decide +kernel
  exact h redundant [("a", 1)] .usual _ _ p' hstep "a = 1" (by simp) hopen

/-- Where the values first given to the unknowns do not solve the subsystem, the step fails. -/
example :
    (match solve "x + y = 3\na = 1" [("a", 1)] .usual with
      | .error (.singularJacobian _) => true
      | _ => false) = true := by decide +kernel

end Pool

end FluxBalance
