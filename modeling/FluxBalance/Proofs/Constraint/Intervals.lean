import FluxBalance.Proofs.Constraint.Account

/-!
# What becomes of declared intervals

An unknown may be declared with an interval. A single equation and a subsystem treat it differently.
A single equation refuses an interval whose ends are in the wrong order. A subsystem passes over
such a declaration and looks for the unknown as if it had not been declared. In all other cases the
value that is found has been clamped into the declared interval, so it lies there as far as the ends
of the interval and the value are numbers.

The main statement says this of every declared name that a block of equations is solved for. One
step is looked at first; later steps do not change what has been found.

## Main definitions and results

* `Treated`, `treated_of_step`: how a step treats the declaration of a name that it finds;
* `treated_of_solve`: the same for the solution of a block, where no name is declared twice,
  `Settings.Distinct`;
* `exists_found_in_empty_interval`: the settings `Settings.inverted` declare an empty interval, and
  the name is found.
-/

namespace FluxBalance

open Equation

variable {α : Type} [Evaluable α]

/-! ### Clamped values -/

/-- The value that an equation is solved for has been clamped into the interval, which is not
empty. -/
private theorem clamped_solveEquation {text : String} {context : Context α} {search : Search α}
    {margin : α} {limit : Int} {name : String} {value : α}
    (h : solveEquation text context search margin limit = .ok (name, value)) :
    Scalar.lt search.bounds.2 search.bounds.1 = false ∧
      ∃ z, value = Newton.clamp z (some search.bounds) := by
  obtain ⟨e, -, h⟩ := except_bind_eq_ok.mp h
  split at h
  · obtain ⟨x, hx, h⟩ := except_bind_eq_ok.mp h
    cases h
    unfold Computation.result at hx
    split at hx
    · rename_i hrun
      cases hx
      exact Newton.clamped_solveScalar hrun
    · cases hx
  · cases h

/-- The values that a subsystem is solved for have been clamped into the intervals of their
unknowns. -/
private theorem ConstrainedSystem.clamped_lookup?_found [Scalar.Lawful α] {es : List (Expression α)}
    (known : Context α) {search : String → Search α} {margin : α} {limit : Int}
    {found : List (String × α)}
    (hfound : (⟨es, (SystemBuilder.unknownsOf es).map fun n => (n, search n)⟩ :
      ConstrainedSystem α).solve margin limit = .ok found)
    {name : String} (hname : name ∈ SystemBuilder.unknownsOf es) :
    ∃ z, (found.foldl (fun c v => c.set v.1 v.2) known).lookup? name =
      some (Newton.clamp z (some (search name).bounds)) := by
  rw [lookup?_found hfound]
  cases hvalue : Context.lookup? found name with
  | none =>
    rw [Context.lookup?_eq_none_iff, keys_found hfound] at hvalue
    exact absurd hname hvalue
  | some v =>
    -- The entry that is looked up is one of those that the iteration has returned.
    obtain ⟨u, hu, rfl⟩ := Option.map_eq_some_iff.mp hvalue
    obtain rfl : u.1 = name := by simpa using List.find?_some hu
    obtain ⟨_, hrun⟩ := solve_eq_ok hfound
    obtain ⟨z, hz⟩ := Newton.clamped_solveSystem hrun u (List.mem_of_find?_eq_some hu)
    dsimp only at hz
    rw [Context.find?_map_of_mem hname, Option.map_some] at hz
    exact ⟨z, by rw [Option.some_or, hz]⟩

namespace Pool

/-! ### Declarations that are found -/

/-- No name is declared twice. -/
def Settings.Distinct (s : Settings α) : Prop := (s.declared.map Prod.fst).Nodup

instance (s : Settings α) : Decidable s.Distinct :=
  inferInstanceAs (Decidable (s.declared.map Prod.fst).Nodup)

section

variable {s : Settings α} {q : String × Search α}

private theorem searchFor_of_mem (hs : s.Distinct) (hq : q ∈ s.declared) :
    s.searchFor q.1 = q.2 := by
  unfold Settings.searchFor
  cases hfind : s.declared.find? fun p => p.1 == q.1 with
  | none =>
    have hnone := List.find?_eq_none.mp hfind q hq
    simp at hnone
  | some p =>
    obtain rfl : p = q := List.inj_on_of_nodup_map hs (List.mem_of_find?_eq_some hfind) hq
      (by simpa using List.find?_some hfind)
    rfl

/-- A subsystem looks for a declared unknown as it has been declared, unless its interval is
empty. -/
private theorem subsystemSearch_of_mem (hs : s.Distinct) (hq : q ∈ s.declared) :
    s.subsystemSearch q.1 =
      if Scalar.lt q.2.bounds.2 q.2.bounds.1 then ⟨1, s.bounds⟩ else q.2 := by
  -- Declarations of other names do not change what is found.
  have hkeep : ∀ (declared : List (String × Search α)) (found : Search α),
      q.1 ∉ declared.map Prod.fst → declared.foldl (fun found p =>
        if p.1 == q.1 && !Scalar.lt p.2.bounds.2 p.2.bounds.1 then p.2 else found) found =
          found := by
    intro declared
    induction declared with
    | nil => exact fun _ _ => rfl
    | cons p declared ih =>
      intro found hnot
      rw [List.map_cons, List.mem_cons, not_or] at hnot
      obtain ⟨hp, hrest⟩ := hnot
      rw [List.foldl_cons, if_neg (by simp [Ne.symm hp]), ih _ hrest]
  obtain ⟨front, back, hsplit⟩ := List.append_of_mem hq
  rw [Settings.Distinct, hsplit, List.map_append, List.map_cons, List.nodup_append,
    List.nodup_cons] at hs
  obtain ⟨-, ⟨hback, -⟩, hfront⟩ := hs
  rw [Settings.subsystemSearch, hsplit, List.foldl_append, List.foldl_cons, hkeep back _ hback,
    hkeep front _ fun hmem => hfront _ hmem _ List.mem_cons_self rfl]
  cases Scalar.lt q.2.bounds.2 q.2.bounds.1 <;> simp

end

/-- How a step has treated the declaration of a name for which it has found the value `v`. -/
inductive Treated (s : Settings α) (d : Step) (search : Search α) (v : α) : Prop
  /-- The ends of the interval are in order, and the value lies between them. -/
  | within : Scalar.lt search.bounds.2 search.bounds.1 = false →
    (Scalar.isNaN search.bounds.1 = false → Scalar.isNaN search.bounds.2 = false →
      Scalar.isNaN v = false → Newton.Inside v (some search.bounds)) → Treated s d search v
  /-- The interval is empty, and a subsystem has looked for the unknown in the interval of those
  that are not declared. -/
  | passedOver {names used : List String} : Scalar.lt search.bounds.2 search.bounds.1 = true →
    d = .subsystem names used → (∃ z, v = Newton.clamp z (some s.bounds)) → Treated s d search v

variable {s : Settings α} {p p' rest : Pending α} {d : Step} {steps : List Step}
  {q : String × Search α}

/-- **How a step treats a declaration** of a name that it finds. -/
theorem treated_of_step [Scalar.Lawful α] [Scalar.Ordered α] (hs : s.Distinct)
    (hq : q ∈ s.declared) (h : step s p = .ok (some (d, p'))) (hname : q.1 ∈ d.names) :
    ∃ v, p'.known.lookup? q.1 = some v ∧ Treated s d q.2 v := by
  have hinside {z : α} (horder : Scalar.lt q.2.bounds.2 q.2.bounds.1 = false) :
      Treated s d q.2 (Newton.clamp z (some q.2.bounds)) :=
    .within horder fun hlo hhi hv => Newton.inside_clamp_of_number hlo hhi horder hv
  rcases step_eq_ok h with ⟨_, ⟨⟩, hsingle⟩ | ⟨-, hsub⟩
  · obtain ⟨front, e, after, name, found, value, -, hfree, hfound, rfl, rfl⟩ :=
      solveSingle_eq_some hsingle
    obtain rfl : q.1 = found := List.mem_singleton.mp hname
    -- The equation is solved for the unknown by which it has been picked.
    obtain ⟨x, -, hx, hvars, -⟩ := solveEquation_eq_ok hfound
    have hmem : q.1 ∈ [name] := Expression.mem_freeVariables_of_mem_vars hx hfree q.1
      (by rw [hvars]; exact List.mem_singleton_self _)
    obtain rfl : q.1 = name := List.mem_singleton.mp hmem
    rw [searchFor_of_mem hs hq] at hfound
    obtain ⟨horder, z, rfl⟩ := clamped_solveEquation hfound
    exact ⟨_, by rw [Context.lookup?_set, if_pos rfl], hinside horder⟩
  · obtain ⟨es, found, -, -, -, hfound, rfl, rfl⟩ := system_of_solveSubsystem hsub
    obtain ⟨z, hz⟩ := ConstrainedSystem.clamped_lookup?_found p.known hfound hname
    refine ⟨_, hz, ?_⟩
    rw [subsystemSearch_of_mem hs hq]
    cases horder : Scalar.lt q.2.bounds.2 q.2.bounds.1 with
    | false => exact hinside horder
    | true => exact .passedOver horder rfl ⟨z, rfl⟩

/-! ### Whole blocks -/

/-- What a `Run` has found has been found by one of its steps, which has treated its declaration. -/
private theorem Run.exists_treated [Scalar.Lawful α] [Scalar.Ordered α] (h : Run s p steps rest)
    (hs : s.Distinct) (hq : q ∈ s.declared) (hopen : p.known.contains q.1 = false)
    (hrest : rest.known.contains q.1 = true) :
    ∃ v, rest.known.lookup? q.1 = some v ∧ ∃ d ∈ steps, q.1 ∈ d.names ∧ Treated s d q.2 v := by
  induction h with
  | nil p =>
    rw [hrest] at hopen
    cases hopen
  | @cons p p' rest d steps hstep hrun ih =>
    by_cases hname : q.1 ∈ d.names
    · obtain ⟨v, hv, htreated⟩ := treated_of_step hs hq hstep hname
      exact ⟨v, hrun.lookup?_eq hv, d, List.mem_cons_self, hname, htreated⟩
    · have hopen' : p'.known.contains q.1 = false := by
        rw [← Context.isSome_lookup?, (advances_of_step hstep).kept q.1 hname,
          Context.isSome_lookup?, hopen]
      obtain ⟨v, hv, d', hd', htreated⟩ := ih hopen' hrest
      exact ⟨v, hv, d', List.mem_cons_of_mem _ hd', htreated⟩

/-- **Declared intervals are kept, or passed over by a subsystem.** A declared name that a block is
solved for has a value in its interval, if the ends are in order. If they are not, the name has been
found in a subsystem, and its value has nothing to do with the declaration: no single equation is
solved for such a name. -/
theorem treated_of_solve [Scalar.Lawful α] [Scalar.Ordered α] {text : String} {context : Context α}
    (hs : s.Distinct) (h : solve text context s = .ok (steps, rest)) :
    ∀ q ∈ s.declared, context.contains q.1 = false → rest.known.contains q.1 = true →
      ∃ v, rest.known.lookup? q.1 = some v ∧ ∃ d ∈ steps, q.1 ∈ d.names ∧ Treated s d q.2 v :=
  fun _ hq hopen hrest => (run_eq_ok h).exists_treated hs hq hopen hrest

/-- A subsystem, and an equation for a third unknown. -/
def crossing : String := "x + y = 2\nx - y = 0\nz = 2*x"

/-- The interval of the first unknown is empty, that of the third one is not. -/
def Settings.inverted : Settings Float :=
  { Settings.usual with declared := [("x", ⟨1, 5, 2⟩), ("z", ⟨2, 0, 3⟩)] }

/-- The system `crossing` is solved by a subsystem and a single equation. -/
theorem solve_crossing :
    ∃ rest, solve crossing [] .inverted = .ok
        ([.subsystem ["x", "y"] ["x + y = 2", "x - y = 0"], .single "z" "z = 2*x"], rest) ∧
      rest.known.contains "x" = true ∧ rest.known.contains "z" = true := by
  have hdone : (solve crossing [] .inverted).toOption.map
      (fun r => (r.1, r.2.known.contains "x" && r.2.known.contains "z")) = some
        ([.subsystem ["x", "y"] ["x + y = 2", "x - y = 0"], .single "z" "z = 2*x"], true) := by
    decide +kernel
  cases hsolve : solve crossing [] .inverted with
  | error e =>
    rw [hsolve] at hdone
    cases hdone
  | ok r =>
    rw [hsolve] at hdone
    obtain ⟨hsteps, hknown⟩ := Prod.mk.inj (Option.some.inj hdone)
    exact ⟨r.2, by rw [← hsteps], Bool.and_eq_true_iff.mp hknown⟩

/-- One of the declarations is kept, and the other one is passed over. -/
theorem treated_crossing :
    ∃ steps rest, solve crossing [] .inverted = .ok (steps, rest) ∧ Settings.inverted.Distinct ∧
      ∀ q ∈ Settings.inverted.declared, ∃ v, rest.known.lookup? q.1 = some v ∧
        ∃ d ∈ steps, q.1 ∈ d.names ∧ Treated .inverted d q.2 v := by
  obtain ⟨rest, hsolve, hx, hz⟩ := solve_crossing
  have hdistinct : Settings.inverted.Distinct := by decide
  have htreated := treated_of_solve hdistinct hsolve
  refine ⟨_, rest, hsolve, hdistinct, fun q hq => htreated q hq rfl ?_⟩
  obtain rfl | rfl : q = ("x", ⟨1, 5, 2⟩) ∨ q = ("z", ⟨2, 0, 3⟩) := by
    simpa [Settings.inverted] using hq
  · exact hx
  · exact hz

/-- **A name with an empty interval may be found**, namely in a subsystem. -/
theorem exists_found_in_empty_interval :
    ¬ ∀ (text : String) (context : Context Float) (s : Settings Float) (steps : List Step)
      (rest : Pending Float), s.Distinct → solve text context s = .ok (steps, rest) →
      ∀ q ∈ s.declared, context.contains q.1 = false →
        Scalar.lt q.2.bounds.2 q.2.bounds.1 = true → rest.known.contains q.1 = false := by
  intro h
  obtain ⟨rest, hsolve, hx, -⟩ := solve_crossing
  have hnot := h crossing [] .inverted _ rest (by decide) hsolve ("x", ⟨1, 5, 2⟩)
    List.mem_cons_self rfl (by decide +kernel)
  rw [hx] at hnot
  cases hnot

end Pool

end FluxBalance
