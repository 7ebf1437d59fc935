import FluxBalance.Proofs.Constraint.Subsystem
import FluxBalance.Proofs.Newton.Bounds

/-!
# The account of a solved block

A block of equations is solved by steps, each of which takes equations out of the pool and finds
names that have not been known. The main statement says what the steps add up to. What was known at
any time is known with the same value in the end. Every name that has been found is listed by one
step. The equations that the steps have taken, together with those that are left over, are the
equations of the block, each as often as it occurs there. And every equation that has been taken is
still solved in the end, for nothing that it depends on has changed since.

One step is looked at first, be it a single equation or a subsystem; the rest is an induction on the
steps.

## Main definitions and results

* `Advances`, `advances_of_step`: what one `step` does with a pool, whichever kind it is of;
* `Run`, `Run.exists_taken`: along the steps of a run every equation is taken and solved, or left
  over;
* `accounted_of_solve`: what `solve` returns for a block is `Accounted` for.
-/

namespace FluxBalance

open Equation

variable {α : Type} [Evaluable α]

/-! ### Values of equations -/

/-- An equation has a value only where its unknowns have values. -/
private theorem Expression.isSome_of_evaluate {e : Expression α} {values : String → Option α}
    {y : α} (h : e.evaluate values = .ok y) : ∀ n ∈ e.vars, (values n).isSome = true := by
  unfold Expression.evaluate at h
  split at h
  · cases h
  · rename_i hnone
    intro n hn
    have hsome := List.find?_eq_none.mp hnone n hn
    rwa [Bool.not_eq_true, Option.isNone_eq_false_iff] at hsome

/-- An equation that is solved for its unknown has been read, and it has a value below the margin
there. -/
theorem solveEquation_eq_ok {text : String} {context : Context α} {search : Search α} {margin : α}
    {limit : Int} {name : String} {value : α}
    (h : solveEquation text context search margin limit = .ok (name, value)) :
    ∃ e y, Expression.ofText text context = .ok e ∧ e.vars = [name] ∧
      e.evaluate (fun n => if n = name then some value else none) = .ok y ∧
      Scalar.lt (Scalar.abs y) margin = true := by
  obtain ⟨e, he, h⟩ := except_bind_eq_ok.mp h
  split at h
  · rename_i found hvars
    obtain ⟨x, hx, h⟩ := except_bind_eq_ok.mp h
    cases h
    unfold Computation.result at hx
    split at hx
    · rename_i x' u hrun
      cases hx
      obtain ⟨s₀, y, hy, -, hlt⟩ := Newton.root_of_solveScalar hrun
      exact ⟨e, y, he, hvars, (Newton.lift_eq_ok_iff.mp hy).1, hlt⟩
    · cases hx
  · cases h

namespace Pool

/-! ### What a step lists -/

namespace Step

/-- The names that have been found. -/
def names : Step → List String
  | single name _ => [name]
  | subsystem names _ => names

/-- The equations from which they have been found. -/
def equations : Step → List String
  | single _ equation => [equation]
  | subsystem _ equations => equations

end Step

/-! ### One step -/

/-- The equation, read with the values that were known, has a value below the margin with those that
are known in the end. -/
def SolvedAt (margin : α) (known final : Context α) (equation : String) : Prop :=
  ∃ e y, Expression.ofText equation known = .ok e ∧ e.evaluate final.lookup? = .ok y ∧
    Scalar.lt (Scalar.abs y) margin = true

/-- What a step does with a pool. -/
structure Advances (s : Settings α) (p p' : Pending α) (d : Step) : Prop where
  /-- Each name is listed once, and it has not been known before. -/
  nodup : d.names.Nodup
  unknown : ∀ name ∈ d.names, p.known.contains name = false
  /-- The names are known now, and nothing else has changed. -/
  found : ∀ name ∈ d.names, p'.known.contains name = true
  kept : ∀ name ∉ d.names, p'.known.lookup? name = p.known.lookup? name
  /-- What leaves the pool is listed. -/
  taken : ∃ removed, (removed ++ p'.equations).Perm p.equations ∧ ∀ e ∈ removed, e ∈ d.equations
  /-- What is listed is solved. -/
  solved : ∀ e ∈ d.equations, SolvedAt s.margin p.known p'.known e

variable {s : Settings α} {p p' rest : Pending α} {d : Step} {steps : List Step}

private theorem Advances.kept_of_lookup? (h : Advances s p p' d) {name : String} {v : α}
    (hv : p.known.lookup? name = some v) : p'.known.lookup? name = some v := by
  have hknown : p.known.contains name = true := by
    rw [← Context.isSome_lookup?, hv]
    rfl
  rw [h.kept name fun hname => ?_, hv]
  rw [h.unknown name hname] at hknown
  cases hknown

/-- A single equation is taken out by its position, and the value of its unknown is added. -/
private theorem advances_of_solveSingle
    (h : solveSingle s p.known [] p.equations = .ok (some (d, p'))) : Advances s p p' d := by
  obtain ⟨front, e, after, name, found, value, heq, -, hfound, rfl, rfl⟩ := solveSingle_eq_some h
  obtain ⟨x, y, hx, hvars, hy, hlt⟩ := solveEquation_eq_ok hfound
  have hlookup (n : String) : (p.known.set found value).lookup? n =
      if found = n then some value else p.known.lookup? n := Context.lookup?_set _ _ _ _
  refine ⟨List.nodup_singleton _, ?_, ?_, fun n hn => ?_, ⟨[e], ?_, fun _ he => he⟩, ?_⟩
  · rintro n hn
    obtain rfl := List.mem_singleton.mp hn
    exact contains_eq_false_of_mem_vars hx (by rw [hvars]; exact List.mem_singleton_self _)
  · rintro n hn
    obtain rfl := List.mem_singleton.mp hn
    rw [← Context.isSome_lookup?, hlookup, if_pos rfl]
    rfl
  · rw [hlookup, if_neg fun hname : found = n => hn (hname ▸ List.mem_singleton_self _)]
  · rw [heq]
    change (e :: (front ++ after)).Perm (front ++ e :: after)
    exact List.perm_middle.symm
  · rintro e' he'
    obtain rfl := List.mem_singleton.mp he'
    refine ⟨x, y, hx, ?_, hlt⟩
    rw [← hy]
    refine Expression.evaluate_congr hx fun n hn => ?_
    rw [hvars, List.mem_singleton] at hn
    subst hn
    rw [hlookup, if_pos rfl, if_pos rfl]

/-- The equations of a subsystem are taken out by their texts, and all that has been found is
added. -/
private theorem Solves.advances {names : List String} {es : List (Expression α)}
    (h : Solves s p p' names es) : Advances s p p' (.subsystem names (es.map (·.text))) where
  nodup := by
    rw [Step.names, h.names_eq]
    exact SystemBuilder.nodup_unknownsOf es
  unknown := h.unknown
  found := by
    intro name hname
    rw [Step.names, h.names_eq, SystemBuilder.mem_unknownsOf] at hname
    obtain ⟨e, he, hname⟩ := hname
    obtain ⟨y, hy, -⟩ := h.solved e he
    rw [← Context.isSome_lookup?]
    exact Expression.isSome_of_evaluate hy name hname
  kept := h.kept
  taken := by
    refine ⟨p.equations.filter fun text => (es.map (·.text)).contains text, ?_, fun e he => ?_⟩
    · rw [h.left]
      exact List.filter_append_perm _ _
    · exact List.contains_iff_mem.mp (List.mem_filter.mp he).2
  solved := by
    intro text htext
    obtain ⟨e, he, rfl⟩ := List.mem_map.mp htext
    obtain ⟨y, hy, hlt⟩ := h.solved e he
    exact ⟨e, y, h.read e he, hy, hlt⟩

/-- **What a step does**, whichever kind it is of. -/
theorem advances_of_step [Scalar.Lawful α] (h : step s p = .ok (some (d, p'))) :
    Advances s p p' d := by
  rcases step_eq_ok h with ⟨_, ⟨⟩, hsingle⟩ | ⟨-, hsub⟩
  · exact advances_of_solveSingle hsingle
  · obtain ⟨es, rfl, hsolves⟩ := solves_of_solveSubsystem hsub
    exact hsolves.advances

/-! ### Runs -/

/-- The steps lead from one pool to the other. -/
inductive Run (s : Settings α) : Pending α → List Step → Pending α → Prop
  | nil (p : Pending α) : Run s p [] p
  | cons {p p' rest : Pending α} {d : Step} {steps : List Step} :
    step s p = .ok (some (d, p')) → Run s p' steps rest → Run s p (d :: steps) rest

/-- A `run` that succeeds is a `Run`, step by step. -/
theorem run_eq_ok : ∀ {n : Nat} {p : Pending α} {steps : List Step},
    run s n p = .ok (steps, rest) → Run s p steps rest
  | 0, _, _, h => by
    cases h
    exact .nil _
  | n + 1, _, _, h => by
    unfold run at h
    split at h
    · cases h
      exact .nil _
    obtain ⟨o, ho, h⟩ := except_bind_eq_ok.mp h
    cases o with
    | none =>
      cases h
      exact .nil _
    | some done =>
      obtain ⟨⟨steps', rest'⟩, hrun, h⟩ := except_bind_eq_ok.mp h
      cases h
      exact .cons ho (run_eq_ok hrun)

namespace Run

variable [Scalar.Lawful α]

/-- **What is known is known from then on**, with the same value. -/
theorem lookup?_eq (h : Run s p steps rest) {name : String} {v : α}
    (hv : p.known.lookup? name = some v) : rest.known.lookup? name = some v := by
  induction h with
  | nil p => exact hv
  | cons hstep _ ih => exact ih ((advances_of_step hstep).kept_of_lookup? hv)

theorem contains (h : Run s p steps rest) {name : String} (hname : p.known.contains name = true) :
    rest.known.contains name = true := by
  rw [← Context.isSome_lookup?, Option.isSome_iff_exists] at hname ⊢
  exact hname.imp fun v hv => h.lookup?_eq hv

/-- No step finds what has been known before it. -/
theorem unknown (h : Run s p steps rest) :
    ∀ d ∈ steps, ∀ name ∈ d.names, p.known.contains name = false := by
  induction h with
  | nil p => exact nofun
  | @cons p p' rest d steps hstep _ ih =>
    have hadvances := advances_of_step hstep
    refine List.forall_mem_cons.mpr ⟨hadvances.unknown, fun d' hd' name hname => ?_⟩
    have hnot := ih d' hd' name hname
    rw [Bool.eq_false_iff, ne_eq, ← Context.isSome_lookup?, Option.isSome_iff_exists] at hnot ⊢
    exact fun hknown => hnot (hknown.imp fun v hv => hadvances.kept_of_lookup? hv)

/-- **Every name that has been found is listed by one step.** -/
theorem existsUnique_names (h : Run s p steps rest) {name : String}
    (hrest : rest.known.contains name = true) (hp : p.known.contains name = false) :
    ∃! i : Nat, ∃ d, steps[i]? = some d ∧ name ∈ d.names := by
  induction h with
  | nil p =>
    rw [hrest] at hp
    cases hp
  | @cons p p' rest d steps hstep hrun ih =>
    have hadvances := advances_of_step hstep
    by_cases hname : name ∈ d.names
    · -- No later step lists the name again.
      refine ⟨0, ⟨d, rfl, hname⟩, ?_⟩
      rintro (_ | i) ⟨d', hd', hname'⟩
      · rfl
      · have hnot := hrun.unknown d' (List.mem_of_getElem? hd') name hname'
        rw [hadvances.found name hname] at hnot
        cases hnot
    · have hp' : p'.known.contains name = false := by
        rw [← Context.isSome_lookup?, hadvances.kept name hname, Context.isSome_lookup?, hp]
      obtain ⟨i, hi, hunique⟩ := ih hrest hp'
      refine ⟨i + 1, hi, ?_⟩
      rintro (_ | j) ⟨d', hd', hname'⟩
      · cases hd'
        exact absurd hname' hname
      · rw [hunique j ⟨d', hd', hname'⟩]

end Run

/-! ### Whole blocks -/

/-- The equation is listed by a step that was made when the given values were known. -/
def TakenAt (s : Settings α) (p : Pending α) (steps : List Step) (known : Context α)
    (equation : String) : Prop :=
  ∃ front d back p₁, steps = front ++ d :: back ∧ Run s p front p₁ ∧ p₁.known = known ∧
    equation ∈ d.equations

/-- What steps that lead from one pool to another have done. -/
structure Accounted (s : Settings α) (p : Pending α) (steps : List Step) (rest : Pending α) :
    Prop where
  /-- What was known at first is known in the end. -/
  constants : ∀ {name : String} {v : α}, p.known.lookup? name = some v →
    rest.known.lookup? name = some v
  /-- What is known at one time has the same value at every later time, and no step after that
  time finds it again. -/
  once : ∀ {front middle back : List Step} {p₁ p₂ : Pending α}, steps = front ++ middle ++ back →
    Run s p front p₁ → Run s p₁ middle p₂ → Run s p₂ back rest →
    (∀ name v, p₁.known.lookup? name = some v → p₂.known.lookup? name = some v) ∧
      ∀ d ∈ middle ++ back, ∀ name ∈ d.names, p₁.known.contains name = false
  /-- Every other name that is known in the end is listed by one step. -/
  listed : ∀ {name : String}, rest.known.contains name = true → p.known.contains name = false →
    ∃! i : Nat, ∃ d, steps[i]? = some d ∧ name ∈ d.names
  /-- What has been taken, with the values known at that time, and what is left over are the
  equations of the pool; and what has been taken is solved in the end. -/
  solved : ∃ taken : List (Context α × String),
    (taken.map Prod.snd ++ rest.equations).Perm p.equations ∧
      ∀ t ∈ taken, TakenAt s p steps t.1 t.2 ∧ SolvedAt s.margin t.1 rest.known t.2

variable [Scalar.Lawful α]

/-- Nothing that a solved equation depends on changes later. -/
private theorem SolvedAt.of_run {known : Context α} {equation : String}
    (h : SolvedAt s.margin known p.known equation) (hrun : Run s p steps rest) :
    SolvedAt s.margin known rest.known equation := by
  obtain ⟨e, y, he, hy, hlt⟩ := h
  refine ⟨e, y, he, ?_, hlt⟩
  rw [← hy]
  refine Expression.evaluate_congr he fun n hn => ?_
  obtain ⟨v, hv⟩ := Option.isSome_iff_exists.mp (Expression.isSome_of_evaluate hy n hn)
  rw [hv, hrun.lookup?_eq hv]

/-- **The equations of a pool are taken and solved, or left over.** -/
theorem Run.exists_taken (h : Run s p steps rest) : ∃ taken : List (Context α × String),
    (taken.map Prod.snd ++ rest.equations).Perm p.equations ∧
      ∀ t ∈ taken, TakenAt s p steps t.1 t.2 ∧ SolvedAt s.margin t.1 rest.known t.2 := by
  induction h with
  | nil p => exact ⟨[], .refl _, nofun⟩
  | @cons p p' rest d steps hstep hrun ih =>
    have hadvances := advances_of_step hstep
    obtain ⟨removed, hperm, hremoved⟩ := hadvances.taken
    obtain ⟨taken, hperm', htaken⟩ := ih
    refine ⟨removed.map (fun e => (p.known, e)) ++ taken, ?_, fun t ht => ?_⟩
    · calc ((removed.map fun e => (p.known, e)) ++ taken).map Prod.snd ++ rest.equations
          = removed ++ (taken.map Prod.snd ++ rest.equations) := by simp [Function.comp_def]
        _ |>.Perm (removed ++ p'.equations) := hperm'.append_left removed
        _ |>.Perm p.equations := hperm
    · rcases List.mem_append.mp ht with ht | ht
      · obtain ⟨e, he, rfl⟩ := List.mem_map.mp ht
        exact ⟨⟨[], d, steps, p, rfl, .nil p, rfl, hremoved e he⟩,
          (hadvances.solved e (hremoved e he)).of_run hrun⟩
      · obtain ⟨⟨front, d', back, p₁, rfl, hfront, hknown, hmem⟩, hsolved⟩ := htaken t ht
        exact ⟨⟨d :: front, d', back, p₁, rfl, .cons hstep hfront, hknown, hmem⟩, hsolved⟩

/-- **What is returned for a block accounts for all of it**: the constants are kept, no name gets a
second value, each name that is found is listed by one step, and every equation that is not left
over is solved up to the margin by the values that are returned. -/
theorem accounted_of_solve {text : String} {context : Context α}
    (h : solve text context s = .ok (steps, rest)) :
    Accounted s ⟨split text, context⟩ steps rest := by
  have hrun : Run s ⟨split text, context⟩ steps rest := run_eq_ok h
  exact
    { constants := hrun.lookup?_eq
      once := fun _ _ hmiddle hback => by
        refine ⟨fun _ _ hv => hmiddle.lookup?_eq hv, fun d hd name hname => ?_⟩
        rcases List.mem_append.mp hd with hd | hd
        · exact hmiddle.unknown d hd name hname
        · have hnot := hback.unknown d hd name hname
          rw [Bool.eq_false_iff] at hnot ⊢
          exact fun hknown => hnot (hmiddle.contains hknown)
      listed := hrun.existsUnique_names
      solved := hrun.exists_taken }

/-- A subsystem, and a line that occurs twice. -/
def repeated : String := "x + y = c\nx - y = 4\nz = 2*x\nz = 2*x"

/-- The unknowns of the subsystem are looked for close to where they are. -/
def Settings.nearby : Settings Float :=
  { Settings.usual with declared := [("x", ⟨6.5, unbounded⟩), ("y", ⟨2.5, unbounded⟩)] }

/-- Both kinds of steps are made. The second of the two lines is left over. -/
theorem accounted_repeated :
    ∃ steps rest, solve repeated [("c", 9)] .nearby = .ok (steps, rest) ∧
      steps = [.subsystem ["x", "y"] ["x + y = c", "x - y = 4"], .single "z" "z = 2*x"] ∧
      rest.equations = ["z = 2*x"] ∧
      Accounted .nearby ⟨split repeated, [("c", 9)]⟩ steps rest := by
  have hdone : (solve repeated [("c", 9)] .nearby).toOption.map
      (fun r => (r.1, r.2.equations)) = some
        ([.subsystem ["x", "y"] ["x + y = c", "x - y = 4"], .single "z" "z = 2*x"],
          ["z = 2*x"]) := by decide +kernel
  cases hsolve : solve repeated [("c", 9)] .nearby with
  | error e =>
    rw [hsolve] at hdone
    cases hdone
  | ok r =>
    rw [hsolve] at hdone
    obtain ⟨hsteps, hleft⟩ := Prod.mk.inj (Option.some.inj hdone)
    exact ⟨r.1, r.2, rfl, hsteps, hleft, accounted_of_solve hsolve⟩

end Pool

end FluxBalance
