import FluxBalance.Constraint.Pool
import FluxBalance.Proofs.Constraint.Builder

/-!
# The steps of a pool

A step of a pool is opened at its parts: the single equation or the subsystem that is solved, or
why there is none. Every step takes an equation out of the pool, so as many steps as equations are
enough, and what is left over in the end admits no further step.

## Main definitions and results

* `step_eq_ok`: a `step` is one of `solveSingle` or of `solveSubsystem`, or there is none;
* `length_lt_of_gather`: what `gather` has met if the builder is not constrained in the end;
* `stuck_of_run`: what a `run` leaves over admits no further step.
-/

namespace FluxBalance

open Equation

variable {α : Type} [Evaluable α]

namespace Pool

/-! ### Single equations -/

section

variable {s : Settings α} {known : Context α} {before after : List String}

/-- If no single equation is solved, each has been looked at and none has one unknown. -/
theorem solveSingle_eq_none :
    ∀ {before after : List String}, solveSingle s known before after = .ok none →
      ∀ e ∈ after, ∃ names, freeVariables e known = .ok names ∧ names.length ≠ 1
  | _, [], _ => by simp
  | before, e :: after, h => by
    obtain ⟨names, hnames, h⟩ := except_bind_eq_ok.mp h
    split at h
    · obtain ⟨found, -, h⟩ := except_bind_eq_ok.mp h
      cases h
    · rename_i hmany
      refine List.forall_mem_cons.mpr ⟨⟨names, hnames, fun hone => ?_⟩, solveSingle_eq_none h⟩
      obtain ⟨name, rfl⟩ := List.length_eq_one_iff.mp hone
      exact hmany name rfl

/-- A single equation that is solved is taken out of the list. -/
theorem solveSingle_eq_some {d : Step} {p' : Pending α} :
    ∀ {before after : List String}, solveSingle s known before after = .ok (some (d, p')) →
      ∃ front e rest name found value, after = front ++ e :: rest ∧
        freeVariables e known = .ok [name] ∧
        solveEquation e known (s.searchFor name) s.margin s.limit = .ok (found, value) ∧
        d = .single found e ∧
        p' = ⟨before.reverse ++ (front ++ rest), known.set found value⟩
  | _, [], h => by cases h
  | before, e :: after, h => by
    obtain ⟨names, hnames, h⟩ := except_bind_eq_ok.mp h
    split at h
    · rename_i name
      obtain ⟨⟨found, value⟩, hfound, h⟩ := except_bind_eq_ok.mp h
      cases h
      exact ⟨[], e, after, name, found, value, rfl, hnames, hfound, rfl, rfl⟩
    · obtain ⟨front, e', rest, name, found, value, rfl, hnames', hfound, rfl, rfl⟩ :=
        solveSingle_eq_some h
      refine ⟨e :: front, e', rest, name, found, value, rfl, hnames', hfound, rfl, ?_⟩
      simp

end

/-! ### Gathering -/

/-- A builder that is offered equations keeps its own and takes some of those offered, in their
order. -/
theorem gather_eq_ok :
    ∀ {texts : List String} {b b' : SystemBuilder α}, gather b texts = .ok b' →
      ∃ taken es, taken.Sublist texts ∧
        List.Forall₂ (fun text e => Expression.ofText text b.context = .ok e) taken es ∧
        b' = ⟨b.context, b.equations ++ es⟩
  | [], b, b', h => by
    cases h
    exact ⟨[], [], .slnil, .nil, by rw [List.append_nil]⟩
  | text :: texts, b, b', h => by
    obtain ⟨⟨status, b₁⟩, htry, h⟩ := except_bind_eq_ok.mp h
    have hrest : b₁ = b' ∨ gather b₁ texts = .ok b' := by
      dsimp only at h
      split at h
      · exact .inl (Except.ok.inj h)
      · exact .inr h
    rcases SystemBuilder.tryConstrain_eq_ok htry with ⟨-, rfl, -⟩ | ⟨e, he, rfl, -, -⟩
    · rcases hrest with rfl | hrest
      · exact ⟨[], [], List.nil_sublist _, .nil, by rw [List.append_nil]⟩
      · obtain ⟨taken, es, hsub, hread, rfl⟩ := gather_eq_ok hrest
        exact ⟨taken, es, hsub.cons text, hread, rfl⟩
    · rcases hrest with rfl | hrest
      · exact ⟨[text], [e], (List.nil_sublist _).cons_cons text, .cons he .nil, rfl⟩
      · obtain ⟨taken, es, hsub, hread, rfl⟩ := gather_eq_ok hrest
        refine ⟨text :: taken, e :: es, hsub.cons_cons text, .cons he hread, ?_⟩
        rw [List.append_assoc, List.singleton_append]

/-- **A builder with fewer `equations` than `unknowns` that is not constrained in the end has taken
everything.** At each point on the way it had fewer equations than unknowns. -/
theorem length_lt_of_gather :
    ∀ {texts : List String} {b b' : SystemBuilder α}, gather b texts = .ok b' →
      (∀ text ∈ texts, ∀ cause, Expression.ofText text b.context ≠ .error (.expression cause)) →
      b.equations.length < b.unknowns.length → b'.status ≠ .constrained →
      ∃ es, List.Forall₂ (fun text e => Expression.ofText text b.context = .ok e) texts es ∧
        ∀ k, (b.equations ++ es.take k).length <
          (SystemBuilder.unknownsOf (b.equations ++ es.take k)).length
  | [], b, b', h, _, hopen, _ => by
    refine ⟨[], .nil, fun k => ?_⟩
    rw [List.take_nil, List.append_nil]
    exact hopen
  | text :: texts, b, b', h, hreadable, hopen, hend => by
    obtain ⟨hhead, htail⟩ := List.forall_mem_cons.mp hreadable
    obtain ⟨⟨status, b₁⟩, htry, h⟩ := except_bind_eq_ok.mp h
    rcases SystemBuilder.tryConstrain_eq_ok htry with
      ⟨-, -, ⟨cause, hcause⟩ | ⟨e, he, hmany⟩⟩ | ⟨e, he, rfl, rfl, hfew⟩
    · exact absurd hcause (hhead cause)
    · -- One more equation makes at most as many equations as unknowns.
      have hle : b.unknowns.length ≤ (SystemBuilder.unknownsOf (b.equations ++ [e])).length :=
        SystemBuilder.length_unknownsOf_le (List.subset_append_left _ _)
      omega
    · -- The builder is not constrained yet, so the equation leaves fewer equations than unknowns.
      have hne : (⟨b.context, b.equations ++ [e]⟩ : SystemBuilder α).status ≠ .constrained := by
        intro hstatus
        dsimp only at h
        rw [if_pos hstatus] at h
        cases h
        exact hend hstatus
      dsimp only at h
      rw [if_neg hne] at h
      have hopen₁ : (b.equations ++ [e]).length <
          (SystemBuilder.unknownsOf (b.equations ++ [e])).length := by
        rw [ne_eq, SystemBuilder.status_eq_constrained_iff] at hne
        rw [List.length_append, List.length_singleton] at hne ⊢
        exact lt_of_le_of_ne hfew hne
      obtain ⟨es, hread, hes⟩ := length_lt_of_gather h htail hopen₁ hend
      refine ⟨e :: es, .cons he hread, fun k => ?_⟩
      cases k with
      | zero =>
        rw [List.take_zero, List.append_nil]
        exact hopen
      | succ k => simpa [List.append_assoc] using hes k

/-- A builder that is constrained stays so as long as no equation with two unknowns or more is
offered to it. -/
theorem status_of_gather :
    ∀ {texts : List String} {b b' : SystemBuilder α}, gather b texts = .ok b' →
      (∀ text ∈ texts, ∀ e, Expression.ofText text b.context = .ok e → e.vars.length ≤ 1) →
      b.status = .constrained → b'.status = .constrained
  | [], b, b', h, _, hb => by
    cases h
    exact hb
  | text :: texts, b, b', h, hfew, hb => by
    obtain ⟨hhead, htail⟩ := List.forall_mem_cons.mp hfew
    obtain ⟨⟨status, b₁⟩, htry, hrest⟩ := except_bind_eq_ok.mp h
    dsimp only at hrest
    rcases SystemBuilder.tryConstrain_eq_ok htry with ⟨rfl, rfl, -⟩ | ⟨e, he, rfl, rfl, hle⟩
    · rw [if_neg (by decide)] at hrest
      exact status_of_gather hrest htail hb
    · -- An equation that is taken brings the one unknown that it has.
      have hstatus : (⟨b.context, b.equations ++ [e]⟩ : SystemBuilder α).status = .constrained := by
        have hone := hhead e he
        have hadds := SystemBuilder.length_unknownsOf_append_le b.equations e
        rw [SystemBuilder.status_eq_constrained_iff, SystemBuilder.unknowns] at hb ⊢
        dsimp only
        rw [List.length_append, List.length_singleton]
        omega
      rw [if_pos hstatus] at hrest
      cases hrest
      exact hstatus

/-! ### Subsystems -/

section

variable {s : Settings α} {p p' : Pending α}

/-- If no subsystem is solved, every seed has been tried, and what was gathered around it is not
constrained. -/
theorem solveSubsystem_eq_none :
    ∀ {seeds : List (Nat × String)}, solveSubsystem s p seeds = .ok none →
      ∀ q ∈ seeds, ∃ b b', SystemBuilder.new q.2 p.known = .ok b ∧
        gather b (p.equations.eraseIdx q.1) = .ok b' ∧ b'.status ≠ .constrained
  | [], _ => by simp
  | (i, seed) :: seeds, h => by
    obtain ⟨b, hb, h⟩ := except_bind_eq_ok.mp h
    obtain ⟨b', hb', h⟩ := except_bind_eq_ok.mp h
    split at h
    · rename_i hstatus
      exact List.forall_mem_cons.mpr ⟨⟨b, b', hb, hb', hstatus⟩, solveSubsystem_eq_none h⟩
    · obtain ⟨system, -, h⟩ := except_bind_eq_ok.mp h
      obtain ⟨found, -, h⟩ := except_bind_eq_ok.mp h
      cases h

/-- A subsystem that is solved has been gathered around a seed until it was constrained. -/
theorem solveSubsystem_eq_some {d : Step} :
    ∀ {seeds : List (Nat × String)}, solveSubsystem s p seeds = .ok (some (d, p')) →
      ∃ q ∈ seeds, ∃ b b' system found, SystemBuilder.new q.2 p.known = .ok b ∧
        gather b (p.equations.eraseIdx q.1) = .ok b' ∧ b'.build s.bounds = .ok system ∧
        (specifyAll s system).solve s.margin s.limit = .ok found ∧
        d = .subsystem (specifyAll s system).unknowns b'.texts ∧
        p' = ⟨p.equations.filter fun e => !b'.texts.contains e,
          found.foldl (fun c v => c.set v.1 v.2) p.known⟩
  | [], h => by cases h
  | (i, seed) :: seeds, h => by
    obtain ⟨b, hb, h⟩ := except_bind_eq_ok.mp h
    obtain ⟨b', hb', h⟩ := except_bind_eq_ok.mp h
    split at h
    · obtain ⟨q, hq, h⟩ := solveSubsystem_eq_some h
      exact ⟨q, List.mem_cons_of_mem _ hq, h⟩
    · obtain ⟨system, hsystem, h⟩ := except_bind_eq_ok.mp h
      obtain ⟨found, hfound, h⟩ := except_bind_eq_ok.mp h
      cases h
      exact ⟨(i, seed), List.mem_cons_self, b, b', system, found, hb, hb', hsystem, hfound, rfl,
        rfl⟩

/-! ### One step -/

/-- The equations of a pool, each with its position. -/
theorem mem_seeds {equations : List String} {q : Nat × String} :
    q ∈ equations.mapIdx (fun i e => (i, e)) ↔ equations[q.1]? = some q.2 := by
  rw [List.mem_mapIdx, List.getElem?_eq_some_iff]
  constructor
  · rintro ⟨i, hi, rfl⟩
    exact ⟨hi, rfl⟩
  · rintro ⟨hi, he⟩
    exact ⟨q.1, hi, Prod.ext rfl he⟩

/-- A subsystem is looked for only if no single equation can be solved. -/
theorem step_eq_ok {o : Option (Step × Pending α)} (h : step s p = .ok o) :
    (∃ done, o = some done ∧ solveSingle s p.known [] p.equations = .ok (some done)) ∨
      solveSingle s p.known [] p.equations = .ok none ∧
        solveSubsystem s p (p.equations.mapIdx fun i e => (i, e)) = .ok o := by
  obtain ⟨single, hsingle, h⟩ := except_bind_eq_ok.mp h
  cases single with
  | some done =>
    cases h
    exact .inl ⟨done, rfl, hsingle⟩
  | none => exact .inr ⟨hsingle, h⟩

/-- Every step takes at least one equation out of the pool. -/
theorem length_lt_of_step {d : Step} (h : step s p = .ok (some (d, p'))) :
    p'.equations.length < p.equations.length := by
  rcases step_eq_ok h with ⟨_, ⟨⟩, hsingle⟩ | ⟨-, hsub⟩
  · obtain ⟨front, e, rest, name, found, value, heq, -, -, -, rfl⟩ := solveSingle_eq_some hsingle
    rw [heq]
    simp
  · obtain ⟨q, hq, b, b', system, found, hb, hb', -, -, -, rfl⟩ := solveSubsystem_eq_some hsub
    -- The seed is in the pool, and it is used.
    have hseed : q.2 ∈ p.equations := List.mem_of_getElem? (mem_seeds.mp hq)
    obtain ⟨e, he, rfl⟩ := SystemBuilder.new_eq_ok hb
    obtain ⟨taken, es, -, -, rfl⟩ := gather_eq_ok hb'
    refine List.length_filter_lt_length_iff_exists.mpr ⟨q.2, hseed, ?_⟩
    rw [← Expression.text_of_ofText he]
    simp [SystemBuilder.texts]

/-! ### Whole runs -/

/-- **What a run leaves over admits no further step**, provided that as many steps were allowed as
there were equations. -/
theorem stuck_of_run :
    ∀ {n : Nat} {p rest : Pending α} {steps : List Step}, p.equations.length ≤ n →
      run s n p = .ok (steps, rest) → rest.equations = [] ∨ step s rest = .ok none
  | 0, p, rest, steps, hn, h => by
    cases h
    exact .inl (List.eq_nil_of_length_eq_zero (Nat.le_zero.mp hn))
  | n + 1, p, rest, steps, hn, h => by
    unfold run at h
    split at h
    · rename_i hempty
      cases h
      exact .inl (List.isEmpty_iff.mp hempty)
    obtain ⟨o, ho, h⟩ := except_bind_eq_ok.mp h
    cases o with
    | none =>
      cases h
      exact .inr ho
    | some done =>
      obtain ⟨d, p'⟩ := done
      obtain ⟨⟨steps', rest'⟩, hrun, h⟩ := except_bind_eq_ok.mp h
      cases h
      have hlt := length_lt_of_step ho
      exact stuck_of_run (by omega) hrun

end

end Pool

end FluxBalance
