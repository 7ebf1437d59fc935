import FluxBalance.Constraint.Builder
import FluxBalance.Proofs.Equation.Substitution
import Mathlib.Data.List.Perm.Subperm

/-!
# What a builder counts

The unknowns of a builder are the unknowns of its equations, each counted once. An equation that
is taken adds its unknowns, so the unknowns never become fewer. A builder with fewer equations
than unknowns takes every equation that can be read: one more equation makes at most as many.

## Main definitions and results

* `status_eq_constrained_iff`: a builder is constrained if it has as many equations as unknowns;
* `tryConstrain_eq_ok`: what an attempt makes of a builder, and what it answers.
-/

namespace FluxBalance

open Equation

variable {α : Type} [Evaluable α]

/-! ### The unknowns -/

/-- An equation lists each of its unknowns once. -/
theorem Expression.nodup_vars_of_ofText {text : String} {context : Context α} {e : Expression α}
    (h : Expression.ofText text context = .ok e) : e.vars.Nodup := by
  obtain ⟨_, r, -, -, rfl⟩ := Expression.ofText_eq_ok h
  exact Expr.nodup_foldr_insertName _

namespace SystemBuilder

theorem mem_unknownsOf {es : List (Expression α)} {name : String} :
    name ∈ unknownsOf es ↔ ∃ e ∈ es, name ∈ e.vars := by
  rw [unknownsOf, Expr.mem_foldr_insertName, List.mem_flatMap]

theorem nodup_unknownsOf (es : List (Expression α)) : (unknownsOf es).Nodup :=
  Expr.nodup_foldr_insertName _

/-- The unknowns of a single equation are the variables that it has been read with. -/
theorem length_unknownsOf_singleton {text : String} {context : Context α} {e : Expression α}
    (h : Expression.ofText text context = .ok e) : (unknownsOf [e]).length = e.vars.length := by
  refine ((List.perm_ext_iff_of_nodup (nodup_unknownsOf _)
    (Expression.nodup_vars_of_ofText h)).mpr fun name => ?_).length_eq
  simp [mem_unknownsOf]

/-- More equations have no fewer unknowns. -/
theorem length_unknownsOf_le {es fs : List (Expression α)} (h : es ⊆ fs) :
    (unknownsOf es).length ≤ (unknownsOf fs).length := by
  refine (List.subperm_of_subset (nodup_unknownsOf es) fun name hname => ?_).length_le
  obtain ⟨e, he, hname⟩ := mem_unknownsOf.mp hname
  exact mem_unknownsOf.mpr ⟨e, h he, hname⟩

/-- One more equation adds no more unknowns than it has. -/
theorem length_unknownsOf_append_le (es : List (Expression α)) (e : Expression α) :
    (unknownsOf (es ++ [e])).length ≤ (unknownsOf es).length + e.vars.length := by
  rw [← List.length_append]
  refine (List.subperm_of_subset (nodup_unknownsOf _) fun name hname => ?_).length_le
  obtain ⟨f, hf, hvars⟩ := mem_unknownsOf.mp hname
  rw [List.mem_append]
  rcases List.mem_append.mp hf with hf | hf
  · exact .inl (mem_unknownsOf.mpr ⟨f, hf, hvars⟩)
  · rw [List.mem_singleton.mp hf] at hvars
    exact .inr hvars

/-- A builder is constrained if it has as many `equations` as `unknowns`. -/
theorem status_eq_constrained_iff {b : SystemBuilder α} :
    b.status = .constrained ↔ b.equations.length = b.unknowns.length :=
  ConstraintStatus.ofCounts_eq_constrained

/-! ### Seeds and further equations -/

theorem new_eq_ok {text : String} {context : Context α} {b : SystemBuilder α}
    (h : new text context = .ok b) :
    ∃ e, Expression.ofText text context = .ok e ∧ b = ⟨context, [e]⟩ := by
  unfold new at h
  split at h
  · rename_i e he
    cases h
    exact ⟨e, he, rfl⟩
  · cases h
  · cases h

/-- An attempt is rejected and leaves the builder as it is, or its equation is taken. -/
theorem tryConstrain_eq_ok {b b' : SystemBuilder α} {text : String} {status : ConstraintStatus}
    (h : b.tryConstrain text = .ok (status, b')) :
    (status = .tooMany ∧ b' = b ∧
      ((∃ cause, Expression.ofText text b.context = .error (.expression cause)) ∨
        ∃ e, Expression.ofText text b.context = .ok e ∧
          (unknownsOf (b.equations ++ [e])).length < b.equations.length + 1)) ∨
      ∃ e, Expression.ofText text b.context = .ok e ∧
        b' = ⟨b.context, b.equations ++ [e]⟩ ∧ status = b'.status ∧
        b.equations.length + 1 ≤ (unknownsOf (b.equations ++ [e])).length := by
  unfold tryConstrain at h
  split at h
  · rename_i cause hcause
    cases h
    exact .inl ⟨rfl, rfl, .inl ⟨cause, hcause⟩⟩
  · cases h
  · rename_i e he
    have htooMany : (⟨b.context, b.equations ++ [e]⟩ : SystemBuilder α).status = .tooMany ↔
        (unknownsOf (b.equations ++ [e])).length < b.equations.length + 1 := by
      rw [SystemBuilder.status, ConstraintStatus.ofCounts_eq_tooMany, List.length_append,
        List.length_singleton]
      rfl
    dsimp only at h
    split at h
    · rename_i hmany
      cases h
      exact .inl ⟨rfl, rfl, .inr ⟨e, he, htooMany.mp hmany⟩⟩
    · rename_i hmany
      cases h
      rw [htooMany, not_lt] at hmany
      exact .inr ⟨e, he, rfl, rfl, hmany⟩

/-- A system is made of a builder that is constrained. -/
theorem build_eq_ok {b : SystemBuilder α} {bounds : Newton.Interval α}
    {system : ConstrainedSystem α} (h : b.build bounds = .ok system) :
    b.equations.length = b.unknowns.length ∧
      system = ⟨b.equations, b.unknowns.map fun n => (n, ⟨1, bounds⟩)⟩ := by
  unfold build at h
  split at h
  · rename_i hstatus
    cases h
    exact ⟨status_eq_constrained_iff.mp hstatus, rfl⟩
  · cases h

end SystemBuilder

end FluxBalance
