import FluxBalance.Equation.Expression
import FluxBalance.Proofs.Equation.Substitution
import Mathlib.Data.List.Find

/-!
# Values depend on the unknowns only

The value of an expression is determined by the values of the names that occur in it, and what a
context answers after some values have been set is determined by these values.

## Main definitions and results

* `Expression.evaluate_congr`: an equation has one value wherever its unknowns have the same values;
* `lookup?_set`, `lookup?_foldl_set`: what a context answers after values have been set.
-/

namespace FluxBalance

open Equation

namespace Equation.Expr

variable {V : Type}

theorem occurrences_map {κ ι : Type} (f : κ → ι) :
    ∀ e : Expr κ, (e.map f).occurrences = e.occurrences
  | const _ | var _ | unknown _ => rfl
  | apply _ a => occurrences_map f a
  | add a b | mul a b | pow a b | apply₂ _ a b | applied a b => by
    simp only [map, occurrences, occurrences_map f a, occurrences_map f b]

variable [Arithmetic V] {p q : String → Option V}

/-- At points that agree on the names of an expression it has the same value. -/
theorem fraction_congr :
    ∀ {e : Expr (Literal V)} {inside : Bool}, NamesIn (fun n => p n = q n) e →
      e.fraction p inside = e.fraction q inside
  | const _, _, _ | unknown _, _, _ => rfl
  | var n, _, h => by
    unfold fraction
    rw [namesIn_var.mp h]
  | add a b, _, h => by
    obtain ⟨ha, hb⟩ := namesIn_add.mp h
    unfold fraction
    rw [fraction_congr ha, fraction_congr hb]
  | mul a b, _, h => by
    obtain ⟨ha, hb⟩ := namesIn_mul.mp h
    unfold fraction
    rw [fraction_congr ha, fraction_congr hb]
  | pow a b, _, h => by
    obtain ⟨ha, hb⟩ := namesIn_pow.mp h
    unfold fraction
    rw [fraction_congr ha, fraction_congr hb]
  | apply _ a, _, h => by
    unfold fraction
    rw [fraction_congr (namesIn_apply.mp h)]
  | apply₂ _ a b, _, h => by
    obtain ⟨ha, hb⟩ := namesIn_apply₂.mp h
    unfold fraction
    rw [fraction_congr ha, fraction_congr hb]
  | applied f a, inside, h => by
    unfold fraction
    exact fraction_congr (namesIn_applied.mp h).1

end Equation.Expr

variable {α : Type} [Evaluable α]

/-- **The value of an equation depends on the values of its unknowns only.** -/
theorem Expression.evaluate_congr {text : String} {context : Context α} {e : Expression α}
    (he : Expression.ofText text context = .ok e) {f g : String → Option α}
    (h : ∀ n ∈ e.vars, f n = g n) : e.evaluate f = e.evaluate g := by
  obtain ⟨-, r, -, -, rfl⟩ := Expression.ofText_eq_ok he
  have hmissing : (r.vars.find? fun n => (f n).isNone) = r.vars.find? fun n => (g n).isNone :=
    List.find?_congr fun n hn => by rw [h n hn]
  have hvalue : (r.prepare.evaluatePrepared fun n => (f n).map Evaluable.toValue) =
      r.prepare.evaluatePrepared fun n => (g n).map Evaluable.toValue := by
    unfold Expr.evaluatePrepared
    rw [Expr.fraction_congr]
    intro n hn
    rw [Expr.prepare, Expr.occurrences_map] at hn
    rw [h n (Expr.mem_vars.mpr hn)]
  unfold Expression.evaluate
  rw [hmissing, hvalue]

/-! ### Values set in a context -/

namespace Context

omit [Evaluable α] in
theorem lookup?_eq_none_iff {context : Context α} {name : String} :
    context.lookup? name = none ↔ name ∉ context.map Prod.fst := by
  rw [lookup?, Option.map_eq_none_iff, List.find?_eq_none, List.mem_map]
  constructor
  · rintro h ⟨p, hp, rfl⟩
    exact h p hp (by simp)
  · rintro h p hp hname
    exact h ⟨p, hp, by simpa using hname⟩

omit [Evaluable α] in
/-- The value of a name in a table of values. -/
theorem find?_map_of_mem {β : Type} {names : List String} {f : String → β} {name : String}
    (h : name ∈ names) :
    (names.map fun n => (n, f n)).find? (fun p => p.1 == name) = some (name, f name) := by
  induction names with
  | nil => cases h
  | cons n names ih =>
    by_cases hn : n = name
    · simp [hn]
    · have hmem : name ∈ names := (List.mem_cons.mp h).resolve_left (Ne.symm hn)
      simpa [hn] using ih hmem

omit [Evaluable α] in
theorem lookup?_set (context : Context α) (name m : String) (value : α) :
    (context.set m value).lookup? name =
      if m = name then some value else context.lookup? name := by
  unfold set
  -- A name that has a value already keeps its place; another one is put at the end.
  split
  · rename_i hmem
    have hkeys : ((fun p : String × α => p.1 == name) ∘
        fun p => if p.1 == m then (m, value) else p) = fun p => p.1 == name := by
      funext p
      rw [Function.comp_apply]
      by_cases hp : p.1 = m <;> simp [hp]
    rw [lookup?, List.find?_map, hkeys, lookup?]
    cases hfind : context.find? fun p => p.1 == name with
    | none =>
      have hname : m ≠ name := by
        rintro rfl
        rw [contains, ← List.isSome_find?, hfind] at hmem
        cases hmem
      rw [if_neg hname]
      rfl
    | some p =>
      obtain rfl : p.1 = name := by simpa using List.find?_some hfind
      by_cases hp : m = p.1
      · simp [hp]
      · simp [hp, Ne.symm hp]
  · rename_i hnot
    rw [lookup?, List.find?_append, lookup?]
    by_cases hname : m = name
    · subst hname
      have hnone : (context.find? fun p => p.1 == m) = none := by
        rwa [contains, ← List.isSome_find?, Option.not_isSome_iff_eq_none] at hnot
      simp [hnone]
    · simp [hname]

omit [Evaluable α] in
/-- After values of different names have been set, these names have their values and no other name
has changed. -/
theorem lookup?_foldl_set {name : String} :
    ∀ {found : List (String × α)} {context : Context α}, (found.map Prod.fst).Nodup →
      (found.foldl (fun c v => c.set v.1 v.2) context).lookup? name =
        (lookup? found name).or (context.lookup? name)
  | [], _, _ => rfl
  | (m, value) :: found, context, h => by
    obtain ⟨hm, hfound⟩ := List.nodup_cons.mp h
    rw [List.foldl_cons, lookup?_foldl_set hfound, lookup?_set]
    by_cases hname : m = name
    · subst hname
      rw [lookup?_eq_none_iff.mpr hm]
      simp [lookup?]
    · have hrest : lookup? ((m, value) :: found) name = lookup? found name := by
        rw [lookup?, List.find?_cons_of_neg (by simpa using hname), lookup?]
      rw [if_neg hname, hrest]

end Context

end FluxBalance
