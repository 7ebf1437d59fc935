import FluxBalance.Equation.Product
import Mathlib.Data.String.Basic

/-!
# Simplification introduces no names

Whatever is put together of expressions in which only certain names occur, in the result only
these names occur: sums, products, powers and exponentials drop names when terms cancel, but they
never make one up. The set of names is arbitrary, so a single statement for each operation serves
for what an expression mentions as well as for what is left after a substitution.

## Main definitions and results

* `NamesIn`: only names of a kind occur in an expression;
* `namesIn_sum`, `namesIn_scale`: sums and multiples introduce no names.
-/

namespace FluxBalance.Equation.Expr

/-! ### Ascending lists of names -/

/-- Putting a name into an ascending list leaves an ascending list. -/
private theorem pairwise_insertName {name : String} :
    ∀ {ns : List String}, ns.Pairwise (· < ·) → (insertName name ns).Pairwise (· < ·)
  | [], _ => List.pairwise_singleton _ _
  | n :: ns, h => by
    obtain ⟨hn, hns⟩ := List.pairwise_cons.mp h
    unfold insertName
    split
    · rename_i hlt
      refine List.pairwise_cons.mpr ⟨fun m hm => ?_, h⟩
      rcases List.mem_cons.mp hm with rfl | hm
      · exact hlt
      · exact hlt.trans (hn m hm)
    split
    · exact h
    · rename_i hlt hne
      refine List.pairwise_cons.mpr ⟨fun m hm => ?_, pairwise_insertName hns⟩
      rcases mem_insertName.mp hm with rfl | hm
      · exact lt_of_le_of_ne (not_lt.mp hlt) (Ne.symm hne)
      · exact hn m hm

/-- Names that have been put in one by one ascend. -/
theorem pairwise_foldr_insertName (ns : List String) :
    (ns.foldr insertName []).Pairwise (· < ·) := by
  induction ns with
  | nil => exact .nil
  | cons n ns ih => exact pairwise_insertName ih

/-- Names that have been put in one by one are each there once. -/
theorem nodup_foldr_insertName (ns : List String) : (ns.foldr insertName []).Nodup :=
  (pairwise_foldr_insertName ns).imp ne_of_lt

/-- Sorting names by `insertName` loses none and adds none. -/
theorem mem_foldr_insertName {name : String} {ns : List String} :
    name ∈ ns.foldr insertName [] ↔ name ∈ ns := by
  induction ns with
  | nil => simp
  | cons n ns ih => rw [List.foldr_cons, mem_insertName, ih, List.mem_cons]

/-! ### Names of some kind -/

/-- Only names of the given kind occur. -/
def NamesIn {κ : Type} (S : String → Prop) (e : Expr κ) : Prop := ∀ n ∈ e.occurrences, S n

section

variable {κ : Type} {S : String → Prop} {a b : Expr κ}

@[simp] theorem namesIn_const (c : κ) : NamesIn S (const c) := List.forall_mem_nil _

@[simp] theorem namesIn_unknown (f : String) : NamesIn S (unknown f : Expr κ) :=
  List.forall_mem_nil _

@[simp] theorem namesIn_var {n : String} : NamesIn S (var n : Expr κ) ↔ S n :=
  List.forall_mem_singleton

@[simp] theorem namesIn_add : NamesIn S (add a b) ↔ NamesIn S a ∧ NamesIn S b :=
  List.forall_mem_append

@[simp] theorem namesIn_mul : NamesIn S (mul a b) ↔ NamesIn S a ∧ NamesIn S b :=
  List.forall_mem_append

@[simp] theorem namesIn_pow : NamesIn S (pow a b) ↔ NamesIn S a ∧ NamesIn S b :=
  List.forall_mem_append

@[simp] theorem namesIn_apply {f : Fn} : NamesIn S (apply f a) ↔ NamesIn S a := Iff.rfl

@[simp] theorem namesIn_apply₂ {f : Fn₂} :
    NamesIn S (apply₂ f a b) ↔ NamesIn S a ∧ NamesIn S b :=
  List.forall_mem_append

@[simp] theorem namesIn_applied : NamesIn S (applied a b) ↔ NamesIn S a ∧ NamesIn S b :=
  List.forall_mem_append

/-! ### Parts -/

theorem namesIn_of_addends : ∀ {e : Expr κ}, NamesIn S e → ∀ p ∈ e.addends, NamesIn S p
  | add a b, h, p, hp => by
    rcases List.mem_append.mp hp with hp | hp
    · exact namesIn_of_addends (namesIn_add.mp h).1 p hp
    · exact namesIn_of_addends (namesIn_add.mp h).2 p hp
  | const _, h, p, hp | var _, h, p, hp | mul .., h, p, hp | pow .., h, p, hp
  | apply .., h, p, hp | apply₂ .., h, p, hp | unknown _, h, p, hp | applied .., h, p, hp => by
    rwa [List.mem_singleton.mp hp]

/-- The factors of a product have no names but its own. -/
theorem namesIn_of_factors : ∀ {e : Expr κ}, NamesIn S e → ∀ p ∈ e.factors, NamesIn S p
  | mul a b, h, p, hp => by
    rcases List.mem_append.mp hp with hp | hp
    · exact namesIn_of_factors (namesIn_mul.mp h).1 p hp
    · exact namesIn_of_factors (namesIn_mul.mp h).2 p hp
  | const _, h, p, hp | var _, h, p, hp | add .., h, p, hp | pow .., h, p, hp
  | apply .., h, p, hp | apply₂ .., h, p, hp | unknown _, h, p, hp | applied .., h, p, hp => by
    rwa [List.mem_singleton.mp hp]

theorem namesIn_pair (ha : NamesIn S a) (hb : NamesIn S b) : ∀ e ∈ [a, b], NamesIn S e :=
  List.forall_mem_cons.mpr ⟨ha, List.forall_mem_singleton.mpr hb⟩

/-- An operation that introduces no names introduces none when it is repeated. -/
theorem namesIn_foldl {op : Expr κ → Expr κ → Expr κ} {es : List (Expr κ)}
    (hop : ∀ {a b}, NamesIn S a → NamesIn S b → NamesIn S (op a b)) (ha : NamesIn S a)
    (h : ∀ e ∈ es, NamesIn S e) : NamesIn S (es.foldl op a) := by
  induction es generalizing a with
  | nil => exact ha
  | cons e es ih =>
    obtain ⟨he, hes⟩ := List.forall_mem_cons.mp h
    exact ih (hop ha he) hes

private theorem namesIn_nestSum {es : List (Expr κ)} (ha : NamesIn S a)
    (h : ∀ e ∈ es, NamesIn S e) : NamesIn S (nestSum a es) := by
  cases es with
  | nil => exact ha
  | cons e es =>
    obtain ⟨he, hes⟩ := List.forall_mem_cons.mp h
    exact namesIn_foldl (fun ha hb => namesIn_add.mpr ⟨ha, hb⟩) he hes

theorem namesIn_nestProduct {es : List (Expr κ)} (ha : NamesIn S a) (h : ∀ e ∈ es, NamesIn S e) :
    NamesIn S (nestProduct a es) := by
  cases es with
  | nil => exact ha
  | cons e es =>
    obtain ⟨he, hes⟩ := List.forall_mem_cons.mp h
    exact namesIn_foldl (fun ha hb => namesIn_mul.mpr ⟨ha, hb⟩) he hes

/-- In a closed expression no names occur. -/
theorem namesIn_of_isClosed (h : a.isClosed = true) : NamesIn S a := by
  have hnil : a.occurrences = [] := List.isEmpty_iff.mp h
  simp [NamesIn, hnil]

end

variable {S : String → Prop} {e : Expr Constant} {es : List (Expr Constant)}

theorem namesIn_of_mem_arrange (h : ∀ e ∈ es, NamesIn S e) : ∀ e ∈ arrange es, NamesIn S e :=
  fun e he => h e ((arrange_perm es).mem_iff.mp he)

/-! ### Sums -/

theorem namesIn_coefficient (h : NamesIn S e) : NamesIn S e.coefficient.2 := by
  have hfactors := namesIn_of_factors h
  unfold coefficient
  split
  · exact namesIn_const _
  · rename_i c rest _ hparts
    rw [hparts] at hfactors
    exact namesIn_nestProduct (namesIn_const _) fun d hd =>
      hfactors d (List.mem_cons_of_mem _ hd)
  · exact h

theorem namesIn_withCoefficient (c : Constant) (h : NamesIn S e) :
    NamesIn S (withCoefficient c e) := by
  unfold withCoefficient
  split
  · exact h
  split
  · exact namesIn_const _
  split
  · exact namesIn_const _
  · refine namesIn_nestProduct (namesIn_const _) fun d hd => ?_
    rcases List.mem_cons.mp hd with rfl | hd
    · exact namesIn_const _
    · exact namesIn_of_factors h d hd

private theorem namesIn_insertTerm {round : Rounding} {c : Constant} (h : NamesIn S e) :
    ∀ {ts : List (Expr Constant × Constant)}, (∀ t ∈ ts, NamesIn S t.1) →
      ∀ t ∈ insertTerm round e c ts, NamesIn S t.1
  | [], _, t, ht => by
    rw [List.mem_singleton.mp ht]
    exact h
  | (d, k) :: ts, hts, t, ht => by
    unfold insertTerm at ht
    have hrest := fun t ht => hts t (List.mem_cons_of_mem (d, k) ht)
    split at ht <;> rcases List.mem_cons.mp ht with rfl | ht
    · exact hts (d, k) List.mem_cons_self
    · exact hrest t ht
    · exact hts (d, k) List.mem_cons_self
    · exact namesIn_insertTerm h hrest t ht

private theorem namesIn_terms_insert {round : Rounding} {t : Terms}
    (ht : ∀ p ∈ t.terms, NamesIn S p.1)
    (h : NamesIn S e) : ∀ p ∈ (t.insert round e).terms, NamesIn S p.1 := by
  unfold Terms.insert
  split
  · exact ht
  · exact namesIn_insertTerm (namesIn_coefficient h) ht

/-- The sum of collected terms has no names but theirs. -/
private theorem namesIn_toExpr {t : Terms} (ht : ∀ p ∈ t.terms, NamesIn S p.1) :
    NamesIn S t.toExpr := by
  have hparts : ∀ d ∈ arrange ((t.terms.filter fun p => !p.2.isZero).map
      fun p => withCoefficient p.2 p.1), NamesIn S d := by
    refine namesIn_of_mem_arrange fun d hd => ?_
    obtain ⟨p, hp, rfl⟩ := List.mem_map.mp hd
    exact namesIn_withCoefficient _ (ht p (List.mem_filter.mp hp).1)
  unfold Terms.toExpr
  split
  · exact namesIn_const _
  dsimp only
  split
  · exact namesIn_nestSum (namesIn_const _) hparts
  · refine namesIn_nestSum (namesIn_const _) fun d hd => ?_
    rcases List.mem_cons.mp hd with rfl | hd
    · exact namesIn_const _
    · exact hparts d hd

/-- **Sums introduce no names.** -/
theorem namesIn_sum {round : Rounding} (h : ∀ e ∈ es, NamesIn S e) : NamesIn S (sum round es) := by
  have key : ∀ (ps : List (Expr Constant)) (t : Terms), (∀ p ∈ ps, NamesIn S p) →
      (∀ p ∈ t.terms, NamesIn S p.1) →
      ∀ p ∈ (ps.foldl (Terms.insert round) t).terms, NamesIn S p.1 := by
    intro ps
    induction ps with
    | nil => exact fun t _ ht => ht
    | cons p ps ih =>
      intro t hps ht
      exact ih _ (fun q hq => hps q (List.mem_cons_of_mem p hq))
        (namesIn_terms_insert ht (hps p List.mem_cons_self))
  refine namesIn_toExpr (key _ _ (fun p hp => ?_) (by simp))
  obtain ⟨e, he, hp⟩ := List.mem_flatMap.mp hp
  exact namesIn_of_addends (h e he) p hp

private theorem namesIn_scaleTerm {round : Rounding} {c : Constant} (h : NamesIn S e) :
    NamesIn S (scaleTerm round c e) := by
  unfold scaleTerm
  split
  · exact namesIn_const _
  dsimp only
  split
  · exact namesIn_const _
  · exact namesIn_withCoefficient _ (namesIn_coefficient h)

/-- **Multiples introduce no names.** -/
theorem namesIn_scale {round : Rounding} {c : Constant} (h : NamesIn S e) :
    NamesIn S (scale round c e) := by
  have haddends := namesIn_of_addends h
  unfold scale
  split
  · rename_i p hp
    rw [hp] at haddends
    exact namesIn_scaleTerm (haddends p List.mem_cons_self)
  · refine namesIn_sum fun d hd => ?_
    obtain ⟨p, hp, rfl⟩ := List.mem_map.mp hd
    exact namesIn_scaleTerm (haddends p hp)

theorem namesIn_negated (h : NamesIn S e) : NamesIn S e.negated := namesIn_scale h

end FluxBalance.Equation.Expr
