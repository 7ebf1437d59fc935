import FluxBalance.Proofs.Equation.Names

/-!
# Products and powers introduce no names

A product is taken apart into its factors, the factors are collected by base and exponent, and
the collection is put together again. In the collection only names of the factors occur, and so
it goes through the mutual recursion of products, powers and exponentials.

## Main definitions and results

* `KeepsNames`: at some depth products, powers and exponentials introduce no names;
* `keepsNames`: they do not at any depth.
-/

namespace FluxBalance.Equation.Expr

variable {S : String → Prop} {e : Expr Constant} {es : List (Expr Constant)}
  {rules : DecimalRules}

/-! ### Collection -/

/-- Only names of the given kind occur in a collection of factors. -/
structure Factors.NamesIn (S : String → Prop) (t : Factors) : Prop where
  numbers : ∀ p ∈ t.numbers, Expr.NamesIn S p.1.2
  powers : ∀ p ∈ t.powers, Expr.NamesIn S p.1.1 ∧ Expr.NamesIn S p.1.2

theorem forall_insertExponent {β : Type} [DecidableEq β] {P : β → Prop} {round : Rounding}
    {key : β} {c : Constant} (hkey : P key) :
    ∀ {l : List (β × Constant)}, (∀ p ∈ l, P p.1) → ∀ p ∈ insertExponent round key c l, P p.1
  | [], _, p, hp => by
    rw [List.mem_singleton.mp hp]
    exact hkey
  | (k, d) :: l, hl, p, hp => by
    obtain ⟨hk, hl⟩ := List.forall_mem_cons.mp hl
    unfold insertExponent at hp
    split at hp <;> rcases List.mem_cons.mp hp with rfl | hp
    · exact hk
    · exact hl p hp
    · exact hk
    · exact forall_insertExponent hkey hl p hp

/-- Base and exponent have no names but those of the power. -/
private theorem namesIn_asPower (h : NamesIn S e) :
    NamesIn S (asPower e).1 ∧ NamesIn S (asPower e).2 := by
  unfold asPower
  split
  · exact namesIn_pow.mp h
  · exact ⟨by simp [euler], namesIn_apply.mp h⟩
  · exact ⟨h, namesIn_const _⟩

private theorem namesIn_factors_insert {t : Factors} (ht : t.NamesIn S) (h : NamesIn S e) :
    (t.insert rules e).NamesIn S := by
  obtain ⟨hbase, hexponent⟩ := namesIn_asPower h
  unfold Factors.insert
  cases hpower : asPower e with
  | mk b x =>
  rw [hpower] at hbase hexponent
  have hkey : Expr.NamesIn S (b, x.coefficient.2).1 ∧ Expr.NamesIn S (b, x.coefficient.2).2 :=
    ⟨hbase, namesIn_coefficient hexponent⟩
  have hpowers : ∀ p ∈ insertExponent rules.round (b, x.coefficient.2) x.coefficient.1 t.powers,
      Expr.NamesIn S p.1.1 ∧ Expr.NamesIn S p.1.2 :=
    forall_insertExponent (P := fun key : Expr Constant × Expr Constant =>
      Expr.NamesIn S key.1 ∧ Expr.NamesIn S key.2) hkey ht.powers
  dsimp only
  split
  · exact ⟨ht.numbers, ht.powers⟩
  · exact ⟨ht.numbers, ht.powers⟩
  · have hk := namesIn_coefficient (namesIn_pow.mp h).2
    split
    · refine ⟨?_, ht.powers⟩
      refine forall_insertExponent (P := fun key : Constant × Expr Constant =>
        Expr.NamesIn S key.2) ?_ ht.numbers
      exact hk
    · exact ⟨ht.numbers, hpowers⟩
  · exact ⟨ht.numbers, hpowers⟩

/-- What is collected of factors has only their names. -/
private theorem namesIn_collected (h : ∀ e ∈ es, NamesIn S e) :
    ((es.flatMap factors).foldl (Factors.insert rules) Factors.empty).NamesIn S := by
  -- The induction is on the factors that are left, for whatever has been collected so far.
  have key : ∀ (ps : List (Expr Constant)) (t : Factors), (∀ p ∈ ps, NamesIn S p) →
      t.NamesIn S → (ps.foldl (Factors.insert rules) t).NamesIn S := by
    intro ps
    induction ps with
    | nil => exact fun t _ ht => ht
    | cons p ps ih =>
      intro t hps ht
      obtain ⟨hp, hps⟩ := List.forall_mem_cons.mp hps
      exact ih _ hps (namesIn_factors_insert ht hp)
  refine key _ _ (fun p hp => ?_) ⟨by simp [Factors.empty], by simp [Factors.empty]⟩
  obtain ⟨e, he, hp⟩ := List.mem_flatMap.mp hp
  exact namesIn_of_factors (h e he) p hp

private theorem namesIn_rootParts (t : Factors) : ∀ p ∈ t.rootParts.2, NamesIn S p := by
  have hroots : ∀ p ∈ t.primes.roots.map fun r =>
      (pow (const (.exact r.2)) (const (.exact r.1)) : Expr Constant), NamesIn S p := by
    intro p hp
    obtain ⟨r, -, rfl⟩ := List.mem_map.mp hp
    simp
  unfold Factors.rootParts
  dsimp only
  split <;> dsimp only <;> split <;> first
    | exact hroots
    | exact List.forall_mem_cons.mpr ⟨by simp, hroots⟩

private theorem namesIn_combineNumbers {ns : List ((Constant × Expr Constant) × Constant)}
    (h : ∀ p ∈ ns, NamesIn S p.1.2) : ∀ p ∈ combineNumbers rules ns, NamesIn S p.2 := by
  intro p hp
  obtain ⟨e, he, rfl⟩ := List.mem_map.mp hp
  obtain ⟨q, hq, rfl⟩ := List.mem_map.mp (List.mem_eraseDups.mp he)
  obtain ⟨⟨⟨b, k⟩, c⟩, hmem, hq⟩ := List.mem_filterMap.mp hq
  dsimp only at hq
  split at hq
  · cases hq
  · cases hq
    exact namesIn_scale (h _ hmem)

private theorem namesIn_assemble {c : Constant} (h : ∀ e ∈ es, NamesIn S e) :
    NamesIn S (assemble rules c es) := by
  have hparts := namesIn_of_mem_arrange h
  unfold assemble
  split
  · exact namesIn_const _
  split
  · exact namesIn_const _
  dsimp only
  split
  · exact namesIn_const _
  · rename_i single heq
    rw [heq] at hparts
    have hsingle := hparts single List.mem_cons_self
    split
    · unfold assemble.scaleOne
      split
      · exact hsingle
      · exact namesIn_scale hsingle
    · exact namesIn_withCoefficient _ hsingle
  · refine namesIn_nestProduct (namesIn_const _) ?_
    split
    · exact hparts
    · exact List.forall_mem_cons.mpr ⟨namesIn_const _, hparts⟩

/-! ### Powers of numbers and of sums -/

private theorem namesIn_rootOf {c : Constant} {b x : Rat} : NamesIn S (rootOf rules c b x) :=
  namesIn_assemble (namesIn_rootParts _)

private theorem namesIn_negativePower {x y : Rat} : NamesIn S (negativePower rules x y) := by
  unfold negativePower
  dsimp only
  split
  · exact namesIn_rootOf
  · refine namesIn_sum (List.forall_mem_cons.mpr ⟨namesIn_const _, ?_⟩)
    refine List.forall_mem_cons.mpr ⟨namesIn_assemble ?_, by simp⟩
    exact List.forall_mem_cons.mpr ⟨by simp, by simp⟩

private theorem namesIn_numberPower {c d : Constant} : NamesIn S (numberPower rules c d) := by
  unfold numberPower finitePower zeroPower decimalPower
  repeat' split
  all_goals first
    | exact namesIn_const _
    | exact namesIn_rootOf
    | exact namesIn_negativePower

private theorem namesIn_numberBase {c : Constant} (h : NamesIn S e) :
    NamesIn S (numberBase c e) := by
  have hrest := namesIn_coefficient h
  unfold numberBase
  split
  · split
    · repeat' split
      all_goals simp [h]
    · cases hparts : e.coefficient with
      | mk k rest =>
        rw [hparts] at hrest
        dsimp only
        split
        all_goals exact namesIn_pow.mpr ⟨namesIn_const _, hrest⟩
  · exact namesIn_pow.mpr ⟨namesIn_const _, h⟩

private theorem namesIn_dividedBy {big : Constant} (h : NamesIn S e) :
    NamesIn S (dividedBy rules big e) := by
  refine namesIn_sum fun d hd => ?_
  obtain ⟨p, hp, rfl⟩ := List.mem_map.mp hd
  exact namesIn_withCoefficient _ (namesIn_coefficient (namesIn_of_addends h p hp))

/-! ### Products, powers and exponentials -/

private theorem namesIn_splitRoot (h : ∀ e ∈ es, NamesIn S e) :
    (∀ e ∈ (splitRoot es).1, NamesIn S e) ∧ ∀ e ∈ (splitRoot es).2, NamesIn S e := by
  have hout : ∀ e ∈ es.filter isNonneg, NamesIn S e := fun e he => h e (List.mem_filter.mp he).1
  have hstay : ∀ e ∈ es.filter fun f => !f.isNonneg, NamesIn S e := fun e he =>
    h e (List.mem_filter.mp he).1
  unfold splitRoot
  dsimp only
  split
  · rename_i c rest hrest
    rw [hrest] at hstay
    split
    · exact ⟨hout, hrest ▸ hstay⟩
    · exact ⟨List.forall_mem_cons.mpr ⟨namesIn_const _, hout⟩,
        List.forall_mem_cons.mpr ⟨namesIn_const _, (List.forall_mem_cons.mp hstay).2⟩⟩
  · exact ⟨hout, hstay⟩

private theorem namesIn_logFactor? {a : Expr Constant} {rest : List (Expr Constant)}
    (h : ∀ e ∈ es, NamesIn S e) (hlog : logFactor? es = some (a, rest)) :
    NamesIn S a ∧ ∀ e ∈ rest, NamesIn S e := by
  unfold logFactor? at hlog
  dsimp only at hlog
  split at hlog
  · rename_i hone
    split at hlog
    · cases hlog
      have hmem : apply .log a ∈ es := (List.mem_filter.mp (hone ▸ List.mem_cons_self)).1
      exact ⟨namesIn_apply.mp (h _ hmem), fun e he => h e (List.mem_filter.mp he).1⟩
    · cases hlog
  · cases hlog

/-- At a depth, products, powers and exponentials introduce no names. -/
structure KeepsNames (S : String → Prop) (rules : DecimalRules) (n : Nat) : Prop where
  product : ∀ {es : List (Expr Constant)}, (∀ e ∈ es, NamesIn S e) → NamesIn S (productN rules n es)
  power : ∀ {b e : Expr Constant}, NamesIn S b → NamesIn S e → NamesIn S (powerN rules n b e)
  exp : ∀ {u : Expr Constant}, NamesIn S u → NamesIn S (expN rules n u)

/-- Products with more fuel add no names if those with less do not. -/
theorem KeepsNames.productN_succ {n : Nat} (hn : KeepsNames S rules n)
    (h : ∀ e ∈ es, NamesIn S e) : NamesIn S (productN rules (n + 1) es) := by
  obtain ⟨hnumbers, hpowers⟩ :
      ((es.flatMap factors).foldl (Factors.insert rules) Factors.empty).NamesIn S :=
    namesIn_collected h
  unfold productN
  dsimp only
  -- The parts: roots of numbers, powers of numbers, and powers of what is not a number.
  have hall : ∀ e ∈ ((es.flatMap factors).foldl (Factors.insert rules) Factors.empty).rootParts.2 ++
      (combineNumbers rules ((es.flatMap factors).foldl (Factors.insert rules)
        Factors.empty).numbers).map (fun p => powerN rules n (const p.1) p.2) ++
      (((((es.flatMap factors).foldl (Factors.insert rules) Factors.empty).powers.filter
        fun p => !p.2.isZero).map fun p => (p.1.1, scale rules.round p.2 p.1.2)).map
          fun p => powerN rules n p.1 p.2), NamesIn S e := by
    refine List.forall_mem_append.mpr ⟨List.forall_mem_append.mpr ⟨namesIn_rootParts _, ?_⟩, ?_⟩
    · intro e he
      obtain ⟨p, hp, rfl⟩ := List.mem_map.mp he
      exact hn.power (namesIn_const _) (namesIn_combineNumbers hnumbers p hp)
    · intro e he
      obtain ⟨p, hp, rfl⟩ := List.mem_map.mp he
      obtain ⟨q, hq, rfl⟩ := List.mem_map.mp hp
      obtain ⟨hbase, hkind⟩ := hpowers q (List.mem_filter.mp hq).1
      exact hn.power hbase (namesIn_scale hkind)
  split
  · exact namesIn_assemble hall
  · exact hn.product (List.forall_mem_cons.mpr ⟨namesIn_const _, hall⟩)

/-- Powers with more fuel add no names if those with less do not. -/
theorem KeepsNames.powerN_succ {n : Nat} (hn : KeepsNames S rules n) {b e : Expr Constant}
    (hb : NamesIn S b) (he : NamesIn S e) : NamesIn S (powerN rules (n + 1) b e) := by
  have hpow : NamesIn S (pow b e) := namesIn_pow.mpr ⟨hb, he⟩
  have hpowers : ∀ {fs : List (Expr Constant)}, (∀ f ∈ fs, NamesIn S f) →
      ∀ d ∈ fs.map fun f => powerN rules n f e, NamesIn S d := by
    intro fs hfs d hd
    obtain ⟨f, hf, rfl⟩ := List.mem_map.mp hd
    exact hn.power (hfs f hf) he
  -- First the exponents and bases with a known result, then the kinds of bases.
  unfold powerN
  split
  · exact namesIn_const _
  split
  · exact hb
  split
  · exact namesIn_const _
  split
  · split <;> exact namesIn_const _
  split
  · exact hn.exp he
  split
  · exact namesIn_numberPower
  · exact namesIn_numberBase he
  · obtain ⟨hbase, hexponent⟩ := namesIn_pow.mp hb
    split
    · exact hn.power hbase (hn.product (namesIn_pair hexponent he))
    · exact hpow
  · split
    · exact hn.exp (hn.product (namesIn_pair (namesIn_apply.mp hb) he))
    · exact hpow
  · split
    · exact hn.product (hpowers (namesIn_of_factors hb))
    · obtain ⟨hout, hstay⟩ := namesIn_splitRoot (namesIn_of_factors hb)
      dsimp only
      split
      · exact hpow
      · refine hn.product (List.forall_mem_cons.mpr ⟨?_, hpowers hout⟩)
        split
        · exact namesIn_const _
        · exact hn.power (namesIn_nestProduct (namesIn_const _) hstay) he
  · split
    · split
      · exact hpow
      · refine hn.product (namesIn_pair namesIn_numberPower ?_)
        exact namesIn_pow.mpr ⟨namesIn_dividedBy hb, he⟩
    · exact hpow
  · exact hpow

/-- The terms of an exponent that stay in it, and the factors that the others become. -/
private theorem namesIn_separated {ps : List (Expr Constant × Option (Expr Constant))}
    (h : ∀ p ∈ ps, NamesIn S p.1 ∧ ∀ r, p.2 = some r → NamesIn S r) :
    (∀ e ∈ ps.filterMap fun (a, r) =>
      match r with
      | some (apply .exp v) => some v
      | some _ => none
      | none => some a, NamesIn S e) ∧
    ∀ e ∈ ps.filterMap fun (_, r) =>
      match r with
      | some (apply .exp _) | none => none
      | some f => some f, NamesIn S e := by
  constructor
  · intro e he
    obtain ⟨⟨a, r⟩, hp, heq⟩ := List.mem_filterMap.mp he
    obtain ⟨ha, hr⟩ := h _ hp
    dsimp only at heq
    split at heq
    · cases heq
      exact namesIn_apply.mp (hr _ rfl)
    · cases heq
    · cases heq
      exact ha
  · intro e he
    obtain ⟨⟨a, r⟩, hp, heq⟩ := List.mem_filterMap.mp he
    obtain ⟨-, hr⟩ := h _ hp
    dsimp only at heq
    split at heq
    · cases heq
    · cases heq
    · cases heq
      exact hr _ rfl

/-- Exponentials with more fuel add no names if those with less do not. -/
private theorem KeepsNames.expN_succ {n : Nat} (hn : KeepsNames S rules n) {u : Expr Constant}
    (hu : NamesIn S u) : NamesIn S (expN rules (n + 1) u) := by
  have hexp : NamesIn S (apply .exp u) := namesIn_apply.mpr hu
  unfold expN
  split
  · split
    · exact namesIn_const _
    · exact hexp
  · split <;> exact namesIn_const _
  · split <;> exact namesIn_const _
  · exact namesIn_const _
  · exact namesIn_apply.mp hu
  · split
    · rename_i a rest hlog
      obtain ⟨ha, hrest⟩ := namesIn_logFactor? (namesIn_of_factors hu) hlog
      exact hn.power ha (hn.product hrest)
    · exact hexp
  · rename_i a b
    -- A term whose exponential simplifies leaves the exponent and becomes a factor.
    have hparts : ∀ p ∈ (add a b).addends.map fun a =>
        if a = const .one then (a, none) else (a, some (expN rules n a)),
        NamesIn S p.1 ∧ ∀ r, p.2 = some r → NamesIn S r := by
      intro p hp
      obtain ⟨d, hd, rfl⟩ := List.mem_map.mp hp
      have hd := namesIn_of_addends hu d hd
      split
      · exact ⟨hd, by simp⟩
      · refine ⟨hd, fun r hr => ?_⟩
        cases hr
        exact hn.exp hd
    obtain ⟨hkept, hout⟩ := namesIn_separated hparts
    dsimp only
    split
    · exact hexp
    · refine hn.product (List.forall_mem_append.mpr ⟨hout, List.forall_mem_singleton.mpr ?_⟩)
      split
      · exact namesIn_const _
      · exact namesIn_apply.mpr (namesIn_sum hkept)
  · exact hexp

/-- **Products, powers and exponentials introduce no names**, however deep they go. -/
theorem keepsNames : ∀ n, KeepsNames S rules n
  | 0 => by
    refine ⟨fun h => ?_, fun hb he => ?_, fun hu => ?_⟩
    · unfold productN plainProduct
      split
      · exact namesIn_const _
      · exact namesIn_nestProduct (namesIn_const _) h
    · unfold powerN
      exact namesIn_pow.mpr ⟨hb, he⟩
    · unfold expN
      exact namesIn_apply.mpr hu
  | n + 1 =>
    ⟨(keepsNames n).productN_succ, (keepsNames n).powerN_succ, (keepsNames n).expN_succ⟩

theorem namesIn_product (h : ∀ e ∈ es, NamesIn S e) : NamesIn S (product rules es) :=
  (keepsNames _).product h

theorem namesIn_power {b : Expr Constant} (hb : NamesIn S b) (he : NamesIn S e) :
    NamesIn S (power rules b e) :=
  (keepsNames _).power hb he

theorem namesIn_exponentialOf (h : NamesIn S e) : NamesIn S (exponentialOf rules e) :=
  (keepsNames _).exp h

end FluxBalance.Equation.Expr
