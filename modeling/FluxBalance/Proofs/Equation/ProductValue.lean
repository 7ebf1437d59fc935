import FluxBalance.Proofs.Equation.FactorValue
import Mathlib.Algebra.BigOperators.Group.List.Lemmas

/-!
# Products and powers preserve values

What has been collected of a product is put together again: the numbers are multiplied up, numbers
with the same exponent are multiplied before they are raised to it, and whatever is no power of a
number stays a power of its base. Powers of products and of powers are resolved by the laws of
exponents, and a power of a sum may lose the sum's largest coefficient. Over the rationals, with
integer exponents, none of this changes a value; the induction is on the depth that bounds the
calls of products and powers to each other.

## Main definitions and results

* `numberPowers_combineNumbers`: numbers with one exponent may be multiplied first;
* `means_assemble`: `assemble` multiplies what has been collected;
* `KeepsValues`, `keepsValues`: products and powers keep values, at some depth and at every depth.
-/

namespace FluxBalance.Equation.Expr

variable {point : String → Option Rat} {b e : Expr Constant} {es : List (Expr Constant)}
  {c d : Constant}

/-! ### Numbers of a product -/

/-- The exponent of minus one counts up to even numbers. -/
private theorem neg_one_zpow_eq (j : ℤ) :
    (if (j : Rat) - 2 * ((((j : Rat) / 2).floor : ℤ) : Rat) < 1 then
      ((1 : Rat), (j : Rat) - 2 * ((((j : Rat) / 2).floor : ℤ) : Rat))
    else (-1, (j : Rat) - 2 * ((((j : Rat) / 2).floor : ℤ) : Rat) - 1)) = ((-1) ^ j, 0) := by
  rcases Int.even_or_odd' j with ⟨m, rfl | rfl⟩
  · have hfloor : (((2 * m : ℤ) : Rat) / 2).floor = m := by
      rw [Int.cast_mul, Int.cast_ofNat, mul_div_cancel_left₀ _ two_ne_zero, Rat.floor_intCast]
    rw [hfloor, zpow_mul]
    norm_num
  · have hfloor : (((2 * m + 1 : ℤ) : Rat) / 2).floor = m := by
      change ⌊((2 * m + 1 : ℤ) : Rat) / 2⌋ = m
      rw [Int.floor_eq_iff]
      push_cast
      constructor <;> linarith
    rw [hfloor, zpow_add₀ (by norm_num), zpow_mul]
    norm_num

/-- With integer exponents no root is left. -/
private theorem rootParts_eq {t : Factors} {x : Rat} (ht : t.Means point x) :
    t.rootParts = ((-1) ^ t.turns.num * t.primes.value, []) := by
  obtain ⟨j, hj⟩ := ht.turns
  unfold Factors.rootParts
  rw [hj, Rat.num_intCast]
  dsimp only
  rw [neg_one_zpow_eq, Primes.wholePart_eq ht.primes, Primes.roots_eq ht.primes]
  rfl

/-! ### Groups of numbers -/

private theorem nodup_eraseDups {β : Type} [DecidableEq β] : ∀ l : List β, l.eraseDups.Nodup
  | [] => List.nodup_nil
  | a :: l => by
    rw [List.eraseDups_cons, List.nodup_cons]
    refine ⟨fun h => ?_, nodup_eraseDups _⟩
    have hmem := (List.mem_filter.mp (List.mem_eraseDups.mp h)).2
    simp at hmem
termination_by l => l.length
decreasing_by
  exact Nat.lt_succ_of_le (List.length_filter_le _ l)

/-- A product may be formed group by group. -/
private theorem prod_groups {α β : Type} [DecidableEq β] (group : α → β) (f : α → Rat)
    (l : List α) : ((l.map group).eraseDups.map fun k =>
      (l.map fun p => if group p = k then f p else 1).prod).prod = (l.map f).prod := by
  have key : ∀ (ks : List β) (l : List α), ks.Nodup → (∀ p ∈ l, group p ∈ ks) →
      (ks.map fun k => (l.map fun p => if group p = k then f p else 1).prod).prod =
        (l.map f).prod := by
    intro ks l hks
    induction l with
    | nil => simp
    | cons p l ih =>
      intro hl
      obtain ⟨hp, hl⟩ := List.forall_mem_cons.mp hl
      have hsingle : (ks.map fun k => if group p = k then f p else 1).prod = f p := by
        rw [List.prod_map_eq_pow_single (group p) _ fun k hk _ => if_neg (Ne.symm hk), if_pos rfl,
          List.count_eq_one_of_mem hks hp, pow_one]
      simp only [List.map_cons, List.prod_cons]
      rw [List.prod_map_mul, hsingle, ih hl]
  exact key _ _ (nodup_eraseDups _) fun p hp =>
    List.mem_eraseDups.mpr (List.mem_map.mpr ⟨p, hp, rfl⟩)

/-- A power with a number as its base has a value. -/
def NumberPower (p : Constant × Expr Constant) : Prop :=
  p.1.isFinite = true ∧ ∃ k, p.2.Raises p.1.value k

/-- The value of a power of a number. -/
def numberPowerValue (p : Constant × Expr Constant) : Rat :=
  p.1.value ^ (p.2.value fun _ => none).num

/-- A power of a number has an integer power for its value. -/
theorem NumberPower.value_eq {p : Constant × Expr Constant} {k : ℤ}
    (h : p.2.Raises p.1.value k) : numberPowerValue p = p.1.value ^ k := by
  rw [numberPowerValue, h.value_eq, Rat.num_intCast]

/-- The numbers with one exponent, for whatever has been multiplied so far. -/
private theorem foldl_numbers {e : Expr Constant} {k : ℤ}
    (he : ∀ x : Rat, (x = 0 → 0 ≤ k) → e.Raises x k) :
    ∀ {ps : List (Constant × Expr Constant)} {b : Constant}, (∀ p ∈ ps, NumberPower p) →
      b.isFinite = true → (b.value = 0 → 0 ≤ k) →
      NumberPower (ps.foldl (fun b p => if p.2 = e then b.mul rationalRules.round p.1 else b) b,
        e) ∧
      numberPowerValue (ps.foldl
        (fun b p => if p.2 = e then b.mul rationalRules.round p.1 else b) b, e) =
          b.value ^ k * (ps.map fun p => if p.2 = e then numberPowerValue p else 1).prod := by
  intro ps
  induction ps with
  | nil =>
    intro b _ hb hk
    refine ⟨⟨hb, k, he _ hk⟩, ?_⟩
    rw [List.foldl_nil, NumberPower.value_eq (p := (b, e)) (he _ hk), List.map_nil,
      List.prod_nil, mul_one]
  | cons p ps ih =>
    intro b hps hb hk
    obtain ⟨⟨hp, j, hj⟩, hps⟩ := List.forall_mem_cons.mp hps
    rw [List.foldl_cons, List.map_cons, List.prod_cons]
    -- A number with this exponent is multiplied into the base, by the law of exponents.
    by_cases hsame : p.2 = e
    · rw [if_pos hsame, if_pos hsame]
      obtain ⟨hfinite, hvalue⟩ := Constant.mul_finite hb hp
      have hpk : p.2.Raises p.1.value k := by
        obtain ⟨⟨c, hc, hint⟩, -⟩ := he 1 fun h => absurd h one_ne_zero
        obtain ⟨⟨c', hc', hint'⟩, hj⟩ := hj
        obtain rfl : c = c' := const.inj (hc.symm.trans (hsame.symm.trans hc'))
        obtain rfl : k = j := Int.cast_injective (hint.value_eq.symm.trans hint'.value_eq)
        exact ⟨⟨c, hc', hint⟩, hj⟩
      obtain ⟨hpower, hproduct⟩ := ih hps hfinite fun h => by
        rcases mul_eq_zero.mp (hvalue.symm.trans h) with h | h
        · exact hk h
        · exact hpk.2 h
      refine ⟨hpower, ?_⟩
      rw [hproduct, hvalue, NumberPower.value_eq hpk, mul_zpow, mul_assoc]
    · rw [if_neg hsame, if_neg hsame, one_mul]
      exact ih hps hb hk

/-- Numbers with one exponent are multiplied before they are raised to it. -/
private theorem group_numbers {ps : List (Constant × Expr Constant)} (hps : ∀ p ∈ ps, NumberPower p)
    {e : Expr Constant} (he : e ∈ ps.map (·.2)) :
    NumberPower (ps.foldl (fun b p => if p.2 = e then b.mul rationalRules.round p.1 else b) .one,
      e) ∧
    numberPowerValue (ps.foldl (fun b p => if p.2 = e then b.mul rationalRules.round p.1 else b)
      .one, e) = (ps.map fun p => if p.2 = e then numberPowerValue p else 1).prod := by
  obtain ⟨q, hq, rfl⟩ := List.mem_map.mp he
  obtain ⟨-, k, hexponent, -⟩ := hps q hq
  obtain ⟨hpower, hproduct⟩ := foldl_numbers (b := .one) (fun x h => ⟨hexponent, h⟩) hps rfl
    fun h => absurd h one_ne_zero
  refine ⟨hpower, ?_⟩
  rw [hproduct]
  change (1 : Rat) ^ k * _ = _
  rw [one_zpow, one_mul]

/-- An exponent that is a multiple of one is a number. -/
private theorem raises_scale_one {x : Rat} {k : ℤ} (hc : c.IsInt k) (hk : x = 0 → 0 ≤ k) :
    (scale rationalRules.round c (const .one)).Raises x k := by
  refine ⟨⟨_, rfl, ?_⟩, hk⟩
  rw [← mul_one k]
  exact hc.mul Constant.isInt_one

/-- A number of a product as a base with its exponent, unless the exponent is zero. -/
def numberEntry? (p : (Constant × Expr Constant) × Constant) : Option (Constant × Expr Constant) :=
  if p.2.isZero then none else some (p.1.1, scale rationalRules.round p.2 p.1.2)

/-- The numbers of a product are powers, and leaving out those with the exponent zero does not
change the product. -/
private theorem numberPowers_entries {ns : List ((Constant × Expr Constant) × Constant)}
    (h : ∀ p ∈ ns, p.1.1.isFinite = true ∧ p.1.2 = const .one)
    (hexponents : Exponents (fun p => p.1.value) ns) :
    (∀ p ∈ ns.filterMap numberEntry?, NumberPower p) ∧
      ((ns.filterMap numberEntry?).map numberPowerValue).prod =
        exponentsValue (fun p => p.1.value) ns := by
  induction ns with
  | nil => exact ⟨List.forall_mem_nil _, rfl⟩
  | cons p ns ih =>
    obtain ⟨⟨hbase, hkey⟩, h⟩ := List.forall_mem_cons.mp h
    obtain ⟨⟨k, hint, hk⟩, hexponents⟩ := List.forall_mem_cons.mp hexponents
    obtain ⟨hrest, hvalue⟩ := ih h hexponents
    obtain ⟨⟨b, key⟩, c⟩ := p
    dsimp only at hbase hkey hint hk
    subst hkey
    rw [exponentsValue_cons]
    -- A power with the exponent zero is left out, and it is one.
    by_cases hzero : c.isZero = true
    · have hnone : numberEntry? ((b, const .one), c) = none := if_pos hzero
      rw [List.filterMap_cons_none hnone, hvalue,
        (Constant.isZero_iff hint.finite).mp hzero]
      refine ⟨hrest, ?_⟩
      rw [Rat.num_zero, zpow_zero, one_mul]
    · have hsome : numberEntry? ((b, const .one), c) =
          some (b, scale rationalRules.round c (const .one)) := if_neg hzero
      have hraises := raises_scale_one hint hk
      rw [List.filterMap_cons_some hsome]
      refine ⟨List.forall_mem_cons.mpr ⟨⟨hbase, k, hraises⟩, hrest⟩, ?_⟩
      rw [List.map_cons, List.prod_cons, hvalue, NumberPower.value_eq hraises]
      dsimp only
      rw [hint.value_eq, Rat.num_intCast]

/-- **The numbers of a product may be combined.** -/
theorem numberPowers_combineNumbers {ns : List ((Constant × Expr Constant) × Constant)}
    (h : ∀ p ∈ ns, p.1.1.isFinite = true ∧ p.1.2 = const .one)
    (hexponents : Exponents (fun p => p.1.value) ns) :
    (∀ p ∈ combineNumbers rationalRules ns, NumberPower p) ∧
      ((combineNumbers rationalRules ns).map numberPowerValue).prod =
        exponentsValue (fun p => p.1.value) ns := by
  obtain ⟨hpowers, hproduct⟩ := numberPowers_entries h hexponents
  refine ⟨fun p hp => ?_, ?_⟩
  · obtain ⟨e, he, rfl⟩ := List.mem_map.mp hp
    exact (group_numbers hpowers (List.mem_eraseDups.mp he)).1
  · rw [← hproduct, ← prod_groups (·.2) numberPowerValue (ns.filterMap numberEntry?)]
    refine congrArg List.prod ((List.map_map ..).trans (List.map_congr_left fun e he => ?_))
    exact (group_numbers hpowers (List.mem_eraseDups.mp he)).2

/-- **Putting together multiplies.** -/
theorem means_assemble (hc : c.isFinite = true) (h : ∀ e ∈ es, e.Valued point) :
    (assemble rationalRules c es).Means point (c.value * (es.map (value point)).prod) := by
  have hparts := valued_of_mem_arrange h
  have hprod := ((arrange_perm es).map (value point)).prod_eq
  unfold assemble
  rw [if_neg (Constant.ne_undefined hc), ← hprod]
  split
  · rename_i hzero
    rw [(Constant.isZero_iff hc).mp hzero, zero_mul]
    exact ⟨rfl, rfl⟩
  dsimp only
  split
  · rename_i hnone
    rw [hnone]
    exact ⟨hc, (mul_one _).symm⟩
  · rename_i single hsingle
    rw [hsingle] at hparts ⊢
    have hvalued := hparts single List.mem_cons_self
    rw [List.map_singleton, List.prod_singleton]
    -- A single part is scaled itself, so that the coefficient of a sum is distributed.
    unfold assemble.scaleOne
    split
    · rename_i hone
      rw [hone]
      exact ⟨hvalued, (one_mul _).symm⟩
    · exact means_scale hc hvalued
  · rename_i hne _
    split
    · rename_i hone
      obtain ⟨a, rest, heq⟩ := List.exists_cons_of_ne_nil hne
      rw [heq] at hparts ⊢
      rw [nestProduct_cons _ _ (const .one), hone]
      change Means point _ (1 * _)
      rw [one_mul]
      exact means_nestProduct hparts
    · rw [nestProduct_cons _ _ (const .one)]
      exact means_nestProduct (List.forall_mem_cons.mpr ⟨hc, hparts⟩)

/-! ### Powers of numbers and of sums -/

/-- A number to an integer power is a number. -/
theorem isNumber_numberPower {k : ℤ} (hc : c.isFinite = true) (hd : d.IsInt k)
    (hk : c.value = 0 → 0 ≤ k) : (numberPower rationalRules c d).IsNumber (c.value ^ k) := by
  unfold numberPower
  rw [Constant.isFinite_iff.mp hc, hd]
  dsimp only
  unfold finitePower
  split
  · rename_i hzero
    rw [Int.cast_eq_zero.mp hzero, zpow_zero]
    split <;> exact ⟨_, rfl, rfl, rfl⟩
  rename_i hne
  split
  · rename_i hzero
    have hnonneg : ¬(k : Rat) < 0 := not_lt.mpr (Int.cast_nonneg (hk hzero))
    rw [zeroPower, if_neg hnonneg, hzero, zero_zpow k fun h => hne (by rw [h, Int.cast_zero])]
    exact ⟨c, rfl, hc, hzero⟩
  split
  · rename_i x y _
    obtain rfl : y = k := Option.some.inj hd
    rw [if_pos (Rat.den_intCast k), Rat.num_intCast]
    exact ⟨_, rfl, rfl, rfl⟩
  · unfold decimalPower
    rw [if_pos (Rat.den_intCast k), Rat.num_intCast]
    obtain ⟨hfinite, hvalue⟩ := Constant.ofDecimal_finite (c.value ^ k)
    exact ⟨_, rfl, hfinite, hvalue⟩

/-- The larger of a number and a magnitude. -/
def larger (b c : Constant) : Constant := if b.value ≤ c.abs.value then c.abs else b

private theorem larger_bound {m : Constant} (hb : m.isFinite = true) (hc : c.isFinite = true) :
    (larger m c).isFinite = true ∧ m.value ≤ (larger m c).value ∧
      |c.value| ≤ (larger m c).value := by
  obtain ⟨habs, hvalue⟩ := Constant.abs_finite hc
  unfold larger
  split
  · rename_i hle
    exact ⟨habs, hle, hvalue.ge⟩
  · rename_i hlt
    exact ⟨hb, le_rfl, hvalue ▸ (not_le.mp hlt).le⟩

/-- A fold of `larger` is at least as large as all numbers. -/
private theorem foldl_larger_bound : ∀ {cs : List Constant} {m : Constant},
    (∀ c ∈ cs, c.isFinite = true) → m.isFinite = true →
      (cs.foldl larger m).isFinite = true ∧ m.value ≤ (cs.foldl larger m).value ∧
        ∀ c ∈ cs, |c.value| ≤ (cs.foldl larger m).value
  | [], _, _, hb => ⟨hb, le_rfl, List.forall_mem_nil _⟩
  | c :: cs, m, hcs, hb => by
    obtain ⟨hc, hcs⟩ := List.forall_mem_cons.mp hcs
    obtain ⟨hfinite, hle, hsize⟩ := larger_bound hb hc
    obtain ⟨hlargest, hbigger, hrest⟩ := foldl_larger_bound hcs hfinite
    exact ⟨hlargest, hle.trans hbigger, List.forall_mem_cons.mpr ⟨hsize.trans hbigger, hrest⟩⟩

/-- The largest coefficient is at least as large as the others. -/
private theorem largestCoefficient?_bound {big : Constant} (h : e.largestCoefficient? = some big)
    (hfinite : ∀ c ∈ e.sumCoefficients, c.isFinite = true) :
    big.isFinite = true ∧ ∀ c ∈ e.sumCoefficients, |c.value| ≤ big.value := by
  have hlargest : e.sumCoefficients.foldl larger .zero = big := by
    unfold largestCoefficient? at h
    dsimp only at h
    split at h
    · split at h
      · cases h
      · exact Option.some.inj h
    · cases h
  obtain ⟨hbig, -, hbound⟩ := foldl_larger_bound hfinite (m := .zero) rfl
  rw [hlargest] at hbig hbound
  exact ⟨hbig, hbound⟩

/-- A coefficient divided by the largest one. -/
def leadingQuotient (big c : Constant) : Constant :=
  if c = big then .one
  else if c = big.neg then .minusOne
  else (Constant.combine rationalRules.round (· / ·) c big).getD .undefined

/-- The quotient by the largest number, times this number, is the number again. -/
private theorem leadingQuotient_value {big : Constant} (hbig : big.isFinite = true)
    (hc : c.isFinite = true) (hle : |c.value| ≤ big.value) :
    (leadingQuotient big c).isFinite = true ∧
      c.value = big.value * (leadingQuotient big c).value := by
  unfold leadingQuotient
  split
  · rename_i hsame
    rw [hsame]
    exact ⟨rfl, (mul_one _).symm⟩
  split
  · rename_i hsame
    rw [hsame, (Constant.neg_finite hbig).2]
    exact ⟨rfl, (mul_neg_one _).symm⟩
  · obtain ⟨k, hk, hfinite, hvalue⟩ := Constant.combine_finite (· / ·) hc hbig
    rw [hk, Option.getD_some, hvalue]
    refine ⟨hfinite, ?_⟩
    -- If the largest coefficient is zero, all of them are.
    by_cases hzero : big.value = 0
    · rw [hzero] at hle ⊢
      rw [abs_eq_zero.mp (le_antisymm hle (abs_nonneg _)), zero_mul]
    · exact (mul_div_cancel₀ _ hzero).symm

/-- An addend of a sum without the largest coefficient. -/
def dividedAddend (big : Constant) (a : Expr Constant) : Expr Constant :=
  withCoefficient (leadingQuotient big a.coefficient.1) a.coefficient.2

/-- A term divided by the largest number, times this number, has the value of the term. -/
private theorem means_dividedAddend {big : Constant} (hbig : big.isFinite = true)
    (h : e.Valued point) (hle : |e.coefficient.1.value| ≤ big.value) :
    (dividedAddend big e).Valued point ∧
      e.value point = big.value * (dividedAddend big e).value point := by
  obtain ⟨hc, hrest, hvalue⟩ := means_coefficient h
  obtain ⟨hquotient, hproduct⟩ := leadingQuotient_value hbig hc hle
  obtain ⟨hvalued, hwith⟩ := means_withCoefficient hquotient hrest
  exact ⟨hvalued, by rw [dividedAddend, hwith, hvalue, hproduct, mul_assoc]⟩

/-- A sum is its largest coefficient times what is left of it. -/
private theorem means_dividedBy {big : Constant} (h : e.Valued point)
    (hbig : e.largestCoefficient? = some big) :
    big.isFinite = true ∧ (dividedBy rationalRules big e).Valued point ∧
      e.value point = big.value * (dividedBy rationalRules big e).value point := by
  have haddends := valued_of_addends.mpr h
  obtain ⟨hfinite, hbound⟩ := largestCoefficient?_bound hbig fun c hc => by
    obtain ⟨a, ha, rfl⟩ := List.mem_map.mp hc
    exact (means_coefficient (haddends a ha)).1
  have hpart : ∀ a ∈ e.addends, (dividedAddend big a).Valued point ∧
      a.value point = big.value * (dividedAddend big a).value point := fun a ha =>
    means_dividedAddend hfinite (haddends a ha) (hbound _ (List.mem_map.mpr ⟨a, ha, rfl⟩))
  obtain ⟨hvalued, hsum⟩ := means_sum fun d hd => by
    obtain ⟨a, ha, rfl⟩ := List.mem_map.mp hd
    exact (hpart a ha).1
  refine ⟨hfinite, hvalued, ?_⟩
  change _ = big.value * value point (sum _ (e.addends.map (dividedAddend big)))
  rw [hsum, ← sum_addends e, List.map_map, ← List.sum_map_mul_left]
  exact congrArg List.sum (List.map_congr_left fun a ha => (hpart a ha).2)

/-! ### Powers of products -/

/-- The factors that leave a root and those that stay have the same product as before. -/
private theorem valued_splitRoot (h : ∀ e ∈ es, e.Valued point) :
    (∀ e ∈ (splitRoot es).1, e.Valued point) ∧ (∀ e ∈ (splitRoot es).2, e.Valued point) ∧
      ((splitRoot es).1.map (value point)).prod * ((splitRoot es).2.map (value point)).prod =
        (es.map (value point)).prod := by
  have hout : ∀ e ∈ es.filter isNonneg, e.Valued point := fun e he => h e (List.mem_filter.mp he).1
  have hstay : ∀ e ∈ es.filter fun f => !f.isNonneg, e.Valued point := fun e he =>
    h e (List.mem_filter.mp he).1
  have hprod : ((es.filter isNonneg).map (value point)).prod *
      ((es.filter fun f => !f.isNonneg).map (value point)).prod = (es.map (value point)).prod := by
    rw [← List.prod_append, ← List.map_append]
    exact ((List.filter_append_perm _ es).map (value point)).prod_eq
  unfold splitRoot
  dsimp only
  split
  · rename_i c rest hrest
    rw [hrest] at hstay hprod
    split
    · rw [hrest]
      exact ⟨hout, hstay, hprod⟩
    · obtain ⟨hc, hrest⟩ := List.forall_mem_cons.mp hstay
      obtain ⟨hneg, hvalue⟩ := Constant.neg_finite hc
      refine ⟨List.forall_mem_cons.mpr ⟨hneg, hout⟩, List.forall_mem_cons.mpr ⟨rfl, hrest⟩, ?_⟩
      simp only [List.map_cons, List.prod_cons, value_const] at hprod ⊢
      rw [← hprod, hvalue]
      change _ * ((-1 : Rat) * _) = _
      ring
  · exact ⟨hout, hstay, hprod⟩

private theorem Raises.of_eq_zero {x y : Rat} {k : ℤ} (h : e.Raises x k) (hy : y = 0 → x = 0) :
    e.Raises y k :=
  ⟨h.1, fun hzero => h.2 (hy hzero)⟩

/-- At a depth, products and powers have the values of products and powers. -/
structure KeepsValues (point : String → Option Rat) (n : Nat) : Prop where
  product : ∀ {es : List (Expr Constant)}, (∀ e ∈ es, e.Valued point) →
    (productN rationalRules n es).Means point (es.map (value point)).prod
  power : ∀ {b e : Expr Constant} {k : ℤ}, b.Valued point → e.Raises (b.value point) k →
    (powerN rationalRules n b e).Means point (b.value point ^ k)

/-- What is put together of a coefficient alone is a number. -/
private theorem isNumber_assemble (hc : c.isFinite = true) :
    (assemble rationalRules c []).IsNumber c.value := by
  unfold assemble
  rw [if_neg (Constant.ne_undefined hc)]
  split
  · rename_i hzero
    exact ⟨.zero, rfl, rfl, ((Constant.isZero_iff hc).mp hzero).symm⟩
  · exact ⟨c, rfl, hc, rfl⟩

/-- The product of two numbers is a number at any depth. -/
theorem isNumber_productN (hc : c.isFinite = true) (hd : d.isFinite = true) : ∀ n,
    (productN rationalRules n [const c, const d]).IsNumber (c.value * d.value)
  | 0 => ⟨_, rfl, Constant.mul_finite hc hd⟩
  | n + 1 => by
    let t : Factors :=
      ⟨(Constant.one.mul rationalRules.round c).mul rationalRules.round d, 0, [], [], []⟩
    have hcollected : ([const c, const d].flatMap factors).foldl (Factors.insert rationalRules)
        Factors.empty = t := rfl
    have hroots : t.rootParts = (1, []) := by
      have hparts : ∀ p ∈ ([const c, const d] : List (Expr Constant)), p.Valued fun _ => none :=
        List.forall_mem_cons.mpr ⟨hc, List.forall_mem_singleton.mpr hd⟩
      rw [rootParts_eq (hcollected ▸ means_collected hparts)]
      exact congrArg (·, []) (one_mul _)
    obtain ⟨hone, honeValue⟩ := Constant.mul_finite (c := .one) rfl hc
    obtain ⟨hboth, hbothValue⟩ := Constant.mul_finite hone hd
    obtain ⟨hfinite, hvalue⟩ := Constant.mul_finite (d := .exact 1) hboth rfl
    have hproduct : (t.coefficient.mul rationalRules.round (.exact 1)).value =
        c.value * d.value := by
      rw [hvalue, hbothValue, honeValue]
      change (1 : Rat) * c.value * d.value * 1 = c.value * d.value
      rw [one_mul, mul_one]
    unfold productN
    dsimp only
    rw [hcollected, hroots, ← hproduct]
    exact isNumber_assemble hfinite

variable {n : Nat}

theorem KeepsValues.powers (hn : KeepsValues point n) {fs : List (Expr Constant)} {k : ℤ}
    (hfs : ∀ f ∈ fs, f.Valued point) (he : e.Raises (fs.map (value point)).prod k) :
    (∀ d ∈ fs.map fun f => powerN rationalRules n f e, d.Valued point) ∧
      ((fs.map fun f => powerN rationalRules n f e).map (value point)).prod =
        (fs.map (value point)).prod ^ k := by
  have hpower : ∀ f ∈ fs, (powerN rationalRules n f e).Means point (f.value point ^ k) :=
    fun f hf => hn.power (hfs f hf) <| he.of_eq_zero fun hzero =>
      List.prod_eq_zero (List.mem_map.mpr ⟨f, hf, hzero⟩)
  refine ⟨fun d hd => ?_, ?_⟩
  · obtain ⟨f, hf, rfl⟩ := List.mem_map.mp hd
    exact (hpower f hf).valued
  · rw [List.prod_zpow, List.map_map, List.map_map]
    exact congrArg List.prod (List.map_congr_left fun f hf => (hpower f hf).value_eq)

/-! ### Products and powers -/

/-- The combined powers of numbers. -/
def raisedNumbers (n : Nat) (ns : List ((Constant × Expr Constant) × Constant)) :
    List (Expr Constant) :=
  (combineNumbers rationalRules ns).map fun p => powerN rationalRules n (const p.1) p.2

/-- The powers with exponents that are not zero. -/
def raisedPowers (n : Nat) (ps : List ((Expr Constant × Expr Constant) × Constant)) :
    List (Expr Constant) :=
  ((ps.filter fun p => !p.2.isZero).map fun p =>
    (p.1.1, scale rationalRules.round p.2 p.1.2)).map fun p => powerN rationalRules n p.1 p.2

private theorem KeepsValues.raisedNumbers (hn : KeepsValues point n)
    {ns : List ((Constant × Expr Constant) × Constant)}
    (h : ∀ p ∈ ns, p.1.1.isFinite = true ∧ p.1.2 = const .one)
    (hexponents : Exponents (fun p => p.1.value) ns) :
    (∀ e ∈ raisedNumbers n ns, e.Valued point) ∧
      ((Expr.raisedNumbers n ns).map (value point)).prod =
        exponentsValue (fun p => p.1.value) ns := by
  obtain ⟨hnumbers, hproduct⟩ := numberPowers_combineNumbers h hexponents
  have hpower : ∀ p ∈ combineNumbers rationalRules ns,
      (powerN rationalRules n (const p.1) p.2).Means point (numberPowerValue p) := fun p hp => by
    obtain ⟨hfinite, k, hk⟩ := hnumbers p hp
    rw [NumberPower.value_eq hk]
    exact hn.power hfinite hk
  refine ⟨fun e he => ?_, ?_⟩
  · obtain ⟨p, hp, rfl⟩ := List.mem_map.mp he
    exact (hpower p hp).valued
  · rw [← hproduct]
    refine congrArg List.prod ((List.map_map ..).trans (List.map_congr_left fun p hp => ?_))
    exact (hpower p hp).value_eq

private theorem KeepsValues.raisedPowers (hn : KeepsValues point n)
    {ps : List ((Expr Constant × Expr Constant) × Constant)}
    (h : ∀ p ∈ ps, p.1.1.Valued point ∧ p.1.2 = const .one)
    (hexponents : Exponents (fun p => p.1.value point) ps) :
    (∀ e ∈ raisedPowers n ps, e.Valued point) ∧
      ((Expr.raisedPowers n ps).map (value point)).prod =
        exponentsValue (fun p => p.1.value point) ps := by
  induction ps with
  | nil => exact ⟨List.forall_mem_nil _, rfl⟩
  | cons p ps ih =>
    obtain ⟨⟨hbase, hkey⟩, h⟩ := List.forall_mem_cons.mp h
    obtain ⟨⟨k, hint, hk⟩, hexponents⟩ := List.forall_mem_cons.mp hexponents
    obtain ⟨hrest, hvalue⟩ := ih h hexponents
    obtain ⟨⟨b, key⟩, c⟩ := p
    dsimp only at hbase hkey hint hk
    subst hkey
    rw [exponentsValue_cons, ← hvalue]
    -- A power with the exponent zero is dropped, and it is one.
    by_cases hzero : c.isZero = true
    · have hdropped :
          Expr.raisedPowers n (((b, const .one), c) :: ps) = Expr.raisedPowers n ps := by
        unfold Expr.raisedPowers
        rw [List.filter_cons_of_neg (by simpa using hzero)]
      rw [hdropped, (Constant.isZero_iff hint.finite).mp hzero, Rat.num_zero, zpow_zero, one_mul]
      exact ⟨hrest, rfl⟩
    · have hraises := raises_scale_one hint hk
      have hkept : Expr.raisedPowers n (((b, const .one), c) :: ps) =
          powerN rationalRules n b (scale rationalRules.round c (const .one)) ::
            Expr.raisedPowers n ps := by
        unfold Expr.raisedPowers
        rw [List.filter_cons_of_pos (by simpa using hzero)]
        rfl
      obtain ⟨hvalued, hpower⟩ := hn.power hbase hraises
      rw [hkept, List.map_cons, List.prod_cons, hpower, hint.value_eq, Rat.num_intCast]
      exact ⟨List.forall_mem_cons.mpr ⟨hvalued, hrest⟩, rfl⟩

/-- Products with more fuel have the product for their value if those with less do. -/
theorem KeepsValues.productN_succ (hn : KeepsValues point n) (h : ∀ e ∈ es, e.Valued point) :
    (productN rationalRules (n + 1) es).Means point (es.map (value point)).prod := by
  have ht := means_collected h
  unfold productN
  dsimp only
  revert ht
  generalize (es.flatMap factors).foldl (Factors.insert rationalRules) Factors.empty = t
  intro ht
  obtain ⟨hnumbers, hnumbersValue⟩ := hn.raisedNumbers ht.numbers ht.numberExponents
  obtain ⟨hpowers, hpowersValue⟩ := hn.raisedPowers ht.powers ht.powerExponents
  let number := (-1) ^ t.turns.num * t.primes.value
  obtain ⟨hc, hcvalue⟩ := Constant.mul_finite ht.coefficient (Constant.isFinite_exact number)
  have hall : ∀ e ∈ [] ++ Expr.raisedNumbers n t.numbers ++ Expr.raisedPowers n t.powers,
      e.Valued point :=
    List.forall_mem_append.mpr ⟨hnumbers, hpowers⟩
  have hvalue : (t.coefficient.mul rationalRules.round (.exact number)).value *
      (([] ++ Expr.raisedNumbers n t.numbers ++ Expr.raisedPowers n t.powers).map
        (value point)).prod = (es.map (value point)).prod := by
    rw [List.nil_append, List.map_append, List.prod_append, hnumbersValue, hpowersValue, hcvalue,
      ← ht.value_eq, ← mul_assoc]
    rfl
  rw [rootParts_eq ht, ← hvalue]
  dsimp only
  split
  · exact means_assemble hc hall
  · exact hn.product (List.forall_mem_cons.mpr ⟨hc, hall⟩)

/-- A power of a power. -/
private theorem KeepsValues.power_pow (hn : KeepsValues point n) {k : ℤ}
    (h : (pow b e).Valued point) (hd : d.IsInt k) (hk : (pow b e).value point = 0 → 0 ≤ k) :
    (powerN rationalRules n b (productN rationalRules n [e, const d])).Means point
      ((pow b e).value point ^ k) := by
  obtain ⟨hb, l, hl⟩ := valued_pow.mp h
  rw [value_pow hl] at hk ⊢
  obtain ⟨⟨c, rfl, hc⟩, hl⟩ := hl
  have hexponent := isNumber_productN hc.finite hd.finite n
  rw [hc.value_eq, hd.value_eq, ← Int.cast_mul] at hexponent
  rw [← zpow_mul]
  refine hn.power hb (hexponent.raises fun hzero => ?_)
  -- A zeroth power of zero is one, so the outer exponent is free only if the inner one is zero.
  rcases (hl hzero).eq_or_lt with hl | hl
  · rw [← hl, zero_mul]
  · exact mul_nonneg hl.le (hk (by rw [hzero, zero_zpow _ hl.ne']))

/-- A power of a product, factor by factor. -/
private theorem KeepsValues.power_factors (hn : KeepsValues point n) {k : ℤ} (h : b.Valued point)
    (he : e.Raises (b.value point) k) :
    (productN rationalRules n (b.factors.map fun f => powerN rationalRules n f e)).Means point
      (b.value point ^ k) := by
  rw [← prod_factors b] at he ⊢
  obtain ⟨hvalued, hvalue⟩ := hn.powers (valued_of_factors.mpr h) he
  rw [← hvalue]
  exact hn.product hvalued

/-- A power of a product of which some factors leave a root. -/
private theorem KeepsValues.power_split (hn : KeepsValues point n) {k : ℤ} (h : b.Valued point)
    (he : e.Raises (b.value point) k) :
    (productN rationalRules n
      ((if (splitRoot b.factors).2.isEmpty then const .one
        else powerN rationalRules n (nestProduct (const .one) (splitRoot b.factors).2) e) ::
        (splitRoot b.factors).1.map fun f => powerN rationalRules n f e)).Means point
      (b.value point ^ k) := by
  obtain ⟨hout, hstay, hprod⟩ := valued_splitRoot (valued_of_factors.mpr h)
  obtain ⟨hvalued, hrest⟩ := means_nestProduct hstay
  rw [prod_factors] at hprod
  obtain ⟨houts, houtsValue⟩ := hn.powers hout <| he.of_eq_zero fun hzero => by
    rw [← hprod, hzero, zero_mul]
  have hroot : (if (splitRoot b.factors).2.isEmpty then const .one
      else powerN rationalRules n (nestProduct (const .one) (splitRoot b.factors).2) e).Means point
        (((splitRoot b.factors).2.map (value point)).prod ^ k) := by
    split
    · rename_i hempty
      rw [List.isEmpty_iff.mp hempty, List.map_nil, List.prod_nil, one_zpow]
      exact ⟨rfl, rfl⟩
    · rw [← hrest]
      refine hn.power hvalued (he.of_eq_zero fun hzero => ?_)
      rw [← hprod, ← hrest, hzero, mul_zero]
  obtain ⟨hresult, hvalue⟩ := hn.product (List.forall_mem_cons.mpr ⟨hroot.valued, houts⟩)
  refine ⟨hresult, ?_⟩
  rw [hvalue, List.map_cons, List.prod_cons, hroot.value_eq, houtsValue, ← mul_zpow,
    mul_comm, hprod]

/-- A power of a sum without its largest coefficient. -/
private theorem KeepsValues.power_sum (hn : KeepsValues point n) {k : ℤ} (h : b.Valued point)
    (hd : d.IsInt k) (hk : b.value point = 0 → 0 ≤ k) {big : Constant}
    (hbig : b.largestCoefficient? = some big) :
    (productN rationalRules n
      [numberPower rationalRules big d, pow (dividedBy rationalRules big b) (const d)]).Means point
      (b.value point ^ k) := by
  obtain ⟨hfinite, hvalued, hvalue⟩ := means_dividedBy h hbig
  rw [hvalue] at hk ⊢
  have hnumber : (numberPower rationalRules big d).Means point (big.value ^ k) :=
    (isNumber_numberPower hfinite hd fun hzero => hk (by rw [hzero, zero_mul])).means
  have hrest := means_pow (e := const d) hvalued
    ⟨⟨d, rfl, hd⟩, fun hzero => hk (by rw [hzero, mul_zero])⟩
  obtain ⟨hresult, hproduct⟩ := hn.product (List.forall_mem_cons.mpr
    ⟨hnumber.valued, List.forall_mem_singleton.mpr hrest.valued⟩)
  refine ⟨hresult, ?_⟩
  rw [hproduct, List.map_cons, List.map_singleton, List.prod_cons, List.prod_singleton,
    hnumber.value_eq, hrest.value_eq, mul_zpow]

/-- Powers with more fuel have the power for their value if those with less do. -/
theorem KeepsValues.powerN_succ (hn : KeepsValues point n) {k : ℤ} (hb : b.Valued point)
    (he : e.Raises (b.value point) k) :
    (powerN rationalRules (n + 1) b e).Means point (b.value point ^ k) := by
  have hpow := means_pow hb he
  obtain ⟨⟨d, rfl, hd⟩, hk⟩ := id he
  have hfinite := hd.finite
  -- First the exponents and bases with a known result, then the kinds of bases.
  unfold powerN
  split
  · rename_i hzero
    obtain rfl := const.inj hzero
    obtain rfl : k = 0 := Int.cast_eq_zero.mp hd.value_eq.symm
    rw [zpow_zero]
    exact ⟨rfl, rfl⟩
  split
  · rename_i hone
    obtain rfl := const.inj hone
    obtain rfl : k = 1 := Int.cast_eq_one.mp hd.value_eq.symm
    rw [zpow_one]
    exact ⟨hb, rfl⟩
  split
  · rename_i hundefined
    rcases hundefined with h | h | rfl
    · exact absurd hfinite (by rw [const.inj h]; exact Bool.false_ne_true)
    · exact absurd hfinite (by rw [const.inj h]; exact Bool.false_ne_true)
    · exact absurd hb Bool.false_ne_true
  split
  · rename_i hone
    have hnotInfinite : d.isInfinite = false := by
      cases d <;> first | rfl | cases hfinite
    rw [hone]
    simp only [hnotInfinite]
    refine ⟨rfl, ?_⟩
    change (1 : Rat) = 1 ^ k
    rw [one_zpow]
  split
  · rename_i heuler
    rw [heuler] at hb
    exact hb.elim
  split
  · cases ‹const d = const _›
    exact (isNumber_numberPower hb hd hk).means
  · exact (isNumber_numberPower hb hd hk).means
  · split
    · exact hn.power_pow hb hd hk
    · exact hpow
  · exact hb.elim
  · split
    · exact hn.power_factors hb he
    · dsimp only
      split
      · exact hpow
      · exact hn.power_split hb he
  · cases ‹const d = const _›
    split
    · rename_i hbig
      split
      · exact hpow
      · exact hn.power_sum hb hd hk hbig
    · exact hpow
  · exact hpow

/-- **Products and powers keep values**, however deep they go. -/
theorem keepsValues : ∀ n, KeepsValues point n
  | 0 => by
    refine ⟨fun h => ?_, fun hb he => ?_⟩
    · unfold productN plainProduct
      split
      · obtain ⟨hc, hd⟩ := List.forall_mem_cons.mp h
        have hd := List.forall_mem_singleton.mp hd
        obtain ⟨hfinite, hvalue⟩ := Constant.mul_finite hc hd
        refine ⟨hfinite, hvalue.trans ?_⟩
        rw [List.map_cons, List.map_singleton, List.prod_cons, List.prod_singleton]
        rfl
      · exact means_nestProduct h
    · unfold powerN
      exact means_pow hb he
  | n + 1 => ⟨(keepsValues n).productN_succ, (keepsValues n).powerN_succ⟩

theorem means_product (h : ∀ e ∈ es, e.Valued point) :
    (product rationalRules es).Means point (es.map (value point)).prod :=
  (keepsValues _).product h

theorem means_power {k : ℤ} (hb : b.Valued point) (he : e.Raises (b.value point) k) :
    (power rationalRules b e).Means point (b.value point ^ k) :=
  (keepsValues _).power hb he

end FluxBalance.Equation.Expr
