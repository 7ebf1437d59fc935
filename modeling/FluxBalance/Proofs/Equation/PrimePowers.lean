import FluxBalance.Equation.Product
import Mathlib.Algebra.BigOperators.Ring.List
import Mathlib.Algebra.Field.Rat
import Mathlib.Algebra.Order.Floor.Ring
import Mathlib.Data.Rat.Floor
import Mathlib.Tactic.Ring

/-!
# Integer powers by their prime factors

A power of a number inside a product is taken apart into powers of prime factors, so that roots can
be collected. For an integer exponent the factors have integer exponents, no root is left, and their
product is the power. Nothing needs to be known about the factors but that they multiply up to the
number.

## Main definitions and results

* `Primes.Whole`, `Primes.value`: collections of powers with integer exponents, and their product;
* `prod_factorise`: `factorise` takes a number apart into a product.
-/

namespace FluxBalance.Equation.Expr

/-! ### Factors -/

/-- The power that `multiplicity` counts divides the number. -/
private theorem pow_multiplicity_dvd (d : Nat) :
    ∀ fuel n : Nat, d ^ smallFactors.multiplicity fuel d n ∣ n
  | 0, _ => one_dvd _
  | fuel + 1, n => by
    unfold smallFactors.multiplicity
    split
    · exact one_dvd _
    · rename_i h
      push Not at h
      have hdvd : d ∣ n := Nat.dvd_of_mod_eq_zero h.2.2
      calc d ^ (smallFactors.multiplicity fuel d (n / d) + 1)
          = d ^ smallFactors.multiplicity fuel d (n / d) * d := pow_succ _ _
        _ ∣ n / d * d := Nat.mul_dvd_mul_right (pow_multiplicity_dvd d fuel (n / d)) d
        _ = n := Nat.div_mul_cancel hdvd

/-- The factors of a number multiply up to it. -/
private theorem prod_smallFactors :
    ∀ fuel d n : Nat, ((smallFactors fuel d n).map fun f => f.1 ^ f.2).prod = n
  | 0, d, n => by
    unfold smallFactors
    split
    · rename_i hone
      exact hone.symm
    · simp
  | fuel + 1, d, n => by
    unfold smallFactors
    split
    · rename_i hone
      exact hone.symm
    split
    · simp
    split
    · rw [List.map_cons, List.prod_cons, prod_smallFactors fuel]
      exact Nat.mul_div_cancel' (pow_multiplicity_dvd d n n)
    · exact prod_smallFactors fuel _ _

/-- The powers that `factorise` lists have the number for their product. -/
private theorem prod_factorise (n : Nat) : ((factorise n).map fun f => f.1 ^ f.2).prod = n :=
  prod_smallFactors _ _ _

/-! ### Integer exponents -/

/-- The laws of exponents hold for integers as long as zero has no negative power. -/
theorem zpow_add_of_nonneg {x : Rat} {k l : ℤ} (hk : x = 0 → 0 ≤ k) (hl : x = 0 → 0 ≤ l) :
    x ^ (k + l) = x ^ k * x ^ l := by
  refine zpow_add' ?_
  by_cases hx : x = 0
  · have := hk hx
    have := hl hx
    omega
  · exact .inl hx

/-- All exponents are integers, and none is a negative power of zero. -/
def Primes.Whole (ps : Primes) : Prop := ∀ p ∈ ps, ∃ k : ℤ, p.2 = k ∧ (p.1 = 0 → 0 ≤ k)

/-- The product of the powers. -/
def Primes.value (ps : Primes) : Rat := (ps.map fun p => (p.1 : Rat) ^ p.2.num).prod

private theorem Primes.value_cons (p : Nat × Rat) (ps : Primes) :
    Primes.value (p :: ps) = (p.1 : Rat) ^ p.2.num * Primes.value ps := List.prod_cons

/-- Inserting an integer power multiplies the value and keeps it `Whole`. -/
private theorem Primes.insert_whole {p : Nat} {k : ℤ} (hk : p = 0 → 0 ≤ k) :
    ∀ {ps : Primes}, ps.Whole → (ps.insert p k).Whole ∧
      (ps.insert p k).value = ps.value * (p : Rat) ^ k
  | [], _ => by
    refine ⟨List.forall_mem_singleton.mpr ⟨k, rfl, hk⟩, ?_⟩
    rw [insert, value_cons, Rat.num_intCast]
    exact mul_comm _ _
  | (q, d) :: ps, hcons => by
    obtain ⟨⟨l, hd, hl⟩, hps⟩ := List.forall_mem_cons.mp hcons
    dsimp only at hd hl
    subst hd
    unfold insert
    split
    · rename_i hsame
      subst hsame
      refine ⟨List.forall_mem_cons.mpr ⟨⟨l + k, (Int.cast_add _ _).symm, fun hp => ?_⟩, hps⟩, ?_⟩
      · exact add_nonneg (hl hp) (hk hp)
      · rw [value_cons, value_cons, ← Int.cast_add, Rat.num_intCast, Rat.num_intCast,
          zpow_add_of_nonneg (fun hp => hl (by exact_mod_cast hp))
            fun hp => hk (by exact_mod_cast hp)]
        ring
    · obtain ⟨hwhole, hvalue⟩ := insert_whole hk hps
      refine ⟨List.forall_mem_cons.mpr ⟨⟨l, rfl, hl⟩, hwhole⟩, ?_⟩
      rw [value_cons, value_cons, hvalue]
      ring

/-- A power of a number is put in by its factors. -/
theorem Primes.insertPower_whole {n : Nat} {k : ℤ} (hk : n = 0 → 0 ≤ k) {ps : Primes}
    (hps : ps.Whole) : (ps.insertPower n k).Whole ∧
      (ps.insertPower n k).value = ps.value * (n : Rat) ^ k := by
  have key : ∀ (fs : List (Nat × Nat)) (ps : Primes), ps.Whole →
      (∀ f ∈ fs, f.1 = 0 → 0 ≤ k * f.2) →
      (fs.foldl (fun ps f => ps.insert f.1 (k * f.2)) ps).Whole ∧
        (fs.foldl (fun ps f => ps.insert f.1 (k * f.2)) ps).value =
          ps.value * (((fs.map fun f => f.1 ^ f.2).prod : Nat) : Rat) ^ k := by
    intro fs
    induction fs with
    | nil => exact fun ps hps _ => ⟨hps, by simp⟩
    | cons f fs ih =>
      intro ps hps hfs
      obtain ⟨hf, hfs⟩ := List.forall_mem_cons.mp hfs
      have hcast : (k : Rat) * f.2 = ((k * f.2 : ℤ) : Rat) := by push_cast; ring
      obtain ⟨hwhole, hvalue⟩ := insert_whole hf hps
      obtain ⟨hrest, hproduct⟩ := ih _ hwhole hfs
      rw [List.foldl_cons, hcast]
      refine ⟨hrest, ?_⟩
      rw [hproduct, hvalue, List.map_cons, List.prod_cons, Nat.cast_mul, mul_zpow, Nat.cast_pow,
        mul_comm k, zpow_mul, zpow_natCast, mul_assoc]
  obtain ⟨hwhole, hvalue⟩ := key (factorise n) ps hps fun f hf hzero => by
    -- A factor zero that counts makes the number zero.
    rcases Nat.eq_zero_or_pos f.2 with hexp | hexp
    · rw [hexp, Nat.cast_zero, mul_zero]
    · refine mul_nonneg (hk ?_) (Int.natCast_nonneg _)
      rw [← prod_factorise n]
      refine List.prod_eq_zero (List.mem_map.mpr ⟨f, hf, ?_⟩)
      rw [hzero, zero_pow hexp.ne']
  rw [prod_factorise] at hvalue
  exact ⟨hwhole, hvalue⟩

/-- With integer exponents the integer part is everything. -/
theorem Primes.wholePart_eq {ps : Primes} (hps : ps.Whole) : ps.wholePart = ps.value := by
  have key : ∀ (ps : Primes) (q : Rat), ps.Whole →
      ps.foldl (fun q p => q * ((p.1 : Rat) ^ p.2.floor)) q = q * ps.value := by
    intro ps
    induction ps with
    | nil => exact fun q _ => (mul_one q).symm
    | cons p ps ih =>
      intro q hps
      obtain ⟨⟨k, hp, -⟩, hps⟩ := List.forall_mem_cons.mp hps
      rw [List.foldl_cons, ih _ hps, value_cons, hp, Rat.floor_intCast, Rat.num_intCast, mul_assoc]
  rw [wholePart, key ps 1 hps, one_mul]

theorem Primes.roots_eq {ps : Primes} (hps : ps.Whole) : ps.roots = [] := by
  have hnone : ps.filterMap (fun p =>
      let f := p.2 - (p.2.floor : Rat)
      if f = 0 then none else some (f, p.1)) = [] := by
    refine List.filterMap_eq_nil_iff.mpr fun p hp => ?_
    obtain ⟨k, hk, -⟩ := hps p hp
    rw [hk, Rat.floor_intCast, sub_self]
    exact if_pos rfl
  unfold roots
  rw [hnone]
  rfl

end FluxBalance.Equation.Expr
