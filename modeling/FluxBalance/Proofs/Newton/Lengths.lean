import Mathlib.Algebra.Order.Floor.Ring
import Mathlib.Algebra.Order.Ring.Pow
import Mathlib.Data.Rat.Floor
import FluxBalance.Proofs.Newton.Search
import FluxBalance.Proofs.Scalar.Rational
import FluxBalance.Proofs.Scalar.Shrinking

/-!
# Lengths that fall

With a factor less than one the lengths of a search fall to the shortest one, so every search with
such a factor ends: this is the law `Dwindling` of a type of scalars. It holds in exact arithmetic,
where the powers of a factor between zero and one fall below every bound, and `searchSteps` is a
number of factors that suffices. It holds on the doubles as well, by `Doubles.below_mul`: although
the lengths are rounded, each of them is less than the one before, and there are finitely many
doubles.

## Main definitions and results

* `Dwindling`: scalars for which the lengths of a search fall if the factor is less than one;
* `searchSteps`, `pow_searchSteps_le`: how many lengths are enough in exact arithmetic.
-/

namespace FluxBalance.Newton

/-- With a factor less than one the lengths of a search fall. -/
class Dwindling (α : Type) [Scalar α] : Prop where
  falls : ∀ {c : α}, Scalar.lt c 1 = true → Falls c

/-! ### Exact lengths -/

/-- A number of factors after which the powers of a factor between zero and one have fallen to the
shortest length. -/
def searchSteps {α : Type} [Scalar α] (shorten : α) : Nat :=
  match Scalar.toRat? shorten with
  | some q => (10000 / (1 - q)).ceil.toNat + 1
  | none => 0

/-- Between zero and one, a power falls to one ten-thousandth within so many factors. -/
private theorem pow_ceil_le {q : Rat} (hpos : 0 < q) (hlt : q < 1) :
    q ^ ((10000 / (1 - q)).ceil.toNat + 1) ≤ mkRat 1 10000 := by
  generalize hN : (10000 / (1 - q)).ceil.toNat + 1 = N
  have hgap : 0 < 1 - q := sub_pos.mpr hlt
  have hone : 1 ≤ q⁻¹ := (one_le_inv₀ hpos).mpr hlt.le
  have hcount : 10000 / (1 - q) ≤ N := by
    have hceil : (10000 / (1 - q)).ceil ≤ (N : Int) := by omega
    exact Rat.le_ceil.trans (mod_cast hceil)
  have hgrowth : 1 - q ≤ q⁻¹ - 1 := by
    have h : (1 - q) * 1 ≤ (1 - q) * q⁻¹ := mul_le_mul_of_nonneg_left hone hgap.le
    rwa [mul_one, sub_mul, one_mul, mul_inv_cancel₀ hpos.ne'] at h
  -- The reciprocal of the factor is above one, so its powers grow at least linearly.
  have hbernoulli : 10000 ≤ q⁻¹ ^ N :=
    calc (10000 : Rat) = 10000 / (1 - q) * (1 - q) := (div_mul_cancel₀ _ hgap.ne').symm
      _ ≤ N * (q⁻¹ - 1) := mul_le_mul hcount hgrowth hgap.le (Nat.cast_nonneg N)
      _ ≤ 1 + N * (q⁻¹ - 1) := le_add_of_nonneg_left zero_le_one
      _ ≤ (1 + (q⁻¹ - 1)) ^ N := one_add_mul_le_pow (by linarith) N
      _ = q⁻¹ ^ N := by rw [add_sub_cancel]
  rw [inv_pow] at hbernoulli
  rw [show mkRat 1 10000 = (10000 : Rat)⁻¹ by norm_num]
  exact (le_inv_comm₀ (pow_pos hpos N) (by norm_num)).mpr hbernoulli

section

variable {α : Type} [Scalar α]

/-- **A search has enough lengths**: within their number `searchSteps` they fall to the shortest
one. -/
theorem pow_searchSteps_le [Scalar.Rational α] {c : α} (hpos : 0 < c) (hlt : c < 1) :
    c ^ searchSteps c ≤ shortestLength := by
  obtain ⟨q, hq, rfl⟩ := Scalar.Rational.exists_cast c
  have hqpos : 0 < q := Rat.cast_pos.mp hpos
  have hqlt : q < 1 := by exact_mod_cast hlt
  rw [searchSteps, hq, shortestLength, Scalar.Exact.ofRat_eq_cast, ← Rat.cast_pow]
  exact Rat.cast_le.mpr (pow_ceil_le hqpos hqlt)

/-- In exact arithmetic the lengths are the powers of the factor. -/
private theorem lengthAfter_eq [Scalar.Exact α] (c : α) :
    ∀ (n : Nat) (length : α), lengthAfter c n length = length * c ^ n
  | 0, length => by rw [lengthAfter, pow_zero, mul_one]
  | n + 1, length => by rw [lengthAfter, lengthAfter_eq c n, pow_succ', mul_assoc]

private theorem shortestLength_pos [Scalar.Exact α] : (0 : α) < shortestLength := by
  rw [shortestLength, Scalar.Exact.ofRat_eq_cast]
  exact Rat.cast_pos.mpr (by norm_num)

/-- **In exact arithmetic the lengths fall** with every factor less than one. -/
instance [Scalar.Rational α] : Dwindling α where
  falls {c} hc := by
    have hlt : c < 1 := Scalar.Exact.lt_eq_true_iff.mp hc
    have hfalls {n : Nat} (h : c ^ n ≤ shortestLength) : Falls c := by
      refine ⟨n, fun hlong => ?_⟩
      rw [lengthAfter_eq, one_mul] at hlong
      exact not_lt.mpr h (Scalar.Exact.lt_eq_true_iff.mp hlong)
    rcases le_or_gt c 0 with hc | hpos
    · exact hfalls (n := 1) (by rw [pow_one]; exact hc.trans shortestLength_pos.le)
    · exact hfalls (pow_searchSteps_le hpos hlt)

end

/-! ### Lengths on the doubles -/

section

open Float.Model Float.Model.UnpackedFloat

/-- The place of the shortest length among the doubles. -/
private theorem key_shortestLength : Doubles.key (Doubles.parts shortestLength) =
    toLex (1, toLex (-66, 7378697629483821)) := by
  decide +kernel

/-- A finite length above the shortest one is a double that is not subnormal. -/
private theorem normal_of_shortestLength_lt {x : Float} {s : Sign} {m : Nat} {e : Int} {hm : 0 < m}
    (hx : Doubles.parts x = .finite s m e hm) (h : Scalar.lt shortestLength x = true) :
    -66 ≤ e ∧ 2 ^ 52 ≤ m := by
  have hlt : decide (shortestLength < x) = true := h
  rw [Doubles.lt_eq, Doubles.lt_eq_true_iff, key_shortestLength, hx] at hlt
  obtain ⟨-, -, hkey⟩ := hlt
  have hnormal := Doubles.normal_of_parts hx
  cases s <;>
  · rw [Doubles.key, Prod.Lex.toLex_lt_toLex, Prod.Lex.toLex_lt_toLex] at hkey
    omega

/-- The rank of a pair that comes before another one is less. -/
private theorem rank_lt {m r : Nat} {e t : Int} (hr : r < 2 ^ 53) (ht : -1074 ≤ t)
    (h : Doubles.Below m e r t) :
    (t + 1074).toNat * 2 ^ 53 + r < (e + 1074).toNat * 2 ^ 53 + m := by
  rcases h with hlt | ⟨rfl, hlt⟩
  · have hstep : (t + 1074).toNat + 1 ≤ (e + 1074).toNat := by omega
    calc (t + 1074).toNat * 2 ^ 53 + r < ((t + 1074).toNat + 1) * 2 ^ 53 := by
          rw [Nat.succ_mul]
          exact Nat.add_lt_add_left hr _
      _ ≤ (e + 1074).toNat * 2 ^ 53 := Nat.mul_le_mul_right _ hstep
      _ ≤ (e + 1074).toNat * 2 ^ 53 + m := Nat.le_add_right _ _
  · exact Nat.add_lt_add_left hlt _

/-- Lengths that are doubles fall. The induction is on the rank of the length among the pairs of an
exponent and a mantissa, which falls with each factor. -/
private theorem exists_not_lt {c : Float} (hc : Scalar.lt c 1 = true) :
    ∀ (rank : Nat) {x : Float} {m : Nat} {e : Int} {hm : 0 < m},
      Doubles.parts x = .finite .positive m e hm → (e + 1074).toNat * 2 ^ 53 + m ≤ rank →
        ∃ n, ¬Scalar.lt shortestLength (lengthAfter c n x) = true := by
  intro rank
  induction rank with
  | zero => intro x m e hm _ hrank; omega
  | succ rank ih =>
    intro x m e hm hx hrank
    by_cases hlong : Scalar.lt shortestLength x = true
    swap
    · exact ⟨0, hlong⟩
    by_cases hnext : Scalar.lt shortestLength (x * c) = true
    swap
    · exact ⟨1, hnext⟩
    obtain ⟨he, hnormal⟩ := normal_of_shortestLength_lt hx hlong
    have hshortest : Doubles.Positive (Doubles.parts shortestLength) := by
      rw [Doubles.positive_iff, key_shortestLength]
      decide
    obtain ⟨r, t, hr, hparts, hbelow⟩ := Doubles.below_mul hx hnormal (by omega) hc
      (Doubles.positive_of_lt hshortest hnext)
    have hpackable := (Doubles.packable_of_parts hparts).1
    obtain ⟨n, hn⟩ := ih hparts
      (Nat.le_of_lt_succ ((rank_lt hpackable.lt hpackable.le hbelow).trans_le hrank))
    exact ⟨n + 1, hn⟩

/-- **On the doubles the lengths fall** with every factor less than one, although they are
rounded. -/
instance : Dwindling Float where
  falls hc := exists_not_lt hc _ Doubles.parts_one le_rfl

end

end FluxBalance.Newton
