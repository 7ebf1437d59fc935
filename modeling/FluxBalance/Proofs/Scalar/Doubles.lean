import Mathlib
import FluxBalance.Proofs.Scalar.Lawful

/-!
# The laws of doubles

Doubles are `Lawful` scalars. Their operations are those of a model in which a double is unpacked
into a sign, a mantissa and an exponent, or into a zero, an infinity or an undefined number.
Comparison of doubles is comparison of their unpacked forms by a key in a linear order, and the two
zeros are the only unpacked forms that share a key. No operation tells the two zeros apart, except
by the sign of a zero in its result.

## Main definitions and results

* `parts`, `ofParts`: a double and its unpacked form, in both directions;
* `key`: the position of an unpacked double in the order;
* `Alike`, `same_of_alike`: parts that make doubles of one value.
-/

namespace FluxBalance.Doubles

open Float.Model Float.Model.UnpackedFloat

/-! ### Unpacked doubles -/

/-- The unpacked form of a double. -/
def parts (x : Float) : UnpackedFloat := x.toModel.unpack

/-- The double with the given unpacked form. -/
def ofParts (u : UnpackedFloat) : Float := .ofModel (Float.Model.pack u)

/-- Doubles are subtracted part by part and rounded, `UnpackedFloat.sub`. -/
private theorem sub_eq (x y : Float) : x - y = ofParts (sub .binary64 (parts x) (parts y)) := rfl

/-- Doubles are divided part by part and rounded, `UnpackedFloat.div`. -/
theorem div_eq (x y : Float) : x / y = ofParts (div .binary64 (parts x) (parts y)) := rfl

theorem lt_eq (x y : Float) : decide (x < y) = (parts x).lt (parts y) := by
  have h : x < y ↔ (parts x).lt (parts y) = true := by
    show decide ((parts x).lt (parts y) = true) = true ↔ _
    exact decide_eq_true_iff
  rw [Bool.eq_iff_iff, decide_eq_true_iff, h]

/-! ### The order of unpacked doubles -/

/-- The position of an unpacked double in the order: by its class, then by its exponent, then by
its mantissa. -/
def key : UnpackedFloat → ℤ ×ₗ ℤ ×ₗ ℤ
  | .infinity .negative => toLex (-2, toLex (0, 0))
  | .finite .negative m e _ => toLex (-1, toLex (-e, -(m : ℤ)))
  | .notANumber | .zero _ => toLex (0, toLex (0, 0))
  | .finite .positive m e _ => toLex (1, toLex (e, (m : ℤ)))
  | .infinity .positive => toLex (2, toLex (0, 0))

/-- A negative sign comes before a positive one, and that is all that `compare` sees. -/
@[simp]
private theorem compare_sign (s t : Sign) :
    compare s t = match s, t with
      | .negative, .positive => .lt
      | .positive, .negative => .gt
      | _, _ => .eq := by
  cases s <;> cases t <;> rfl

/-- One double is less than another exactly if its key is and neither is undefined. -/
theorem lt_eq_true_iff {u v : UnpackedFloat} :
    u.lt v = true ↔ u ≠ .notANumber ∧ v ≠ .notANumber ∧ key u < key v := by
  rcases u with ⟨_ | _⟩ | _ | s | ⟨_ | _, m, e, hm⟩ <;>
    rcases v with ⟨_ | _⟩ | _ | s' | ⟨_ | _, m', e', hm'⟩ <;>
      simp [UnpackedFloat.lt, UnpackedFloat.compare, key, Prod.Lex.toLex_lt_toLex,
        Ordering.then_eq_lt, compare_lt_iff_lt]
  rw [Ordering.then_eq_gt, compare_gt_iff_gt, compare_gt_iff_gt, compare_eq_iff_eq]

/-- Two doubles are numerically equal exactly if their keys are and neither is undefined. -/
theorem beq_eq_true_iff {u v : UnpackedFloat} :
    u.beq v = true ↔ u ≠ .notANumber ∧ v ≠ .notANumber ∧ key u = key v := by
  rcases u with ⟨_ | _⟩ | _ | s | ⟨_ | _, m, e, hm⟩ <;>
    rcases v with ⟨_ | _⟩ | _ | s' | ⟨_ | _, m', e', hm'⟩ <;>
      simp [UnpackedFloat.beq, UnpackedFloat.compare, key, Ordering.then_eq_eq]

/-! ### Unpacked forms that no operation tells apart -/

/-- Identical, or two zeros. -/
def Alike (u v : UnpackedFloat) : Prop := u = v ∨ (∃ s, u = .zero s) ∧ ∃ s, v = .zero s

namespace Alike

theorem refl (u : UnpackedFloat) : Alike u u := .inl rfl

theorem zero (s s' : Sign) : Alike (.zero s) (.zero s') := .inr ⟨⟨s, rfl⟩, ⟨s', rfl⟩⟩

private theorem of_beq {u v : UnpackedFloat} (h : u.beq v = true) : Alike u v := by
  obtain ⟨hu, hv, hkey⟩ := beq_eq_true_iff.mp h
  rcases u with ⟨_ | _⟩ | _ | s | ⟨_ | _, m, e, hm⟩ <;>
    rcases v with ⟨_ | _⟩ | _ | s' | ⟨_ | _, m', e', hm'⟩ <;>
      simp_all [key, Alike]

private theorem key_eq {u v : UnpackedFloat} (h : Alike u v) : key u = key v := by
  rcases h with rfl | ⟨⟨s, rfl⟩, ⟨s', rfl⟩⟩ <;> rfl

/-- Of `Alike` parts both are numbers or neither is. -/
private theorem ne_notANumber_iff {u v : UnpackedFloat} (h : Alike u v) :
    u ≠ .notANumber ↔ v ≠ .notANumber := by
  rcases h with rfl | ⟨⟨s, rfl⟩, ⟨s', rfl⟩⟩ <;> simp

theorem lt_eq {u u' v v' : UnpackedFloat} (hu : Alike u u') (hv : Alike v v') :
    u.lt v = u'.lt v' := by
  rw [Bool.eq_iff_iff, lt_eq_true_iff, lt_eq_true_iff, hu.key_eq, hv.key_eq,
    hu.ne_notANumber_iff, hv.ne_notANumber_iff]

theorem add {u u' v v' : UnpackedFloat} (hu : Alike u u') (hv : Alike v v') :
    Alike (add .binary64 u v) (UnpackedFloat.add .binary64 u' v') := by
  rcases hu with rfl | ⟨⟨s, rfl⟩, ⟨s', rfl⟩⟩ <;> rcases hv with rfl | ⟨⟨t, rfl⟩, ⟨t', rfl⟩⟩
  · exact refl _
  · cases u <;> simp only [UnpackedFloat.add, refl]
    split <;> split <;> exact zero _ _
  · cases v <;> simp only [UnpackedFloat.add, refl]
    split <;> split <;> exact zero _ _
  · simp only [UnpackedFloat.add]
    split <;> split <;> exact zero _ _

theorem sub {u u' v v' : UnpackedFloat} (hu : Alike u u') (hv : Alike v v') :
    Alike (sub .binary64 u v) (UnpackedFloat.sub .binary64 u' v') := by
  rcases hu with rfl | ⟨⟨s, rfl⟩, ⟨s', rfl⟩⟩ <;> rcases hv with rfl | ⟨⟨t, rfl⟩, ⟨t', rfl⟩⟩
  · exact refl _
  · cases u <;> simp only [UnpackedFloat.sub, refl]
    split <;> split <;> exact zero _ _
  · cases v <;> simp only [UnpackedFloat.sub, refl]
    split <;> split <;> exact zero _ _
  · simp only [UnpackedFloat.sub]
    split <;> split <;> exact zero _ _

theorem mul {u u' v v' : UnpackedFloat} (hu : Alike u u') (hv : Alike v v') :
    Alike (mul .binary64 u v) (UnpackedFloat.mul .binary64 u' v') := by
  rcases hu with rfl | ⟨⟨s, rfl⟩, ⟨s', rfl⟩⟩ <;> rcases hv with rfl | ⟨⟨t, rfl⟩, ⟨t', rfl⟩⟩
  · exact refl _
  · cases u <;> simp only [UnpackedFloat.mul, refl, zero]
  · cases v <;> simp only [UnpackedFloat.mul, refl, zero]
  · exact zero _ _

theorem neg {u v : UnpackedFloat} (h : Alike u v) : Alike u.neg v.neg := by
  rcases h with rfl | ⟨⟨s, rfl⟩, ⟨s', rfl⟩⟩
  · exact refl _
  · exact zero _ _

theorem sqrt {u v : UnpackedFloat} (h : Alike u v) :
    Alike (sqrt .binary64 u) (UnpackedFloat.sqrt .binary64 v) := by
  rcases h with rfl | ⟨⟨s, rfl⟩, ⟨s', rfl⟩⟩
  · exact refl _
  · exact zero _ _

end Alike

/-! ### Zeros as results -/

/-- A finite number less itself is a zero. -/
private theorem sub_self_eq_zero {u : UnpackedFloat} (h : u.isFinite = true) :
    ∃ s, sub .binary64 u u = .zero s := by
  cases u with
  | notANumber => cases h
  | infinity s => cases h
  | zero s => cases s <;> exact ⟨_, rfl⟩
  | finite s m e hm =>
    refine ⟨.positive, ?_⟩
    simp only [UnpackedFloat.sub, Int.sub_self]
    rfl

/-- A zero divided by anything is undefined or a zero. -/
private theorem zero_div_eq (s : Sign) (u : UnpackedFloat) :
    div .binary64 (.zero s) u = .notANumber ∨ ∃ t, div .binary64 (.zero s) u = .zero t := by
  cases u with
  | notANumber => exact .inl rfl
  | infinity t => exact .inr ⟨_, rfl⟩
  | zero t => exact .inl rfl
  | finite t m e hm => exact .inr ⟨_, rfl⟩

/-! ### Unpacking -/

section

variable (b : BitVec Format.binary64.numBits)

/-- What the fields of the bits are unpacked into: the reserved exponent is that of what is not
finite, and numbers with the exponent zero are subnormal. -/
inductive Unpacks : UnpackedFloat → Prop
  | infinite {s : Sign} (h : (unpackExponent b).toNat = 2047) : Unpacks (.infinity s)
  | undefined (h : (unpackExponent b).toNat = 2047) : Unpacks .notANumber
  | zero (hexponent : (unpackExponent b).toNat = 0) (hmantissa : (unpackMantissa b).toNat = 0) :
    Unpacks (.zero (.ofBitVec (unpackSign b)))
  | subnormal (hexponent : (unpackExponent b).toNat = 0) (h : 0 < (unpackMantissa b).toNat) :
    Unpacks (.finite (.ofBitVec (unpackSign b)) (unpackMantissa b).toNat (-1074) h)
  | normal (hpos : (unpackExponent b).toNat ≠ 0) (hlt : (unpackExponent b).toNat < 2047)
    (h : 0 < 2 ^ 52 + (unpackMantissa b).toNat) :
    Unpacks (.finite (.ofBitVec (unpackSign b)) (2 ^ 52 + (unpackMantissa b).toNat)
      ((unpackExponent b).toNat - 1075) h)

/-- What `UnpackedFloat.unpack` makes of a bit pattern is one of the cases of `Unpacks`. -/
theorem unpacks : Unpacks b (UnpackedFloat.unpack .binary64 b) := by
  unfold UnpackedFloat.unpack
  dsimp only
  -- The greatest exponent marks what is not finite, the least one zero and the subnormal numbers.
  split
  · rename_i hmax
    have hmax : (unpackExponent b).toNat = 2047 := by
      rw [hmax]
      rfl
    split
    · exact .infinite hmax
    · exact .undefined hmax
  rename_i hmax
  split
  · rename_i hzero
    have hexponent : (unpackExponent b).toNat = 0 := by
      rw [hzero]
      rfl
    split
    · rename_i hM
      exact .zero hexponent (by rw [hM]; rfl)
    · have he : ((unpackExponent b).toNat : Int) - (Format.binary64.exponentBias +
          Format.binary64.mantissaBitsWithoutImplicit) + 1 = -1074 := by
        rw [hexponent]
        rfl
      simp only [he]
      exact .subnormal hexponent _
  · rename_i hzero
    have hpos : (unpackExponent b).toNat ≠ 0 := fun h => hzero (BitVec.eq_of_toNat_eq h)
    have hne : (unpackExponent b).toNat ≠ 2047 := fun h => hmax (BitVec.eq_of_toNat_eq h)
    have hlt : (unpackExponent b).toNat < 2048 := (unpackExponent b).isLt
    have hm : (1#1 ++ unpackMantissa b).toNat = 2 ^ 52 + (unpackMantissa b).toNat := by
      rw [BitVec.toNat_append, ← Nat.shiftLeft_add_eq_or_of_lt (unpackMantissa b).isLt]
      rfl
    simp only [hm]
    exact .normal hpos (by omega) _

/-- A bit pattern stands for a finite number unless all bits of its exponent are set. -/
private theorem isFinite_unpack_iff :
    (UnpackedFloat.unpack .binary64 b).isFinite = true ↔ (unpackExponent b).toNat ≠ 2047 := by
  have h := unpacks b
  generalize UnpackedFloat.unpack .binary64 b = u at h
  cases h with
  | infinite h => exact iff_of_false nofun (not_not.mpr h)
  | undefined h => exact iff_of_false nofun (not_not.mpr h)
  | zero hexponent => exact iff_of_true rfl (by omega)
  | subnormal hexponent => exact iff_of_true rfl (by omega)
  | normal hpos hlt => exact iff_of_true rfl (by omega)

end

/-- The exponents of finite doubles end below that of infinity. -/
private theorem le_of_unpack {b : BitVec Format.binary64.numBits} {s : Sign} {m : Nat} {e : Int}
    {hm : 0 < m} (h : UnpackedFloat.unpack .binary64 b = .finite s m e hm) : e ≤ 971 := by
  have hunpacks := unpacks b
  rw [h] at hunpacks
  cases hunpacks <;> omega

/-! ### Packing -/

/-- The `parts` of a double put together by `ofParts` are those that packing leaves. -/
theorem parts_ofParts (u : UnpackedFloat) :
    parts (ofParts u) = UnpackedFloat.unpack .binary64 (UnpackedFloat.pack .binary64 u) := rfl

@[simp]
theorem parts_ofParts_zero (s : Sign) : parts (ofParts (.zero s)) = .zero s := by
  cases s <;> rfl

/-- A number is finite after packing exactly if its exponent is not above the range. -/
theorem isFinite_parts_ofParts_iff {s : Sign} {m : Nat} {e : Int} {hm : 0 < m} :
    (parts (ofParts (.finite s m e hm))).isFinite = true ↔ e ≤ 971 := by
  have hbias :
      (e + Format.binary64.exponentBias + Format.binary64.mantissaBitsWithoutImplicit).toNat =
        (e + 1023 + 52).toNat := rfl
  rw [parts_ofParts]
  unfold UnpackedFloat.pack
  simp only [hbias]
  by_cases hlarge : 2 ^ 11 ≤ (e + 1023 + 52).toNat + 1
  · rw [if_pos hlarge]
    exact iff_of_false (by cases s <;> decide) (by omega)
  · rw [if_neg hlarge]
    refine iff_of_true ?_ (by omega)
    split
    · rw [isFinite_unpack_iff, unpackExponent_packComponents]
      simp only [BitVec.toNat_ofNat]
      omega
    · rw [isFinite_unpack_iff, unpackExponent_packComponents]
      decide

/-! ### The laws -/

/-- Doubles that are made of `Alike` parts are the same, `Scalar.Same`. -/
private theorem same_of_alike {u v : UnpackedFloat} (h : Alike u v) :
    Scalar.Same (ofParts u) (ofParts v) := by
  rcases h with rfl | ⟨⟨s, rfl⟩, ⟨s', rfl⟩⟩
  · exact .refl _
  · refine .of_eq ?_
    show (parts (ofParts (.zero s))).beq (parts (ofParts (.zero s'))) = true
    rw [parts_ofParts_zero, parts_ofParts_zero]
    rfl

private theorem alike_of_same {x y : Float} (h : Scalar.Same x y) : Alike (parts x) (parts y) := by
  rcases h with rfl | h
  · exact .refl _
  · exact .of_beq h

/-- A double is numerically zero exactly if its unpacked form is a zero. -/
theorem eq_zero_iff {x : Float} :
    Scalar.eq x (Zero.zero : Float) = true ↔ ∃ s, parts x = .zero s := by
  have heq : Scalar.eq x (Zero.zero : Float) = (parts x).beq (.zero .positive) := rfl
  rw [heq]
  constructor
  · intro h
    rcases Alike.of_beq h with h | ⟨h, -⟩
    · exact ⟨_, h⟩
    · exact h
  · rintro ⟨s, hs⟩
    rw [hs]
    rfl

instance : Scalar.Lawful Float where
  -- Numerical equality and order are those of `key`, for all doubles that are numbers.
  eq_symm {x y} h := by
    obtain ⟨hx, hy, hkey⟩ := beq_eq_true_iff.mp (show (parts x).beq (parts y) = true from h)
    exact beq_eq_true_iff.mpr ⟨hy, hx, hkey.symm⟩
  eq_trans {x y z} h h' := by
    obtain ⟨hx, -, hxy⟩ := beq_eq_true_iff.mp (show (parts x).beq (parts y) = true from h)
    obtain ⟨-, hz, hyz⟩ := beq_eq_true_iff.mp (show (parts y).beq (parts z) = true from h')
    exact beq_eq_true_iff.mpr ⟨hx, hz, hxy.trans hyz⟩
  -- The operations are functions of `parts`, which are `Alike` for doubles that are the same.
  add_same h h' := same_of_alike ((alike_of_same h).add (alike_of_same h'))
  sub_same h h' := same_of_alike ((alike_of_same h).sub (alike_of_same h'))
  mul_same h h' := same_of_alike ((alike_of_same h).mul (alike_of_same h'))
  neg_same h := same_of_alike (alike_of_same h).neg
  sqrt_same h := same_of_alike (alike_of_same h).sqrt
  lt_same {x x' y y'} h h' := by
    show decide (x < y) = decide (x' < y')
    rw [lt_eq, lt_eq]
    exact (alike_of_same h).lt_eq (alike_of_same h')
  isFinite_zero := by decide +kernel
  isFinite_neg {x} h := by
    have hfin : (parts x).isFinite = true := h
    show (parts (ofParts (parts x).neg)).isFinite = true
    cases hu : parts x with
    | notANumber => rw [hu] at hfin; cases hfin
    | infinity s => rw [hu] at hfin; cases hfin
    | zero s => simp [UnpackedFloat.neg, UnpackedFloat.isFinite]
    | finite s m e hm => exact isFinite_parts_ofParts_iff.mpr (le_of_unpack hu)
  lt_trans {x y z} h h' := by
    have hxy : decide (x < y) = true := h
    have hyz : decide (y < z) = true := h'
    show decide (x < z) = true
    rw [lt_eq, lt_eq_true_iff] at hxy hyz ⊢
    exact ⟨hxy.1, hyz.2.1, hxy.2.2.trans hyz.2.2⟩
  lt_of_not_lt {x y z} hx hy hxy hxz := by
    have hx' : (parts x).isFinite = true := hx
    have hy' : (parts y).isFinite = true := hy
    have hxy' : decide (x < y) = false := hxy
    have hxz' : decide (x < z) = true := hxz
    show decide (y < z) = true
    rw [lt_eq, lt_eq_true_iff] at hxz' ⊢
    rw [lt_eq, Bool.eq_false_iff, ne_eq, lt_eq_true_iff] at hxy'
    have hne (u : UnpackedFloat) (h : u.isFinite = true) : u ≠ .notANumber := by
      rintro rfl
      cases h
    have hle : key (parts y) ≤ key (parts x) :=
      not_lt.mp fun hlt => hxy' ⟨hne _ hx', hne _ hy', hlt⟩
    exact ⟨hne _ hy', hxz'.2.1, hle.trans_lt hxz'.2.2⟩
  -- Whatever sign the zero has that is computed, it is equal to zero.
  sub_self {x} h := by
    obtain ⟨s, hs⟩ := sub_self_eq_zero (show (parts x).isFinite = true from h)
    refine eq_zero_iff.mpr ⟨s, ?_⟩
    rw [sub_eq, hs, parts_ofParts_zero]
  zero_div {x y} hx h := by
    obtain ⟨s, hs⟩ := eq_zero_iff.mp hx
    have hfin : (parts (x / y)).isFinite = true := h
    rw [div_eq, hs] at hfin
    rcases zero_div_eq s (parts y) with hnan | ⟨t, ht⟩
    · rw [hnan] at hfin
      cases hfin
    · refine eq_zero_iff.mpr ⟨t, ?_⟩
      rw [div_eq, hs, ht, parts_ofParts_zero]

instance : Scalar.LawfulFinite Float where
  isFinite_same {x y} h := by
    show (parts x).isFinite = (parts y).isFinite
    rcases alike_of_same h with h | ⟨⟨s, hs⟩, ⟨t, ht⟩⟩
    · rw [h]
    · rw [hs, ht]
      rfl

end FluxBalance.Doubles
