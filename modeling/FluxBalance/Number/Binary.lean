import FluxBalance.Number.Rounding

/-!
# Doubles as binary rationals

A finite double is a rational number `± m · 2 ^ e` with `m < 2 ^ 53`. This module reads a double
as that exact rational, rounds a rational to the nearest double, and rounds a rational to a
given number of significant binary digits with no bound on the exponent, which is how decimal
constants inside equations are computed.
-/

namespace FluxBalance.Number

/-! ### From doubles to rationals -/

/-- A finite double taken apart: its sign, significand and binary exponent. -/
structure Parts where
  /-- Whether the sign bit is set. -/
  negative : Bool
  /-- The integer significand. -/
  significand : Nat
  /-- The power of two that scales the significand. -/
  exponent : Int
  deriving Repr, DecidableEq

/-- The parts of a finite double; `none` for the infinities and for NaN. -/
def partsOf? (x : Float) : Option Parts :=
  let bits : Nat := x.toBits.toNat
  let negative : Bool := bits / Nat.pow 2 63 == 1
  let biased : Nat := bits / Nat.pow 2 52 % 2048
  let fraction : Nat := bits % Nat.pow 2 52
  if biased = 2047 then none
  else if biased = 0 then some ⟨negative, fraction, -1074⟩
  else some ⟨negative, Nat.pow 2 52 + fraction, (biased : Int) - 1075⟩

/-- The rational value of the parts. -/
def Parts.toRat (p : Parts) : Rat :=
  let q := scaled p.significand 2 p.exponent
  if p.negative then -q else q

/-- The exact value of a finite double; zero of either sign is zero. -/
def toRat? (x : Float) : Option Rat := (partsOf? x).map Parts.toRat

/-! ### From rationals to doubles -/

/-- The double with the given sign whose magnitude is nearest to `num / den`, ties to even;
beyond the largest double it is infinite. -/
def nearestDouble (negative : Bool) (num den : Nat) : Float :=
  let sign : Nat := if negative then Nat.pow 2 63 else 0
  if num = 0 then Float.ofBits sign.toUInt64
  else
    let e := max (floorLog2 num den - 52) (-1074)
    let m := roundScaled num den 2 (-e)
    let (m, e) := if m = Nat.pow 2 53 then (Nat.pow 2 52, e + 1) else (m, e)
    if m < Nat.pow 2 52 then Float.ofBits (sign + m).toUInt64
    else
      let biased := (e + 1075).toNat
      if 2047 ≤ biased then Float.ofBits (sign + 2047 * Nat.pow 2 52).toUInt64
      else Float.ofBits (sign + biased * Nat.pow 2 52 + (m - Nat.pow 2 52)).toUInt64

/-- The double nearest to a rational number, ties to even. -/
def toDouble (q : Rat) : Float := nearestDouble (q.num < 0) q.num.natAbs q.den

/-! ### Rounding to significant digits -/

/-- A rational rounded to `digits` significant digits in the given base, ties to even, with an
exponent of any size. -/
def roundSignificant (base digits : Nat) (q : Rat) : Rat :=
  if q.num = 0 then 0
  else
    let n := q.num.natAbs
    let magnitude := if base = 2 then floorLog2 n q.den else floorLog10 n q.den
    let e : Int := magnitude - ((digits : Int) - 1)
    let r := scaled (roundScaled n q.den base (-e)) base e
    if q.num < 0 then -r else r

end FluxBalance.Number
