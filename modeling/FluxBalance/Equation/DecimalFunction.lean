import FluxBalance.Equation.Quantity

/-!
# Functions of decimals

Elementary functions of decimal constants are computed when an equation is read. Their arguments
and results may lie outside the range of the doubles, so exponentials, logarithms and powers
split off a power of two first.
-/

namespace FluxBalance.Equation

/-! ### Exponentials and logarithms -/

/-- The natural logarithm of two to sixty places. -/
def ln2 : Rat :=
  mkRat 693147180559945309417232121458176568075500134360255254120680 (Nat.pow 10 60)

/-- The rational value of a double that is known to be finite. -/
def ofFinite (x : Float) : Rat := (Number.toRat? x).getD 0

/-- The exponential of a rational, to the accuracy of a double. Beyond a million it counts as
infinite, below minus a million as zero. -/
def exponential (q : Rat) : Constant :=
  if 1000000 < q then .infinite false
  else if q < -1000000 then .zero
  else if -600 < q ∧ q < 600 then .decimal (ofFinite (Number.toDouble q).exp)
  else
    let k := (q / ln2).floor
    let rest := Number.toDouble (q - k * ln2)
    .decimal (ofFinite rest.exp * (2 : Rat) ^ k)

/-- The natural logarithm of a positive rational, to the accuracy of a double. -/
def logarithm (q : Rat) : Float :=
  let k := Number.floorLog2 q.num.natAbs q.den
  if -1000 < k ∧ k < 1000 then (Number.toDouble q).log
  else (Number.toDouble (q / (2 : Rat) ^ k)).log + Number.toDouble (k * ln2)

/-- A power of a positive rational, to the accuracy of a double. -/
def positivePower (b e : Rat) : Constant :=
  let z := (Number.toDouble b).pow (Number.toDouble e)
  if z.isFinite && 1e-290 < z && 0 < Number.toDouble b && (Number.toDouble b).isFinite then
    .decimal (ofFinite z)
  else exponential (ofFinite (logarithm b) * e)

/-! ### Rules for decimals -/

/-- How decimals are computed with: how results are rounded, and how integer powers are made. -/
structure DecimalRules where
  round : Rounding
  power : Rat → Int → Constant

/-- The power of a rational that is not zero if the exponent is negative, exactly. -/
def exactIntegerPower (b : Rat) (n : Int) : Constant := .decimal (b ^ n)

/-- The rules of doubles with unlimited exponents. Powers beyond the millionth are computed by
way of logarithms. -/
def doubleRules : DecimalRules where
  round := toDoubleDigits
  power b n :=
    if n.natAbs ≤ 1000000 then exactIntegerPower b n
    else
      let p := positivePower (if b < 0 then -b else b) n
      if b < 0 ∧ n % 2 = 1 then p.neg else p

/-- The rules under which decimals are rational numbers and nothing is rounded. -/
def rationalRules : DecimalRules where
  round q := q
  power := exactIntegerPower

/-- A constant with a decimal value rounded; a value of zero is exact. -/
def Constant.rounded (rules : DecimalRules) : Constant → Constant
  | .decimal q => .ofDecimal rules.round q
  | c => c

/-! ### Functions -/

/-- The gamma function of a number that is at least one half, by an approximation of
fifteen digits. -/
def gammaFrom (x : Float) : Float :=
  let g : Float := 7
  let coefficients : List Float := [
    676.5203681218851, -1259.1392167224028, 771.32342877765313, -176.61502916214059,
    12.507343278686905, -0.13857109526572012, 9.9843695780195716e-6, 1.5056327351493116e-7]
  let y := x - 1
  let series : Float :=
    (coefficients.foldl
      (fun (acc : Float × Float) (c : Float) => (acc.1 + c / (y + acc.2), acc.2 + 1))
      (0.99999999999980993, 1)).1
  let t := y + g + 0.5
  2.5066282746310005 * t.pow (y + 0.5) * (-t).exp * series

/-- The product of the whole numbers from one to `n`. -/
def factorialOf (n : Nat) : Nat := (List.range n).foldl (fun p k => p * (k + 1)) 1

/-- The product of the numbers from `n` down in steps of two, as long as they are positive. -/
def doubleFactorialOf (n : Nat) : Nat :=
  (List.range n).foldl (fun p k => if (n - k) % 2 = n % 2 then p * (n - k) else p) 1

/-- The factorial of a decimal. -/
def decimalFactorial (q : Rat) : Option Constant :=
  if q.den = 1 then
    if q < 0 then some .unsigned
    else if q ≤ 1000 then some (.decimal (factorialOf q.num.toNat))
    else none
  else
    let x := Number.toDouble q
    if -100 < x ∧ x < 150 then
      let pi : Float := 3.141592653589793
      let z : Float :=
        if x < -0.5 then pi / ((pi * (x + 1)).sin * gammaFrom (-x)) else gammaFrom (x + 1)
      some (.decimal (ofFinite z))
    else none

/-- The integer at or below a rational, or at or above it. -/
def roundedTo (f : Fn) (q : Rat) : Int := if f = .ceiling then q.ceil else q.floor

/-- A function of a decimal before it is rounded; none where the result is no real number. -/
def decimalFunction (f : Fn) (q : Rat) : Option Constant :=
  match f with
  | .exp => some (exponential q)
  | .log => if 0 < q then some (.decimal (ofFinite (logarithm q))) else none
  | .sinh | .cosh =>
    if -600 < q ∧ q < 600 then viaDouble
    else
      let p := exponential (if q < 0 then -q else q)
      let half := Constant.mul (fun q => q) p (.exact (mkRat 1 2))
      some (if q < 0 ∧ f = .sinh then half.neg else half)
  | .abs => some (.decimal (if q < 0 then -q else q))
  | .sign => some (.exact (if q < 0 then -1 else if q = 0 then 0 else 1))
  | .floor | .ceiling => some (.exact (roundedTo f q))
  | .factorial => decimalFactorial q
  | _ => viaDouble
where
  /-- The function of the nearest double. -/
  viaDouble : Option Constant := do
    let x := Number.toDouble q
    if x.isFinite then
      let y ← Quantity.applyReal f x
      some (.decimal (← Number.toRat? y))
    else none

end FluxBalance.Equation
