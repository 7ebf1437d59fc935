import FluxBalance.Number.Binary

/-!
# Decimal texts of doubles

Two ways to write a double in decimal. `Scientific.ofRat` keeps a given number of significant
digits, rounding the exact binary value with ties to even. `shortest` keeps the fewest digits
that still read back as the same double, and of those the ones nearest to it.
-/

namespace FluxBalance.Number

/-! ### A fixed number of significant digits -/

/-- A positive decimal `d.ddd… · 10 ^ exponent`, its digits held as one integer. -/
structure Scientific where
  /-- The significant digits, read as an integer. -/
  digits : Nat
  /-- How many significant digits there are. -/
  count : Nat
  /-- The decimal exponent of the leading digit. -/
  exponent : Int
  deriving Repr, DecidableEq

namespace Scientific

/-- The digits as characters, with leading zeros up to the count. -/
def digitChars (s : Scientific) : List Char :=
  let ds := (Nat.toDigits 10 s.digits)
  List.replicate (s.count - ds.length) '0' ++ ds

/-- The positive rational `num / den` rounded to `count` significant digits, ties to even. -/
def ofQuotient (count num den : Nat) : Scientific :=
  let e := floorLog10 num den
  let m := roundScaled num den 10 ((count : Int) - 1 - e)
  if m = Nat.pow 10 count then ⟨Nat.pow 10 (count - 1), count, e + 1⟩ else ⟨m, count, e⟩

/-- The exact value of a decimal. -/
def toRat (s : Scientific) : Rat := scaled s.digits 10 (s.exponent - ((s.count : Int) - 1))

end Scientific

/-! ### The fewest digits -/

/-- The decimals of `count` digits next to `num / den`, at most one on each side of it. The nearer
one comes first; of two equally near ones, the one whose last digit is even. -/
def neighbours (count num den : Nat) : List Scientific :=
  let e := floorLog10 num den
  let (n, d) := scaleQuotient num den 10 ((count : Int) - 1 - e)
  let low := n / d
  let up (m : Nat) : Scientific :=
    if m = Nat.pow 10 count then ⟨Nat.pow 10 (count - 1), count, e + 1⟩ else ⟨m, count, e⟩
  if n % d = 0 then [up low]
  else if roundDiv n d = low then [up low, up (low + 1)] else [up (low + 1), up low]

/-- The first decimal of at most 17 digits, fewest first and nearest first among those, that
the positive finite double `x` is the nearest double to. Seventeen digits always suffice. -/
def shortestOf (x : Float) (num den : Nat) : Scientific :=
  let hits := (List.range 17).flatMap fun k =>
    (neighbours (k + 1) num den).filter fun s => toDouble s.toRat == x
  hits.headD (Scientific.ofQuotient 17 num den)

/-! ### Written forms -/

/-- The decimal places of an exponent: a sign and at least two digits. -/
def exponentText (e : Int) : String :=
  let ds := toString e.natAbs
  (if e < 0 then "e-" else "e+") ++ (if ds.length < 2 then "0" ++ ds else ds)

/-- Positive decimals between `10⁻⁴` and `10¹⁶` are written positionally, with at least one
digit after the point; all others with an exponent and no trailing zeros. -/
def Scientific.shortText (s : Scientific) : String :=
  let ds := s.digitChars
  if -4 ≤ s.exponent ∧ s.exponent < 16 then
    if s.exponent < 0 then
      String.ofList ("0.".toList ++ List.replicate ((-s.exponent).toNat - 1) '0' ++ ds)
    else
      let k := s.exponent.toNat + 1
      let whole := ds.take k ++ List.replicate (k - ds.length) '0'
      let rest := ds.drop k
      String.ofList (whole ++ ['.'] ++ (if rest.isEmpty then ['0'] else rest))
  else
    let rest := ds.drop 1
    String.ofList (ds.take 1 ++ (if rest.isEmpty then [] else '.' :: rest))
      ++ exponentText s.exponent

/-- The shortest text that reads back as the double: `1.0`, `-0.0`, `1e+16`, `inf`, `nan`. -/
def shortest (x : Float) : String :=
  match partsOf? x with
  | none => if x != x then "nan" else if x < 0 then "-inf" else "inf"
  | some p =>
    let q := p.toRat
    let sign := if p.negative then "-" else ""
    if q.num = 0 then sign ++ "0.0"
    else sign ++ (shortestOf x.abs q.num.natAbs q.den).shortText

/-- A double with three digits after the point and an exponent of at least two digits. -/
def threePlaces (x : Float) : String :=
  match partsOf? x with
  | none => if x != x then "nan" else if x < 0 then "-inf" else "inf"
  | some p =>
    let q := p.toRat
    let sign := if p.negative then "-" else ""
    if q.num = 0 then sign ++ "0.000e+00"
    else
      let s := Scientific.ofQuotient 4 q.num.natAbs q.den
      sign ++ String.ofList (s.digitChars.take 1 ++ ['.'] ++ s.digitChars.drop 1)
        ++ exponentText s.exponent

/-- A list of doubles in brackets, each in its shortest form. -/
def shortestList (xs : List Float) : String :=
  "[" ++ ", ".intercalate (xs.map shortest) ++ "]"

end FluxBalance.Number
