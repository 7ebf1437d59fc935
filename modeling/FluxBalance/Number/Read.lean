import FluxBalance.Number.Decimal
import FluxBalance.Text.Blank

/-!
# Reading numbers

Decimal texts read as integers and as the nearest doubles. The forms with a letter `E`, the
words for infinity and for an undefined number, digit groups separated by single underscores
and the decimal digits of every script are understood.
-/

namespace FluxBalance.Number

/-! ### Digits -/

/-- The code points of the digits zero of all scripts; the other nine digits of a script follow
its zero. -/
def zeroDigits : List Nat := [
  48, 1632, 1776, 1984, 2406, 2534, 2662, 2790, 2918, 3046, 3174, 3302, 3430, 3558, 3664, 3792,
  3872, 4160, 4240, 6112, 6160, 6470, 6608, 6784, 6800, 6992, 7088, 7232, 7248, 42528, 43216,
  43264, 43472, 43504, 43600, 44016, 65296, 66720, 68912, 69734, 69872, 69942, 70096, 70384,
  70736, 70864, 71248, 71360, 71472, 71904, 72016, 72784, 73040, 73120, 92768, 92864, 93008,
  120782, 120792, 120802, 120812, 120822, 123200, 123632, 125264, 130032]

/-- The value of a decimal digit of any script. -/
def digitValue? (c : Char) : Option Nat :=
  if c.toNat < 128 then (if c.isDigit then some (c.toNat - 48) else none)
  else (zeroDigits.find? fun z => z ≤ c.toNat && c.toNat < z + 10).map (c.toNat - ·)

/-- The value of a list of digits read after the value `acc`. -/
def digitsValue (acc : Nat) (ds : List Nat) : Nat := ds.foldl (fun n d => 10 * n + d) acc

/-- The text after an underscore that stands before a digit; any other text is unchanged. -/
def skipSeparator : List Char → List Char
  | '_' :: c :: cs => if (digitValue? c).isSome then c :: cs else '_' :: c :: cs
  | cs => cs

theorem length_skipSeparator (cs : List Char) : (skipSeparator cs).length ≤ cs.length := by
  unfold skipSeparator
  split
  · split <;> simp
  · exact Nat.le_refl _

/-- The digits at the front of a text, and the rest. One underscore may stand between two
digits. -/
def takeDigits : List Char → List Nat × List Char
  | [] => ([], [])
  | c :: cs =>
    match digitValue? c with
    | none => ([], c :: cs)
    | some d =>
      let (ds, rest) := takeDigits (skipSeparator cs)
      (d :: ds, rest)
termination_by cs => cs.length
decreasing_by
  have := length_skipSeparator cs
  simp only [List.length_cons]
  omega

/-! ### Decimals -/

/-- The double nearest to `± mantissa · 10 ^ exponent`. Numbers beyond `10 ^ 400` or below
`10 ^ -400` are far outside the doubles and are not computed. -/
def ofDecimal (negative : Bool) (mantissa : Nat) (exponent : Int) : Float :=
  let size : Int := ((Nat.toDigits 10 mantissa).length : Int) + exponent
  if mantissa = 0 ∨ size < -400 then nearestDouble negative 0 1
  else if 400 < size then if negative then -1.0 / 0.0 else 1.0 / 0.0
  else
    let (n, d) := scaleQuotient mantissa 1 10 exponent
    nearestDouble negative n d

/-- A sign at the front of a text: whether it is a minus, and the rest. -/
def takeSign : List Char → Bool × List Char
  | '-' :: cs => (true, cs)
  | '+' :: cs => (false, cs)
  | cs => (false, cs)

/-- An exponent `e±digits` at the front of a text and the rest; no exponent counts as zero. -/
def takeExponent : List Char → Int × List Char
  | c :: cs =>
    if c = 'e' ∨ c = 'E' then
      let (negative, rest) := takeSign cs
      let (ds, rest) := takeDigits rest
      if ds.isEmpty then (0, c :: cs)
      else
        let n : Int := digitsValue 0 ds
        (if negative then -n else n, rest)
    else (0, c :: cs)
  | [] => (0, [])

/-- An unsigned decimal at the front of a text, as mantissa and exponent, with the rest. There
is at least one digit before or after the point. -/
def takeDecimal (cs : List Char) : Option ((Nat × Int) × List Char) :=
  let (whole, rest) := takeDigits cs
  let (fraction, rest) :=
    match rest with
    | '.' :: r => takeDigits r
    | r => ([], r)
  if whole.isEmpty && fraction.isEmpty then none
  else
    let (e, rest) := takeExponent rest
    some ((digitsValue (digitsValue 0 whole) fraction, e - (fraction.length : Int)), rest)

/-! ### Whole texts -/

/-- A text read as a double: blanks at the ends, a sign, and a decimal or a word for infinity
or an undefined number. -/
def readDouble? (s : String) : Option Float :=
  let (negative, body) := takeSign (Text.unpad s.toList)
  let word := String.ofList (body.map Char.toLower)
  if word = "inf" ∨ word = "infinity" then
    some (if negative then -1.0 / 0.0 else 1.0 / 0.0)
  else if word = "nan" then some (0.0 / 0.0)
  else
    match takeDecimal body with
    | some ((m, e), []) => some (ofDecimal negative m e)
    | _ => none

/-- A text read as an exact rational: blanks at the ends, a sign and a decimal. -/
def readRat? (s : String) : Option Rat :=
  let (negative, body) := takeSign (Text.unpad s.toList)
  match takeDecimal body with
  | some ((m, e), []) => some (if negative then -scaled m 10 e else scaled m 10 e)
  | _ => none

/-- A text read as an integer: blanks at the ends, a sign and digits. -/
def readInt? (s : String) : Option Int :=
  let (negative, body) := takeSign (Text.unpad s.toList)
  match takeDigits body with
  | ([], _) => none
  | (ds, []) =>
    let n : Int := digitsValue 0 ds
    some (if negative then -n else n)
  | _ => none

/-- An integer as a double; none if it is too large for one. -/
def ofInt? (n : Int) : Option Float :=
  let x := nearestDouble (n < 0) n.natAbs 1
  if x.isFinite then some x else none

end FluxBalance.Number
