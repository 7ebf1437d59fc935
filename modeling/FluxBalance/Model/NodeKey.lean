import FluxBalance.Text.Blank

/-!
# Keys that name nodes

In a model document nodes are named by keys, which are texts. A key stands for an integer. It may
have blanks at its ends, a plus sign, leading zeros if it is not negative, single underscores
between its digits, and a fraction of zeros.
-/

namespace FluxBalance.NodeKey

/-- A key without its plus sign, which no minus sign may follow. -/
def dropPlus : List Char → Option (List Char)
  | '+' :: '-' :: _ => none
  | '+' :: cs => some cs
  | cs => some cs

/-- Whether a character is a digit other than zero. -/
def isLeadingDigit (c : Char) : Bool := c.isDigit && c != '0'

/-- What is left of a key that begins with a zero, given the character before `cs`. -/
def dropZerosFrom (before : Char) : List Char → Option (List Char)
  | [] => some [before]
  | c :: cs =>
    if c = '0' ∨ c = '_' then dropZerosFrom c cs
    else if c = '.' then some (before :: c :: cs)
    else if isLeadingDigit c then some (c :: cs)
    else none

/-- A key without leading zeros; the last zero stays if no other digit follows. -/
def dropZeros : List Char → Option (List Char)
  | [] => none
  | c :: cs =>
    if c = '0' then dropZerosFrom c cs
    else if isLeadingDigit c ∨ c = '-' then some (c :: cs)
    else none

/-- A key without a fraction that consists of zeros. -/
def dropZeroFraction (cs : List Char) : List Char :=
  match cs.dropWhile (· != '.') with
  | '.' :: fraction => if fraction.all (· == '0') then cs.takeWhile (· != '.') else cs
  | _ => cs

/-- Whether two underscores follow one another. -/
def hasDoubleUnderscore : List Char → Bool
  | '_' :: '_' :: _ => true
  | _ :: cs => hasDoubleUnderscore cs
  | [] => false

/-- A key without the underscores between its digits. -/
def dropUnderscores (cs : List Char) : List Char :=
  if cs.head? = some '_' ∨ cs.getLast? = some '_' ∨ hasDoubleUnderscore cs then cs
  else cs.filter (· != '_')

/-- The value of plain digits without leading zeros. -/
def natural? (cs : List Char) : Option Nat :=
  if cs.isEmpty ∨ !cs.all Char.isDigit ∨ (cs.head? = some '0' ∧ 1 < cs.length) then none
  else some (cs.foldl (fun n c => 10 * n + (c.toNat - 48)) 0)

/-- The value of an integer written plainly. -/
def plain? : List Char → Option Int
  | '-' :: ds => (natural? ds).map fun n => -(n : Int)
  | ds => (natural? ds).map fun n => (n : Int)

/-- The integer that a key stands for. -/
def read? (key : String) : Option Int :=
  (plain? key.toList).or do
    let cs ← dropPlus (Text.unpad key.toList)
    let cs ← dropZeros cs
    plain? (dropUnderscores (dropZeroFraction cs))

end FluxBalance.NodeKey
