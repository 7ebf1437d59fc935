import FluxBalance.Text.Alphabet
import FluxBalance.Text.Blank

/-!
# Tokens of equations

An equation's text cut into numbers, names, quoted texts and operators. Blanks, tabs and form
feeds separate tokens; line breaks do so inside parentheses only. A comment runs from `#` to the
end of its line. Parentheses may be nested up to a limit, and a number counts as one more level.
-/

namespace FluxBalance.Equation

/-- A token. -/
inductive Token where
  | integer (n : Nat)
  /-- The decimal `mantissa · 10 ^ exponent`. -/
  | decimal (mantissa : Nat) (exponent : Int)
  | imaginary
  | name (text : String)
  | quoted
  | op (symbol : String)
  deriving Repr, DecidableEq

namespace Token

/-! ### Numbers -/

/-- Digits at the front of a text, with single underscores before them, and the rest. The test
says what a digit is. -/
def takeGroup (isDigit : Char → Bool) : List Char → List Char × List Char
  | [] => ([], [])
  | c :: cs =>
    if isDigit c then
      let (ds, rest) := takeGroup isDigit cs
      (c :: ds, rest)
    else if c = '_' && startsWithDigit cs then takeGroup isDigit cs
    else ([], c :: cs)
where
  /-- Whether the first character of a text is a digit. -/
  startsWithDigit : List Char → Bool
    | d :: _ => isDigit d
    | [] => false

/-- The value of a digit of a base up to sixteen. -/
def digitValue (c : Char) : Nat :=
  if c.isDigit then c.toNat - 48 else if 'a' ≤ c then c.toNat - 87 else c.toNat - 55

/-- The value of digits in a base. -/
def groupValue (base : Nat) (ds : List Char) : Nat :=
  ds.foldl (fun n c => base * n + digitValue c) 0

/-- Whether a character is a digit of a base up to sixteen. -/
def isDigitOf (base : Nat) (c : Char) : Bool :=
  (c.isDigit || ('a' ≤ c && c ≤ 'f') || ('A' ≤ c && c ≤ 'F')) && digitValue c < base

/-- An exponent at the front of a text and the rest, if there is one. -/
def takeExponent? : List Char → Option (Int × List Char)
  | c :: cs =>
    if c = 'e' ∨ c = 'E' then
      let (negative, cs) : Bool × List Char :=
        match cs with
        | '-' :: r => (true, r)
        | '+' :: r => (false, r)
        | r => (false, r)
      if takeGroup.startsWithDigit Char.isDigit cs then
        let (ds, rest) := takeGroup Char.isDigit cs
        let n : Int := groupValue 10 ds
        some (if negative then -n else n, rest)
      else none
    else none
  | [] => none

/-- A number with a point at the front of a text: what stands after the point and in the
exponent, and the rest. The argument is what stands before the point. -/
def takeFraction (whole cs : List Char) : Token × List Char :=
  let (fraction, rest) :=
    if takeGroup.startsWithDigit Char.isDigit cs then takeGroup Char.isDigit cs else ([], cs)
  let m := groupValue 10 (whole ++ fraction)
  let places : Int := fraction.length
  match takeExponent? rest with
  | some (e, rest) => (.decimal m (e - places), rest)
  | none => (.decimal m (-places), rest)

/-- An integer in another base than ten at the front of a text, after its zero. -/
def takeBased? : List Char → Option (Nat × List Char)
  | c :: cs =>
    let base? : Option Nat :=
      match c with
      | 'x' | 'X' => some 16
      | 'o' | 'O' => some 8
      | 'b' | 'B' => some 2
      | _ => none
    match base? with
    | none => none
    | some base =>
      match takeGroup (isDigitOf base) cs with
      | ([], _) => none
      | (ds, rest) => some (groupValue base ds, rest)
  | [] => none

/-- A number at the front of a text, before a letter for the imaginary unit is looked for.
An integer does not begin with a zero unless it is zero. -/
def takePlainNumber? (cs : List Char) : Option (Token × List Char) :=
  match cs with
  | '.' :: r => some (takeFraction [] r)
  | cs =>
    let (whole, rest) := takeGroup Char.isDigit cs
    match rest with
    | '.' :: r => some (takeFraction whole r)
    | rest =>
      match takeExponent? rest with
      | some (e, rest) => some (.decimal (groupValue 10 whole) e, rest)
      | none =>
        match whole, takeBased? rest with
        | ['0'], some (n, rest) => some (.integer n, rest)
        | _, _ =>
          let n := groupValue 10 whole
          let imaginary := rest.head? = some 'j' ∨ rest.head? = some 'J'
          if whole.head? = some '0' ∧ n ≠ 0 ∧ ¬ imaginary then none
          else some (.integer n, rest)

/-- The tokens of a number at the front of a text, and the rest. A number with a letter `j` is a
multiple of the imaginary unit. -/
def takeNumber? (cs : List Char) : Option (List Token × List Char) :=
  match takePlainNumber? cs with
  | none => none
  | some (t, rest) =>
    match rest with
    | c :: more =>
      if c = 'j' ∨ c = 'J' then some ([t, .op "*", .imaginary], more) else some ([t], rest)
    | [] => some ([t], [])

/-! ### Other tokens -/

/-- The rest of a text after a quoted text, which ends on its line. The first argument bounds
the number of characters. -/
def skipQuoted? (quote : Char) : Nat → List Char → Option (List Char)
  | 0, _ => none
  | n + 1, cs =>
    match cs with
    | '\\' :: _ :: rest => skipQuoted? quote n rest
    | c :: rest =>
      if c = quote then some rest
      else if c = '\n' then none
      else skipQuoted? quote n rest
    | [] => none

/-- The operators, longer ones before their beginnings. -/
def operators : List String := [
  "...", "**", "//", "<=", ">=", "==", "!=", "<", ">", "+", "-", "*", "/", "%", "^", "!", "~",
  "&", "|", ",", ":", "(", ")", "[", "]", "\x7b", "\x7d"]

/-- An operator at the front of a text, and the rest. -/
def takeOperator? (cs : List Char) : Option (String × List Char) :=
  operators.findSome? fun s =>
    if s.toList.isPrefixOf cs then some (s, cs.drop s.length) else none

/-- Whether a number or a name may stand at the given depth of parentheses. -/
def depthLimit : Nat := 200

/-- The depth of parentheses after an operator; none if it is too large. -/
def depthAfter? (depth : Nat) (symbol : String) : Option Nat :=
  if symbol = "(" ∨ symbol = "[" ∨ symbol = "\x7b" then
    if depth < depthLimit then some (depth + 1) else none
  else if symbol = ")" ∨ symbol = "]" ∨ symbol = "\x7d" then some (depth - 1)
  else some depth

/-- Whether a name that begins with the first character and goes on with the others is an
identifier. Names that begin outside the basic alphabet may contain any word characters. -/
def isName (c : Char) (cs : List Char) : Bool :=
  Text.isIdentifierStart c && (127 < c.toNat || cs.all Text.isIdentifierContinue)

/-- The tokens of a text at a depth of parentheses. The first argument bounds their number. -/
def scan? : Nat → Nat → List Char → Option (List Token)
  | 0, _, _ => none
  | n + 1, depth, cs =>
    match cs with
    | [] => some []
    | c :: rest =>
      if c = ' ' ∨ c = '\t' ∨ c = '\x0c' then scan? n depth rest
      else if c = '\n' then if depth = 0 then none else scan? n depth rest
      else if c = '#' then scan? n depth (rest.dropWhile (· != '\n'))
      else if c.isDigit || (c = '.' && takeGroup.startsWithDigit Char.isDigit rest) then
        match takeNumber? cs with
        | none => none
        | some (ts, rest) =>
          if depth < depthLimit then (scan? n depth rest).map (ts ++ ·) else none
      else if Text.isWord c then
        let tail := rest.takeWhile Text.isWord
        if isName c tail then
          (scan? n depth (rest.dropWhile Text.isWord)).map (.name (String.ofList (c :: tail)) :: ·)
        else none
      else if c = '\'' ∨ c = '"' then
        match skipQuoted? c (rest.length + 1) rest with
        | none => none
        | some rest => (scan? n depth rest).map (.quoted :: ·)
      else
        match takeOperator? cs with
        | none => none
        | some (symbol, rest) =>
          match depthAfter? depth symbol with
          | none => none
          | some depth => (scan? n depth rest).map (.op symbol :: ·)

/-- The tokens of a text without the blanks at its ends. -/
def ofText? (text : String) : Option (List Token) :=
  let cs := Text.stripChars text.toList
  scan? (cs.length + 1) 0 cs

/-! ### Names that stand alone -/

/-- Whether the first visible character of a text opens a parenthesis. -/
def opensParenthesis (cs : List Char) : Bool :=
  match cs.dropWhile Text.isBlank with
  | '(' :: _ => true
  | _ => false

/-- The names of the basic alphabet that are not followed by a parenthesis, wherever they stand
in a text. The flag says whether a word goes on at the front of the text; the first argument
bounds the number of steps. -/
def bareNamesFrom : Nat → Bool → List Char → List String
  | 0, _, _ => []
  | _ + 1, _, [] => []
  | n + 1, inside, c :: rest =>
    if Text.isWord c then
      if inside then bareNamesFrom n true rest
      else
        let tail := rest.takeWhile Text.isWord
        let after := rest.dropWhile Text.isWord
        if (c.isAlpha || c = '_') && !opensParenthesis after then
          String.ofList (c :: tail) :: bareNamesFrom n true after
        else bareNamesFrom n true after
    else bareNamesFrom n false rest

/-- The names of the basic alphabet that are not followed by a parenthesis. -/
def bareNames (text : String) : List String :=
  let cs := text.toList
  bareNamesFrom (cs.length + 1) false cs

end Token

end FluxBalance.Equation
