import FluxBalance.Json.Basic
import FluxBalance.Number.Read

/-!
# Reading JSON

A reader for JSON texts. It is strict about the grammar, accepts the words `NaN`, `Infinity`
and `-Infinity` as numbers, and reads numbers that are too large as infinite. Of the members of an
object with one name only the last counts. Values may be nested up to a given depth.
-/

namespace FluxBalance

namespace Json

/-! ### Tokens -/

/-- The white space between tokens. -/
def isSpace (c : Char) : Bool := c == ' ' || c == '\t' || c == '\n' || c == '\r'

/-- The text after the white space at its front. -/
def skipSpace (cs : List Char) : List Char := cs.dropWhile isSpace

/-- The rest of a text that begins with the given word. -/
def takeWord? : List Char → List Char → Option (List Char)
  | [], cs => some cs
  | w :: ws, c :: cs => if w = c then takeWord? ws cs else none
  | _ :: _, [] => none

/-- The value of a hexadecimal digit. -/
def hexValue? (c : Char) : Option Nat :=
  if c.isDigit then some (c.toNat - 48)
  else if 'a' ≤ c ∧ c ≤ 'f' then some (c.toNat - 87)
  else if 'A' ≤ c ∧ c ≤ 'F' then some (c.toNat - 55)
  else none

/-- The value of four hexadecimal digits at the front of a text, and the rest. -/
def takeHex4? : List Char → Option (Nat × List Char)
  | a :: b :: c :: d :: rest => do
    let n := (((← hexValue? a) * 16 + (← hexValue? b)) * 16 + (← hexValue? c)) * 16
      + (← hexValue? d)
    some (n, rest)
  | _ => none

/-- The character of the escape after a backslash and a letter `u`. Two escapes of surrogates
make one character; a surrogate alone is refused. -/
def takeUnicodeEscape? (cs : List Char) : Option (Char × List Char) := do
  let (n, rest) ← takeHex4? cs
  if 0xD800 ≤ n ∧ n < 0xDC00 then
    match rest with
    | '\\' :: 'u' :: rest =>
      let (m, rest) ← takeHex4? rest
      if 0xDC00 ≤ m ∧ m < 0xE000 then
        some (Char.ofNat (0x10000 + (n - 0xD800) * 0x400 + (m - 0xDC00)), rest)
      else none
    | _ => none
  else if 0xDC00 ≤ n ∧ n < 0xE000 then none
  else some (Char.ofNat n, rest)

/-- The characters of a string up to its closing quote, and the text after that. The first
argument bounds the number of characters. -/
def takeString? : Nat → List Char → List Char → Option (String × List Char)
  | 0, _, _ => none
  | n + 1, acc, cs =>
    match cs with
    | '"' :: rest => some (String.ofList acc.reverse, rest)
    | '\\' :: 'u' :: rest =>
      match takeUnicodeEscape? rest with
      | some (c, rest) => takeString? n (c :: acc) rest
      | none => none
    | '\\' :: c :: rest =>
      match c with
      | '"' | '\\' | '/' => takeString? n (c :: acc) rest
      | 'b' => takeString? n ('\x08' :: acc) rest
      | 'f' => takeString? n ('\x0c' :: acc) rest
      | 'n' => takeString? n ('\n' :: acc) rest
      | 'r' => takeString? n ('\r' :: acc) rest
      | 't' => takeString? n ('\t' :: acc) rest
      | _ => none
    | c :: rest => if c.toNat < 32 then none else takeString? n (c :: acc) rest
    | [] => none

/-- The digits at the front of a text. -/
def takePlainDigits (cs : List Char) : List Char × List Char :=
  (cs.takeWhile Char.isDigit, cs.dropWhile Char.isDigit)

/-- The value of plain digits. -/
def plainValue (ds : List Char) : Nat := ds.foldl (fun n c => 10 * n + (c.toNat - 48)) 0

/-- A number at the front of a text. Without point and exponent it is an integer. -/
def takeNumber? (cs : List Char) : Option (Json × List Char) :=
  let (negative, body) :=
    match cs with
    | '-' :: r => (true, r)
    | r => (false, r)
  let (whole, rest) := takePlainDigits body
  if whole.isEmpty ∨ (whole.head? = some '0' ∧ 1 < whole.length) then none
  else
    let fraction? : Option (List Char × List Char) :=
      match rest with
      | '.' :: r =>
        let (ds, r) := takePlainDigits r
        if ds.isEmpty then none else some (ds, r)
      | r => some ([], r)
    match fraction? with
    | none => none
    | some (fraction, rest) =>
      let exponent? : Option (Option Int × List Char) :=
        match rest with
        | c :: r =>
          if c = 'e' ∨ c = 'E' then
            let (minus, r) := Number.takeSign r
            let (ds, r) := takePlainDigits r
            if ds.isEmpty then none
            else some (some (if minus then -(plainValue ds : Int) else plainValue ds), r)
          else some (none, rest)
        | [] => some (none, [])
      match exponent? with
      | none => none
      | some (exponent, rest) =>
        if fraction.isEmpty ∧ exponent.isNone then
          let n : Int := plainValue whole
          some (.int (if negative then -n else n), rest)
        else
          let m := plainValue (whole ++ fraction)
          let e := exponent.getD 0 - (fraction.length : Int)
          some (.float (Number.ofDecimal negative m e), rest)

/-! ### Values -/

mutual

/-- A value at the front of a text. The first argument bounds the number of nested calls, the
second the depth of nesting. -/
def takeValue? : Nat → Nat → List Char → Option (Json × List Char)
  | 0, _, _ => none
  | n + 1, depth, cs =>
    match skipSpace cs with
    | '{' :: rest =>
      match depth with
      | 0 => none
      | depth + 1 =>
        match skipSpace rest with
        | '}' :: rest => some (.obj [], rest)
        | rest => (takeMembers? n depth [] rest).map fun (ms, r) => (.obj (dedupe ms), r)
    | '[' :: rest =>
      match depth with
      | 0 => none
      | depth + 1 =>
        match skipSpace rest with
        | ']' :: rest => some (.arr [], rest)
        | rest => (takeItems? n depth [] rest).map fun (xs, r) => (.arr xs, r)
    | '"' :: rest =>
      (takeString? (rest.length + 1) [] rest).map fun (s, r) => (.str s, r)
    | 't' :: rest => (takeWord? "rue".toList rest).map fun r => (.bool true, r)
    | 'f' :: rest => (takeWord? "alse".toList rest).map fun r => (.bool false, r)
    | 'n' :: rest => (takeWord? "ull".toList rest).map fun r => (.null, r)
    | 'N' :: rest => (takeWord? "aN".toList rest).map fun r => (.float (0.0 / 0.0), r)
    | 'I' :: rest => (takeWord? "nfinity".toList rest).map fun r => (.float (1.0 / 0.0), r)
    | '-' :: 'I' :: rest =>
      (takeWord? "nfinity".toList rest).map fun r => (.float (-1.0 / 0.0), r)
    | cs => takeNumber? cs

/-- The items of an array after its opening bracket, up to the closing one. -/
def takeItems? : Nat → Nat → List Json → List Char → Option (List Json × List Char)
  | 0, _, _, _ => none
  | n + 1, depth, acc, cs =>
    match takeValue? n depth cs with
    | none => none
    | some (v, rest) =>
      match skipSpace rest with
      | ',' :: rest => takeItems? n depth (v :: acc) rest
      | ']' :: rest => some ((v :: acc).reverse, rest)
      | _ => none

/-- The members of an object after its opening brace, up to the closing one. -/
def takeMembers? : Nat → Nat → List (String × Json) → List Char →
    Option (List (String × Json) × List Char)
  | 0, _, _, _ => none
  | n + 1, depth, acc, cs =>
    match skipSpace cs with
    | '"' :: rest =>
      match takeString? (rest.length + 1) [] rest with
      | none => none
      | some (name, rest) =>
        match skipSpace rest with
        | ':' :: rest =>
          match takeValue? n depth rest with
          | none => none
          | some (v, rest) =>
            match skipSpace rest with
            | ',' :: rest => takeMembers? n depth ((name, v) :: acc) rest
            | '}' :: rest => some (((name, v) :: acc).reverse, rest)
            | _ => none
        | _ => none
    | _ => none

end

/-- A whole text read as one JSON value whose parts are nested at most `depth` levels deep. -/
def readWithin? (depth : Nat) (text : String) : Option Json :=
  let cs := text.toList
  match takeValue? (2 * cs.length + 2) depth cs with
  | some (v, rest) => if (skipSpace rest).isEmpty then some v else none
  | none => none

/-- A whole text read as one JSON value of at most 200 levels. -/
def read? (text : String) : Option Json := readWithin? 200 text

end Json

end FluxBalance
