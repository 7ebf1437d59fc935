import FluxBalance.Text.Alphabet

/-!
# Quoted texts

A text in quotes, as it is shown in messages and logs. The quotes are single ones, unless the
text contains a single quote and no double quote. Backslashes and the quote in use are
escaped, and characters that cannot be printed are written by their code points.
-/

namespace FluxBalance.Text

/-- A code point in hexadecimal, with leading zeros up to the given width. -/
def hexadecimal (width n : Nat) : List Char :=
  let ds := Nat.toDigits 16 n
  List.replicate (width - ds.length) '0' ++ ds

/-- One character inside quotes of the given kind. -/
def quoteChar (quote c : Char) : List Char :=
  let n := c.toNat
  if c = quote ∨ c = '\\' then ['\\', c]
  else if c = '\n' then ['\\', 'n']
  else if c = '\r' then ['\\', 'r']
  else if c = '\t' then ['\\', 't']
  else if isPrintable c then [c]
  else if n < 0x100 then ['\\', 'x'] ++ hexadecimal 2 n
  else if n < 0x10000 then ['\\', 'u'] ++ hexadecimal 4 n
  else ['\\', 'U'] ++ hexadecimal 8 n

/-- The quote that surrounds a text. -/
def quoteFor (s : String) : Char :=
  if s.toList.contains '\'' && !s.toList.contains '"' then '"' else '\''

/-- A text in quotes. -/
def quoted (s : String) : String :=
  let q := quoteFor s
  String.ofList ([q] ++ s.toList.flatMap (quoteChar q) ++ [q])

/-- A list of quoted texts in brackets. -/
def quotedList (xs : List String) : String :=
  "[" ++ ", ".intercalate (xs.map quoted) ++ "]"

/-- Quoted texts in parentheses; a single one keeps a comma after it. -/
def quotedTuple (xs : List String) : String :=
  match xs with
  | [x] => "(" ++ quoted x ++ ",)"
  | _ => "(" ++ ", ".intercalate (xs.map quoted) ++ ")"

end FluxBalance.Text
