import FluxBalance.Json.Basic
import FluxBalance.Number.Decimal
import FluxBalance.Text.Quoted

/-!
# Writing JSON

A JSON value as text, on one line or with one item a line, each indented by two blanks for each
level. Only the characters of ASCII occur in the text: all others are written as escapes of
their UTF-16 units. Numbers that are not finite are written as the words `NaN`, `Infinity` and
`-Infinity`.
-/

namespace FluxBalance

namespace Json

/-! ### Strings and numbers -/

/-- An escape of one UTF-16 unit. -/
def unitEscape (n : Nat) : List Char := ['\\', 'u'] ++ Text.hexadecimal 4 n

/-- One character inside a JSON string. -/
def escapeChar (c : Char) : List Char :=
  let n := c.toNat
  if c = '"' then ['\\', '"']
  else if c = '\\' then ['\\', '\\']
  else if c = '\n' then ['\\', 'n']
  else if c = '\r' then ['\\', 'r']
  else if c = '\t' then ['\\', 't']
  else if n = 8 then ['\\', 'b']
  else if n = 12 then ['\\', 'f']
  else if 32 ≤ n ∧ n < 127 then [c]
  else if n < 0x10000 then unitEscape n
  else unitEscape (0xD800 + (n - 0x10000) / 0x400) ++ unitEscape (0xDC00 + (n - 0x10000) % 0x400)

/-- A JSON string with its quotes. -/
def stringText (s : String) : String :=
  String.ofList (['"'] ++ s.toList.flatMap escapeChar ++ ['"'])

/-- A double as a JSON number. -/
def floatText (x : Float) : String :=
  if x.isFinite then Number.shortest x
  else if x != x then "NaN"
  else if x < 0 then "-Infinity"
  else "Infinity"

/-- The text of a value without parts. -/
def atomText : Json → String
  | bool true => "true"
  | bool false => "false"
  | int n => toString n
  | float x => floatText x
  | str s => stringText s
  | _ => "null"

/-! ### Layout -/

/-- How the parts of a list or an object are set apart. -/
structure Layout where
  /-- Whether every part stands on a line of its own. -/
  lines : Bool
  deriving Repr, DecidableEq

/-- What stands before a part, or before the closing bracket, at the given level. -/
def Layout.lead (l : Layout) (level : Nat) : String :=
  if l.lines then "\n" ++ String.ofList (List.replicate (2 * level) ' ') else ""

/-- What stands between two parts at the given level. -/
def Layout.separator (l : Layout) (level : Nat) : String :=
  if l.lines then "," ++ l.lead level else ", "

mutual

/-- The text of a value at a level of nesting. -/
def write (l : Layout) (level : Nat) : Json → String
  | arr [] => "[]"
  | arr (x :: xs) =>
    "[" ++ l.lead (level + 1) ++ write l (level + 1) x ++ writeItems l (level + 1) xs
      ++ l.lead level ++ "]"
  | obj [] => "\x7b\x7d"
  | obj ((name, x) :: ms) =>
    "\x7b" ++ l.lead (level + 1) ++ stringText name ++ ": " ++ write l (level + 1) x
      ++ writeMembers l (level + 1) ms ++ l.lead level ++ "\x7d"
  | v => atomText v

/-- The items of a list after the first one. -/
def writeItems (l : Layout) (level : Nat) : List Json → String
  | [] => ""
  | x :: xs => l.separator level ++ write l level x ++ writeItems l level xs

/-- The members of an object after the first one. -/
def writeMembers (l : Layout) (level : Nat) : List (String × Json) → String
  | [] => ""
  | (name, x) :: ms =>
    l.separator level ++ stringText name ++ ": " ++ write l level x ++ writeMembers l level ms

end

/-- A value as one line of text. -/
def line (v : Json) : String := write ⟨false⟩ 0 v

/-- A value as indented text. -/
def pretty (v : Json) : String := write ⟨true⟩ 0 v

end Json

end FluxBalance
