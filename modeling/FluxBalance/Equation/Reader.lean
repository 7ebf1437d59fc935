import FluxBalance.Equation.Formula
import FluxBalance.Equation.Token

/-!
# Reading formulas

The grammar of formulas. From the loosest to the tightest the operators are comparisons, `|`,
`&`, sums, products (with integer quotients and remainders), signs, powers, which associate to
the right, and factorials after their operand.

Comparisons, truth values, quoted texts and collections are read too, but only to tell a text
that is well-formed and no scalar from one that is not well-formed.
-/

namespace FluxBalance.Equation

/-- What a well-formed text stands for. -/
inductive Operand where
  | scalar (f : Formula)
  /-- A comparison of order; the flag says whether names occur in it. -/
  | relation (symbolic : Bool)
  | truth
  | boolean
  | collection
  deriving Repr, DecidableEq

/-- Words that are no names. -/
def keywords : List String := [
  "and", "as", "assert", "async", "await", "break", "class", "continue", "def", "del", "elif",
  "else", "except", "finally", "for", "from", "global", "if", "import", "in", "is", "lambda",
  "nonlocal", "not", "or", "pass", "raise", "return", "try", "while", "with", "yield"]

/-- Whether a name or a function occurs in a formula. -/
def Formula.hasNames : Formula → Bool
  | .name _ | .function _ | .call .. => true
  | .neg a | .factorial a | .doubleFactorial a => a.hasNames
  | .add a b | .sub a b | .mul a b | .div a b | .floorDiv a b | .mod a b | .pow a b =>
    a.hasNames || b.hasNames
  | _ => false

namespace Reader

/-! ### Operators -/

/-- A result of reading, and the tokens after it. -/
abbrev Reading := Option (Operand × List Token)

/-- An operation on two scalars. -/
def onScalars (op : Formula → Formula → Formula) : Operand → Operand → Option Operand
  | .scalar a, .scalar b => some (.scalar (op a b))
  | _, _ => none

/-- The additive operator with the given symbol. -/
def additive? : String → Option (Formula → Formula → Formula)
  | "+" => some .add
  | "-" => some .sub
  | _ => none

/-- The multiplicative operator with the given symbol. -/
def multiplicative? : String → Option (Formula → Formula → Formula)
  | "*" => some .mul
  | "/" => some .div
  | "//" => some .floorDiv
  | "%" => some .mod
  | _ => none

/-- Whether an operand can stand beside `&` and `|`: a name or a truth value. -/
def isLogical : Operand → Bool
  | .scalar (.name _) | .relation _ | .truth | .boolean => true
  | _ => false

/-- A comparison. Order is defined between scalars only. -/
def comparison? (symbol : String) (a b : Operand) : Option Operand :=
  if symbol = "==" ∨ symbol = "!=" then some .truth
  else
    match a, b with
    | .scalar f, .scalar g => some (.relation (f.hasNames || g.hasNames))
    | _, _ => none

/-- Whether the symbol is that of a comparison. -/
def isComparison (symbol : String) : Bool :=
  ["==", "!=", "<", ">", "<=", ">="].contains symbol

/-- A negated truth value. Whether a symbolic comparison holds is not known. -/
def negation? : Operand → Option Operand
  | .relation true => none
  | _ => some .truth

/-- The operand after a sign. -/
def signed? (symbol : String) (a : Operand) : Option Operand :=
  match symbol, a with
  | "+", .scalar f => some (.scalar f)
  | "-", .scalar f => some (.scalar (.neg f))
  | "~", .truth => some .truth
  | "~", a => if isLogical a then some .boolean else none
  | _, _ => none

/-- The factorials of an operand, as many as there are marks after it, at most two. -/
def factorials? (a : Operand) (ts : List Token) : Reading :=
  match a, ts with
  | _, .op "!" :: .op "!" :: .op "!" :: _ => none
  | .scalar f, .op "!" :: .op "!" :: rest => some (.scalar (.doubleFactorial f), rest)
  | .scalar f, .op "!" :: rest => some (.scalar (.factorial f), rest)
  | _, .op "!" :: _ => none
  | a, ts => some (a, ts)

/-- A function applied to arguments, which have to be scalars. -/
def applied? (f : Formula) : List Operand → Option Formula
  | [] => some f
  | .scalar a :: rest => applied? (.call f a) rest
  | _ => none

/-! ### The grammar -/

mutual

/-- Operands separated by commas, up to a closing symbol. The flag says whether there was a
comma. -/
def items? (bare : List String) : Nat → String → List Token → List Operand → Bool →
    Option ((List Operand × Bool) × List Token)
  | 0, _, _, _, _ => none
  | n + 1, close, ts, acc, comma =>
    match ts with
    | .op symbol :: rest =>
      if symbol = close then some ((acc.reverse, comma), rest)
      else next? bare n close ts acc
    | _ => next? bare n close ts acc

/-- One operand of a list, and the operands after it. -/
def next? (bare : List String) : Nat → String → List Token → List Operand →
    Option ((List Operand × Bool) × List Token)
  | 0, _, _, _ => none
  | n + 1, close, ts, acc =>
    match test? bare n ts with
    | none => none
    | some (a, rest) =>
      match rest with
      | .op "," :: rest => items? bare n close rest (a :: acc) true
      | .op symbol :: rest =>
        if symbol = close then some (((a :: acc).reverse, !acc.isEmpty), rest) else none
      | _ => none

/-- A negation or a comparison. -/
def test? (bare : List String) : Nat → List Token → Reading
  | 0, _ => none
  | n + 1, ts =>
    match ts with
    | .name "not" :: rest =>
      match test? bare n rest with
      | some (a, rest) => (negation? a).map fun a => (a, rest)
      | none => none
    | ts =>
      match disjunction? bare n ts with
      | some (a, rest) => comparisons? bare n a rest
      | none => none

/-- The comparisons after an operand. -/
def comparisons? (bare : List String) : Nat → Operand → List Token → Reading
  | 0, _, _ => none
  | n + 1, a, ts =>
    match ts with
    | .op symbol :: rest =>
      if isComparison symbol then
        match disjunction? bare n rest with
        | none => none
        | some (b, rest) =>
          match comparison? symbol a b with
          | none => none
          | some c =>
            match rest with
            | .op next :: _ =>
              if isComparison next then
                if c = .relation true then none
                else (comparisons? bare n b rest).map fun r => (.truth, r.2)
              else some (c, rest)
            | rest => some (c, rest)
      else some (a, ts)
    | ts => some (a, ts)

/-- Operands joined by `|`. -/
def disjunction? (bare : List String) : Nat → List Token → Reading
  | 0, _ => none
  | n + 1, ts =>
    match conjunction? bare n ts with
    | some (a, rest) => disjunctionRest? bare n a rest
    | none => none

/-- What follows the first operand of a disjunction. -/
def disjunctionRest? (bare : List String) : Nat → Operand → List Token → Reading
  | 0, _, _ => none
  | n + 1, a, ts =>
    match ts with
    | .op "|" :: rest =>
      match conjunction? bare n rest with
      | some (b, rest) =>
        if isLogical a && isLogical b then disjunctionRest? bare n .boolean rest else none
      | none => none
    | ts => some (a, ts)

/-- Operands joined by `&`. -/
def conjunction? (bare : List String) : Nat → List Token → Reading
  | 0, _ => none
  | n + 1, ts =>
    match sum? bare n ts with
    | some (a, rest) => conjunctionRest? bare n a rest
    | none => none

/-- What follows the first operand of a conjunction. -/
def conjunctionRest? (bare : List String) : Nat → Operand → List Token → Reading
  | 0, _, _ => none
  | n + 1, a, ts =>
    match ts with
    | .op "&" :: rest =>
      match sum? bare n rest with
      | some (b, rest) =>
        if isLogical a && isLogical b then conjunctionRest? bare n .boolean rest else none
      | none => none
    | ts => some (a, ts)

/-- A sum. -/
def sum? (bare : List String) : Nat → List Token → Reading
  | 0, _ => none
  | n + 1, ts =>
    match product? bare n ts with
    | some (a, rest) => sumRest? bare n a rest
    | none => none

/-- What follows the first term of a sum. -/
def sumRest? (bare : List String) : Nat → Operand → List Token → Reading
  | 0, _, _ => none
  | n + 1, a, ts =>
    match ts with
    | .op symbol :: rest =>
      match additive? symbol with
      | none => some (a, ts)
      | some op =>
        match product? bare n rest with
        | none => none
        | some (b, rest) =>
          match onScalars op a b with
          | some c => sumRest? bare n c rest
          | none => none
    | ts => some (a, ts)

/-- A product. -/
def product? (bare : List String) : Nat → List Token → Reading
  | 0, _ => none
  | n + 1, ts =>
    match factor? bare n ts with
    | some (a, rest) => productRest? bare n a rest
    | none => none

/-- What follows the first factor of a product. -/
def productRest? (bare : List String) : Nat → Operand → List Token → Reading
  | 0, _, _ => none
  | n + 1, a, ts =>
    match ts with
    | .op symbol :: rest =>
      match multiplicative? symbol with
      | none => some (a, ts)
      | some op =>
        match factor? bare n rest with
        | none => none
        | some (b, rest) =>
          match onScalars op a b with
          | some c => productRest? bare n c rest
          | none => none
    | ts => some (a, ts)

/-- An operand with signs before it, or a power. -/
def factor? (bare : List String) : Nat → List Token → Reading
  | 0, _ => none
  | n + 1, ts =>
    match ts with
    | .op symbol :: rest =>
      if symbol = "+" ∨ symbol = "-" ∨ symbol = "~" then
        match factor? bare n rest with
        | some (a, rest) => (signed? symbol a).map fun a => (a, rest)
        | none => none
      else powerOf? bare n ts
    | ts => powerOf? bare n ts

/-- A power, whose exponent may have signs. -/
def powerOf? (bare : List String) : Nat → List Token → Reading
  | 0, _ => none
  | n + 1, ts =>
    match primary? bare n ts with
    | none => none
    | some (a, rest) =>
      match rest with
      | .op symbol :: after =>
        if symbol = "**" ∨ symbol = "^" then
          match factor? bare n after with
          | some (b, rest) => (onScalars .pow a b).map fun c => (c, rest)
          | none => none
        else some (a, rest)
      | rest => some (a, rest)

/-- An operand and the factorial marks after it. -/
def primary? (bare : List String) : Nat → List Token → Reading
  | 0, _ => none
  | n + 1, ts =>
    match atom? bare n ts with
    | none => none
    | some (a, rest) => factorials? a rest

/-- A number, a name, a function with its arguments, or something in parentheses. A name that
also stands alone somewhere cannot be a function. -/
def atom? (bare : List String) : Nat → List Token → Reading
  | 0, _ => none
  | n + 1, ts =>
    match ts with
    | .integer k :: rest => some (.scalar (.integer k), rest)
    | .decimal m e :: rest => some (.scalar (.decimal m e), rest)
    | .imaginary :: rest => some (.scalar .imaginary, rest)
    | .quoted :: rest => some (.collection, rest)
    | .op "..." :: rest => some (.collection, rest)
    | .name "True" :: rest | .name "False" :: rest => some (.truth, rest)
    | .name "None" :: rest => some (.collection, rest)
    | .name f :: .op "(" :: rest =>
      if keywords.contains f || bare.contains f then none
      else
        match items? bare n ")" rest [] false with
        | none => none
        | some ((args, _), rest) =>
          (applied? (.function f) args).map fun g => (.scalar g, rest)
    | .name x :: rest => if keywords.contains x then none else some (.scalar (.name x), rest)
    | .op "(" :: rest =>
      match items? bare n ")" rest [] false with
      | some (([a], false), rest) => some (a, rest)
      | some (_, rest) => some (.collection, rest)
      | none => none
    | .op "[" :: rest => (items? bare n "]" rest [] false).map fun r => (.collection, r.2)
    | .op "\x7b" :: rest => (items? bare n "\x7d" rest [] false).map fun r => (.collection, r.2)
    | _ => none

end

/-! ### Without a call left

Each function of the grammar reads nothing if it may not be called once more. -/

section

variable {bare : List String} {ts : List Token} {a : Operand} {symbol : String}
  {items : List Operand} {comma : Bool}

@[simp] theorem items?_zero : items? bare 0 symbol ts items comma = none := by rw [items?]

@[simp] theorem next?_zero : next? bare 0 symbol ts items = none := by rw [next?]

@[simp] theorem test?_zero : test? bare 0 ts = none := by rw [test?]

@[simp] theorem comparisons?_zero : comparisons? bare 0 a ts = none := by rw [comparisons?]

@[simp] theorem disjunction?_zero : disjunction? bare 0 ts = none := by rw [disjunction?]

@[simp] theorem disjunctionRest?_zero : disjunctionRest? bare 0 a ts = none := by
  rw [disjunctionRest?]

@[simp] theorem conjunction?_zero : conjunction? bare 0 ts = none := by rw [conjunction?]

@[simp] theorem conjunctionRest?_zero : conjunctionRest? bare 0 a ts = none := by
  rw [conjunctionRest?]

@[simp] theorem sum?_zero : sum? bare 0 ts = none := by rw [sum?]

@[simp] theorem sumRest?_zero : sumRest? bare 0 a ts = none := by rw [sumRest?]

@[simp] theorem product?_zero : product? bare 0 ts = none := by rw [product?]

@[simp] theorem productRest?_zero : productRest? bare 0 a ts = none := by rw [productRest?]

@[simp] theorem factor?_zero : factor? bare 0 ts = none := by rw [factor?]

@[simp] theorem powerOf?_zero : powerOf? bare 0 ts = none := by rw [powerOf?]

@[simp] theorem primary?_zero : primary? bare 0 ts = none := by rw [primary?]

@[simp] theorem atom?_zero : atom? bare 0 ts = none := by rw [atom?]

end

/-- A list of tokens read as one operand. Several operands with commas make a collection. -/
def read? (bare : List String) (ts : List Token) : Option Operand :=
  match items? bare (16 * ts.length + 32) ")" (ts ++ [.op ")"]) [] false with
  | some (([a], false), []) => some a
  | some ((_ :: _, _), []) => some .collection
  | _ => none

end Reader

/-- What a text stands for; none if it is not well-formed. A symbol of the basic alphabet that
is used as a name is not used as a function. -/
def Operand.ofText? (text : String) : Option Operand :=
  match Token.ofText? text with
  | none => none
  | some ts => Reader.read? (Token.bareNames text) ts

end FluxBalance.Equation
