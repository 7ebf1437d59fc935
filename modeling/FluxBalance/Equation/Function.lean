import FluxBalance.Equation.Product

/-!
# Functions inside expressions

What becomes of a function when an equation is read. Functions of decimals are computed.
Functions of exact numbers stay as they are unless their value is an exact number too. Odd and
even functions lose the sign of their argument, a function of its own inverse disappears, and a
magnitude, a sign or a rounding gives up the part of its argument that is known.
-/

namespace FluxBalance.Equation

/-- Why a text that is well-formed cannot be made an expression. -/
inductive Refusal where
  /-- An operand is of the wrong kind. -/
  | unreadable
  /-- A remainder of a division by zero. -/
  | divisionByZero
  deriving Repr, DecidableEq

namespace Expr

variable (rules : DecimalRules)

/-! ### Abbreviations -/

/-- Zero. -/
def zero : Expr Constant := const .zero

/-- One. -/
def one : Expr Constant := const .one

/-- The square root. -/
def sqrt (a : Expr Constant) : Expr Constant := power rules a (const (.exact (mkRat 1 2)))

/-- A quotient. -/
def quotient (a b : Expr Constant) : Expr Constant :=
  product rules [a, power rules b (const .minusOne)]

/-- One plus or minus the square of an expression. -/
def oneAndSquare (sign : Constant) (a : Expr Constant) : Expr Constant :=
  sum rules.round
    [one, product rules [const sign, power rules a (const (.exact 2))]]

/-! ### Signs -/

/-- Whether an expression is the one of a pair of opposites that is written with the minus: a
negative number or multiple, or a sum with more negative than positive terms. In a tie the one
that comes later in the order counts as negative. -/
def isNegated (e : Expr Constant) : Bool :=
  match e with
  | const c => c.isNegative
  | add .. =>
    let negatives := e.addends.countP fun a => a.coefficient.1.isNegative
    let positives := e.addends.length - negatives
    if negatives = positives then !e.precedes e.negated else positives < negatives
  | e => e.coefficient.1.isNegative

/-- A function that changes sign with its argument, of an argument without a minus. -/
def odd (f : Expr Constant → Expr Constant) (a : Expr Constant) : Expr Constant :=
  if a.isNegated then (f a.negated).negated else f a

/-- A function that does not depend on the sign of its argument. -/
def even (f : Expr Constant → Expr Constant) (a : Expr Constant) : Expr Constant :=
  if a.isNegated then f a.negated else f a

/-! ### Trigonometric functions -/

/-- A sine of an argument without a minus. -/
def sinOf : Expr Constant → Expr Constant
  | apply .asin x => x
  | apply .atan x => quotient rules x (sqrt rules (oneAndSquare rules .one x))
  | apply .acos x => sqrt rules (oneAndSquare rules .minusOne x)
  | apply₂ .atan2 y x =>
    quotient rules y (sqrt rules (sum rules.round
      [power rules x (const (.exact 2)), power rules y (const (.exact 2))]))
  | a => apply .sin a

/-- A cosine of an argument without a minus. -/
def cosOf : Expr Constant → Expr Constant
  | apply .acos x => x
  | apply .atan x => quotient rules one (sqrt rules (oneAndSquare rules .one x))
  | apply .asin x => sqrt rules (oneAndSquare rules .minusOne x)
  | apply₂ .atan2 y x =>
    quotient rules x (sqrt rules (sum rules.round
      [power rules x (const (.exact 2)), power rules y (const (.exact 2))]))
  | a => apply .cos a

/-- A tangent of an argument without a minus. -/
def tanOf : Expr Constant → Expr Constant
  | apply .atan x => x
  | apply .asin x => quotient rules x (sqrt rules (oneAndSquare rules .minusOne x))
  | apply .acos x => quotient rules (sqrt rules (oneAndSquare rules .minusOne x)) x
  | apply₂ .atan2 y x => quotient rules y x
  | a => apply .tan a

/-! ### Logarithms -/

/-- A logarithm. -/
def logarithmOf (a : Expr Constant) : Expr Constant :=
  match a with
  | const (.exact q) =>
    if q = 0 then const .unsigned
    else if q = 1 then zero
    else if q.num = 1 then (apply .log (const (.exact q.den))).negated
    else apply .log a
  | const (.decimal q) =>
    if q = 0 then const .unsigned
    else
      let real := (Constant.decimal (ofFinite (logarithm (if q < 0 then -q else q)))).rounded rules
      if 0 < q then const real
      else
        let halfTurn := const (.decimal (ofFinite 3.141592653589793))
        sum rules.round [const real,
          product rules [halfTurn, pow (const .minusOne) (const (.exact (mkRat 1 2)))]]
  | const (.infinite _) => const (.infinite false)
  | const c => const c
  | apply .exp u => if u.isClosed then u else apply .log a
  | a => apply .log a

/-- How often one positive integer divides another. -/
def multiplicity (b n : Nat) : Nat := smallFactors.multiplicity n b n

/-- A logarithm with a base. Powers of an integer base are taken out of a positive exact
argument. -/
def logarithmTo (a b : Expr Constant) : Expr Constant :=
  let plain := quotient rules (logarithmOf rules a) (logarithmOf rules b)
  if b = one then if a = one then const .undefined else const .unsigned
  else
    match a, b with
    | const (.exact x), const (.exact y) =>
      if y.den = 1 ∧ 1 < y ∧ 0 < x then
        let n : Int := multiplicity y.num.natAbs x.num.natAbs - multiplicity y.num.natAbs x.den
        if n = 0 then plain
        else
          sum rules.round [const (.exact n),
            quotient rules (logarithmOf rules (const (.exact (x / y ^ n)))) (logarithmOf rules b)]
      else plain
    | _, _ => plain

/-! ### Magnitudes and signs -/

/-- The magnitude of a closed expression, if it has a value. -/
def closedMagnitude? (a : Expr Constant) : Option (Expr Constant) :=
  if a.isClosed then
    match a.evaluate (V := Quantity) fun _ => none with
    | .ok (.real x) =>
      if x.isFinite then some (if x < 0 then a.negated else a) else none
    | .ok z => some (const ((Constant.decimal (ofFinite z.modulus)).rounded rules))
    | .error _ => none
  else none

/-- The part of an argument whose magnitude needs the real part of a complex number, which is no
known function. -/
def realPart (a : Expr Constant) : Expr Constant := applied (unknown "re") a

/-- The magnitude of an expression that is no product, if it can be given without one. -/
def knownMagnitude? (a : Expr Constant) : Option (Expr Constant) :=
  match a with
  | const c => some (const c.abs)
  | pow (const (.exact b)) (const (.exact _)) =>
    if b = -1 then some one else closedMagnitude? rules a
  | a =>
    match closedMagnitude? rules a with
    | some m => some m
    | none =>
      match a with
      | apply .exp u => some (exponentialOf rules (realPart u))
      | apply .abs _ => none
      | pow b e =>
        if b.isNonneg then
          some (if e.isClosed then a else power rules b (realPart e))
        else none
      | a => if a.isNonneg then some a else none

/-- Whether a factor is a divisor: a power with a negative number as its exponent. -/
def isDivisor : Expr Constant → Bool
  | pow _ (const c) => c.isNegative
  | _ => false

/-- The magnitude of a product or of a single expression, without regard to divisors. -/
def magnitudeOfFactors (a : Expr Constant) : Expr Constant :=
  let parts := a.factors.map fun f =>
    match f with
    | pow b (const (.exact q)) =>
      if q < 0 && q.den == 1 then
        (f, (knownMagnitude? rules b).map fun m => power rules m (const (.exact q)))
      else (f, knownMagnitude? rules f)
    | f => (f, knownMagnitude? rules f)
  let known := parts.filterMap (·.2)
  let rest := parts.filterMap fun (f, m) => if m.isNone then some f else none
  match rest with
  | [] => product rules known
  | _ =>
    let inner := product rules rest
    let inner :=
      match inner with
      | apply .abs _ => inner
      | e => apply .abs (if e.isNegated then e.negated else e)
    product rules (known ++ [inner])

/-- A magnitude. The magnitude of a divisor stays a divisor if everything else is closed. -/
def magnitude (a : Expr Constant) : Expr Constant :=
  if a.isNonneg then a
  else
    let divisors := a.factors.filter isDivisor
    let others := a.factors.filter fun f => !isDivisor f
    if !divisors.isEmpty && others.all isClosed && !(divisors.all isClosed) then
      let divisor := product rules (divisors.map fun f => power rules f (const .minusOne))
      quotient rules (magnitudeOfFactors rules (product rules others))
        (magnitudeOfFactors rules divisor)
    else magnitudeOfFactors rules a

/-- A sign. Factors whose sign is known are taken out. -/
def signOf (a : Expr Constant) : Expr Constant :=
  let signs := a.factors.map fun f =>
    match f with
    | const c =>
      if c.isNegative then (f, some (-1 : Rat)) else if c.isPositive then (f, some 1)
      else if c.isZero then (f, some 0) else (f, none)
    | f =>
      match f.closedValue? with
      | some x => (f, some (if x < 0 then -1 else if x == 0 then 0 else 1))
      | none => (f, none)
  let known := signs.filterMap (·.2)
  let rest := signs.filterMap fun (f, s) => if s.isNone then some f else none
  let number := const (.exact (known.foldl (· * ·) 1))
  match rest with
  | [] => number
  | [apply .sign b] => product rules [number, apply .sign b]
  | _ => product rules [number, apply .sign (nestProduct one rest)]

/-! ### Roundings -/

/-- Whether a term is known to be an integer, and the integer term. -/
def integerTerm? (a : Expr Constant) : Option (Expr Constant) :=
  match a with
  | const c =>
    match c.toRat? with
    | some q => if q.den = 1 then some (const (.exact q)) else none
    | none => none
  | a =>
    let (c, rest) := a.coefficient
    match c.toInt?, rest with
    | some _, apply .floor _ | some _, apply .ceiling _ => some a
    | _, _ => none

/-- The integer next to an expression in a direction. Integer terms are taken out. -/
def rounding (f : Fn) (a : Expr Constant) : Expr Constant :=
  match a with
  | const (.exact q) | const (.decimal q) => const (.exact (roundedTo f q))
  | const c => const c
  | a =>
    let parts := a.addends.map fun t => (t, integerTerm? t)
    let whole := parts.filterMap (·.2)
    let rest := parts.filterMap fun (t, w) => if w.isNone then some t else none
    match rest with
    | [] => sum rules.round whole
    | _ =>
      let inner := sum rules.round rest
      let last :=
        match inner.closedValue? with
        | some x => const (.exact (roundedTo f (ofFinite x)))
        | none => apply f inner
      sum rules.round (whole ++ [last])

/-! ### Functions of one argument -/

/-- A function of an argument that is no decimal. -/
def applyFn (f : Fn) (a : Expr Constant) : Expr Constant :=
  match f, a with
  | _, const .undefined => const .undefined
  | .exp, a => exponentialOf rules a
  | .log, a => logarithmOf rules a
  | .abs, a => magnitude rules a
  | .sign, a => signOf rules a
  | .floor, a | .ceiling, a => rounding rules f a
  | .factorial, const (.exact q) =>
    if q.den = 1 then
      if q < 0 then const .unsigned else const (.exact (factorialOf q.num.toNat))
    else apply .factorial a
  | .atan, const (.infinite negative) =>
    const (.decimal (ofFinite (if negative then -1.5707963267948966 else 1.5707963267948966)))
  | .sinh, const (.infinite negative) => const (.infinite negative)
  | .cosh, const (.infinite _) => const (.infinite false)
  | .tanh, const (.infinite negative) => const (.exact (if negative then -1 else 1))
  | _, const (.infinite _) => const .undefined
  | .asin, const .unsigned | .acos, const .unsigned => const .unsigned
  | _, const .unsigned => const .undefined
  | .cos, const (.exact 0) | .cosh, const (.exact 0) => one
  | .acos, const (.exact 1) => zero
  | .sin, const (.exact 0) | .tan, const (.exact 0) | .asin, const (.exact 0)
  | .atan, const (.exact 0) | .sinh, const (.exact 0) | .tanh, const (.exact 0) => zero
  | .sin, a => odd (sinOf rules) a
  | .cos, a => even (cosOf rules) a
  | .tan, a => odd (tanOf rules) a
  | .asin, a => odd (apply .asin) a
  | .atan, a => odd (apply .atan) a
  | .sinh, a => odd (apply .sinh) a
  | .cosh, a => even (apply .cosh) a
  | .tanh, a => odd (apply .tanh) a
  | .acos, a => apply .acos a
  | .factorial, a => apply .factorial a

/-- A function of one argument. -/
def function (f : Fn) (a : Expr Constant) : Expr Constant :=
  match a with
  | const (.decimal q) =>
    match decimalFunction f q with
    | some c => const (c.rounded rules)
    | none => applyFn rules f a
  | a => applyFn rules f a

/-! ### Functions of two and more arguments -/

/-- The remainder of two rationals that has the sign of the divisor. -/
def floorMod (p q : Rat) : Rat := p - q * ((p / q).floor : Rat)

/-- A remainder that has the sign of the divisor. -/
def remainder (p q : Expr Constant) : Except Refusal (Expr Constant) :=
  match q with
  | const c =>
    if c.isZero then .error .divisionByZero
    else
      match p with
      | const d =>
        match Constant.combine rules.round floorMod d c with
        | some r => .ok (const r)
        | none => .ok (const .undefined)
      | p => .ok (if !c.isFinite then const .undefined else general p)
  | _ =>
    match p with
    | const d =>
      if d.isZero then .ok zero
      else if !d.isFinite then .ok (const .undefined)
      else .ok (general p)
    | p => .ok (general p)
where
  /-- A remainder that is zero because the quotient is an integer, or one that stays. -/
  general (p : Expr Constant) : Expr Constant :=
    match quotient rules p q with
    | const c => if c.toInt?.isSome then zero else apply₂ .mod p q
    | r => if (integerTerm? r).isSome then zero else apply₂ .mod p q

/-- The integer quotient: the floor of the quotient. Numbers are not divided by zero. -/
def floorQuotient (p q : Expr Constant) : Except Refusal (Expr Constant) :=
  match p, q with
  | const _, const d =>
    if d.isZero then .error .divisionByZero
    else .ok (function rules .floor (quotient rules p q))
  | _, _ => .ok (function rules .floor (quotient rules p q))

/-- The angle of a point, given its second and its first coordinate. -/
def angle (y x : Expr Constant) : Expr Constant :=
  match y, x with
  | const c, const d =>
    match c.toRat?, d.toRat? with
    | some p, some q =>
      if p = 0 ∧ q = 0 then const .undefined
      else if c.isDecimal ∨ d.isDecimal then
        let z := Float.atan2 (Number.toDouble p) (Number.toDouble q)
        const ((Constant.decimal (ofFinite z)).rounded rules)
      else apply₂ .atan2 y x
    | _, _ => const .undefined
  | _, _ => apply₂ .atan2 y x

/-- The arguments of a nested extreme of one kind. -/
def extremeParts (f : Fn₂) (e : Expr Constant) : List (Expr Constant) :=
  match e with
  | apply₂ g a b => if f = g then extremeParts f a ++ extremeParts f b else [e]
  | e => [e]

/-- The value of an argument of an extreme, if it has no variables; none if it is not real. -/
def comparable? (e : Expr Constant) : Option (Option Rat) :=
  match e with
  | const c =>
    match c.toRat? with
    | some q => some (some q)
    | none => none
  | e =>
    if e.isClosed then
      match e.closedValue? with
      | some x => some (Number.toRat? x)
      | none => none
    else some none

/-- The largest or the smallest of the arguments. -/
def extreme (f : Fn₂) (es : List (Expr Constant)) : Except Refusal (Expr Constant) := do
  let parts := (es.flatMap (extremeParts f)).eraseDups
  let top := Constant.infinite (f != .max)
  let bottom := Constant.infinite (f == .max)
  if parts.contains (const top) then return const top
  let parts := parts.filter fun p => p != const bottom
  let values ← parts.mapM fun p =>
    match comparable? p with
    | some v => Except.ok (p, v)
    | none => Except.error Refusal.unreadable
  let numbers := values.filterMap fun (p, v) => v.map fun q => (p, q)
  let others := values.filterMap fun (p, v) => if v.isNone then some p else none
  let best :=
    match numbers with
    | [] => []
    | first :: rest =>
      [(rest.foldl (fun b p =>
        if (f == .max && b.2 < p.2) || (f == .min && p.2 < b.2) then p else b) first).1]
  match (best ++ arrange others) with
  | [] => return const bottom
  | a :: rest => return rest.foldl (apply₂ f) a

/-- A double factorial. -/
def doubleFactorial (a : Expr Constant) : Except Refusal (Expr Constant) :=
  match a with
  | const (.exact q) =>
    if q.den = 1 then
      if 0 ≤ q then .ok (const (.exact (doubleFactorialOf q.num.toNat)))
      else if q = -1 then .ok one
      else .error .unreadable
    else .ok (applied (unknown "factorial2") a)
  | a => .ok (applied (unknown "factorial2") a)

/-- The function of one argument with the given name. -/
def fnNamed? : String → Option Fn
  | "exp" => some .exp
  | "sin" => some .sin
  | "cos" => some .cos
  | "tan" => some .tan
  | "asin" => some .asin
  | "acos" => some .acos
  | "atan" => some .atan
  | "sinh" => some .sinh
  | "cosh" => some .cosh
  | "tanh" => some .tanh
  | "abs" | "Abs" => some .abs
  | "sign" => some .sign
  | "floor" => some .floor
  | "ceiling" => some .ceiling
  | _ => none

/-- A function, given by its name, of its arguments. Known functions take a fixed number of
them. A square root ignores a second argument. -/
def call (name : String) (args : List (Expr Constant)) : Except Refusal (Expr Constant) :=
  match name, args with
  | "sqrt", [a] | "sqrt", [a, _] => .ok (sqrt rules a)
  | "log", [a] | "ln", [a] => .ok (function rules .log a)
  | "log", [a, b] | "ln", [a, b] => .ok (logarithmTo rules a b)
  | "atan2", [y, x] => .ok (angle rules y x)
  | "max", es | "Max", es => extreme .max es
  | "min", es | "Min", es => extreme .min es
  | "sqrt", _ | "log", _ | "ln", _ | "atan2", _ => .error .unreadable
  | name, args =>
    match fnNamed? name, args with
    | some f, [a] => .ok (function rules f a)
    | some _, _ => .error .unreadable
    | none, args => .ok (args.foldl applied (unknown name))

end Expr

end FluxBalance.Equation
