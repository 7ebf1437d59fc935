import FluxBalance.Equation.Sum
import FluxBalance.Equation.DecimalFunction

/-!
# Collected products and powers

A product is brought into a form in which its numbers are multiplied up and every base occurs
once for each kind of exponent. Roots of numbers are collected prime by prime, roots of minus
one by their exponent. A number that multiplies a single sum is distributed over it; nothing
else is expanded, and nothing is factored.

Powers of powers and of products are resolved where that is right for all complex values:
exponents multiply when the outer one is an integer or the inner one is small, and only factors
that are known not to be negative leave a root.

The functions that build products, powers and exponentials call each other on smaller bases. The
first argument of each bounds the depth of these calls; at depth zero nothing is simplified but the
product of two numbers, so that exponents that multiply always make a number.
-/

namespace FluxBalance.Equation

namespace Expr

/-! ### What is known about signs -/

/-- The number e. -/
def euler : Expr Constant := apply .exp (const .one)

/-- Whether an expression is known to be real and not negative. -/
def isNonneg : Expr Constant → Bool
  | const c => c.isPositive || c.isZero
  | apply .abs _ => true
  | add a b | mul a b => a.isNonneg && b.isNonneg
  | pow b e => (b.isNonneg && e.isClosed) || closedNonneg (pow b e)
  | e => closedNonneg e
where
  /-- Whether an expression has no variables and a value that is not negative. -/
  closedNonneg (e : Expr Constant) : Bool :=
    match e.closedValue? with
    | some x => 0 ≤ x
    | none => false

/-! ### Roots of numbers -/

/-- The prime factors of a number below a bound, each with its exponent. What is left when the
bound is reached counts as one more factor. -/
def smallFactors : Nat → Nat → Nat → List (Nat × Nat)
  | 0, _, n => if n = 1 then [] else [(n, 1)]
  | fuel + 1, d, n =>
    if n = 1 then []
    else if n < d * d then [(n, 1)]
    else if n % d = 0 then
      let k := multiplicity n d n
      (d, k) :: smallFactors fuel (d + 1) (n / Nat.pow d k)
    else smallFactors fuel (d + 1) n
where
  /-- How often `d` divides `n`, at most `fuel` times. -/
  multiplicity : Nat → Nat → Nat → Nat
    | 0, _, _ => 0
    | fuel + 1, d, n =>
      if d < 2 ∨ n = 0 ∨ n % d ≠ 0 then 0 else multiplicity fuel d (n / d) + 1

/-- The factorisation of a positive number by the numbers up to 2 to the 15th. -/
def factorise (n : Nat) : List (Nat × Nat) := smallFactors 32768 2 n

/-- Prime numbers with rational exponents. -/
abbrev Primes := List (Nat × Rat)

/-- The product of prime powers with one more of them. -/
def Primes.insert (p : Nat) (e : Rat) : Primes → Primes
  | [] => [(p, e)]
  | (q, d) :: rest => if p = q then (q, d + e) :: rest else (q, d) :: Primes.insert p e rest

/-- The product of prime powers with a power of a positive number. -/
def Primes.insertPower (n : Nat) (e : Rat) (ps : Primes) : Primes :=
  (factorise n).foldl (fun ps f => ps.insert f.1 (e * f.2)) ps

/-- The integer power that a product of prime powers contains. -/
def Primes.wholePart (ps : Primes) : Rat :=
  ps.foldl (fun q p => q * ((p.1 : Rat) ^ p.2.floor)) 1

/-- What a product of prime powers contains beside the integer power: numbers with exponents
between zero and one, ascending and each exponent once. -/
def Primes.roots (ps : Primes) : List (Rat × Nat) :=
  let fractions := ps.filterMap fun p =>
    let f := p.2 - (p.2.floor : Rat)
    if f = 0 then none else some (f, p.1)
  let exponents := (fractions.map (·.1)).eraseDups
  exponents.map fun f =>
    (f, fractions.foldl (fun n p => if p.1 = f then n * p.2 else n) 1)

/-! ### Collection -/

/-- The factors of a product, collected. -/
structure Factors where
  /-- The product of all numbers. -/
  coefficient : Constant
  /-- The exponent of minus one. -/
  turns : Rat
  /-- Roots of positive numbers. -/
  primes : Primes
  /-- Positive numbers with other exponents: the base, and the exponent as coefficient and
  rest. -/
  numbers : List ((Constant × Expr Constant) × Constant)
  /-- All other powers: the base, and the exponent as coefficient and rest. -/
  powers : List ((Expr Constant × Expr Constant) × Constant)

/-- The product without factors. -/
def Factors.empty : Factors := ⟨.one, 0, [], [], []⟩

/-- An exponent put to its base and kind: coefficients of one kind are added. -/
def insertExponent {β : Type} [DecidableEq β] (round : Rounding) (key : β) (c : Constant) :
    List (β × Constant) → List (β × Constant)
  | [] => [(key, c)]
  | (k, d) :: rest =>
    if k = key then (k, d.add round c) :: rest else (k, d) :: insertExponent round key c rest

/-- An expression as base and exponent. -/
def asPower : Expr Constant → Expr Constant × Expr Constant
  | pow b e => (b, e)
  | apply .exp u => (euler, u)
  | e => (e, const .one)

/-- Whether an expression is a number or a product. -/
def isConstOrProduct : Expr Constant → Bool
  | const _ | mul .. => true
  | _ => false

/-- A product with a number to an exact power, which is no integer. -/
def Factors.insertRoot (t : Factors) (b e : Rat) : Factors :=
  { t with
    turns := if b < 0 then t.turns + e else t.turns
    primes := (t.primes.insertPower b.num.natAbs e).insertPower b.den (-e) }

/-- A product with one more factor, which is no product. -/
def Factors.insert (rules : DecimalRules) (t : Factors) (f : Expr Constant) : Factors :=
  let general :=
    let (b, e) := asPower f
    let (c, k) := e.coefficient
    { t with powers := insertExponent rules.round (b, k) c t.powers }
  match f with
  | const c => { t with coefficient := t.coefficient.mul rules.round c }
  | pow (const (.exact b)) (const (.exact e)) => t.insertRoot b e
  | pow (const b) e =>
    if b.isPositive && b.isFinite then
      let (c, k) := e.coefficient
      let (b, c) :=
        match b with
        | .exact q => if q.num = 1 then (Constant.exact q.den, c.neg) else (b, c)
        | b => (b, c)
      { t with numbers := insertExponent rules.round (b, k) c t.numbers }
    else general
  | _ => general

/-- The parts of a product that are roots of numbers, and the number that is left of them. -/
def Factors.rootParts (t : Factors) : Rat × List (Expr Constant) :=
  let turns := t.turns - 2 * ((t.turns / 2).floor : Rat)
  let (sign, turns) : Rat × Rat := if turns < 1 then (1, turns) else (-1, turns - 1)
  let roots := t.primes.roots.map fun r => pow (const (.exact r.2)) (const (.exact r.1))
  (sign * t.primes.wholePart,
    if turns = 0 then roots else pow (const .minusOne) (const (.exact turns)) :: roots)

/-- Powers of numbers with one exponent put together, each as the product of their bases and the
exponent. -/
def combineNumbers (rules : DecimalRules) (numbers : List ((Constant × Expr Constant) × Constant)) :
    List (Constant × Expr Constant) :=
  let entries := numbers.filterMap fun ((b, k), c) =>
    if c.isZero then none else some (b, scale rules.round c k)
  let exponents := (entries.map (·.2)).eraseDups
  exponents.map fun e =>
    (entries.foldl (fun b p => if p.2 = e then b.mul rules.round p.1 else b) .one, e)

/-- The product of a coefficient and parts that need no further collection. -/
def assemble (rules : DecimalRules) (c : Constant) (parts : List (Expr Constant)) :
    Expr Constant :=
  if c = .undefined then const .undefined
  else if c.isZero then const .zero
  else
    let parts := arrange parts
    match parts with
    | [] => const c
    | [single] => if c.isFinite then scaleOne single else withCoefficient c single
    | _ => nestProduct (const c) (if c = .one then parts else const c :: parts)
where
  /-- A single part, over which the coefficient is distributed if it is a sum. -/
  scaleOne (single : Expr Constant) : Expr Constant :=
    if c = .one then single else scale rules.round c single

/-! ### Powers of numbers -/

/-- The product of a coefficient and a root. -/
def rootOf (rules : DecimalRules) (c : Constant) (b e : Rat) : Expr Constant :=
  let (n, parts) := (Factors.empty.insertRoot b e).rootParts
  assemble rules (c.mul rules.round (.exact n)) parts

/-- A power of a negative decimal: real for an integer exponent, otherwise complex. -/
def negativePower (rules : DecimalRules) (x y : Rat) : Expr Constant :=
  let size := (positivePower (-x) y).rounded rules
  if (2 * y).den = 1 then rootOf rules size (-1) y
  else
    let angle : Float := 3.141592653589793 * Number.toDouble y
    let part (z : Float) : Constant :=
      (Constant.mul rules.round size (.decimal (ofFinite z))).rounded rules
    sum rules.round [const (part angle.cos),
      assemble rules (part angle.sin) [pow (const .minusOne) (const (.exact (mkRat 1 2)))]]

/-- A power in which a decimal takes part, of a base that is not zero. -/
def decimalPower (rules : DecimalRules) (c d : Constant) (x y : Rat) : Expr Constant :=
  if y.den = 1 then const ((rules.power x y.num).rounded rules)
  else if 0 < x then const ((positivePower x y).rounded rules)
  else
    match d with
    | .exact q =>
      if c.isDecimal ∧ q.num = 1 ∧ q.den % 2 = 1 then
        rootOf rules ((positivePower (-x) y).rounded rules) (-1) y
      else negativePower rules x y
    | _ => negativePower rules x y

/-- A power of zero that is not a zeroth power. -/
def zeroPower (c : Constant) (y : Rat) : Expr Constant :=
  if y < 0 then const .unsigned else const c

/-- A power of a finite number. -/
def finitePower (rules : DecimalRules) (c d : Constant) (x y : Rat) : Expr Constant :=
  if y = 0 then const (if c = .zero then .one else .decimal 1)
  else if x = 0 then zeroPower c y
  else
    match c, d with
    | .exact x, .exact y =>
      if y.den = 1 then const (.exact (x ^ y.num)) else rootOf rules .one x y
    | _, _ => decimalPower rules c d x y

/-- A power in which an infinite constant takes part. -/
def infinitePower (c d : Constant) : Constant :=
  match c, d.toRat? with
  | .unsigned, some y => if 0 < y then .unsigned else if y < 0 then .zero else .undefined
  | .infinite negative, some y =>
    if y < 0 then .zero
    else if !negative then .infinite false
    else if y.den = 1 then .infinite (y.num % 2 = 1)
    else .unsigned
  | c, none =>
    match c.toRat?, d with
    | some x, .infinite negative =>
      if (!negative && 1 < x) || (negative && 0 < x && x < 1) then .infinite false
      else if (!negative && -1 < x && x < 1) || (negative && (1 < x || x < -1)) then .zero
      else .undefined
    | _, _ => .undefined
  | _, _ => .undefined

/-- A power of numbers. -/
def numberPower (rules : DecimalRules) (c d : Constant) : Expr Constant :=
  match c.toRat?, d.toRat? with
  | some x, some y => finitePower rules c d x y
  | _, _ => const (infinitePower c d)

/-- A power of a number whose exponent is no number. A power of zero keeps of its exponent only
the sign. -/
def numberBase (c : Constant) (e : Expr Constant) : Expr Constant :=
  if c = .zero then
    match e.closedValue? with
    | some y => if 0 < y then const .zero else if y < 0 then const .unsigned else pow (const c) e
    | none =>
      let (k, rest) := e.coefficient
      if k.isNegative then pow (const .unsigned) rest else pow (const c) rest
  else pow (const c) e

/-! ### Powers of sums -/

/-- The coefficients of the parts of a sum. -/
def sumCoefficients (e : Expr Constant) : List Constant := e.addends.map fun a => a.coefficient.1

/-- The largest magnitude among the coefficients of a sum, if one of them is a decimal, all are
finite and the largest is not one. -/
def largestCoefficient? (e : Expr Constant) : Option Constant :=
  let cs := e.sumCoefficients
  if cs.any Constant.isDecimal && cs.all Constant.isFinite then
    let big := cs.foldl (fun (b : Constant) c =>
      let c := c.abs
      if (b.toRat?).getD 0 ≤ (c.toRat?).getD 0 then c else b) .zero
    if big.toRat? = some 1 then none else some big
  else none

/-- A sum divided by its largest coefficient, which becomes exactly one. -/
def dividedBy (rules : DecimalRules) (big : Constant) (e : Expr Constant) : Expr Constant :=
  let parts := e.addends.map fun a =>
    let (c, rest) := a.coefficient
    let c :=
      if c = big then Constant.one
      else if c = big.neg then Constant.minusOne
      else (Constant.combine rules.round (· / ·) c big).getD .undefined
    withCoefficient c rest
  sum rules.round parts

/-! ### Products, powers and exponentials -/

/-- A product of which only two numbers are multiplied. -/
def plainProduct (rules : DecimalRules) : List (Expr Constant) → Expr Constant
  | [const c, const d] => const (c.mul rules.round d)
  | es => nestProduct (const .one) es

/-- The factors of a product that leave a root, and those that stay. A negative coefficient
leaves its magnitude behind. -/
def splitRoot (parts : List (Expr Constant)) : List (Expr Constant) × List (Expr Constant) :=
  let out := parts.filter isNonneg
  let stay := parts.filter fun f => !f.isNonneg
  match stay with
  | const c :: rest =>
    if rest.isEmpty || c = .minusOne || !c.isNegative then (out, stay)
    else (const c.neg :: out, const .minusOne :: rest)
  | _ => (out, stay)

/-- Whether the exponents of a power of a power multiply. -/
def exponentsMultiply (base inner outer : Expr Constant) : Bool :=
  match outer, inner with
  | const (.exact q), _ => q.den == 1 || small inner || (base.isNonneg && inner.isClosed)
  | _, _ => small inner || (base.isNonneg && inner.isClosed)
where
  /-- Whether an exponent is a number between minus one and one. -/
  small : Expr Constant → Bool
    | const c =>
      match c.toRat? with
      | some q => -1 < q && q < 1
      | none => false
    | _ => false

/-- A factor of an exponent that is a logarithm, and the other factors, if there is exactly one
and no variable occurs in the others. -/
def logFactor? (parts : List (Expr Constant)) : Option (Expr Constant × List (Expr Constant)) :=
  let isLog : Expr Constant → Bool
    | apply .log _ => true
    | _ => false
  match parts.filter isLog, parts.filter fun f => !isLog f with
  | [apply .log a], rest => if rest.all isClosed then some (a, rest) else none
  | _, _ => none

mutual

/-- The product of a list of expressions. -/
def productN (rules : DecimalRules) : Nat → List (Expr Constant) → Expr Constant
  | 0, es => plainProduct rules es
  | n + 1, es =>
    let t := (es.flatMap factors).foldl (Factors.insert rules) Factors.empty
    let (number, roots) := t.rootParts
    let numbers := (combineNumbers rules t.numbers).map fun p => powerN rules n (const p.1) p.2
    let powers := (t.powers.filter fun p => !p.2.isZero).map fun ((b, k), c) =>
      (b, scale rules.round c k)
    let parts := powers.map fun (b, e) => powerN rules n b e
    let settled := ((powers.zip parts).all fun (p, f) => asPower f == p) &&
      (numbers ++ parts).all fun f => !f.isConstOrProduct
    let c := t.coefficient.mul rules.round (.exact number)
    let all := roots ++ numbers ++ parts
    if settled then assemble rules c all else productN rules n (const c :: all)

/-- A power. -/
def powerN (rules : DecimalRules) : Nat → Expr Constant → Expr Constant → Expr Constant
  | 0, b, e => pow b e
  | n + 1, b, e =>
    if e = const .zero then const .one
    else if e = const .one then b
    else if e = const .unsigned ∨ e = const .undefined ∨ b = const .undefined then
      const .undefined
    else if b = const .one then
      match e with
      | const d => const (if d.isInfinite then .undefined else .one)
      | _ => const .one
    else if b = euler then expN rules n e
    else
      match b, e with
      | const c, const d => numberPower rules c d
      | const c, e => numberBase c e
      | pow b' e', e =>
        if exponentsMultiply b' e' e then powerN rules n b' (productN rules n [e', e])
        else pow b e
      | apply .exp u, e =>
        if exponentsMultiply euler u e then expN rules n (productN rules n [u, e]) else pow b e
      | mul .., const d =>
        match d.toInt? with
        | some _ => productN rules n (b.factors.map fun f => powerN rules n f e)
        | none =>
          let (out, stay) := splitRoot b.factors
          if out.isEmpty || !d.isFinite then pow b e
          else
            let rest := nestProduct (const .one) stay
            let root := if stay.isEmpty then const .one else powerN rules n rest e
            productN rules n (root :: out.map fun f => powerN rules n f e)
      | add .., const d =>
        match b.largestCoefficient? with
        | some big =>
          if d.abs.toRat? = some 1 || !d.isFinite || (b.isClosed && !d.isDecimal) then pow b e
          else
            productN rules n [numberPower rules big d, pow (dividedBy rules big b) e]
        | none => pow b e
      | _, _ => pow b e

/-- An exponential. -/
def expN (rules : DecimalRules) : Nat → Expr Constant → Expr Constant
  | 0, u => apply .exp u
  | n + 1, u =>
    match u with
    | const (.exact q) => if q = 0 then const .one else apply .exp u
    | const (.decimal q) => if q = 0 then const .one else const ((exponential q).rounded rules)
    | const (.infinite negative) => if negative then const .zero else const (.infinite false)
    | const _ => const .undefined
    | apply .log a => a
    | mul .. =>
      match logFactor? u.factors with
      | some (a, rest) => powerN rules n a (productN rules n rest)
      | none => apply .exp u
    | add .. =>
      let parts := u.addends.map fun a =>
        if a = const .one then (a, none) else (a, some (expN rules n a))
      let kept := parts.filterMap fun (a, r) =>
        match r with
        | some (apply .exp v) => some v
        | some _ => none
        | none => some a
      let out := parts.filterMap fun (_, r) =>
        match r with
        | some (apply .exp _) | none => none
        | some f => some f
      if out.isEmpty && kept = u.addends then apply .exp u
      else
        let rest := sum rules.round kept
        let tail := if rest = const .zero then const .one else apply .exp rest
        productN rules n (out ++ [tail])
    | _ => apply .exp u

end

/-- A bound for the depth of simplification. -/
def depthBound (es : List (Expr Constant)) : Nat := es.foldl (fun n e => n + e.size) 8

/-- The product of a list of expressions. -/
def product (rules : DecimalRules) (es : List (Expr Constant)) : Expr Constant :=
  productN rules (depthBound es) es

/-- A power. -/
def power (rules : DecimalRules) (b e : Expr Constant) : Expr Constant :=
  powerN rules (depthBound [b, e]) b e

/-- An exponential. -/
def exponentialOf (rules : DecimalRules) (u : Expr Constant) : Expr Constant :=
  expN rules (depthBound [u]) u

end Expr

end FluxBalance.Equation
