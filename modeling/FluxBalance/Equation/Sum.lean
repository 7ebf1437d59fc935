import FluxBalance.Equation.Evaluate

/-!
# Collected sums

A sum is brought into a form in which the constants are added up and every other term occurs
once, with its coefficient. `Expr.sum` builds that form from any list of parts, and
`Expr.scale` multiplies it by a constant.
-/

namespace FluxBalance.Equation

namespace Expr

/-! ### Coefficients -/

/-- A term as its coefficient and the rest of it. -/
def coefficient (e : Expr Constant) : Constant × Expr Constant :=
  match e.factors with
  | [const c] => (c, const .one)
  | const c :: rest => (c, nestProduct (const .one) rest)
  | _ => (.one, e)

/-- The term with the given coefficient and rest. The rest has no coefficient of its own. -/
def withCoefficient (c : Constant) (e : Expr Constant) : Expr Constant :=
  if c = .one then e
  else if c = .undefined then const .undefined
  else if e = const .one then const c
  else nestProduct (const c) (const c :: e.factors)

/-! ### Collection -/

/-- The constant part of a sum, and its terms with their coefficients. -/
structure Terms where
  total : Constant
  terms : List (Expr Constant × Constant)

/-- A list of terms with one more of them: its coefficient is added to that of the same term,
if it is there already. -/
def insertTerm (round : Rounding) (e : Expr Constant) (c : Constant) :
    List (Expr Constant × Constant) → List (Expr Constant × Constant)
  | [] => [(e, c)]
  | (d, k) :: rest =>
    if d = e then (d, k.add round c) :: rest else (d, k) :: insertTerm round e c rest

/-- The collection with one more part of a sum. -/
def Terms.insert (round : Rounding) (t : Terms) (e : Expr Constant) : Terms :=
  match e with
  | const c => { t with total := t.total.add round c }
  | e =>
    let (c, d) := e.coefficient
    { t with terms := insertTerm round d c t.terms }

/-- The sum of a collection. Terms with coefficient zero are left out. -/
def Terms.toExpr (t : Terms) : Expr Constant :=
  if t.total = .undefined then const .undefined
  else
    let parts := (t.terms.filter fun p => !p.2.isZero).map fun p => withCoefficient p.2 p.1
    let parts := arrange parts
    if t.total = .zero then nestSum (const .zero) parts
    else nestSum (const t.total) (const t.total :: parts)

/-- The sum of a list of expressions. -/
def sum (round : Rounding) (es : List (Expr Constant)) : Expr Constant :=
  ((es.flatMap addends).foldl (Terms.insert round) ⟨.zero, []⟩).toExpr

/-! ### Multiples -/

/-- A term that is no sum, multiplied by a constant. -/
def scaleTerm (round : Rounding) (c : Constant) (e : Expr Constant) : Expr Constant :=
  match e with
  | const d => const (c.mul round d)
  | e =>
    let (d, rest) := e.coefficient
    let k := c.mul round d
    if k.isZero then const .zero else withCoefficient k rest

/-- An expression multiplied by a finite constant, term by term. -/
def scale (round : Rounding) (c : Constant) (e : Expr Constant) : Expr Constant :=
  match e.addends with
  | [e] => scaleTerm round c e
  | es => sum round (es.map (scaleTerm round c))

/-- The expression with the opposite sign. -/
def negated (e : Expr Constant) : Expr Constant := scale (fun q => q) .minusOne e

end Expr

end FluxBalance.Equation
