import FluxBalance.Equation.Constant

/-!
# Expressions

The terms that simplification works on. A sum or a product of several parts is nested to the
left; a function with several arguments is applied to them one after the other.

Constants are a parameter of the type: expressions over `Constant` are simplified, expressions
over numbers are evaluated.
-/

namespace FluxBalance.Equation

/-- Functions of one argument. -/
inductive Fn where
  | exp | log | sin | cos | tan | asin | acos | atan | sinh | cosh | tanh
  | abs | sign | floor | ceiling | factorial
  deriving Repr, DecidableEq

/-- Functions of two arguments. -/
inductive Fn₂ where
  | atan2 | mod | max | min
  deriving Repr, DecidableEq

/-- The name of a function. -/
def Fn.name : Fn → String
  | exp => "exp"
  | log => "log"
  | sin => "sin"
  | cos => "cos"
  | tan => "tan"
  | asin => "asin"
  | acos => "acos"
  | atan => "atan"
  | sinh => "sinh"
  | cosh => "cosh"
  | tanh => "tanh"
  | abs => "abs"
  | sign => "sign"
  | floor => "floor"
  | ceiling => "ceiling"
  | factorial => "factorial"

/-- The name of a function of two arguments. -/
def Fn₂.name : Fn₂ → String
  | atan2 => "atan2"
  | mod => "mod"
  | max => "max"
  | min => "min"

/-- An expression with constants of type `κ`. -/
inductive Expr (κ : Type) where
  | const (value : κ)
  | var (name : String)
  | add (a b : Expr κ)
  | mul (a b : Expr κ)
  | pow (base exponent : Expr κ)
  | apply (f : Fn) (a : Expr κ)
  | apply₂ (f : Fn₂) (a b : Expr κ)
  /-- A function of which only the name is known. -/
  | unknown (name : String)
  /-- An unknown function, or one that is applied to arguments already, applied to one more. -/
  | applied (f a : Expr κ)
  deriving Repr, DecidableEq, Inhabited

namespace Expr

variable {κ : Type}

/-! ### Variables -/

/-- The names of the variables, as often and in the order as they occur. -/
def occurrences : Expr κ → List String
  | const _ | unknown _ => []
  | var name => [name]
  | add a b | mul a b | pow a b | apply₂ _ a b | applied a b => a.occurrences ++ b.occurrences
  | apply _ a => a.occurrences

/-- Whether a variable occurs. -/
def mentions (name : String) (e : Expr κ) : Bool := e.occurrences.contains name

/-- Whether no variable occurs. -/
def isClosed (e : Expr κ) : Bool := e.occurrences.isEmpty

/-- A name put into an ascending list of names, unless it is there. -/
def insertName (name : String) : List String → List String
  | [] => [name]
  | n :: ns =>
    if name < n then name :: n :: ns else if name = n then n :: ns else n :: insertName name ns

/-- The names of the variables, each one once, in ascending order. -/
def vars (e : Expr κ) : List String := e.occurrences.foldr insertName []

theorem mem_insertName {m name : String} {ns : List String} :
    m ∈ insertName name ns ↔ m = name ∨ m ∈ ns := by
  induction ns with
  | nil => simp [insertName]
  | cons n ns ih => grind [insertName]

/-- The variables of an expression are the names that occur in it. -/
theorem mem_vars {name : String} {e : Expr κ} :
    name ∈ e.vars ↔ name ∈ e.occurrences := by
  unfold vars
  induction e.occurrences with
  | nil => simp
  | cons n ns ih => simp [mem_insertName, ih]

/-! ### Traversals -/

/-- The number of nodes. -/
def size : Expr κ → Nat
  | const _ | var _ | unknown _ => 1
  | add a b | mul a b | pow a b | apply₂ _ a b | applied a b => a.size + b.size + 1
  | apply _ a => a.size + 1

/-- The expression with its constants changed. -/
def map {ι : Type} (f : κ → ι) : Expr κ → Expr ι
  | const c => const (f c)
  | var name => var name
  | add a b => add (a.map f) (b.map f)
  | mul a b => mul (a.map f) (b.map f)
  | pow a b => pow (a.map f) (b.map f)
  | apply g a => apply g (a.map f)
  | apply₂ g a b => apply₂ g (a.map f) (b.map f)
  | unknown name => unknown name
  | applied g a => applied (g.map f) (a.map f)

/-- The parts of a sum; an expression that is no sum is its only part. -/
def addends : Expr κ → List (Expr κ)
  | add a b => a.addends ++ b.addends
  | e => [e]

/-- The parts of a product; an expression that is no product is its only part. -/
def factors : Expr κ → List (Expr κ)
  | mul a b => a.factors ++ b.factors
  | e => [e]

/-- The sum of the given parts, nested to the left; the default is the empty sum. -/
def nestSum (default : Expr κ) : List (Expr κ) → Expr κ
  | [] => default
  | a :: rest => rest.foldl add a

/-- The product of the given parts, nested to the left; the default is the empty product. -/
def nestProduct (default : Expr κ) : List (Expr κ) → Expr κ
  | [] => default
  | a :: rest => rest.foldl mul a

/-! ### Order -/

/-- The place of an expression's kind in the order of expressions. -/
def rank : Expr κ → Nat
  | const _ => 0
  | var _ => 1
  | pow .. => 2
  | mul .. => 3
  | add .. => 4
  | apply .. => 5
  | apply₂ .. => 6
  | unknown _ => 7
  | applied .. => 8

/-- A total order of expressions, in which the parts of sums and products are arranged. -/
def compare : Expr Constant → Expr Constant → Ordering
  | const a, const b => a.compare b
  | var m, var n => Ord.compare m n
  | pow a b, pow c d | mul a b, mul c d | add a b, add c d | applied a b, applied c d =>
    (a.compare c).then (b.compare d)
  | apply f a, apply g b => (Ord.compare f.name g.name).then (a.compare b)
  | apply₂ f a b, apply₂ g c d =>
    (Ord.compare f.name g.name).then ((a.compare c).then (b.compare d))
  | unknown m, unknown n => Ord.compare m n
  | a, b => Ord.compare a.rank b.rank

/-- Whether the first expression comes before the second one or is the same. -/
def precedes (a b : Expr Constant) : Bool := a.compare b != .gt

/-- An expression put into an arranged list, in front of those that it precedes. -/
def insertArranged (e : Expr Constant) : List (Expr Constant) → List (Expr Constant)
  | [] => [e]
  | d :: ds => if precedes e d then e :: d :: ds else d :: insertArranged e ds

/-- A list of expressions brought into order; expressions of equal rank keep their order. -/
def arrange (es : List (Expr Constant)) : List (Expr Constant) := es.foldr insertArranged []

theorem insertArranged_perm (e : Expr Constant) (es : List (Expr Constant)) :
    (insertArranged e es).Perm (e :: es) := by
  induction es with
  | nil => exact .refl _
  | cons d ds ih =>
    unfold insertArranged
    split
    · exact .refl _
    · exact (ih.cons d).trans (.swap e d ds)

/-- Arranging neither adds nor drops expressions. -/
theorem arrange_perm (es : List (Expr Constant)) : (arrange es).Perm es := by
  induction es with
  | nil => exact .refl _
  | cons e es ih => exact (insertArranged_perm e _).trans (ih.cons e)

end Expr

end FluxBalance.Equation
