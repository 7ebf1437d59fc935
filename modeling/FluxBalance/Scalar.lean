import FluxBalance.Number.Decimal
import FluxBalance.Number.Read

/-!
# Scalars

Matrices, Newton iterations and networks are written once, over any type of scalars. Two types
matter: the doubles, with which the program computes, and the rationals, over which the same
definitions are exact and the laws of the algorithms can be stated without rounding.

Order and equality are tests with a Boolean answer, because on doubles they are not an order
and not an equality: NaN is neither less than, greater than nor equal to anything.
-/

namespace FluxBalance

/-- A type of numbers to compute with. -/
class Scalar (α : Type) extends Zero α, One α, Add α, Sub α, Mul α, Div α, Neg α where
  /-- Whether the first number is strictly less than the second. -/
  lt : α → α → Bool
  /-- Whether two numbers are numerically equal. -/
  eq : α → α → Bool
  /-- Whether the number is neither infinite nor undefined. -/
  isFinite : α → Bool
  /-- The square root, where it exists. -/
  sqrt : α → α
  /-- The number nearest to a rational. -/
  ofRat : Rat → α
  /-- The exact value of a finite number. -/
  toRat? : α → Option Rat
  /-- The number that a text stands for. -/
  ofText? : String → Option α
  /-- The determinant of a triangular factor with the given diagonal; the flag says whether an
  odd number of row exchanges led to it. -/
  ofPivots : Bool → List α → α

namespace Scalar

variable {α : Type} [Scalar α]

/-- Whether the first number is less than or equal to the second. -/
def le (x y : α) : Bool := lt x y || eq x y

/-- Whether the number is undefined, that is, not even equal to itself. -/
def isNaN (x : α) : Bool := !eq x x

/-- The magnitude of a number; zero has no sign afterwards. -/
def abs (x : α) : α := if lt x 0 then -x else if eq x 0 then 0 else x

/-- The second number if it is greater than the first, otherwise the first. -/
def max (x y : α) : α := if lt x y then y else x

/-- The second number if it is less than the first, otherwise the first. -/
def min (x y : α) : α := if lt y x then y else x

/-- One, minus one or zero, as the number is positive, negative or zero. -/
def sign (x : α) : α := if lt 0 x then 1 else if lt x 0 then -1 else if eq x 0 then 0 else x

/-- The sum of a list, from left to right. -/
def sum (xs : List α) : α := xs.foldl (· + ·) 0

/-- The largest magnitude in a list, zero if it is empty. -/
def maxAbs : List α → α
  | [] => 0
  | x :: xs => xs.foldl (fun best y => max best (abs y)) (abs x)

/-- The number two. -/
def two : α := 1 + 1

end Scalar

/-- The magnitude of a determinant is the exponential of the sum of the logarithms of the
pivots, so it may leave the range of the doubles although every pivot lies inside it. A zero
pivot makes it zero. -/
def determinantOfDoubles (odd : Bool) (pivots : List Float) : Float :=
  if pivots.any (· == 0) then 0
  else
    let negatives := pivots.countP (· < 0)
    let magnitude : Float :=
      (pivots.foldl (fun (total p : Float) => total + p.abs.log) 0.0).exp
    if (negatives % 2 == 1) != odd then -magnitude else magnitude

instance : Scalar Float where
  zero := 0.0
  one := 1.0
  lt x y := x < y
  eq x y := x == y
  isFinite x := x.isFinite
  sqrt x := x.sqrt
  ofRat q := Number.toDouble q
  toRat? x := Number.toRat? x
  ofText? := Number.readDouble?
  ofPivots := determinantOfDoubles

/-- Over the rationals the determinant is the signed product of the pivots, and the square
root is not available. -/
instance : Scalar Rat where
  zero := 0
  one := 1
  lt x y := decide (x < y)
  eq x y := decide (x = y)
  isFinite _ := true
  sqrt _ := 0
  ofRat q := q
  toRat? q := some q
  ofText? := Number.readRat?
  ofPivots odd pivots :=
    let product := pivots.foldl (· * ·) 1
    if odd then -product else product

end FluxBalance
