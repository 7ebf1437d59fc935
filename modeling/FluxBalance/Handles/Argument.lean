import FluxBalance.Error
import FluxBalance.Number.Read

/-!
# Arguments of facade calls

A caller of the facade may hand over anything. This module says how an argument is understood
where a handle, an index, a number, a margin, a bound or a text is expected, and refuses it as
a fault where it cannot be understood.
-/

namespace FluxBalance

/-- What a caller hands over. -/
inductive Argument where
  | int (n : Int)
  | real (x : Float)
  | truth (b : Bool)
  | text (s : String)
  | nothing
  /-- Anything else. -/
  | other

namespace Argument

/-- Truth values count as the integers one and zero. -/
def plain : Argument → Argument
  | truth true => int 1
  | truth false => int 0
  | a => a

/-- The natural number that an argument stands for where a handle is expected. -/
def handle? (a : Argument) : Option Nat :=
  match a.plain with
  | int n => if n < 0 then none else some n.toNat
  | real x =>
    match Number.toRat? x with
    | some q => if q.den = 1 ∧ 0 ≤ q.num then some q.num.toNat else none
    | none => none
  | _ => none

/-- Whether an argument is the handle that stands for no object. -/
def isNull (a : Argument) : Bool := a.handle? == some 0

/-- An index, a size or a limit: a number that is not negative, without its fraction. -/
def index (a : Argument) : Except Fault Int :=
  match a.plain with
  | int n => if n < 0 then .error .badIndex else .ok n
  | real x =>
    if x < 0 then .error .badIndex
    else
      match Number.toRat? x with
      | some q => .ok q.floor
      | none => if x != x then .error .badValue else .error .overflow
  | _ => .error .wrongType

/-- A number, which may also be given as a text. -/
def number (a : Argument) : Except Fault Float :=
  match a.plain with
  | int n =>
    match Number.ofInt? n with
    | some x => .ok x
    | none => .error .overflow
  | real x => .ok x
  | text s =>
    match Number.readDouble? s with
    | some x => .ok x
    | none => .error .badValue
  | _ => .error .wrongType

/-- A number to multiply with; texts are no numbers here. -/
def factor (a : Argument) : Except Fault Float :=
  match a.plain with
  | text _ => .error .wrongType
  | a => a.number

/-- An entry of a matrix; nothing at all is an undefined number. -/
def entry (a : Argument) : Except Fault Float :=
  match a with
  | nothing => .ok (0.0 / 0.0)
  | a => a.number

/-- A number that is only compared, so that an integer may be of any size. -/
def compared (a : Argument) : Except Fault Float :=
  match a.plain with
  | int n => .ok ((Number.ofInt? n).getD (if n < 0 then -1.0 / 0.0 else 1.0 / 0.0))
  | real x => .ok x
  | _ => .error .wrongType

/-- A convergence margin. The doubles below an integer are those below the least double that is not
smaller than it, so the nearest double of an integer is moved up where it is too small. What is no
number is an undefined margin, which no check passes. -/
def margin (a : Argument) : Float :=
  match a.plain, a.compared with
  | int n, .ok x =>
    match Number.toRat? x with
    | some q => if 0 < n ∧ q < n then Float.ofBits (x.toBits + 1) else x
    | none => x
  | _, .ok x => x
  | _, .error _ => 0.0 / 0.0

/-- The exact value of a finite number. -/
def rational? (a : Argument) : Option Rat :=
  match a.plain with
  | int n => some n
  | real x => Number.toRat? x
  | _ => none

/-- A number beside one that is infinite or undefined. Every integer counts as the same finite
number here, whatever its size. -/
def besideInfinite (a : Argument) : Except Fault Float :=
  match a.plain with
  | int _ => .ok 0
  | real x => .ok x
  | _ => .error .wrongType

/-- Whether one argument exceeds another: numbers by their exact values, texts by their
characters. -/
def exceeds (a b : Argument) : Except Fault Bool :=
  match a, b with
  | text s, text t => .ok (decide (t < s))
  | a, b =>
    match a.rational?, b.rational? with
    | some p, some q => .ok (decide (q < p))
    | _, _ => do return decide ((← b.besideInfinite) < (← a.besideInfinite))

/-- The text of an equation; what is no text counts as blank. -/
def equation : Argument → String
  | text s => s
  | _ => ""

end Argument

end FluxBalance
