import FluxBalance.Network.Construction

/-!
# Parameters of elements

Elements of a library are made from physical parameters, such as a resistance. A constructor
checks them and turns them into the gain of an element of some kind.
-/

namespace FluxBalance

/-- Makes an element between two nodes of a network from its parameters. -/
abbrev Constructor (α : Type) :=
  Network α → Int → Int → Gain α → Except (Error α) (Element α)

namespace Library

variable {α : Type} [Scalar α]

/-- A diagonal matrix with one value for each component. A single value is repeated. -/
def diagonal (values : List α) (components : Nat) (what : String) :
    Except (Error α) (DenseMatrix α) :=
  let repeated :=
    match values with
    | [x] => List.replicate components x
    | xs => xs
  if repeated.length = components then .ok (.ofDiagonal repeated)
  else .error (.element (.valueCount what components repeated.length))

/-- Fails unless there are values and all of them are positive. -/
def requirePositive (values : List α) (what : String) : Except (Error α) Unit :=
  if values.isEmpty || values.any (fun x => !Scalar.lt 0 x) then
    .error (.element (.notPositive what values))
  else .ok ()

/-- An element of a kind whose gain is what is given. -/
def plain (kind : ElementKind) : Constructor α := fun net input output gain =>
  Element.new net kind input output gain

/-- An element of a kind whose gain is what is given and has to be positive. -/
def positive (kind : ElementKind) (what : String) : Constructor α := fun net input output gain => do
  requirePositive (← gain.values) what
  Element.new net kind input output gain

end Library

end FluxBalance
