import FluxBalance.Json.Basic
import FluxBalance.Network.Access
import FluxBalance.DenseMatrix.Basic

/-!
# Nodes

A node has a potential, which is a column with one row for each component, and may be locked:
the potential of a locked node is a boundary condition and none of its components is an unknown.
Reading the potential needs shared access and writing to the node exclusive access, for no
longer than the step itself takes.
-/

namespace FluxBalance

/-- A point of a network at which flux has to be balanced. -/
structure Node (α : Type) where
  /-- A column with one row for each component. -/
  potential : DenseMatrix α
  isLocked : Bool
  /-- Whatever is carried along with the node. -/
  metadata : Option (List (String × Json))
  /-- The positions of the elements that enter the balance of this node, in ascending order. -/
  elements : List Nat
  access : Access

namespace Node

variable {α : Type}

/-- The number of components of the potential. -/
def components (n : Node α) : Nat := n.potential.rows

/-- An unlocked node with a potential of zeros. -/
def zero [Zero α] (components : Nat) : Node α where
  potential := .zeros components 1
  isLocked := false
  metadata := none
  elements := []
  access := .free

/-- An unlocked node with a potential of zeros, which has at least one component. -/
def new [Zero α] (components : Int) : Except (Error α) (Node α) :=
  if components < 1 then .error (.nodeWidth components) else .ok (zero components.toNat)

/-! ### Access -/

/-- Somebody enters the node and stays. -/
def enter (guard : Guard) (n : Node α) : Except (Error α) (Node α) :=
  match n.access.enter guard with
  | .ok a => .ok { n with access := a }
  | .error conflict => .error (.borrow conflict)

/-- Somebody who entered the node leaves it. -/
def leave (guard : Guard) (n : Node α) : Node α := { n with access := n.access.leave guard }

/-- A step inside the node by somebody who enters before it and leaves after it. -/
def inside {β : Type} (guard : Guard) (n : Node α) (step : Node α → Except (Error α) β) :
    Except (Error α) β := do
  step (← n.enter guard)

/-- A change of the node by a writer who enters before it and leaves after it. -/
def change (n : Node α) (step : Node α → Except (Error α) (Node α)) :
    Except (Error α) (Node α) := do
  return (← n.inside .exclusive step).leave .exclusive

/-! ### Operations -/

/-- The potential, by way of shared access. -/
def read (n : Node α) : Except (Error α) (DenseMatrix α) :=
  n.inside .shared fun n => .ok n.potential

/-- Replaces the potential by one of the same shape. -/
def setPotential (n : Node α) (value : DenseMatrix α) : Except (Error α) (Node α) :=
  n.change fun n =>
    if value.shape = n.potential.shape then .ok { n with potential := value }
    else .error (.potentialShape n.components value.rows value.cols)

/-- Replaces one component of the potential. -/
def setComponent [Zero α] (n : Node α) (component : Int) (value : α) :
    Except (Error α) (Node α) :=
  n.change fun n =>
    match n.potential.set component 0 value with
    | .ok p => .ok { n with potential := p }
    | .error cause => .error (.matrix cause)

/-- Locks the node. -/
def lock (n : Node α) : Except (Error α) (Node α) :=
  n.change fun n => .ok { n with isLocked := true }

/-- Locks the node at a potential of zeros. -/
def ground [Zero α] (n : Node α) : Except (Error α) (Node α) :=
  n.change fun n => .ok { n with potential := .zeros n.components 1, isLocked := true }

/-- Sets what is given of the potential, the lock and the metadata; the potential comes
first. -/
def configure (n : Node α) (potential : Option (DenseMatrix α)) (isLocked : Option Bool)
    (metadata : Option (List (String × Json))) : Except (Error α) (Node α) := do
  let n ←
    match potential with
    | some value => n.setPotential value
    | none => .ok n
  n.change fun n => .ok { n with
    isLocked := isLocked.getD n.isLocked
    metadata := metadata.or n.metadata }

end Node

end FluxBalance
