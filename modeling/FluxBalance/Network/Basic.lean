import FluxBalance.Network.Node
import FluxBalance.Network.Element

/-!
# Networks

A network holds nodes and elements in the order of their creation, and they are named by their
positions. It also holds the marks of the nodes that are being resolved: while the flux of a
driving element is derived from the balance of the node that it drives, that node is marked, so
that a loop of driving elements is noticed.

Operations that may fail half-way are computations on a network: what was done before the
failure stays done.
-/

namespace FluxBalance

/-- Nodes joined by elements. -/
structure Network (α : Type) where
  nodes : Array (Node α)
  elements : Array (Element α)
  /-- The nodes that are being resolved. -/
  resolving : List Nat

/-- A computation on a network; its effects stay even if it fails. -/
abbrev NetworkAction (α β : Type) := EStateM (Error α) (Network α) β

namespace NetworkAction

variable {α β : Type}

/-- A computation that only looks at the network. -/
def look (f : Network α → Except (Error α) β) : NetworkAction α β := fun net =>
  match f net with
  | .ok b => .ok b net
  | .error e => .error e net

end NetworkAction

namespace Network

variable {α : Type}

/-- The network without nodes. -/
def empty : Network α := ⟨#[], #[], []⟩

/-! ### Nodes -/

/-- The node at a position. -/
def node (net : Network α) (index : Int) : Except (Error α) (Node α) :=
  if index < 0 then .error (.missingEndpoint index net.nodes.size)
  else
    match net.nodes[index.toNat]? with
    | some n => .ok n
    | none => .error (.missingEndpoint index net.nodes.size)

/-- The potential of a node, by way of shared access. -/
def potential (net : Network α) (index : Int) : Except (Error α) (DenseMatrix α) := do
  (← net.node index).read

/-- The network with a node replaced. -/
def setNode (net : Network α) (index : Nat) (n : Node α) : Network α :=
  { net with nodes := net.nodes.setIfInBounds index n }

@[simp] theorem size_nodes_setNode (net : Network α) (index : Nat) (n : Node α) :
    (net.setNode index n).nodes.size = net.nodes.size := by
  simp [setNode]

@[simp] theorem elements_setNode (net : Network α) (index : Nat) (n : Node α) :
    (net.setNode index n).elements = net.elements := rfl

@[simp] theorem resolving_setNode (net : Network α) (index : Nat) (n : Node α) :
    (net.setNode index n).resolving = net.resolving := rfl

/-- The node at a position that exists is found there. -/
theorem node_natCast (net : Network α) {index : Nat} (h : index < net.nodes.size) :
    net.node index = .ok net.nodes[index] := by
  have h0 : ¬((index : Int) < 0) := by omega
  simp [node, h0, h]

/-- The network with one more node. -/
def addNode (net : Network α) (n : Node α) : Network α := { net with nodes := net.nodes.push n }

/-- The network with one node changed. -/
def changed (net : Network α) (index : Int) (step : Node α → Except (Error α) (Node α)) :
    Except (Error α) (Network α) := do
  let n ← step (← net.node index)
  return net.setNode index.toNat n

/-- Changes one node; a failure leaves the network as it is. -/
def changeNode (index : Int) (step : Node α → Except (Error α) (Node α)) :
    NetworkAction α Unit := fun net =>
  match net.changed index step with
  | .ok net => .ok () net
  | .error e => .error e net

/-! ### Elements -/

/-- The element at a position. -/
def element (net : Network α) (index : Nat) : Except (Error α) (Element α) :=
  match net.elements[index]? with
  | some e => .ok e
  | none => .error (.fault .badIndex)

/-- The elements that impose potentials, in order. -/
def drivers (net : Network α) : List (Element α) :=
  net.elements.toList.filter fun e => e.kind.drives

end Network

end FluxBalance
