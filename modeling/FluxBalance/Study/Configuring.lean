import FluxBalance.Network.Settling

/-!
# Studies that are being configured

A study first collects nodes and their boundary conditions. Configuring it hands its network
over to be completed with elements and solved; after that the study itself is of no use any
more.
-/

namespace FluxBalance

/-- A study before elements are added. -/
structure Study (α : Type) where
  /-- The library in which element names are looked up, if one was chosen. -/
  modelType : Option String
  /-- The nodes; none once the network has been handed over. -/
  network? : Option (Network α)

namespace Study

variable {α : Type}

/-- A study without nodes. -/
def new (modelType : Option String) : Study α := ⟨modelType, some .empty⟩

/-- The network of a study that has not been configured yet. -/
def live (s : Study α) : Except (Error α) (Network α) :=
  match s.network? with
  | some net => .ok net
  | none => .error .studyConfigured

/-- The number of nodes. -/
def nodeCount (s : Study α) : Except (Error α) Nat := do return (← s.live).nodes.size

/-- The node at a position. -/
def node (s : Study α) (index : Int) : Except (Error α) (Node α) := do (← s.live).node index

/-- Adds unlocked nodes at a potential of zeros, and answers the position of the first of them
and the position after the last. -/
def addNodes [Zero α] (s : Study α) (count components : Int) :
    Except (Error α) ((Nat × Nat) × Study α) := do
  let net ← s.live
  let start := net.nodes.size
  if count ≤ 0 then return ((start, start), s)
  let n ← Node.new components
  let nodes := net.nodes ++ Array.replicate count.toNat n
  return ((start, nodes.size), { s with network? := some { net with nodes := nodes } })

/-- Changes the node at a position. -/
def changeNode (s : Study α) (index : Int) (step : Node α → Except (Error α) (Node α)) :
    Except (Error α) (Study α) := do
  let net ← (← s.live).changed index step
  return { s with network? := some net }

/-- Sets what is given of a node's potential, lock and metadata. -/
def configureNode (s : Study α) (index : Int) (potential : Option (DenseMatrix α))
    (isLocked : Option Bool) (metadata : Option (List (String × Json))) :
    Except (Error α) (Study α) :=
  s.changeNode index fun n => n.configure potential isLocked metadata

/-- Locks a node at a potential of zeros. -/
def groundNode [Zero α] (s : Study α) (index : Int) : Except (Error α) (Study α) :=
  s.changeNode index Node.ground

/-- Hands the network over; what is left is a study that can no longer be used. -/
def configure (s : Study α) : Except (Error α) (Network α × Study α) := do
  return (← s.live, { s with network? := none })

end Study

end FluxBalance
