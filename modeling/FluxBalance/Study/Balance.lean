import FluxBalance.Network.ComponentIndex
import FluxBalance.Network.Settling
import FluxBalance.Newton.System

/-!
# The equations of a network

The unknowns of a network are the potential components of its unlocked nodes, and there is one
equation for each of them: the same component of the discrepancy of the same node. To evaluate
an equation, all unknowns are written into the network and the driven potentials are derived
anew.
-/

namespace FluxBalance

namespace Network

variable {α : Type} [Scalar α]

/-- Values of unknowns. -/
abbrev Unknowns (α : Type) := Newton.Assignment ComponentIndex α

/-! ### Unknowns -/

/-- Fails if there are no nodes, or if some coordinate would exceed the limit. -/
def checkIndexRange (net : Network α) (limit : Nat) : Except (Error α) Unit := do
  if net.nodes.isEmpty then throw .noNodes
  if limit < net.nodes.size - 1 then throw (.indexOverflow (.nodes net.nodes.size))
  let widest := net.nodes.foldl (fun w n => Nat.max w n.components) 0
  if limit < widest - 1 then throw (.indexOverflow (.components widest))

/-- The unknowns of one node with its present potential. A locked node has none. -/
def nodeUnknowns (index : Nat) (n : Node α) : Except (Error α) (Unknowns α) :=
  if n.isLocked then .ok []
  else do
    let p ← n.read
    return (List.range n.components).map fun c => (⟨index, c⟩, p.entry c 0)

/-- The unknowns of all nodes with their present potentials, by node and then by component. -/
def unknowns (net : Network α) : Except (Error α) (Unknowns α) := do
  let parts ← (net.nodes.toList.zipIdx).mapM fun (n, i) => nodeUnknowns i n
  return parts.flatten

/-! ### Equations -/

/-- Writes values of unknowns into the network. -/
def writeUnknowns : Unknowns α → NetworkAction α Unit
  | [] => return ()
  | (i, x) :: rest => do
    changeNode i.node fun n => n.setComponent i.component x
    writeUnknowns rest

/-- The value of one equation, given values of unknowns; they stay in the network. -/
def balance (i : ComponentIndex) (x : Unknowns α) : NetworkAction α α := do
  writeUnknowns x
  settle
  let d ← discrepancy i.node
  NetworkAction.look fun _ => fitting (d.get i.component 0)

/-- The equation of one unknown. -/
def balanceResidual (i : ComponentIndex) : Newton.Residual ComponentIndex α (Network α) where
  name := .balance i.node i.component
  value := balance i

/-- The equations and the present values of all unknowns. -/
def generateSystem (net : Network α) (limit : Nat) :
    Except (Error α) (List (Newton.Residual ComponentIndex α (Network α)) × Unknowns α) := do
  net.checkIndexRange limit
  let guess ← net.unknowns
  return (guess.map fun u => balanceResidual u.1, guess)

end Network

/-- The written form of the equation of one unknown. -/
def ComponentIndex.equationText (i : ComponentIndex) : String :=
  "NodalResidual(node=" ++ toString i.node ++ ", component=" ++ toString i.component ++ ")"

end FluxBalance
