import FluxBalance.Network.Gain
import FluxBalance.Network.Settling

/-!
# Putting elements in

An element is first made against a network, which checks its ends and its gain and changes
nothing, and then joined to it. A driving element drives its output, or its input if the output
is locked; joining it locks the node that it drives.
-/

namespace FluxBalance

variable {α : Type} [Scalar α]

namespace Element

/-- Whether a driving element between two nodes drives its output; one of them has to be
unlocked. -/
def driveEnd (net : Network α) (input output : Int) : Except (Error α) Bool := do
  let before ← net.node input
  let after ← net.node output
  if before.isLocked && after.isLocked then throw (.element (.bothLocked input output))
  return !after.isLocked

/-- Which end an element of a kind drives; an element that does not drive counts as driving its
input. -/
def planned (net : Network α) (kind : ElementKind) (input output : Int) : Except (Error α) Bool :=
  if kind.drives then driveEnd net input output else .ok false

/-- An element of a kind between two nodes. -/
def new (net : Network α) (kind : ElementKind) (input output : Int) (gain : Gain α) :
    Except (Error α) (Element α) := do
  let before ← net.node input
  let after ← net.node output
  if input = output then throw (.element (.selfLoop input))
  if before.components ≠ after.components then
    throw (.element (.componentCounts input output before.components after.components))
  let given ← gain.toMatrix
  match kind.checkGain given before.components with
  | .error cause => throw (.element cause)
  | .ok checked =>
    return ⟨kind, input.toNat, output.toNat, checked, ← planned net kind input output⟩

end Element

namespace Network

/-- Records an element at the nodes whose balance it enters. -/
def register (net : Network α) (e : Element α) : Network α :=
  let index := net.elements.size
  { net with
    elements := net.elements.push e
    nodes := e.endpoints.foldl (fun nodes i =>
      nodes.modify i fun n => { n with elements := n.elements ++ [index] }) net.nodes }

/-- Joins an element to the network and answers its position. -/
def addElement (e : Element α) : NetworkAction α Nat := fun net =>
  let attach : NetworkAction α Nat := do
    if e.kind.drives then
      changeNode e.driven Node.lock
      let _ ← synchronise e
    return net.elements.size
  attach (net.register e)

end Network

end FluxBalance
