import FluxBalance.Network.Flux

/-!
# Driven potentials

A driving element imposes that the potential rises by its gain from its input to its output. To
synchronise it is to derive the potential of the node that it drives from the dominant one.
Driving elements may follow one another, so settling repeats a pass over all of them until a
pass changes nothing, and at most as often as there are driving elements: each pass puts at
least one more link of every chain right.
-/

namespace FluxBalance

namespace Network

variable {α : Type} [Scalar α]

/-! ### One element -/

/-- The potential that an element imposes on the node that it drives, given the potential of the
dominant one. -/
def imposed (e : Element α) (base : DenseMatrix α) : Except (Error α) (DenseMatrix α) :=
  if e.drivesOutput then fitting (base.add e.gain) else fitting (base.sub e.gain)

/-- Derives the potential of the driven node anew, and says whether it was another one before. -/
def synchronise (e : Element α) : NetworkAction α Bool := do
  let base ← NetworkAction.look fun net => net.potential e.dominant
  let target ← NetworkAction.look fun _ => imposed e base
  let before ← NetworkAction.look fun net => net.node e.driven
  changeNode e.driven fun n => n.change fun n => .ok { n with potential := target }
  return !before.potential.sameEntries target

/-! ### All elements -/

/-- Synchronises elements one after the other, and says whether some potential was another one
before. -/
def settlePass : List (Element α) → NetworkAction α Bool
  | [] => return false
  | e :: es => do
    let first ← synchronise e
    let rest ← settlePass es
    return first || rest

/-- At most the given number of passes. -/
def settleWithin (es : List (Element α)) : Nat → NetworkAction α Unit
  | 0 => return ()
  | n + 1 => do if ← settlePass es then settleWithin es n

/-- Derives the potentials of all driven nodes anew. -/
def settle : NetworkAction α Unit := fun net =>
  settleWithin net.drivers net.drivers.length net

/-! ### Saved potentials -/

/-- The potentials of all nodes. -/
def snapshot (net : Network α) : Except (Error α) (List (DenseMatrix α)) :=
  net.nodes.toList.mapM Node.read

/-- Gives the nodes from position `index` on the potentials of a list. -/
def restoreFrom : Nat → List (DenseMatrix α) → NetworkAction α Unit
  | _, [] => return ()
  | index, p :: ps => do
    changeNode index fun n => n.setPotential p
    restoreFrom (index + 1) ps

/-- Gives all nodes the potentials of a list. -/
def restore (potentials : List (DenseMatrix α)) : NetworkAction α Unit :=
  restoreFrom 0 potentials

end Network

end FluxBalance
