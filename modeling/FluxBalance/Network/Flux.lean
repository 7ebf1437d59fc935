import FluxBalance.Network.Basic

/-!
# Fluxes and balances

The flux of an element goes from its input to its output node. The discrepancy of a node is what
flows in less what flows out, summed over the elements that enter its balance. The flux of a
driving element is whatever balances the node that it drives, so it is derived from the
discrepancy of that node, and the node is marked in the meantime. A node that is marked already
has been reached by a loop of driving elements, which has no flux.
-/

namespace FluxBalance

variable {α β : Type} [Scalar α]

namespace Network

/-! ### Elements that do not drive -/

/-- A matrix operation as one that may fail in a network. -/
def fitting : Except MatrixError β → Except (Error α) β
  | .ok b => .ok b
  | .error cause => .error (.matrix cause)

/-- The potential of the input of an element less that of its output. -/
def dropAcross (net : Network α) (e : Element α) : Except (Error α) (DenseMatrix α) := do
  let before ← net.potential e.input
  let after ← net.potential e.output
  fitting (before.sub after)

/-- The square-root law for one component. -/
def orificeFlux (gain drop : α) : α := gain * Scalar.sign drop * Scalar.sqrt (Scalar.abs drop)

/-- The square-root law for each component. -/
def orificeFluxes (gain drop : DenseMatrix α) : DenseMatrix α :=
  .ofFn drop.rows 1 fun i _ => orificeFlux (gain.entry i 0) (drop.entry i 0)

/-- The flux of an element that does not drive. A driving element alone has none. -/
def passiveFlux (net : Network α) (e : Element α) : Except (Error α) (DenseMatrix α) :=
  match e.kind with
  | .conductive => do fitting (e.gain.product (← net.dropAcross e))
  | .constantFlux => .ok e.gain
  | .orifice => do return orificeFluxes e.gain (← net.dropAcross e)
  | .potentialDrive => .ok (.zeros e.gain.rows 1)

/-! ### Marks -/

/-- A computation during which a node is marked. The mark goes when the computation ends, in
success or failure. A node that is marked already is part of a loop. -/
def withMark (index : Nat) (body : NetworkAction α β) : NetworkAction α β := fun net =>
  if net.resolving.contains index then .error (.borrow (.drivenLoop index)) net
  else
    match body { net with resolving := index :: net.resolving } with
    | .ok b net => .ok b { net with resolving := net.resolving.erase index }
    | .error e net => .error e { net with resolving := net.resolving.erase index }

/-! ### Fluxes and discrepancies -/

/-- The flux of an element, given the discrepancies of nodes. -/
def fluxBy (discrepancy : Nat → NetworkAction α (DenseMatrix α)) (e : Element α) :
    NetworkAction α (DenseMatrix α) :=
  if e.kind.drives then do
    let d ← withMark e.driven (discrepancy e.driven)
    return if e.drivesOutput then d.neg else d
  else .look fun net => net.passiveFlux e

/-- What an element adds to the balance of a node: its flux at its output, and minus its flux
elsewhere. -/
def contributionBy (discrepancy : Nat → NetworkAction α (DenseMatrix α)) (index : Nat)
    (e : Element α) : NetworkAction α (DenseMatrix α) := do
  let f ← fluxBy discrepancy e
  return if index = e.output then f else f.neg

/-- The sum of what the elements at the given positions add to the balance of a node. -/
def sumContributions (discrepancy : Nat → NetworkAction α (DenseMatrix α)) (index : Nat) :
    List Nat → DenseMatrix α → NetworkAction α (DenseMatrix α)
  | [], total => return total
  | k :: ks, total => do
    let e ← NetworkAction.look fun net => net.element k
    let c ← contributionBy discrepancy index e
    let total ← NetworkAction.look fun _ => fitting (total.add c)
    sumContributions discrepancy index ks total

/-- The discrepancy of a node, where at most `depth` driving elements follow one another. More of
them than there are nodes can only be a loop. -/
def discrepancyWithin : Nat → Nat → NetworkAction α (DenseMatrix α)
  | 0, index => throw (.borrow (.drivenLoop index))
  | depth + 1, index => do
    let n ← NetworkAction.look fun net => net.node index
    sumContributions (discrepancyWithin depth) index n.elements (.zeros n.components 1)

/-- The discrepancy of the node at a position. -/
def discrepancyAt (index : Nat) : NetworkAction α (DenseMatrix α) := fun net =>
  discrepancyWithin (net.nodes.size + 1) index net

/-- What flows into a node less what flows out of it. -/
def discrepancy (index : Int) : NetworkAction α (DenseMatrix α) := do
  let _ ← NetworkAction.look fun net => net.node index
  discrepancyAt index.toNat

/-- The flux of an element, from its input to its output. -/
def flux (e : Element α) : NetworkAction α (DenseMatrix α) := fun net =>
  fluxBy (discrepancyWithin (net.nodes.size + 1)) e net

end Network

end FluxBalance
