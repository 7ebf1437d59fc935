import FluxBalance.Study.Balance
import FluxBalance.Json.Basic

/-!
# Solving a study

To solve a network is to find potentials of its unlocked nodes at which every discrepancy is
smaller than a margin. The nodes keep the potentials that are found. If solving fails, the
nodes are given back the potentials that they had.
-/

namespace FluxBalance

/-- A solved network. -/
structure Solution (α : Type) where
  /-- The potential of each node. -/
  potentials : List (List α)
  /-- The flux of each element. -/
  fluxes : List (List α)
  deriving Repr, DecidableEq

namespace Network

variable {α : Type} [Scalar α]

/-- The fluxes of a list of elements. -/
def fluxesOf : List (Element α) → NetworkAction α (List (List α))
  | [] => return []
  | e :: es => do
    let f ← flux e
    let fs ← fluxesOf es
    return f.toList :: fs

/-- What the network is like at present: the fluxes are read off first, then the potentials. -/
def readOff : NetworkAction α (Solution α) := do
  let fluxes ← fun net => fluxesOf net.elements.toList net
  let potentials ← NetworkAction.look snapshot
  return ⟨potentials.map (·.toList), fluxes⟩

/-- Finds the unknowns, writes them into the network and reads off the result. -/
def solveFrom (residuals : List (Newton.Residual ComponentIndex α (Network α)))
    (guess : Unknowns α) (cfg : Newton.Config α) : NetworkAction α (Solution α) := do
  let x ← Newton.solveSystem residuals guess cfg fun _ => none
  writeUnknowns x
  settle
  readOff

/-- A computation after whose failure all nodes are given the potentials of a list. If that
fails in its turn, the second failure is the one that counts. -/
def restoring {β : Type} (saved : List (DenseMatrix α)) (body : NetworkAction α β) :
    NetworkAction α β := fun net =>
  match body net with
  | .ok b net => .ok b net
  | .error e net =>
    match restore saved net with
    | .ok _ net => .error e net
    | .error e net => .error e net

/-- Solves the network. `indexLimit` is the largest coordinate that an unknown may have. -/
def solve (margin : α) (limit : Int) (indexLimit : Nat) : NetworkAction α (Solution α) := do
  let (residuals, guess) ← NetworkAction.look fun net => net.generateSystem indexLimit
  let saved ← NetworkAction.look snapshot
  restoring saved (solveFrom residuals guess (.ofMargin margin limit))

/-- A computation during which somebody else holds a guard of a node. -/
def whileHeld {β : Type} (guard : Guard) (index : Int) (body : NetworkAction α β) :
    NetworkAction α β := do
  changeNode index fun n => n.enter guard
  fun net =>
    let leave (net : Network α) : Network α :=
      { net with nodes := net.nodes.modify index.toNat fun n => n.leave guard }
    match body net with
    | .ok b net => .ok b (leave net)
    | .error e net => .error e (leave net)

end Network

/-- Lists under their positions. -/
def numbered (rows : List (List Float)) : Json :=
  .obj (rows.mapIdx fun i xs => (toString i, .arr (xs.map .float)))

/-- A solution as a document: the potentials by node and the fluxes by element. -/
def Solution.toJson (s : Solution Float) : Json :=
  .obj [("nodes", numbered s.potentials), ("elements", numbered s.fluxes)]

end FluxBalance
