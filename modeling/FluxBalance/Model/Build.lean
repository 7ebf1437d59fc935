import FluxBalance.Model.Document
import FluxBalance.Study.Configuring
import FluxBalance.Study.Elements
import FluxBalance.Study.Solve

/-!
# Building and solving models

The nodes of a model are created at zero, the configured ones are configured in ascending order,
and the elements are added in the order in which the document lists them.
-/

namespace FluxBalance

/-- A gain of a document as a gain. -/
def GainEntry.toGain : GainEntry → Gain Float
  | number x => .number x
  | row xs => .list (xs.map .number)

/-- The gain of an element. -/
def ElementDescription.toGain (e : ElementDescription) : Gain Float :=
  .list (e.gain.map GainEntry.toGain)

namespace Model

/-- The configured nodes in ascending order. -/
def configured (m : Model) : List (Nat × NodeConfiguration) :=
  m.configuration.mergeSort fun a b => a.1 ≤ b.1

/-- Configures nodes one after the other. -/
def configureAll (s : Study Float) :
    List (Nat × NodeConfiguration) → Except (Error Float) (Study Float)
  | [] => .ok s
  | (i, c) :: rest => do
    let s ← s.configureNode i (some (.column c.potential)) (some c.isLocked) c.metadata
    configureAll s rest

/-- The study with the nodes of the model. -/
def study (m : Model) : Except (Error Float) (Study Float) := do
  let (_, s) ← (Study.new (some m.modelType)).addNodes m.nodes m.components
  configureAll s m.configured

/-- Adds elements one after the other. -/
def addAll (modelType : String) : List ElementDescription → NetworkAction Float Unit
  | [] => return ()
  | e :: rest => do
    let _ ← (ElementSpec.named e.elementType).add .standard (some modelType) e.input e.output
      e.toGain
    addAll modelType rest

/-- The network of the model. -/
def build (m : Model) : Except (Error Float) (Network Float) := do
  let (net, _) ← (← m.study).configure
  match addAll m.modelType m.elements net with
  | .ok _ net => return net
  | .error e _ => throw e

/-- Builds the network of the model and solves it. -/
def run (m : Model) (margin : Float) (limit : Int) : Except (Error Float) (Solution Float) := do
  let net ← m.build
  match Network.solve margin limit ComponentIndex.usualLimit net with
  | .ok s _ => return s
  | .error e _ => throw e

end Model

end FluxBalance
