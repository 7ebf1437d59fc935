import FluxBalance.Json.Basic

/-!
# Model documents

A model is a complete network described as plain data: the library that its element names refer
to, the number of its nodes, the initial state of some of them, and its elements. This module
says what a model consists of and how it is written as a document.
-/

namespace FluxBalance

/-- The initial state of one node. -/
structure NodeConfiguration where
  /-- One value for each component. -/
  potential : List Float
  /-- Whether the potential is a boundary condition. -/
  isLocked : Bool
  metadata : Option (List (String × Json))

/-- One entry of a gain: a number or a row of numbers. -/
inductive GainEntry where
  | number (x : Float)
  | row (xs : List Float)

/-- One element, whose constructor is named. -/
structure ElementDescription where
  elementType : String
  input : Int
  output : Int
  gain : List GainEntry

/-- A network described as plain data. -/
structure Model where
  /-- The library that the names of elements refer to. -/
  modelType : String
  /-- The number of nodes. -/
  nodes : Nat
  /-- The initial states of some nodes; the others start unlocked at zero. -/
  configuration : List (Nat × NodeConfiguration)
  /-- The elements in the order in which they are added. -/
  elements : List ElementDescription

/-- A list of numbers as a value. -/
def numbersJson (xs : List Float) : Json := .arr (xs.map .float)

/-- The document of a node's state. -/
def NodeConfiguration.toJson (c : NodeConfiguration) : Json :=
  .obj [("potential", numbersJson c.potential), ("is_locked", .bool c.isLocked),
    ("metadata",
      match c.metadata with
      | some ms => .obj ms
      | none => .null)]

/-- An entry of a gain as a value. -/
def GainEntry.toJson : GainEntry → Json
  | number x => .float x
  | row xs => numbersJson xs

/-- The document of an element. -/
def ElementDescription.toJson (e : ElementDescription) : Json :=
  .obj [("element_type", .str e.elementType), ("input", .int e.input), ("output", .int e.output),
    ("gain", .arr (e.gain.map GainEntry.toJson))]

namespace Model

/-- The document of a model; the keys of the configuration are written as texts. -/
def toJson (m : Model) : Json :=
  .obj [("model_type", .str m.modelType), ("nodes", .int m.nodes),
    ("configuration", .obj (m.configuration.map fun (i, c) => (toString i, c.toJson))),
    ("elements", .arr (m.elements.map ElementDescription.toJson))]

/-- The number of potential components of each node: that of the first configured node, or one
if no node is configured. -/
def components (m : Model) : Nat :=
  match m.configuration with
  | (_, c) :: _ => c.potential.length
  | [] => 1

end Model

end FluxBalance
