import FluxBalance.Json.Reader
import FluxBalance.Library.Catalogue
import FluxBalance.Model.Checked
import FluxBalance.Model.Document
import FluxBalance.Model.NodeKey

/-!
# Reading model documents

A document is read strictly: numbers are not read from texts, and members that do not belong to
a model are refused. All complaints about single members are collected. Only if there are none,
the model is looked at as a whole: its configuration has to name nodes that exist and to give
all of them the same number of components.
-/

namespace FluxBalance

namespace Model

open Checked

/-! ### Values -/

/-- Reads the value at a place of a document. -/
abbrev Decoder (β : Type) := List String → Json → Checked β

/-- A text. -/
def textAt : Decoder String := fun path j =>
  match j with
  | .str s => .accepted s
  | _ => refuse path .notText

/-- An integer. -/
def integerAt : Decoder Int := fun path j =>
  match j with
  | .int n => .accepted n
  | _ => refuse path .notInteger

/-- An integer that is not negative. -/
def naturalAt : Decoder Nat := fun path j =>
  (integerAt path j).andThen fun n =>
    if n < 0 then refuse path .negative else .accepted n.toNat

/-- A number; integers count as numbers unless they are too large. -/
def numberAt : Decoder Float := fun path j =>
  match j with
  | .float x => .accepted x
  | .int n =>
    match Number.ofInt? n with
    | some x => .accepted x
    | none => refuse path .notNumber
  | _ => refuse path .notNumber

/-- A truth value. -/
def truthAt : Decoder Bool := fun path j =>
  match j with
  | .bool b => .accepted b
  | _ => refuse path .notTruth

/-- A list. -/
def listAt {β : Type} (item : Decoder β) : Decoder (List β) := fun path j =>
  match j with
  | .arr xs => Checked.all (xs.mapIdx fun i x => item (path ++ [toString i]) x)
  | _ => refuse path .notList

/-- A list with at least one item. -/
def nonemptyListAt {β : Type} (item : Decoder β) : Decoder (List β) := fun path j =>
  match j with
  | .arr [] => refuse path .tooShort
  | j => listAt item path j

/-! ### Members -/

/-- The members of an object. -/
def membersAt : Decoder (List (String × Json)) := fun path j =>
  match j with
  | .obj ms => .accepted ms
  | _ => refuse path .notObject

/-- A member that has to be there. -/
def required {β : Type} (ms : List (String × Json)) (path : List String) (name : String)
    (value : Decoder β) : Checked β :=
  match Json.lookup? ms name with
  | some j => value (path ++ [name]) j
  | none => refuse (path ++ [name]) .missing

/-- A member that may be left out. -/
def optional {β : Type} (ms : List (String × Json)) (path : List String) (name : String)
    (default : β) (value : Decoder β) : Checked β :=
  match Json.lookup? ms name with
  | some j => value (path ++ [name]) j
  | none => .accepted default

/-- Refuses all members but those with the given names. -/
def noOthers (ms : List (String × Json)) (path names : List String) : Checked Unit :=
  match ms.filter fun m => !names.contains m.1 with
  | [] => .accepted ()
  | others => .refused (others.map fun m => ⟨path ++ [m.1], .unexpected⟩)

/-! ### Parts of a model -/

/-- Whatever is carried along with a node. -/
def metadataAt : Decoder (Option (List (String × Json))) := fun path j =>
  match j with
  | .null => .accepted none
  | .obj ms => .accepted (some ms)
  | _ => refuse path .notDictionary

/-- The initial state of one node. -/
def nodeAt : Decoder NodeConfiguration := fun path j =>
  (membersAt path j).andThen fun ms =>
    (fun potential isLocked metadata _ => ⟨potential, isLocked, metadata⟩)
      <$> required ms path "potential" (nonemptyListAt numberAt)
      <*> optional ms path "is_locked" false truthAt
      <*> optional ms path "metadata" none metadataAt
      <*> noOthers ms path ["potential", "is_locked", "metadata"]

/-- One entry of a gain. What is neither a number nor a row of numbers is refused as both. -/
def gainEntryAt : Decoder GainEntry := fun path j =>
  match numberAt (path ++ ["float"]) j, listAt numberAt (path ++ ["list[float]"]) j with
  | .accepted x, _ => .accepted (.number x)
  | .refused _, .accepted xs => .accepted (.row xs)
  | .refused cs, .refused ds => .refused (cs ++ ds)

/-- One element. -/
def elementAt : Decoder ElementDescription := fun path j =>
  (membersAt path j).andThen fun ms =>
    (fun elementType input output gain _ => ⟨elementType, input, output, gain⟩)
      <$> required ms path "element_type" textAt
      <*> required ms path "input" integerAt
      <*> required ms path "output" integerAt
      <*> required ms path "gain" (nonemptyListAt gainEntryAt)
      <*> noOthers ms path ["element_type", "input", "output", "gain"]

/-- A key of the configuration. -/
def keyAt (path : List String) (key : String) : Checked Int :=
  match NodeKey.read? key with
  | some n => .accepted n
  | none => refuse (path ++ ["[key]"]) .unreadableKey

/-- Entries with a repeated node reduced to one: it stays at its first place and has its last
value. -/
def mergeEntries {β : Type} (entries : List (Int × β)) : List (Int × β) :=
  entries.foldl (fun seen e =>
    if seen.any fun s => s.1 == e.1 then seen.map fun s => if s.1 == e.1 then e else s
    else seen ++ [e]) []

/-- The initial states of nodes. -/
def configurationAt : Decoder (List (Int × NodeConfiguration)) := fun path j =>
  match j with
  | .null => .accepted []
  | .obj ms =>
    (Checked.all (ms.map fun (key, v) =>
      (fun i c => (i, c)) <$> keyAt (path ++ [key]) key <*> nodeAt (path ++ [key]) v)).map
        mergeEntries
  | _ => refuse path .notDictionary

/-- The elements. -/
def elementsAt : Decoder (List ElementDescription) := fun path j =>
  match j with
  | .null => .accepted []
  | j => listAt elementAt path j

/-- The model types that there are libraries for. -/
def modelTypes : List String := (Catalogue.standard : Catalogue Float).modelTypes

/-- The name of a library. -/
def modelTypeAt : Decoder String := fun path j =>
  (textAt path j).andThen fun t =>
    if modelTypes.contains t then .accepted t
    else refuse path (.rule ("Unknown model_type " ++ Text.quoted t ++ "; expected one of "
      ++ Text.quotedList modelTypes))

/-! ### The whole model -/

/-- The parts of a model before they are looked at together. -/
structure Draft where
  modelType : String
  nodes : Nat
  configuration : List (Int × NodeConfiguration)
  elements : List ElementDescription

/-- The parts of a model. -/
def draftOf (j : Json) : Checked Draft :=
  (membersAt [] j).andThen fun ms =>
    (fun modelType nodes configuration elements _ => ⟨modelType, nodes, configuration, elements⟩)
      <$> required ms [] "model_type" modelTypeAt
      <*> required ms [] "nodes" naturalAt
      <*> optional ms [] "configuration" [] configurationAt
      <*> optional ms [] "elements" [] elementsAt
      <*> noOthers ms [] ["model_type", "nodes", "configuration", "elements"]

/-- The different numbers of components that nodes are configured with, in ascending order. -/
def Draft.widths (d : Draft) : List Nat :=
  (d.configuration.map fun (_, c) => c.potential.length).eraseDups.mergeSort

/-- A list of naturals in brackets. -/
def naturalsText (ns : List Nat) : String := "[" ++ ", ".intercalate (ns.map toString) ++ "]"

/-- The model of a draft whose configuration fits. -/
def Draft.check (d : Draft) : Checked Model :=
  match d.configuration.find? fun (i, _) => i < 0 || d.nodes ≤ i with
  | some (i, _) =>
    refuse [] (.rule ("Configuration refers to node " ++ toString i ++ ", but there are "
      ++ toString d.nodes ++ " nodes"))
  | none =>
    if 1 < d.widths.length then
      refuse [] (.rule ("Configured nodes disagree on the number of components: "
        ++ naturalsText d.widths))
    else .accepted
      ⟨d.modelType, d.nodes, d.configuration.map fun (i, c) => (i.toNat, c), d.elements⟩

/-- The result of checking a document; complaints are put into order. -/
def finish : Checked Model → Except (Error Float) Model
  | .accepted m => .ok m
  | .refused cs => .error (.model (cs.mergeSort Complaint.le))

/-- The model that a document describes. -/
def ofJson (j : Json) : Except (Error Float) Model := finish ((draftOf j).andThen Draft.check)

/-- The model that the text of a document describes. -/
def ofText (text : String) : Except (Error Float) Model :=
  match Json.read? text with
  | some j => ofJson j
  | none => .error (.model [⟨[], .invalidJson⟩])

end Model

end FluxBalance
