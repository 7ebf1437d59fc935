import FluxBalance.Library.Circuit
import FluxBalance.Library.Heat
import FluxBalance.Library.Hydraulics

/-!
# The catalogue of element libraries

Elements are found by their names, either in the library of one model type or, if the model type
is left open, in all of them; then the name has to be unique.
-/

namespace FluxBalance

/-- Named constructors. -/
abbrev NamedConstructors (α : Type) := List (String × Constructor α)

/-- The element libraries by their model types, in order of registration. -/
abbrev Catalogue (α : Type) := List (String × NamedConstructors α)

namespace Catalogue

variable {α : Type}

/-- The libraries that come with the program. -/
def standard [Scalar α] : Catalogue α :=
  [("dc_circuit", Library.circuit), ("heat_transfer", Library.heat),
    ("hydraulic", Library.hydraulic)]

/-- The model types that there are libraries for, in ascending order. -/
def modelTypes (c : Catalogue α) : List String := (c.map (·.1)).mergeSort (fun a b => a ≤ b)

/-- The library of a model type. -/
def library? (c : Catalogue α) (modelType : String) : Option (NamedConstructors α) :=
  (c.find? fun l => l.1 == modelType).map (·.2)

/-- The names of the elements of a model type. -/
def elementNames (c : Catalogue α) (modelType : String) : Except (Error α) (List String) :=
  match c.library? modelType with
  | some l => .ok (l.map (·.1))
  | none => .error (.fault .unknownKey)

/-- The constructor of the given name in one library. -/
def constructor? (l : NamedConstructors α) (name : String) : Option (Constructor α) :=
  (l.find? fun e => e.1 == name).map (·.2)

/-- The constructors of the given name in all libraries. -/
def everywhere (c : Catalogue α) (name : String) : List (Constructor α) :=
  c.filterMap fun l => constructor? l.2 name

/-- The constructor of the given name in the library of a model type, or in the only library
that has it. -/
def lookup (c : Catalogue α) (name : String) (modelType : Option String) :
    Except (Error α) (Constructor α) :=
  match modelType with
  | some t =>
    match (c.library? t).bind fun l => constructor? l name with
    | some f => .ok f
    | none => .error (.element (.notInLibrary t name))
  | none =>
    match c.everywhere name with
    | [f] => .ok f
    | [] => .error (.element (.unknownName name))
    | _ => .error (.element (.ambiguousName name))

/-- The catalogue with one more constructor in the library of a model type. A name is taken only
once in a library. -/
def register (c : Catalogue α) (modelType name : String) (f : Constructor α) :
    Except (Error α) (Catalogue α) :=
  match c.library? modelType with
  | none => .ok (c ++ [(modelType, [(name, f)])])
  | some l =>
    if (constructor? l name).isSome then .error (.fault .badValue)
    else .ok (c.map fun entry =>
      if entry.1 == modelType then (entry.1, entry.2 ++ [(name, f)]) else entry)

end Catalogue

end FluxBalance
