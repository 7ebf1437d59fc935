import FluxBalance.Library.Catalogue

/-!
# Adding elements to a study

An element is specified by its kind, by a constructor or by the name of a constructor.
-/

namespace FluxBalance

/-- How an element is specified. -/
inductive ElementSpec (α : Type) where
  | kind (k : ElementKind)
  | constructor (f : Constructor α)
  /-- The name of a constructor. -/
  | named (name : String)
  /-- A constructor that makes something else, which is described. -/
  | foreign (description : String)

namespace ElementSpec

variable {α : Type} [Scalar α]

/-- The constructor that is specified. -/
def resolve (catalogue : Catalogue α) (modelType : Option String) :
    ElementSpec α → Except (Error α) (Constructor α)
  | kind k => .ok fun net input output gain => Element.new net k input output gain
  | constructor f => .ok f
  | named name => catalogue.lookup name modelType
  | foreign description => .ok fun _ _ _ _ => .error (.element (.notAnElement description))

/-- Makes the specified element between two nodes. -/
def make (spec : ElementSpec α) (catalogue : Catalogue α) (modelType : Option String)
    (net : Network α) (input output : Int) (gain : Gain α) : Except (Error α) (Element α) := do
  let f ← spec.resolve catalogue modelType
  f net input output gain

/-- Joins two nodes by the specified element and answers its position. -/
def add (spec : ElementSpec α) (catalogue : Catalogue α) (modelType : Option String)
    (input output : Int) (gain : Gain α) : NetworkAction α Nat := do
  let e ← NetworkAction.look fun net => spec.make catalogue modelType net input output gain
  Network.addElement e

end ElementSpec

end FluxBalance
