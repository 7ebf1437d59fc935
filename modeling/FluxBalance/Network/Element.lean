import FluxBalance.DenseMatrix.Basic
import FluxBalance.Error

/-!
# Elements

An element is a directed relation between two nodes. Its kind says how its flux, which counts
positive from the input to the output node, follows from the potentials, and which shape its
gain has to have.
-/

namespace FluxBalance

/-! ### Kinds -/

/-- The physics of an element. -/
inductive ElementKind where
  /-- The flux is the gain times the potential drop. -/
  | conductive
  /-- The flux is the gain, whatever the potentials are. -/
  | constantFlux
  /-- The flux grows with the square root of the potential drop. -/
  | orifice
  /-- The potential rises by the gain from the input to the output. -/
  | potentialDrive
  deriving Repr, DecidableEq

namespace ElementKind

/-- All kinds. -/
def all : List ElementKind := [conductive, constantFlux, orifice, potentialDrive]

/-- What the kind is called. -/
def name : ElementKind → String
  | conductive => "conductive"
  | constantFlux => "constant_flux"
  | orifice => "orifice"
  | potentialDrive => "potential_drive"

/-- The written form of the kind. -/
def written : ElementKind → String
  | conductive => "ConductiveKind()"
  | constantFlux => "ConstantFluxKind()"
  | orifice => "OrificeKind()"
  | potentialDrive => "PotentialDriveKind()"

/-- The kind with the given name. -/
def ofName? (name : String) : Option ElementKind := all.find? fun k => k.name == name

theorem ofName?_name (k : ElementKind) : ofName? k.name = some k := by
  cases k <;> decide +kernel

/-- Whether elements of the kind impose a potential. -/
def drives : ElementKind → Bool
  | potentialDrive => true
  | _ => false

end ElementKind

/-! ### Shapes of gains -/

section

variable {α : Type} [Scalar α]

/-- A column with one entry for each component. A 1×1 gain is repeated. -/
def columnGain (what : String) (gain : DenseMatrix α) (components : Nat) :
    Except (ElementError α) (DenseMatrix α) :=
  if gain.shape = (components, 1) then .ok gain
  else if gain.shape = (1, 1) then .ok (.column (List.replicate components (gain.entry 0 0)))
  else .error (.columnShape what components gain.rows gain.cols)

/-- A square matrix with one row for each component. A 1×1 gain becomes a multiple of the
identity. -/
def squareGain (what : String) (gain : DenseMatrix α) (components : Nat) :
    Except (ElementError α) (DenseMatrix α) :=
  if gain.shape = (components, components) then .ok gain
  else if gain.shape = (1, 1) then .ok ((DenseMatrix.identity components).scale (gain.entry 0 0))
  else .error (.squareShape what components gain.rows gain.cols)

/-- The gain in the shape that the kind needs at nodes with the given number of components. -/
def ElementKind.checkGain (kind : ElementKind) (gain : DenseMatrix α) (components : Nat) :
    Except (ElementError α) (DenseMatrix α) :=
  match kind with
  | .conductive => squareGain kind.name gain components
  | _ => columnGain kind.name gain components

end

/-! ### Elements -/

/-- A directed relation between two nodes, which are named by their positions. -/
structure Element (α : Type) where
  kind : ElementKind
  input : Nat
  output : Nat
  gain : DenseMatrix α
  /-- Which node a driving element imposes the potential on: the output, or else the input. -/
  drivesOutput : Bool
  deriving Repr

namespace Element

variable {α : Type}

/-- The node whose potential a driving element imposes. -/
def driven (e : Element α) : Nat := if e.drivesOutput then e.output else e.input

/-- The node from which a driving element derives the imposed potential. -/
def dominant (e : Element α) : Nat := if e.drivesOutput then e.input else e.output

/-- The nodes whose balance the element enters. A driving element leaves out the node that it
drives. -/
def endpoints (e : Element α) : List Nat :=
  if e.kind.drives then [e.dominant] else [e.input, e.output]

/-- An element enters the balance of its input and its output, unless it drives that node. -/
theorem mem_endpoints {e : Element α} (hne : e.input ≠ e.output) {i : Nat} :
    i ∈ e.endpoints ↔
      (i = e.input ∨ i = e.output) ∧ (e.kind.drives = true → i ≠ e.driven) := by
  cases hd : e.kind.drives <;> cases ho : e.drivesOutput <;>
    simp [endpoints, dominant, driven, hd, ho] <;> omega

end Element

end FluxBalance
