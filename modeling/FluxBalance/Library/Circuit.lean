import FluxBalance.Library.Parameters

/-!
# Direct-current circuits

Potentials are voltages and fluxes are currents. A positive current flows from the input to the
output node.
-/

namespace FluxBalance.Library

variable {α : Type} [Scalar α]

/-- An ohmic resistor, given by its resistance; its gain is the conductance. -/
def resistor : Constructor α := fun net input output resistance => do
  let values ← resistance.values
  requirePositive values "Resistor resistance"
  let n ← net.node input
  let conductance ← diagonal (values.map fun r => 1 / r) n.components "resistor"
  Element.new net .conductive input output (.matrix conductance)

/-- An ideal source that holds its output above its input by the given voltage. -/
def voltageSource : Constructor α := plain .potentialDrive

/-- An ideal source that pushes the given current from its input to its output. -/
def currentSource : Constructor α := plain .constantFlux

/-- The elements of direct-current circuits. -/
def circuit : List (String × Constructor α) :=
  [("resistor", resistor), ("voltage_source", voltageSource), ("current_source", currentSource)]

end FluxBalance.Library
