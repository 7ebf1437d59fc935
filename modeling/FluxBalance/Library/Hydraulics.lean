import FluxBalance.Library.Parameters

/-!
# Incompressible hydraulic networks

Potentials are pressures and fluxes are volumetric flow rates. A positive flow goes from the
input to the output node.
-/

namespace FluxBalance.Library

variable {α : Type} [Scalar α]

/-- A laminar pipe: the flow is proportional to the pressure drop. -/
def pipe : Constructor α := positive .conductive "Pipe conductance"

/-- A restriction: the flow grows with the square root of the pressure drop. -/
def orifice : Constructor α := positive .orifice "Orifice coefficient"

/-- An ideal pump that raises the pressure from its input to its output. -/
def pump : Constructor α := plain .potentialDrive

/-- An imposed volumetric flow from the input to the output. -/
def flowSource : Constructor α := plain .constantFlux

/-- The elements of hydraulic networks. -/
def hydraulic : List (String × Constructor α) :=
  [("pipe", pipe), ("orifice", orifice), ("pump", pump), ("flow_source", flowSource)]

end FluxBalance.Library
