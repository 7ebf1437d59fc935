import FluxBalance.Library.Parameters

/-!
# Steady one-dimensional heat transfer

Potentials are temperatures and fluxes are heat flows per unit area. A positive flow goes from
the input to the output node.
-/

namespace FluxBalance.Library

variable {α : Type} [Scalar α]

/-- A slab of conductive material, given either by the ratio of its conductivity to its length,
or by its length and its conductivity. -/
def conductor : Constructor α := fun net input output gain => do
  let conductance ←
    match ← gain.values with
    | [ratio] => .ok ratio
    | [length, conductivity] => do
      requirePositive [length] "Conductor length"
      .ok (conductivity / length)
    | values => .error (.element (.conductorValues values.length))
  Element.new net .conductive input output (.number conductance)

/-- A surface that exchanges heat with a fluid, given by its coefficient. -/
def convectionInterface : Constructor α := fun net input output gain => do
  match ← gain.values with
  | [coefficient] => Element.new net .conductive input output (.number coefficient)
  | values => throw (.element (.convectionValues values.length))

/-- A fixed rise of the temperature from the input to the output. -/
def temperatureDelta : Constructor α := plain .potentialDrive

/-- An imposed heat flow from the input to the output. -/
def heatFlux : Constructor α := plain .constantFlux

/-- The elements of heat transfer. -/
def heat : List (String × Constructor α) :=
  [("conductor", conductor), ("convection_interface", convectionInterface),
    ("temperature_delta", temperatureDelta), ("heat_flux", heatFlux)]

end FluxBalance.Library
