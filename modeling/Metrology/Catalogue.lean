import Metrology.Quantity

/-!
The entries of a registry by their keys.
-/

namespace Metrology.Catalogue

variable {α : Type} [Scalar α]

def unitVector (length index : Nat) : List (Datum α) :=
  (List.range length).map fun i => .number (if i = index then 1 else 0)

def dimension (r : Registry α) (key : String) : Except Error (Dimension r) :=
  match r.dimensionByKey? key with
  | none => .error (.unknown .dimension key)
  | some entry => Dimension.ofData r (unitVector r.dimensionCount entry.index)

def unit (r : Registry α) (key : String) : Except Error (Unit r) :=
  match r.unitByKey? key with
  | none => .error (.unknown .unit key)
  | some entry => Unit.ofData r (unitVector r.unitCount entry.index)

/-- The physical constant with a key, in the unit it is registered in. -/
def constant (r : Registry α) (key : String) : Except Error (Quantity r) :=
  match r.constantByKey? key with
  | none => .error (.unknown .constant key)
  | some entry => Unit.parse r entry.unit >>= Quantity.make entry.value

def dimensionKeys (r : Registry α) : List String := r.dimensions.map DimensionEntry.key

def unitKeys (r : Registry α) : List String := r.units.map UnitEntry.key

def constantKeys (r : Registry α) : List String := r.constants.map Constant.key

end Metrology.Catalogue
