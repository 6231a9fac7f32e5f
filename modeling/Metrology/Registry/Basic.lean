import Metrology.Registry.Definition

/-!
Registries: the tables of dimensions and units in which every exponent vector is written.

The primary dimensions come first, the others follow; the unit table runs through the dimensions in
the same order, and the first unit of a dimension is its SI unit.
-/

namespace Metrology

structure DimensionEntry (α : Type) where
  index : Nat
  key : String
  name : String
  symbol : String
  primaryExponents : List α
  /-- The place of its SI unit in the unit table. -/
  siUnitIndex : Nat

structure UnitEntry (α : Type) where
  index : Nat
  key : String
  name : String
  symbol : String
  conversionFactor : α
  prefixExponent : Int
  /-- The place of its dimension in the dimension table. -/
  dimensionIndex : Nat
  /-- The place of the SI unit of its dimension in the unit table. -/
  siUnitIndex : Nat
  isTemperature : Bool

structure Registry (α : Type) where
  dimensions : List (DimensionEntry α)
  units : List (UnitEntry α)
  prefixes : List MetricPrefix
  constants : List (Constant α)

/-- The order in which the entries of a table are written: what is not primary backwards, then
what is primary. -/
def displayOrder (size primary : Nat) : List Nat :=
  ((List.range size).drop primary).reverse ++ (List.range size).take primary

namespace Registry

variable {α : Type} (r : Registry α)

def dimensionCount : Nat := r.dimensions.length

def unitCount : Nat := r.units.length

def primaryUnitCount : Nat := r.units.countP fun unit => unit.dimensionIndex < primaryCount

def dimensionDisplayOrder : List Nat := displayOrder r.dimensionCount primaryCount

def unitDisplayOrder : List Nat := displayOrder r.unitCount r.primaryUnitCount

def siUnitIndices : List Nat := r.dimensions.map DimensionEntry.siUnitIndex

def basis : List (List α) := r.dimensions.map DimensionEntry.primaryExponents

/-- The dimension that a token stands for, by its symbol or else by its name. -/
def findDimension? (token : String) : Option (DimensionEntry α) :=
  (r.dimensions.find? fun entry => entry.symbol == token).or
    (r.dimensions.find? fun entry => entry.name == token)

def findUnit? (token : String) : Option (UnitEntry α) :=
  (r.units.find? fun entry => entry.symbol == token).or
    (r.units.find? fun entry => entry.name == token)

/-- The first dimension with a key. -/
def dimensionByKey? (key : String) : Option (DimensionEntry α) :=
  r.dimensions.find? fun entry => entry.key == key

def unitByKey? (key : String) : Option (UnitEntry α) :=
  r.units.find? fun entry => entry.key == key

def constantByKey? (key : String) : Option (Constant α) :=
  r.constants.find? fun constant => constant.key == key

/-- The value of the Avogadro constant; 0 if there is none, which no registry that is built
allows. -/
def avogadro [Scalar α] : α := ((r.constantByKey? avogadroKey).map Constant.value).getD 0

end Registry

end Metrology
