import Metrology.Scalar

/-!
What a registry is made from: dimensions with their units, metric prefixes, rules that combine
prefixes with units, and physical constants.
-/

namespace Metrology

/-- A unit as it is defined. The factor leads to the SI unit of its dimension; for a unit of
temperature it is the offset to kelvin instead, and a factor of 0 counts for nothing. -/
structure UnitDefinition (α : Type) where
  key : String
  name : String
  symbol : String
  conversionFactor : α
  prefixExponent : Int

/-- A dimension as it is defined, with its exponents over the primary dimensions and its own
units, of which the first is its SI unit. -/
structure DimensionDefinition (α : Type) where
  key : String
  name : String
  symbol : String
  primaryExponents : List α
  units : List (UnitDefinition α)

structure MetricPrefix where
  key : String
  name : String
  symbol : String
  exponent : Int

/-- Asks for the variants of a unit with the listed prefixes. -/
structure PrefixRule where
  dimension : String
  unit : String
  prefixes : List String

/-- A physical constant, with its unit written as an expression. -/
structure Constant (α : Type) where
  key : String
  name : String
  symbol : String
  value : α
  unit : String

structure RegistryData (α : Type) where
  primary : List (DimensionDefinition α)
  derived : List (DimensionDefinition α)
  prefixes : List MetricPrefix
  prefixedUnits : List PrefixRule
  constants : List (Constant α)

def primaryKeys : List String :=
  ["mass", "length", "time", "electric_current", "temperature", "amount_of_substance",
    "luminous_intensity"]

def primaryCount : Nat := primaryKeys.length

/-- The place of the amount of substance among the primary dimensions. -/
def amountSlot : Nat := 5

/-- The key of the dimension whose units differ by an offset. -/
def temperatureKey : String := "temperature"

/-- The key of the constant that counts the particles in a mole. -/
def avogadroKey : String := "avogadro"

/-- The largest integer up to which all integers are told apart. -/
def maxSafeInteger : Nat := 9007199254740991

def isSafeInteger (n : Int) : Bool := decide (n.natAbs ≤ maxSafeInteger)

end Metrology
