import Metrology.Registry.Definition
import Metrology.Datum
import Metrology.Text.Blank

/-!
Registry data as a document: records and lists of texts and numbers.

Every text is trimmed and not empty, every number is finite, every dimension has a unit and an
exponent for each primary dimension. Prefixes and prefix rules may be left out; fields that are not
known are ignored.
-/

namespace Metrology

variable {α : Type} [Scalar α]

namespace Datum

/-- A trimmed text that is not empty. -/
def label? (d : Datum α) : Option String := do
  let text ← d.text?
  if isTrimmed text then some text else none

def safeInteger? (d : Datum α) : Option Int := do
  let value ← d.finite?
  let n ← Scalar.toInt? value
  if isSafeInteger n then some n else none

def listOf? {β : Type} (read : Datum α → Option β) (d : Datum α) : Option (List β) := do
  let items ← d.items?
  items.mapM read

/-- A list that may be left out and is then empty. -/
def optionalListOf? {β : Type} (read : Datum α → Option β) : Option (Datum α) → Option (List β)
  | none => some []
  | some d => d.listOf? read

def unitDefinition? (d : Datum α) : Option (UnitDefinition α) := do
  let key ← (← d.field? "key").label?
  let name ← (← d.field? "name").label?
  let symbol ← (← d.field? "symbol").label?
  let conversionFactor ← (← d.field? "conversionFactor").finite?
  let prefixExponent ← (← d.field? "prefixExponent").safeInteger?
  return { key, name, symbol, conversionFactor, prefixExponent }

def dimensionDefinition? (d : Datum α) : Option (DimensionDefinition α) := do
  let key ← (← d.field? "key").label?
  let name ← (← d.field? "name").label?
  let symbol ← (← d.field? "symbol").label?
  let primaryExponents ← (← d.field? "primaryExponents").listOf? finite?
  let units ← (← d.field? "units").listOf? unitDefinition?
  if primaryExponents.length = primaryCount ∧ units ≠ [] then
    return { key, name, symbol, primaryExponents, units }
  else none

def metricPrefix? (d : Datum α) : Option MetricPrefix := do
  let key ← (← d.field? "key").label?
  let name ← (← d.field? "name").label?
  let symbol ← (← d.field? "symbol").label?
  let exponent ← (← d.field? "exponent").safeInteger?
  return { key, name, symbol, exponent }

def prefixRule? (d : Datum α) : Option PrefixRule := do
  let dimension ← (← d.field? "dimension").label?
  let unit ← (← d.field? "unit").label?
  let prefixes ← (← d.field? "prefixes").listOf? label?
  return { dimension, unit, prefixes }

def constant? (d : Datum α) : Option (Constant α) := do
  let key ← (← d.field? "key").label?
  let name ← (← d.field? "name").label?
  let symbol ← (← d.field? "symbol").label?
  let value ← (← d.field? "value").finite?
  let unit ← (← d.field? "unit").label?
  return { key, name, symbol, value, unit }

def registryData? (d : Datum α) : Option (RegistryData α) := do
  let primary ← (← d.field? "primary").listOf? dimensionDefinition?
  let derived ← (← d.field? "derived").listOf? dimensionDefinition?
  let prefixes ← optionalListOf? metricPrefix? (d.field? "prefixes")
  let prefixedUnits ← optionalListOf? prefixRule? (d.field? "prefixedUnits")
  let constants ← (← d.field? "constants").listOf? constant?
  return { primary, derived, prefixes, prefixedUnits, constants }

def ofInt (n : Int) : Datum α := number (Scalar.ofInt n)

end Datum

def UnitDefinition.toDatum (u : UnitDefinition α) : Datum α :=
  .record [("key", .text u.key), ("name", .text u.name), ("symbol", .text u.symbol),
    ("conversionFactor", .number u.conversionFactor),
    ("prefixExponent", Datum.ofInt u.prefixExponent)]

def DimensionDefinition.toDatum (d : DimensionDefinition α) : Datum α :=
  .record [("key", .text d.key), ("name", .text d.name), ("symbol", .text d.symbol),
    ("primaryExponents", .list (d.primaryExponents.map .number)),
    ("units", .list (d.units.map UnitDefinition.toDatum))]

def MetricPrefix.toDatum (p : MetricPrefix) : Datum α :=
  .record [("key", .text p.key), ("name", .text p.name), ("symbol", .text p.symbol),
    ("exponent", Datum.ofInt p.exponent)]

def PrefixRule.toDatum (r : PrefixRule) : Datum α :=
  .record [("dimension", .text r.dimension), ("unit", .text r.unit),
    ("prefixes", .list (r.prefixes.map .text))]

def Constant.toDatum (c : Constant α) : Datum α :=
  .record [("key", .text c.key), ("name", .text c.name), ("symbol", .text c.symbol),
    ("value", .number c.value), ("unit", .text c.unit)]

def RegistryData.toDatum (r : RegistryData α) : Datum α :=
  .record [("primary", .list (r.primary.map DimensionDefinition.toDatum)),
    ("derived", .list (r.derived.map DimensionDefinition.toDatum)),
    ("prefixes", .list (r.prefixes.map MetricPrefix.toDatum)),
    ("prefixedUnits", .list (r.prefixedUnits.map PrefixRule.toDatum)),
    ("constants", .list (r.constants.map Constant.toDatum))]

end Metrology
