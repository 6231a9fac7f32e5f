import Metrology.Registry.Basic
import Metrology.Registry.Document
import Metrology.Expression.Parser

/-!
Building a registry from its data.

The primary dimensions have to be the right ones, prefix rules have to name what exists, symbols
have to be unique in each table, and the unit of every constant has to be an expression over the
units of the registry. The first fault, in this order, is reported.
-/

namespace Metrology

variable {α : Type} [Scalar α]

inductive BuildError where
  | invalid (problem : RegistryProblem)
  /-- A prefix rule makes a unit that is none: its factor is not finite or its exponent is out of
  range. -/
  | generatedUnit
deriving DecidableEq

namespace RegistryData

/-- All dimensions of the data, the primary ones first. -/
def dimensions (data : RegistryData α) : List (DimensionDefinition α) :=
  data.primary ++ data.derived

def isUnitVector (slot : Nat) (exponents : List α) : Bool :=
  exponents.zipIdx.all fun (exponent, column) => exponent == if column = slot then 1 else 0

def primaryProblemFrom? (slot : Nat) : List (DimensionDefinition α) → Option RegistryProblem
  | [] => none
  | d :: dimensions =>
    let key := primaryKeys.getD slot ""
    if d.key ≠ key then some (.primaryKey slot key d.key)
    else if isUnitVector slot d.primaryExponents then primaryProblemFrom? (slot + 1) dimensions
    else some (.primaryVector d.key)

/-- What is wrong with the primary dimensions: there have to be the seven, in their order, each
made of itself alone. -/
def primaryProblem? (primary : List (DimensionDefinition α)) : Option RegistryProblem :=
  if primary.length = primaryCount then primaryProblemFrom? 0 primary
  else some (.primaryCount primaryCount primary.length)

/-- The last prefix with a key. -/
def prefixByKey? (data : RegistryData α) (key : String) : Option MetricPrefix :=
  data.prefixes.findRev? fun metric => metric.key == key

end RegistryData

namespace UnitDefinition

def withPrefix (base : UnitDefinition α) (metric : MetricPrefix) : UnitDefinition α where
  key := metric.key ++ base.key
  name := metric.name ++ base.name
  symbol := metric.symbol ++ base.symbol
  conversionFactor :=
    base.conversionFactor * Scalar.power (Scalar.ofNat 10) (Scalar.ofInt metric.exponent)
  prefixExponent := base.prefixExponent + metric.exponent

/-- Whether the factor is finite and the exponent in range. -/
def isSound (u : UnitDefinition α) : Bool :=
  Scalar.isFinite u.conversionFactor && isSafeInteger u.prefixExponent

end UnitDefinition

namespace RegistryData

def variants (data : RegistryData α) (base : UnitDefinition α) :
    List String → Except BuildError (List (UnitDefinition α))
  | [] => .ok []
  | key :: keys =>
    match data.prefixByKey? key with
    | none => .error (.invalid (.rulePrefix key))
    | some metric =>
      let unit := base.withPrefix metric
      if unit.isSound then
        match data.variants base keys with
        | .error e => .error e
        | .ok units => .ok (unit :: units)
      else .error .generatedUnit

def generated (data : RegistryData α) (rule : PrefixRule) :
    Except BuildError (List (UnitDefinition α)) :=
  match data.dimensions.find? fun d => d.key == rule.dimension with
  | none => .error (.invalid (.ruleDimension rule.dimension))
  | some d =>
    match d.units.find? fun unit => unit.key == rule.unit with
    | none => .error (.invalid (.ruleUnit rule.unit rule.dimension))
    | some base => data.variants base rule.prefixes

/-- The units generated by several rules, each list with the key of its dimension. -/
def additions (data : RegistryData α) :
    List PrefixRule → Except BuildError (List (String × List (UnitDefinition α)))
  | [] => .ok []
  | rule :: rules =>
    match data.generated rule with
    | .error e => .error e
    | .ok units =>
      match data.additions rules with
      | .error e => .error e
      | .ok more => .ok ((rule.dimension, units) :: more)

end RegistryData

/-- A dimension with the units that rules add to it behind its own. -/
def DimensionDefinition.extended (additions : List (String × List (UnitDefinition α)))
    (d : DimensionDefinition α) : DimensionDefinition α :=
  { d with
    units := d.units ++ (additions.filter fun addition => addition.1 == d.key).flatMap Prod.snd }

/-- The entries of the units of one dimension, from a place in the table on. -/
def unitEntries (dimensionIndex siUnitIndex : Nat) (isTemperature : Bool) (index : Nat) :
    List (UnitDefinition α) → List (UnitEntry α)
  | [] => []
  | u :: units =>
    { index, dimensionIndex, siUnitIndex, isTemperature, key := u.key, name := u.name,
      symbol := u.symbol, conversionFactor := u.conversionFactor,
      prefixExponent := u.prefixExponent }
      :: unitEntries dimensionIndex siUnitIndex isTemperature (index + 1) units

/-- The tables for a list of dimensions, from given places in both tables on. -/
def layOut (index unitIndex : Nat) :
    List (DimensionDefinition α) → List (DimensionEntry α) × List (UnitEntry α)
  | [] => ([], [])
  | d :: definitions =>
    let (dimensions, units) := layOut (index + 1) (unitIndex + d.units.length) definitions
    ({ index, key := d.key, name := d.name, symbol := d.symbol,
       primaryExponents := d.primaryExponents, siUnitIndex := unitIndex } :: dimensions,
      unitEntries index unitIndex (d.key == temperatureKey) unitIndex d.units ++ units)

def firstRepeated? (seen : List String) : List String → Option String
  | [] => none
  | s :: rest => if seen.contains s then some s else firstRepeated? (s :: seen) rest

def symbolProblem? (table : Table) (symbols : List String) : Option RegistryProblem :=
  (firstRepeated? [] symbols).map (.duplicateSymbol table)

/-- The base that stands for the product of nothing in an expression of units. -/
def unitlessToken : String := "1"

namespace Registry

/-- What keeps the unit of a constant from being an expression over the units of the registry. -/
def constantProblem? (r : Registry α) (constant : Constant α) : Option RegistryProblem :=
  match parseTerms constant.unit with
  | .error problem => some (.constantText constant.key constant.unit problem)
  | .ok terms =>
    (terms.find? fun t => t.base != unitlessToken && (r.findUnit? t.base).isNone).map fun t =>
      .constantUnit constant.key t.base

def problem? (r : Registry α) : Option RegistryProblem :=
  symbolProblem? .dimension (r.dimensions.map DimensionEntry.symbol)
    <|> symbolProblem? .unit (r.units.map UnitEntry.symbol)
    <|> (if (r.constantByKey? avogadroKey).isNone then some .noAvogadro else none)
    <|> r.constants.findSome? r.constantProblem?

/-- The registry with the given additions from prefix rules, not yet checked. -/
def ofData (data : RegistryData α) (additions : List (String × List (UnitDefinition α))) :
    Registry α :=
  let (dimensions, units) := layOut 0 0 (data.dimensions.map (.extended additions))
  { dimensions, units, prefixes := data.prefixes, constants := data.constants }

def build (data : RegistryData α) : Except BuildError (Registry α) :=
  match RegistryData.primaryProblem? data.primary with
  | some problem => .error (.invalid problem)
  | none =>
    match data.additions data.prefixedUnits with
    | .error e => .error e
    | .ok additions =>
      let r := ofData data additions
      match r.problem? with
      | some problem => .error (.invalid problem)
      | none => .ok r

def decode (d : Datum α) : Except BuildError (Registry α) :=
  match d.registryData? with
  | some data => build data
  | none => .error (.invalid .malformed)

end Registry

end Metrology
