import Metrology.Dimension
import Metrology.Registry.Build

/-!
Units: products of powers of the units of a registry.

A unit has one exponent for each unit of the registry, and carries the dimension that it measures.
-/

namespace Metrology

/-- A unit over a registry, with the dimension it measures. -/
structure Unit {α : Type} (r : Registry α) where
  exponents : ExponentVector α
  length_eq : exponents.length = r.unitCount
  dimension : Dimension r

namespace Registry

variable {α : Type}

def paired (r : Registry α) (v : ExponentVector α) : List (UnitEntry α × α) := r.units.zip v

variable [Scalar α]

/-- The dimension that a product of units measures: each unit counts for its dimension. -/
def dimensionOf (r : Registry α) (v : ExponentVector α) : Dimension r :=
  Dimension.gather r ((r.paired v).map fun (unit, exponent) => (unit.dimensionIndex, exponent))

/-- A product of units with each unit moved onto the SI unit of its dimension. -/
def siExponents (r : Registry α) (v : ExponentVector α) : ExponentVector α :=
  ExponentVector.gather r.unitCount
    ((r.paired v).map fun (unit, exponent) => (unit.siUnitIndex, exponent))

/-- A product of SI units, one for each dimension of a vector of dimensions. -/
def siUnitsOf (r : Registry α) (v : ExponentVector α) : ExponentVector α :=
  ExponentVector.gather r.unitCount (r.siUnitIndices.zip v)

end Registry

namespace Unit

variable {α : Type} [Scalar α] {r : Registry α}

/-- The unit with the given exponents. The dimension it measures has to be finite. -/
def ofVector (r : Registry α) (v : ExponentVector α) (h : v.length = r.unitCount) :
    Except Error (Unit r) :=
  match Dimension.ofVector r (r.dimensionOf v).exponents with
  | .error e => .error e
  | .ok dimension => .ok ⟨v, h, dimension⟩

def ofData (r : Registry α) (entries : List (Datum α)) : Except Error (Unit r) :=
  match h : ExponentVector.ofData .unit r.unitCount entries with
  | .error violation => .error (.invalid violation)
  | .ok v => ofVector r v (ExponentVector.length_of_ofData h)

def gather (r : Registry α) (marked : List (Nat × α)) : Except Error (Unit r) :=
  ofVector r (ExponentVector.gather r.unitCount marked) (ExponentVector.length_gather _ _)

def one (r : Registry α) : Except Error (Unit r) := gather r []

def ofDimension (d : Dimension r) : Except Error (Unit r) :=
  ofVector r (r.siUnitsOf d.exponents) (ExponentVector.length_gather _ _)

def withPrimary (r : Registry α) (v : ExponentVector α) : Except Error (Unit r) :=
  ofVector r (r.siUnitsOf (v.take primaryCount)) (ExponentVector.length_gather _ _)

def ofPrimary (r : Registry α) (v : ExponentVector α) : Except Error (Unit r) :=
  match ExponentVector.violation? .primaryUnit primaryCount v with
  | some violation => .error (.invalid violation)
  | none => withPrimary r v

def ofPrimaryData (r : Registry α) (entries : List (Datum α)) : Except Error (Unit r) :=
  match ExponentVector.ofData .primaryUnit primaryCount entries with
  | .error violation => .error (.invalid violation)
  | .ok v => withPrimary r v

/-- The place of the unit that a term names, and the exponent the term gives it; none for the base
that stands for nothing. -/
def factor? (r : Registry α) (t : Term) : Except Error (Option (Nat × α)) :=
  if t.base = unitlessToken then .ok none
  else
    match r.findUnit? t.base with
    | some entry => .ok (some (entry.index, t.exponent.value))
    | none => .error (.unknown .unit t.base)

def parse (r : Registry α) (text : String) : Except Error (Unit r) :=
  match parseTerms text with
  | .error problem => .error (.parse text problem)
  | .ok terms =>
    match terms.mapM (factor? r) with
    | .error e => .error e
    | .ok marked => gather r (marked.filterMap id)

def mul (u v : Unit r) : Except Error (Unit r) :=
  ofVector r (ExponentVector.add u.exponents v.exponents) (by simp [u.length_eq, v.length_eq])

def div (u v : Unit r) : Except Error (Unit r) :=
  ofVector r (ExponentVector.subtract u.exponents v.exponents)
    (by simp [u.length_eq, v.length_eq])

def pow (u : Unit r) (power : α) : Except Error (Unit r) :=
  if Scalar.isFinite power then
    ofVector r (ExponentVector.scale u.exponents power) (by simp [u.length_eq])
  else .error (.invalid (.notFinite .power (Scalar.text power)))

/-- The product of two units, the dimension being the product of their dimensions. -/
def mulDirect (u v : Unit r) : Unit r where
  exponents := ExponentVector.add u.exponents v.exponents
  length_eq := by simp [u.length_eq, v.length_eq]
  dimension := u.dimension * v.dimension

def divDirect (u v : Unit r) : Unit r where
  exponents := ExponentVector.subtract u.exponents v.exponents
  length_eq := by simp [u.length_eq, v.length_eq]
  dimension := u.dimension / v.dimension

def powDirect (u : Unit r) (power : α) : Except Error (Unit r) :=
  match u.dimension.pow power with
  | .error e => .error e
  | .ok dimension =>
    .ok
      { exponents := ExponentVector.scale u.exponents power
        length_eq := by simp [u.length_eq]
        dimension }

/-- The unit with every unit in it replaced by the SI unit of its dimension. -/
def toSi (u : Unit r) : Except Error (Unit r) :=
  ofVector r (r.siExponents u.exponents) (ExponentVector.length_gather _ _)

def toSiPrimary (u : Unit r) : Except Error (Unit r) := ofPrimary r u.dimension.primary

def isSi (u : Unit r) : Except Error Bool :=
  u.toSi.map fun si => ExponentVector.isClose u.exponents si.exponents Scalar.tolerance

def isFinite (u : Unit r) : Bool := u.exponents.all Scalar.isFinite

def factors (u : Unit r) (label : UnitEntry α → String) : List (String × α) :=
  r.unitDisplayOrder.map fun index =>
    (((r.units[index]?).map label).getD "", u.exponents.getD index 0)

def name (u : Unit r) : String := printPlain " . " "unitless" (u.factors UnitEntry.name)

/-- A unit by the symbols of what it is composed of. A symbol that only looks like an expression
cannot be written. -/
def symbol (u : Unit r) : Except Error String :=
  match printProduct "." unitlessToken (u.factors UnitEntry.symbol) with
  | .error (base, problem) => .error (.parse base problem)
  | .ok text => .ok text

def symbolFinishes (u : Unit r) : Bool := productFinishes (u.factors UnitEntry.symbol)

end Unit

end Metrology
