import Metrology.Registry.Basic
import Metrology.Datum
import Metrology.Expression.Printer

/-!
Dimensions: products of powers of the dimensions of a registry.

A dimension has one exponent for each dimension of the registry, primary or not. Two dimensions are
equal when they come to the same exponents over the primary dimensions, however they are composed.
-/

namespace Metrology

structure Dimension {α : Type} (r : Registry α) where
  exponents : ExponentVector α
  length_eq : exponents.length = r.dimensionCount

namespace Dimension

variable {α : Type} [Scalar α] {r : Registry α}

def ofData (r : Registry α) (entries : List (Datum α)) : Except Error (Dimension r) :=
  match h : ExponentVector.ofData .dimension r.dimensionCount entries with
  | .error violation => .error (.invalid violation)
  | .ok v => .ok ⟨v, ExponentVector.length_of_ofData h⟩

/-- The dimension with the given exponents, which have to be finite. -/
def ofVector (r : Registry α) (v : ExponentVector α) : Except Error (Dimension r) :=
  match ExponentVector.violation? .dimension r.dimensionCount v with
  | some violation => .error (.invalid violation)
  | none =>
    if h : v.length = r.dimensionCount then .ok ⟨v, h⟩
    else .error (.invalid (.vectorLength .dimension r.dimensionCount.repr v.length.repr))

/-- The dimension with a number of factors, each an exponent of the dimension at an index. -/
def gather (r : Registry α) (marked : List (Nat × α)) : Dimension r :=
  ⟨ExponentVector.gather r.dimensionCount marked, ExponentVector.length_gather _ _⟩

def one (r : Registry α) : Dimension r :=
  ⟨ExponentVector.zeros r.dimensionCount, ExponentVector.length_zeros _⟩

/-- The dimension whose first exponents are given; the others are 0. -/
def padded (r : Registry α) (v : ExponentVector α) : Dimension r :=
  ⟨(List.range r.dimensionCount).map fun slot => v.getD slot 0, by simp⟩

def ofPrimary (r : Registry α) (v : ExponentVector α) : Except Error (Dimension r) :=
  match ExponentVector.violation? .primary primaryCount v with
  | some violation => .error (.invalid violation)
  | none => .ok (padded r v)

def ofPrimaryData (r : Registry α) (entries : List (Datum α)) : Except Error (Dimension r) :=
  match ExponentVector.ofData .primary primaryCount entries with
  | .error violation => .error (.invalid violation)
  | .ok v => .ok (padded r v)

/-- The place of the dimension that a term names, and the exponent the term gives it. -/
def factor (r : Registry α) (t : Term) : Except Error (Nat × α) :=
  match r.findDimension? t.base with
  | some entry => .ok (entry.index, t.exponent.value)
  | none => .error (.unknown .dimension t.base)

def parse (r : Registry α) (text : String) : Except Error (Dimension r) :=
  match parseTerms text with
  | .error problem => .error (.parse text problem)
  | .ok terms =>
    match terms.mapM (factor r) with
    | .error e => .error e
    | .ok marked => .ok (gather r marked)

def primary (d : Dimension r) : ExponentVector α :=
  ExponentVector.combine d.exponents r.basis primaryCount

/-- Whether a dimension comes to one primary dimension, or the inverse of one. -/
def isPrimary (d : Dimension r) : Bool :=
  decide (Scalar.abs (ExponentVector.l1Norm d.primary - 1) ≤ Scalar.tolerance)

def isDimensionless (d : Dimension r) : Bool :=
  ExponentVector.isZero d.primary Scalar.tolerance

def mul (d e : Dimension r) : Dimension r :=
  ⟨ExponentVector.add d.exponents e.exponents, by simp [d.length_eq, e.length_eq]⟩

def div (d e : Dimension r) : Dimension r :=
  ⟨ExponentVector.subtract d.exponents e.exponents, by simp [d.length_eq, e.length_eq]⟩

def scale (d : Dimension r) (power : α) : Dimension r :=
  ⟨ExponentVector.scale d.exponents power, by simp [d.length_eq]⟩

instance : Mul (Dimension r) := ⟨mul⟩
instance : Div (Dimension r) := ⟨div⟩

def pow (d : Dimension r) (power : α) : Except Error (Dimension r) :=
  if Scalar.isFinite power then .ok (d.scale power)
  else .error (.invalid (.notFinite .power (Scalar.text power)))

/-- Whether two dimensions come to the same exponents over the primary dimensions. -/
def equals (d e : Dimension r) : Bool :=
  ExponentVector.isClose d.primary e.primary Scalar.tolerance

/-- The exponents over the primary dimensions in millionths, rounded. As a rule, dimensions with
different rounded exponents are told apart even where `equals` takes them for one. -/
def rounded (d : Dimension r) : List α := d.primary.map fun x => Scalar.round (x * 1e6)

/-- Whether two dimensions are one key: they are equal, and so are the hashes of their rounded
exponents. -/
def sameKey (hash : List α → UInt32) (d e : Dimension r) : Bool :=
  hash d.rounded == hash e.rounded && d.equals e

def toPrimary (d : Dimension r) : Except Error (Dimension r) := ofPrimary r d.primary

def isFinite (d : Dimension r) : Bool := d.exponents.all Scalar.isFinite

/-- The factors in the order in which they are written, each with a label. -/
def factors (d : Dimension r) (label : DimensionEntry α → String) : List (String × α) :=
  r.dimensionDisplayOrder.map fun index =>
    (((r.dimensions[index]?).map label).getD "", d.exponents.getD index 0)

/-- The product of labels with their exponents. A label that only looks like an expression cannot be
written. -/
def print (d : Dimension r) (separator : String) (label : DimensionEntry α → String) :
    Except Error String :=
  match printProduct separator "1" (d.factors label) with
  | .error (base, problem) => .error (.parse base problem)
  | .ok text => .ok text

def name (d : Dimension r) : String :=
  printPlain " . " "dimensionless" (d.factors DimensionEntry.name)

def symbol (d : Dimension r) : Except Error String := d.print "" DimensionEntry.symbol

def symbolFinishes (d : Dimension r) : Bool := productFinishes (d.factors DimensionEntry.symbol)

def siUnit (d : Dimension r) : Except Error String :=
  d.print "." fun entry => ((r.units[entry.siUnitIndex]?).map UnitEntry.symbol).getD ""

end Dimension

end Metrology
