import Metrology.Unit
import Metrology.Dimension.Shortest

/-!
Conversion between units.

A value is converted by adding a shift and multiplying by a factor. Only units of temperature bring
a shift. Units convert when their dimensions agree apart from the amount of substance, which the
Avogadro constant makes up for.
-/

namespace Metrology

/-- What turns a value in one unit into a value in another: `(value + shift) * factor`. -/
structure Coefficients (α : Type) where
  shift : α
  factor : α

namespace Coefficients

variable {α : Type} [Scalar α]

def apply (c : Coefficients α) (value : α) : α := (value + c.shift) * c.factor

/-- What the coefficients turn a datum into; something undefined if the datum counts as no number
once the shift has been added. -/
def applyTo (c : Coefficients α) (d : Datum α) : α :=
  ((d.plus? c.shift).getD (0 / 0)) * c.factor

end Coefficients

/-- Whether two units convert, and the power of the amount of substance by which they differ. -/
structure Convertibility (α : Type) where
  convertible : Bool
  amountExponent : α

structure Conversion {α : Type} (r : Registry α) where
  coefficients : Coefficients α
  unit : Unit r

namespace Unit

variable {α : Type} [Scalar α] {r : Registry α}

/-- Coefficients that take one more unit into account. A temperature shifts by its offset where it
stands with a positive exponent; any other unit multiplies by a power of its factor, unless that
is 0. -/
def accountFor (c : Coefficients α) (unit : UnitEntry α) (exponent : α) : Coefficients α :=
  if unit.isTemperature then
    if 0 < exponent then { c with shift := c.shift + exponent * unit.conversionFactor } else c
  else if unit.conversionFactor == 0 || exponent == 0 then c
  else { c with factor := c.factor * Scalar.power unit.conversionFactor exponent }

def siCoefficients (u : Unit r) : Coefficients α :=
  (r.paired u.exponents).foldl (fun c (unit, exponent) => accountFor c unit exponent) ⟨0, 1⟩

def convertibility (u target : Unit r) : Convertibility α :=
  let difference := (target.dimension / u.dimension).primary
  { convertible := ExponentVector.isZero (difference.set amountSlot 0) Scalar.tolerance
    amountExponent := difference.getD amountSlot 0 }

def mismatch (u target : Unit r) : Except Error Mismatch := do
  let source ← u.symbol
  let targetSymbol ← target.symbol
  let sourceDimension ← (← u.dimension.toPrimary).symbol
  let targetDimension ← (← target.dimension.toPrimary).symbol
  return { source, target := targetSymbol, sourceDimension, targetDimension }

/-- Whether the writing of a mismatch comes to an end, symbol after symbol. It does at an error. -/
def mismatchFinishes (u target : Unit r) : Bool :=
  u.symbolFinishes && u.symbol.toOption.all fun _ =>
    target.symbolFinishes && target.symbol.toOption.all fun _ =>
      u.dimension.toPrimary.toOption.all fun d =>
        d.symbolFinishes && d.symbol.toOption.all fun _ =>
          target.dimension.toPrimary.toOption.all Dimension.symbolFinishes

/-- The coefficients between two units by way of SI units, given the power of the amount of
substance by which they differ. -/
def coefficientsVia (u target : Unit r) (amountExponent : α) : Coefficients α :=
  let source := u.siCoefficients
  let goal := target.siCoefficients
  let factor :=
    if amountExponent == 0 then source.factor
    else source.factor * Scalar.power r.avogadro (-amountExponent)
  ⟨source.shift - goal.shift, factor / goal.factor⟩

def coefficientsTo (u target : Unit r) : Except Error (Coefficients α) :=
  let c := u.convertibility target
  if c.convertible then .ok (u.coefficientsVia target c.amountExponent)
  else
    match u.mismatch target with
    | .error e => .error e
    | .ok mismatch => .error (.inconvertible mismatch)

/-- Whether the coefficients, or the error in their place, are ever found. -/
def coefficientsFinish (u target : Unit r) : Bool :=
  (u.convertibility target).convertible || u.mismatchFinishes target

def conversionTo (u target : Unit r) : Except Error (Conversion r) :=
  (u.coefficientsTo target).map fun c => ⟨c, target⟩

def conversionToSi (u : Unit r) : Except Error (Conversion r) :=
  u.toSi.map fun si => ⟨u.siCoefficients, si⟩

def conversionToSiPrimary (u : Unit r) : Except Error (Conversion r) :=
  u.toSiPrimary.map fun si => ⟨u.siCoefficients, si⟩

def convertValue (u target : Unit r) (value : α) : Except Error α :=
  (u.coefficientsTo target).map fun c => c.apply value

/-- Whether two units measure the same dimension and convert to SI units alike. -/
def equals (u v : Unit r) : Bool :=
  u.dimension.equals v.dimension
    && isCloseTo u.siCoefficients.shift v.siCoefficients.shift 1e-5 1e-8
    && isCloseTo u.siCoefficients.factor v.siCoefficients.factor 1e-9 0

def description (u : Unit r) : Except Error String := do
  let line (title : String) (symbol : Except Error String) (name : Except Error String) :
      Except Error String := do
    let symbol ← symbol
    let name ← name
    return title ++ symbol ++ " = " ++ name
  let asIs ← line "As is:      " u.symbol (.ok u.name)
  let si ← line "SI:         " (u.toSi >>= symbol) (u.toSi.map name)
  let primary ← line "SI primary: " (u.toSiPrimary >>= symbol) (u.toSiPrimary.map name)
  let dimension ← u.dimension.description
  return "\n".intercalate
    ["Unit:", "-----", asIs, si, primary, "", "Dimension:", "----------", dimension]

end Unit

end Metrology
