import Metrology.Unit.Conversion
import Metrology.Numeral.Rounded

/-!
Physical quantities: finite values in units.
-/

namespace Metrology

structure Quantity {α : Type} (r : Registry α) where
  value : α
  unit : Unit r

/-- A number in scientific notation with at most ten digits after the point, no zeros at their end,
and at least two digits in the exponent. Of what is not finite, only the text. -/
def scientificText {α : Type} [Scalar α] (x : α) : String :=
  match Scalar.toRat? x with
  | none => Scalar.text x
  | some q =>
    let numeral := exponential 10 q
    let mantissa := numeral.takeWhile (· != 'e')
    let power := (numeral.dropWhile (· != 'e')).drop 1
    let digits := (mantissa.reverse.dropWhile (· == '0')).reverse
    let mantissa := if digits.getLast? = some '.' then digits.dropLast else digits
    let sign := if power.head? = some '-' then '-' else '+'
    let exponent := power.drop 1
    String.ofList
      (mantissa ++ 'E' :: sign :: (List.replicate (2 - exponent.length) '0' ++ exponent))

namespace Quantity

variable {α : Type} [Scalar α] {r : Registry α}

/-- The quantity of a value, which has to be finite. -/
def make (value : α) (unit : Unit r) : Except Error (Quantity r) :=
  if Scalar.isFinite value then .ok ⟨value, unit⟩
  else .error (.invalid (.notFinite .value (Scalar.text value)))

def operand (role : NumberRole) (x : α) : Except Error α :=
  if Scalar.isFinite x then .ok x else .error (.invalid (.notFinite role (Scalar.text x)))

def apply (q : Quantity r) (c : Conversion r) : Except Error (Quantity r) :=
  make (c.coefficients.apply q.value) c.unit

def convertTo (q : Quantity r) (target : Unit r) : Except Error (Quantity r) :=
  q.unit.conversionTo target >>= q.apply

def toSi (q : Quantity r) : Except Error (Quantity r) := q.unit.conversionToSi >>= q.apply

def toSiPrimary (q : Quantity r) : Except Error (Quantity r) :=
  q.unit.conversionToSiPrimary >>= q.apply

/-- The value of a quantity in a unit; where the unit equals its own, no conversion takes place. -/
def valueIn (q : Quantity r) (unit : Unit r) : Except Error α :=
  if q.unit.equals unit then .ok q.value else (q.convertTo unit).map Quantity.value

def add (q p : Quantity r) : Except Error (Quantity r) := do
  make (q.value + (← p.valueIn q.unit)) q.unit

def subtract (q p : Quantity r) : Except Error (Quantity r) := do
  make (q.value - (← p.valueIn q.unit)) q.unit

def mul (q p : Quantity r) : Except Error (Quantity r) := do
  make (q.value * p.value) (← q.unit.mul p.unit)

def div (q p : Quantity r) : Except Error (Quantity r) := do
  make (q.value / p.value) (← q.unit.div p.unit)

def times (q : Quantity r) (x : α) : Except Error (Quantity r) := do
  make (q.value * (← operand .multiplier x)) q.unit

def dividedBy (q : Quantity r) (x : α) : Except Error (Quantity r) := do
  make (q.value / (← operand .divisor x)) q.unit

def pow (q : Quantity r) (power : α) : Except Error (Quantity r) := do
  make (Scalar.power q.value power) (← q.unit.pow power)

/-- Whether two quantities have close values once the second is converted. Quantities that do not
convert are different. -/
def equals (q p : Quantity r) : Except Error Bool :=
  if (p.unit.convertibility q.unit).convertible then
    (p.convertTo q.unit).map fun converted => isCloseTo q.value converted.value 1e-5 1e-8
  else .ok false

def text (q : Quantity r) : Except Error String :=
  q.unit.symbol.map fun symbol => scientificText q.value ++ " " ++ symbol

def textsFinish (q p : Quantity r) : Bool :=
  q.unit.symbolFinishes && q.text.toOption.all fun _ => p.unit.symbolFinishes

end Quantity

end Metrology
