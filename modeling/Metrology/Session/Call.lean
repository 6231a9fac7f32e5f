import Metrology.Session.Store

/-!
What can be asked of a store: to create objects, to read their properties, to compute with them and
to change them in place.

An argument may be an object of the store, an object over another registry, or a datum. Whatever
does not fit where it stands is refused, and most often quoted in the refusal.
-/

namespace Metrology

/-- The objects that an operation may refuse for belonging to another registry. -/
inductive Foreign where
  | dimension
  | unit
  | quantity
  | conversion

inductive Argument (α : Type) where
  | dimension (place : Nat)
  | unit (place : Nat)
  | quantity (place : Nat)
  | conversion (unit : Nat)
  /-- A list of objects, each by how it is quoted. -/
  | objects (quotations : List (Except Error String))
  /-- An object over another registry, and how it is quoted. -/
  | foreign (kind : Foreign) (quotation : Except Error String)
  | datum (value : Datum α)

inductive Creation (α : Type) where
  | parseDimension (text : Argument α)
  | dimension (exponents : Argument α)
  | primaryDimension (exponents : Argument α)
  | dimensionless
  | parseUnit (text : Argument α)
  | unit (exponents : Argument α)
  | primaryUnit (exponents : Argument α)
  | unitless
  | unitOfDimension (dimension : Argument α)
  | quantity (value unit : Argument α)
  /-- A quantity whose unit is an object or an expression. -/
  | parseQuantity (value unit : Argument α)
  | namedDimension (key : Argument α)
  | namedUnit (key : Argument α)
  | namedConstant (key : Argument α)

inductive DimensionCall (α : Type) where
  | exponents
  | primary
  | isPrimary
  | isDimensionless
  | name
  | symbol
  | siUnit
  | shortestName
  | shortestSymbol
  | shortestSiUnit
  | primaryName
  | primarySymbol
  | primarySiUnit
  | description
  | shortest
  | toPrimary
  | equivalents (options : SearchOptions α)
  | search (options : SearchOptions α)
  | equals (other : Argument α)
  | mul (other : Argument α)
  | div (other : Argument α)
  | pow (power : Argument α)
  | mulInPlace (other : Argument α)
  | divInPlace (other : Argument α)
  | powInPlace (power : Argument α)

inductive UnitCall (α : Type) where
  | exponents
  | dimension
  | isSi
  | name
  | symbol
  | siName
  | siSymbol
  | siPrimaryName
  | siPrimarySymbol
  | description
  | toSi
  | toSiPrimary
  | siCoefficients
  | convertToSi
  | convertToSiPrimary
  | equals (other : Argument α)
  | hasSameDimension (other : Argument α)
  | convertibility (target : Argument α)
  | isConvertibleTo (target : Argument α)
  | coefficientsTo (target : Argument α)
  | convertTo (target : Argument α)
  | convertValue (value target : Argument α)
  | mul (other : Argument α)
  | div (other : Argument α)
  | pow (power : Argument α)
  | mulInPlace (other : Argument α)
  | divInPlace (other : Argument α)
  | powInPlace (power : Argument α)

inductive QuantityCall (α : Type) where
  | value
  | unit
  | dimension
  | isSi
  | text
  | toSi
  | toSiPrimary
  | convertTo (target : Argument α)
  | equals (other : Argument α)
  | add (other : Argument α)
  | subtract (other : Argument α)
  | mul (other : Argument α)
  | div (other : Argument α)
  | pow (power : Argument α)

inductive Part where
  | shift
  | factor
  | unit
  | convertible
  | amountExponent
  | dimensions
  | solved
  | total
  | exhausted
  | length
  | item (index : Nat)

namespace Compound

variable {α : Type} [Scalar α]

def part? : Compound α → Part → Option (Outcome α)
  | vector values, .length => some (.number (Scalar.ofNat values.length))
  | vector values, .item index => (values[index]?).map .number
  | dimensions places, .length => some (.number (Scalar.ofNat places.length))
  | dimensions places, .item index => (places[index]?).map .dimension
  | search number places _ _ _, .dimensions =>
    some (.compound (.found number) (.dimensions places))
  | search _ _ solved _ _, .solved => some (.number (Scalar.ofNat solved))
  | search _ _ _ total _, .total => some (.number total)
  | search _ _ _ _ exhausted, .exhausted => some (.flag exhausted)
  | conversion c _, .shift => some (.number c.shift)
  | conversion c _, .factor => some (.number c.factor)
  | conversion _ unit, .unit => some (.unit unit)
  | coefficients c, .shift => some (.number c.shift)
  | coefficients c, .factor => some (.number c.factor)
  | convertibility c, .convertible => some (.flag c.convertible)
  | convertibility c, .amountExponent => some (.number c.amountExponent)
  | _, _ => none

end Compound

namespace Store

variable {α : Type} [Scalar α] {r : Registry α}

def quoted (s : Store r) : Argument α → Except Error String
  | .dimension place => (s.dimension place).description
  | .unit place => (s.unit place).description
  | .quantity place => (s.quantity place).text
  | .conversion _ => .ok (Datum.record [] : Datum α).quoted
  | .objects quotations => (quotations.mapM id).map (",".intercalate ·)
  | .foreign _ quotation => quotation
  | .datum d => .ok d.quoted

/-- What an argument is refused for: how it is quoted, unless that fails. -/
def refused {β : Type} (s : Store r) (a : Argument α) (error : String → Error) : Except Error β :=
  match s.quoted a with
  | .error e => .error e
  | .ok text => .error (error text)

/-- An entry under the key that an argument is. Only a text can be a key. -/
def named {β : Type} (s : Store r) (table : Table) (find : String → Except Error β)
    (a : Argument α) : Except Error β :=
  match a with
  | .datum (.text key) => find key
  | a => s.refused a (.unknown table)

def entries (role : VectorRole) (length : Nat) : Argument α → Except Error (List (Datum α))
  | .datum (.list entries) => .ok entries
  | .datum d => .error (.invalid (.vectorLength role length.repr d.quotedLength))
  | .objects quotations =>
    match quotations with
    | first :: rest =>
      if rest.length + 1 = length then
        first.bind fun text => .error (.invalid (.vectorEntry role 0 text))
      else .error (.invalid (.vectorLength role length.repr (rest.length + 1).repr))
    | [] => .ok []
  | _ =>
    .error (.invalid (.vectorLength role length.repr (Datum.absent : Datum α).quotedLength))

/-- What coefficients turn an argument into. An object counts as the text by which it is
quoted. -/
def convert (s : Store r) (c : Coefficients α) : Argument α → Except Error α
  | .datum d => .ok (c.applyTo d)
  | a => (s.quoted a).map fun text => c.applyTo (.text text)

def finite (s : Store r) (role : NumberRole) (a : Argument α) : Except Error α :=
  match a with
  | .datum (.number x) =>
    if Scalar.isFinite x then .ok x else .error (.invalid (.notFinite role (Scalar.text x)))
  | a => s.refused a fun text => .invalid (.notFinite role text)

def dimensionOperand (s : Store r) (operation : Operation) :
    Argument α → Except Error (Dimension r)
  | .dimension place => .ok (s.dimension place)
  | .foreign .dimension _ => .error (.invalid (.foreignOperand operation .dimension))
  | _ => .error (.invalid (.operand operation .dimension))

def unitOperand (s : Store r) (operation : Operation) : Argument α → Except Error (Unit r)
  | .unit place => .ok (s.unit place)
  | .foreign .unit _ => .error (.invalid (.foreignOperand operation .unit))
  | _ => .error (.invalid (.operand operation .unit))

/-- The quantity that an operation is to be carried out with, which comes to an operation on
units. -/
def quantityOperand (s : Store r) (operation onUnits : Operation) :
    Argument α → Except Error (Quantity r)
  | .quantity place => .ok (s.quantity place)
  | .foreign .quantity _ => .error (.invalid (.foreignOperand onUnits .unit))
  | _ => .error (.invalid (.operand operation .quantity))

/-- The factor or divisor of a quantity that is no number: another quantity. A conversion has a unit
too, but its value is undefined. -/
def quantityFactor (s : Store r) (operation : Operation) : Argument α → Except Error (Quantity r)
  | .quantity place => .ok (s.quantity place)
  | .conversion unit => .ok ⟨0 / 0, s.unit unit⟩
  | .foreign .quantity _ | .foreign .conversion _ =>
    .error (.invalid (.foreignOperand operation .unit))
  | _ => .error (.invalid (.operand operation .unit))

/-- The unit to convert to: an object or an expression. -/
def conversionTarget (s : Store r) : Argument α → Except Error (Target r × Unit r)
  | .unit place => .ok (.held place, s.unit place)
  | .datum (.text text) => (Unit.parse r text).map fun u => (.fresh u, u)
  | .foreign .unit _ => .error (.invalid (.foreignOperand .conversion .unit))
  | _ => .error (.invalid (.operand .conversion .unit))

def quantityUnit : Argument α → Except Error (Target r)
  | .unit place => .ok (.held place)
  | _ => .error (.invalid .quantityUnit)

def parsedQuantityUnit : Argument α → Except Error (Target r)
  | .datum (.text text) => (Unit.parse r text).map Target.fresh
  | a => quantityUnit a

/-- A text to answer with, unless an exponent is not finite. -/
def printed (finite : Bool) (text : Except Error String) : Except Error (Effect r) :=
  if finite then text.map fun text => .nothing (.text (some text)) else .ok (.nothing (.text none))

def answer (outcome : Outcome α) : Except Error (Effect r) := .ok (.nothing outcome)

def composed (parts : Compound α) : Except Error (Effect r) := .ok (.compose parts)

def freshQuantity (q : Quantity r) : Effect r := .holdQuantity q.value (.fresh q.unit)

def create (s : Store r) : Creation α → Except Error (Effect r)
  | .parseDimension text => do
    let text ← s.quoted text
    (Dimension.parse r text).map .holdDimension
  | .dimension exponents => do
    let entries ← entries .dimension r.dimensionCount exponents
    (Dimension.ofData r entries).map .holdDimension
  | .primaryDimension exponents => do
    let entries ← entries .primary primaryCount exponents
    (Dimension.ofPrimaryData r entries).map .holdDimension
  | .dimensionless => .ok (.holdDimension (.one r))
  | .parseUnit text => do
    let text ← s.quoted text
    (Unit.parse r text).map .holdUnit
  | .unit exponents => do
    let entries ← entries .unit r.unitCount exponents
    (Unit.ofData r entries).map .holdUnit
  | .primaryUnit exponents => do
    let entries ← entries .primaryUnit primaryCount exponents
    (Unit.ofPrimaryData r entries).map .holdUnit
  | .unitless => (Unit.one r).map .holdUnit
  | .unitOfDimension (.dimension place) => (Unit.ofDimension (s.dimension place)).map .holdUnit
  | .unitOfDimension _ => .error (.invalid .unitOfDimension)
  | .quantity value unit => do
    let unit ← quantityUnit unit
    let value ← s.finite .value value
    return .holdQuantity value unit
  | .parseQuantity value unit => do
    let unit ← parsedQuantityUnit unit
    let value ← s.finite .value value
    return .holdQuantity value unit
  | .namedDimension key => (s.named .dimension (Catalogue.dimension r) key).map .holdDimension
  | .namedUnit key => (s.named .unit (Catalogue.unit r) key).map .holdUnit
  | .namedConstant key => (s.named .constant (Catalogue.constant r) key).map freshQuantity

def callDimension (s : Store r) (place : Nat) : DimensionCall α → Except Error (Effect r)
  | .exponents =>
    answer (.compound (s.exponentsOf (.dimension place)) (.vector (s.dimension place).exponents))
  | .primary => composed (.vector (s.dimension place).primary)
  | .isPrimary => answer (.flag (s.dimension place).isPrimary)
  | .isDimensionless => answer (.flag (s.dimension place).isDimensionless)
  | .name => printed (s.dimension place).isFinite (.ok (s.dimension place).name)
  | .symbol => printed (s.dimension place).isFinite (s.dimension place).symbol
  | .siUnit => printed (s.dimension place).isFinite (s.dimension place).siUnit
  | .shortestName =>
    let d := (s.dimension place).shortest
    printed d.isFinite (.ok d.name)
  | .shortestSymbol =>
    let d := (s.dimension place).shortest
    printed d.isFinite d.symbol
  | .shortestSiUnit =>
    let d := (s.dimension place).shortest
    printed d.isFinite d.siUnit
  | .primaryName => do
    let d ← (s.dimension place).toPrimary
    printed d.isFinite (.ok d.name)
  | .primarySymbol => do
    let d ← (s.dimension place).toPrimary
    printed d.isFinite d.symbol
  | .primarySiUnit => do
    let d ← (s.dimension place).toPrimary
    printed d.isFinite d.siUnit
  | .description =>
    let d := s.dimension place
    printed (d.isFinite && d.shortest.isFinite) d.description
  | .shortest => .ok (.holdDimension (s.dimension place).shortest)
  | .toPrimary => (s.dimension place).toPrimary.map .holdDimension
  | .equivalents options =>
    ((s.dimension place).search options).map fun search => .holdDimensions search.dimensions
  | .search options => ((s.dimension place).search options).map .holdSearch
  | .equals other => do
    let other ← s.dimensionOperand .equality other
    answer (.flag ((s.dimension place).equals other))
  | .mul other => do
    let other ← s.dimensionOperand .multiplication other
    return .holdDimension (s.dimension place * other)
  | .div other => do
    let other ← s.dimensionOperand .division other
    return .holdDimension (s.dimension place / other)
  | .pow power => do
    let power ← s.finite .power power
    ((s.dimension place).pow power).map .holdDimension
  | .mulInPlace other => do
    let other ← s.dimensionOperand .multiplication other
    return .changeDimension place (s.dimension place * other)
  | .divInPlace other => do
    let other ← s.dimensionOperand .division other
    return .changeDimension place (s.dimension place / other)
  | .powInPlace power => do
    let power ← s.finite .power power
    ((s.dimension place).pow power).map (.changeDimension place)

/-- Whether a unit measures the dimension of another unit, of a dimension or of an expression. -/
def hasSameDimension (s : Store r) (place : Nat) : Argument α → Except Error Bool
  | .datum (.text text) =>
    (Unit.parse r text).map fun other => (s.unit place).dimension.equals other.dimension
  | .unit other => .ok ((s.unit place).dimension.equals (s.unit other).dimension)
  | .dimension other => .ok ((s.unit place).dimension.equals (s.dimension other))
  | .foreign .unit _ => .error (.invalid (.foreignOperand .comparison .unit))
  | .foreign .dimension _ => .error (.invalid (.foreignOperand .equality .dimension))
  | _ => .error (.invalid .dimensionEquality)

def callUnit (s : Store r) (place : Nat) : UnitCall α → Except Error (Effect r)
  | .exponents =>
    answer (.compound (s.exponentsOf (.unit place)) (.vector (s.unit place).exponents))
  | .dimension => answer (.dimension (s.dimensionPlace place))
  | .isSi => do answer (.flag (← (s.unit place).isSi))
  | .name => printed (s.unit place).isFinite (.ok (s.unit place).name)
  | .symbol => printed (s.unit place).isFinite (s.unit place).symbol
  | .siName => printed (s.unit place).isFinite ((s.unit place).toSi.map Unit.name)
  | .siSymbol => printed (s.unit place).isFinite ((s.unit place).toSi >>= Unit.symbol)
  | .siPrimaryName => printed (s.unit place).isFinite ((s.unit place).toSiPrimary.map Unit.name)
  | .siPrimarySymbol =>
    printed (s.unit place).isFinite ((s.unit place).toSiPrimary >>= Unit.symbol)
  | .description =>
    let u := s.unit place
    printed (u.isFinite && u.dimension.isFinite && u.dimension.shortest.isFinite) u.description
  | .toSi => (s.unit place).toSi.map .holdUnit
  | .toSiPrimary => (s.unit place).toSiPrimary.map .holdUnit
  | .siCoefficients => composed (.coefficients (s.unit place).siCoefficients)
  | .convertToSi =>
    (s.unit place).conversionToSi.map fun c => .holdConversion c.coefficients (.fresh c.unit)
  | .convertToSiPrimary =>
    (s.unit place).conversionToSiPrimary.map fun c =>
      .holdConversion c.coefficients (.fresh c.unit)
  | .equals other => do
    let other ← s.unitOperand .equality other
    answer (.flag ((s.unit place).equals other))
  | .hasSameDimension other => do answer (.flag (← s.hasSameDimension place other))
  | .convertibility target => do
    let (_, target) ← s.conversionTarget target
    composed (.convertibility ((s.unit place).convertibility target))
  | .isConvertibleTo target => do
    let (_, target) ← s.conversionTarget target
    answer (.flag ((s.unit place).convertibility target).convertible)
  | .coefficientsTo target => do
    let (_, target) ← s.conversionTarget target
    composed (.coefficients (← (s.unit place).coefficientsTo target))
  | .convertTo target => do
    let (held, target) ← s.conversionTarget target
    return .holdConversion (← (s.unit place).coefficientsTo target) held
  | .convertValue value target => do
    let (_, target) ← s.conversionTarget target
    let c ← (s.unit place).coefficientsTo target
    answer (.converted (← s.convert c value))
  | .mul other => do
    let other ← s.unitOperand .multiplication other
    ((s.unit place).mul other).map .holdUnit
  | .div other => do
    let other ← s.unitOperand .division other
    ((s.unit place).div other).map .holdUnit
  | .pow power => do
    let power ← s.finite .power power
    ((s.unit place).pow power).map .holdUnit
  | .mulInPlace other => do
    let other ← s.unitOperand .multiplication other
    return .changeUnit place ((s.unit place).mulDirect other)
  | .divInPlace other => do
    let other ← s.unitOperand .division other
    return .changeUnit place ((s.unit place).divDirect other)
  | .powInPlace power => do
    let power ← s.finite .power power
    ((s.unit place).powDirect power).map (.changeUnit place)

def callQuantity (s : Store r) (place : Nat) : QuantityCall α → Except Error (Effect r)
  | .value => answer (.number (s.quantity place).value)
  | .unit => answer (.unit (s.unitPlace place))
  | .dimension => answer (.dimension (s.dimensionPlace (s.unitPlace place)))
  | .isSi => do answer (.flag (← (s.quantity place).unit.isSi))
  | .text => printed (s.quantity place).unit.isFinite (s.quantity place).text
  | .toSi => (s.quantity place).toSi.map freshQuantity
  | .toSiPrimary => (s.quantity place).toSiPrimary.map freshQuantity
  | .convertTo target => do
    let (held, target) ← s.conversionTarget target
    let q ← (s.quantity place).convertTo target
    return .holdQuantity q.value held
  | .equals (.quantity other) => do
    answer (.flag (← (s.quantity place).equals (s.quantity other)))
  | .equals (.foreign .quantity _) => .error (.invalid (.foreignOperand .conversion .unit))
  | .equals _ => .error (.invalid .quantityEquality)
  | .add other => do
    let other ← s.quantityOperand .addition .equality other
    let q ← (s.quantity place).add other
    return .holdQuantity q.value (.held (s.unitPlace place))
  | .subtract other => do
    let other ← s.quantityOperand .subtraction .equality other
    let q ← (s.quantity place).subtract other
    return .holdQuantity q.value (.held (s.unitPlace place))
  | .mul (.datum (.number x)) => do
    let q ← (s.quantity place).times x
    return .holdQuantity q.value (.held (s.unitPlace place))
  | .mul other => do
    let other ← s.quantityFactor .multiplication other
    ((s.quantity place).mul other).map freshQuantity
  | .div (.datum (.number x)) => do
    let q ← (s.quantity place).dividedBy x
    return .holdQuantity q.value (.held (s.unitPlace place))
  | .div other => do
    let other ← s.quantityFactor .division other
    ((s.quantity place).div other).map freshQuantity
  | .pow power => do
    let power ← s.finite .power power
    ((s.quantity place).pow power).map freshQuantity

end Store

end Metrology
