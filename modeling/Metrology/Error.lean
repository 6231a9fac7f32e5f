import Metrology.Expression.Term

/-!
Everything that can go wrong, by cause, and the words for it.
-/

namespace Metrology

inductive Table where
  | dimension
  | unit
  | constant
  | named (name : String)
deriving DecidableEq

namespace Table

def text : Table → String
  | dimension => "dimension"
  | unit => "unit"
  | constant => "constant"
  | named name => name

end Table

inductive Operand where
  | dimension
  | unit
  | quantity
deriving DecidableEq

namespace Operand

def text : Operand → String
  | dimension => "Dimension"
  | unit => "Unit"
  | quantity => "Quantity"

def plural : Operand → String
  | dimension => "dimensions"
  | unit => "units"
  | quantity => "quantities"

end Operand

inductive Operation where
  | multiplication
  | division
  | equality
  | conversion
  | comparison
  | addition
  | subtraction
deriving DecidableEq

namespace Operation

def text : Operation → String
  | multiplication => "Multiplication"
  | division => "Division"
  | equality => "Equality"
  | conversion => "Conversion"
  | comparison => "Dimension comparison"
  | addition => "Addition"
  | subtraction => "Subtraction"

end Operation

inductive VectorRole where
  | dimension
  | unit
  | primary
  | primaryUnit
  | named (name : String)
deriving DecidableEq

namespace VectorRole

def text : VectorRole → String
  | dimension => "Dimension"
  | unit => "Unit"
  | primary => "Primary decomposition"
  | primaryUnit => "Primary unit decomposition"
  | named name => name

end VectorRole

inductive NumberRole where
  | power
  | value
  | multiplier
  | divisor
deriving DecidableEq

namespace NumberRole

def text : NumberRole → String
  | power => "Power"
  | value => "Quantity value"
  | multiplier => "Multiplier"
  | divisor => "Divisor"

end NumberRole

inductive CountOption where
  | maxComposingDimensions
  | maxCombinations
deriving DecidableEq

namespace CountOption

def text : CountOption → String
  | maxComposingDimensions => "maxComposingDimensions"
  | maxCombinations => "maxCombinations"

end CountOption

inductive RegistryProblem where
  | malformed
  | primaryCount (expected got : Nat)
  | primaryKey (slot : Nat) (expected got : String)
  | primaryVector (key : String)
  | ruleDimension (dimension : String)
  | ruleUnit (unit dimension : String)
  | rulePrefix (key : String)
  | duplicateSymbol (table : Table) (symbol : String)
  | noAvogadro
  | constantText (constant unit : String) (problem : ParseProblem)
  | constantUnit (constant unit : String)
deriving DecidableEq

namespace RegistryProblem

def text : RegistryProblem → Utf16
  | malformed => Utf16.ofString "Invalid registry data"
  | primaryCount expected got =>
    Utf16.ofString s!"Expected {expected} primary dimensions, got {got}"
  | primaryKey slot expected got =>
    Utf16.ofString s!"Primary dimension {slot} must be \"{expected}\", got \"{got}\""
  | primaryVector key =>
    Utf16.ofString s!"Primary dimension \"{key}\" must have a unit primary-exponent vector"
  | ruleDimension dimension =>
    Utf16.ofString s!"Prefix rule names unknown dimension \"{dimension}\""
  | ruleUnit unit dimension =>
    Utf16.ofString s!"Prefix rule names unknown unit \"{unit}\" in dimension \"{dimension}\""
  | rulePrefix key => Utf16.ofString s!"Prefix rule names unknown prefix \"{key}\""
  | duplicateSymbol table symbol =>
    Utf16.ofString s!"Duplicate {table.text} symbol \"{symbol}\""
  | noAvogadro => Utf16.ofString "Registry must define the \"avogadro\" constant"
  | constantText constant unit problem =>
    Utf16.ofString s!"Constant \"{constant}\" has an unparseable unit \"{unit}\": "
      ++ problem.text
  | constantUnit constant unit =>
    Utf16.ofString s!"Constant \"{constant}\" names unknown unit \"{unit}\""

end RegistryProblem

/-- What is wrong with an argument. What was got instead is quoted as text, and so is a length. -/
inductive Violation where
  | vectorLength (role : VectorRole) (expected got : String)
  | vectorEntry (role : VectorRole) (index : Nat) (got : String)
  | lengthsDiffer (left right : Nat)
  | notFinite (role : NumberRole) (got : String)
  | notCount (option : CountOption) (got : String)
  | exponentBound (got : String)
  | operand (operation : Operation) (expected : Operand)
  | foreignOperand (operation : Operation) (expected : Operand)
  | quantityUnit
  | quantityEquality
  | unitOfDimension
  | dimensionEquality
  | registry (problem : RegistryProblem)
  /-- A violation in words of its own. -/
  | stated (text : String)
deriving DecidableEq

namespace Violation

def text : Violation → Utf16
  | vectorLength role expected got =>
    Utf16.ofString s!"{role.text} exponent vector must have {expected} entries, got {got}"
  | vectorEntry role index got =>
    Utf16.ofString s!"{role.text} exponent at index {index} must be a finite number, got {got}"
  | lengthsDiffer left right =>
    Utf16.ofString s!"Exponent vectors differ in length ({left} and {right})"
  | notFinite role got => Utf16.ofString s!"{role.text} must be a finite number, got {got}"
  | notCount option got =>
    Utf16.ofString s!"{option.text} must be a non-negative integer, got {got}"
  | exponentBound got => Utf16.ofString s!"maxExponent must be positive, got {got}"
  | operand operation expected =>
    Utf16.ofString s!"{operation.text} is only defined between two {expected.text} objects"
  | foreignOperand operation expected =>
    Utf16.ofString s!"{operation.text} requires {expected.plural} from the same registry"
  | quantityUnit => Utf16.ofString "Quantity unit must be a Unit object"
  | quantityEquality =>
    Utf16.ofString "Equality can only be assessed between two Quantity objects"
  | unitOfDimension => Utf16.ofString "Unit.fromDimension expects a Dimension object"
  | dimensionEquality =>
    Utf16.ofString
      "Dimension equality can only be assessed against a Unit, a Dimension or a unit expression"
  | registry problem => problem.text
  | stated text => Utf16.ofString text

end Violation

/-- The symbols of two units that do not convert, and of their dimensions. -/
structure Mismatch where
  source : String
  target : String
  sourceDimension : String
  targetDimension : String
deriving DecidableEq

inductive Error where
  | parse (input : String) (problem : ParseProblem)
  | unknown (table : Table) (token : String)
  | invalid (violation : Violation)
  | inconvertible (mismatch : Mismatch)
deriving DecidableEq

namespace Error

def message : Error → Utf16
  | parse input problem => Utf16.ofString s!"Cannot parse \"{input}\": " ++ problem.text
  | unknown table token => Utf16.ofString s!"Unknown {table.text} \"{token}\""
  | invalid violation => violation.text
  | inconvertible m =>
    let source := s!"{m.source} [{m.sourceDimension}]"
    let target := s!"{m.target} [{m.targetDimension}]"
    Utf16.ofString s!"Cannot convert {source} to {target}: dimensions do not match"

end Error

end Metrology
