import Metrology.Expression.Parser
import Metrology.Expression.Fraction

/-!
Writing products of bases with exponents.

Exponents are raised, an exponent of 1 is left out, and a base with an exponent that is zero up to
the tolerance is left out altogether. A base that is itself an expression goes into parentheses.
-/

namespace Metrology

variable {α : Type} [Scalar α]

/-- The raised form of a character of a number; other characters stay. -/
def raise : Char → Char
  | '0' => '⁰'
  | '1' => '¹'
  | '2' => '²'
  | '3' => '³'
  | '4' => '⁴'
  | '5' => '⁵'
  | '6' => '⁶'
  | '7' => '⁷'
  | '8' => '⁸'
  | '9' => '⁹'
  | '+' => '⁺'
  | '-' => '⁻'
  | '/' => '⁄'
  | c => c

def maxPrintedDenominator : α := 1e6

/-- An exponent as it is printed, before it is raised: a whole number, or else a fraction. -/
def plainExponent (exponent : α) : String :=
  let nearest := Scalar.round exponent
  if Scalar.abs (exponent - nearest) ≤ Scalar.tolerance then Scalar.text nearest
  else
    let (numerator, denominator) := closeFraction exponent maxPrintedDenominator
    Scalar.text numerator ++ "/" ++ Scalar.text denominator

/-- An exponent in raised characters; 1 is not written. -/
def superscript (exponent : α) : String :=
  if exponent == 1 then "" else String.ofList ((plainExponent exponent).toList.map raise)

def isNegligible (exponent : α) : Bool := decide (Scalar.abs exponent ≤ Scalar.tolerance)

def printedFactors (factors : List (String × α)) : List (String × α) :=
  factors.filter fun factor => !isNegligible factor.2

/-- Factors put together; an empty product has a text of its own. -/
def joinFactors (separator empty : String) : List String → String
  | [] => empty
  | factors => separator.intercalate factors

/-- A product whose bases are written as they stand. -/
def printPlain (separator empty : String) (factors : List (String × α)) : String :=
  joinFactors separator empty
    ((printedFactors factors).map fun (base, exponent) => base ++ superscript exponent)

/-- Whether a base is an expression of its own. -/
def isCompound (base : String) : Bool := base.toList.any fun c => c == '.' || c == '^'

/-- A base in a product: an expression is read, written plainly and put in parentheses. -/
def printBase (α : Type) [Scalar α] (base : String) : Except (String × ParseProblem) String :=
  if isCompound base then
    match parseTerms base with
    | .error problem => .error (base, problem)
    | .ok terms =>
      let factors := terms.map fun term => (term.base, (term.exponent.value : α))
      .ok ("(" ++ printPlain "." "1" factors ++ ")")
  else .ok base

/-- A product in which bases may be expressions. The first base that is none, although it looks
like one, is reported with its problem. -/
def printProduct (separator empty : String) (factors : List (String × α)) :
    Except (String × ParseProblem) String := do
  let printed ← (printedFactors factors).mapM fun (base, exponent) => do
    let base ← printBase α base
    return base ++ superscript exponent
  return joinFactors separator empty printed

/-! The search for a fraction close to an exponent only comes to an end for a finite exponent. -/

def baseFinishes (α : Type) [Scalar α] (base : String) : Bool :=
  match parseTerms base with
  | .ok terms => !isCompound base || terms.all fun term => Scalar.isFinite (term.exponent.value : α)
  | .error _ => true

/-- Whether the writing of factors comes to an end, one after another. It does at a base that cannot
be written, whatever follows. -/
def factorsFinish : List (String × α) → Bool
  | [] => true
  | (base, exponent) :: factors =>
    baseFinishes α base &&
      match printBase α base with
      | .ok _ => Scalar.isFinite exponent && factorsFinish factors
      | .error _ => true

def productFinishes (factors : List (String × α)) : Bool := factorsFinish (printedFactors factors)

end Metrology
