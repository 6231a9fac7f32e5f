import Metrology.Scalar
import Metrology.Text.Utf16

/-!
What an expression says, a product of bases with exponents, and what can be wrong with one.
-/

namespace Metrology

/-- A written exponent: a quotient of whole numbers, not necessarily in lowest terms. -/
structure Exponent where
  numerator : Int
  denominator : Nat
  denominator_ne_zero : denominator ≠ 0
deriving DecidableEq

namespace Exponent

/-- The exponent of a base that is written without one. -/
def one : Exponent := ⟨1, 1, Nat.one_ne_zero⟩

def value {α : Type} [Scalar α] (e : Exponent) : α :=
  Scalar.ofInt e.numerator / Scalar.ofNat e.denominator

end Exponent

structure Term where
  base : String
  exponent : Exponent
deriving DecidableEq

/-- Where in an expression a fault was noticed, in UTF-16 code units. -/
inductive Place where
  | offset (n : Nat)
  | endOfInput
deriving DecidableEq

namespace Place

def text : Place → String
  | offset n => " at offset " ++ n.repr
  | endOfInput => " at end of input"

end Place

inductive ParseFault where
  | baseExpected
  | separatorExpected
  | exponentExpected
  | denominatorExpected
  | zeroDenominator
  | secondCaret
  | twoExponents
deriving DecidableEq

namespace ParseFault

def text : ParseFault → String
  | baseExpected =>
    "Expected a base; consecutive, leading or trailing '.' symbols are not allowed"
  | separatorExpected => "Expected '.' between terms"
  | exponentExpected => "Expected an integer exponent after '^'"
  | denominatorExpected => "Expected a denominator after '/'"
  | zeroDenominator => "Exponent denominator must not be zero"
  | secondCaret => "Only one '^' may appear in each term"
  | twoExponents => "A term may carry either a superscript or a '^' exponent, not both"

end ParseFault

inductive ParseProblem where
  | blank
  /-- A character no lexeme begins with; its first code unit is quoted. -/
  | unexpected (unit : UInt16) (offset : Nat)
  | fault (fault : ParseFault) (place : Place)
  | stated (text : String)
deriving DecidableEq

namespace ParseProblem

def text : ParseProblem → Utf16
  | blank => Utf16.ofString "Expression is empty"
  | unexpected unit offset =>
    Utf16.ofString "Unexpected character \"" ++ unit ::
      Utf16.ofString ("\" at offset " ++ offset.repr)
  | fault f place => Utf16.ofString (f.text ++ place.text)
  | stated text => Utf16.ofString text

end ParseProblem

end Metrology
