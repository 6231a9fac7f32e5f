import Mathlib
import Metrology.Expression.Lexeme

/-!
The grammar of expressions, as derivation trees.

A tree holds every character of the text it derives, the blanks included, and says what the text
means. No text has two trees: each run of characters of one kind ends where the next character is
of another kind, and what follows a base is told by the first character that is not blank.
-/

namespace Metrology

namespace Grammar

/-- Blanks, possibly none. -/
@[ext] structure Blanks where
  chars : List Char
  all : ∀ c ∈ chars, isBlank c = true

/-- One or more characters of one kind. -/
@[ext] structure Block (kind : Char → Bool) where
  chars : List Char
  ne_nil : chars ≠ []
  all : ∀ c ∈ chars, kind c = true

/-- What the words of a base can have between them. -/
def isGap (c : Char) : Bool := c == ' ' || c == '\t'

/-- The words of a base behind the first one, each after a gap. -/
abbrev Words := List (Block isGap × Block isWordChar)

def Words.text : Words → List Char
  | [] => []
  | (gap, word) :: words => gap.chars ++ (word.chars ++ Words.text words)

/-- `word ((space | tab)+ word)*` -/
@[ext] structure Base where
  first : Block isWordChar
  more : Words

def Base.text (b : Base) : List Char := b.first.chars ++ b.more.text

/-- The number that a block of digits stands for. -/
def Block.value {kind : Char → Bool} (digit : Char → ℕ) (b : Block kind) : ℕ :=
  Nat.ofDigits 10 (b.chars.reverse.map digit)

/-- The exponent with a numerator and a denominator, unless that is 0. -/
def exponent? (negative : Bool) (numerator denominator : ℕ) : Option Exponent :=
  if h : denominator = 0 then none
  else some ⟨if negative then -numerator else numerator, denominator, h⟩

/-- The place of a raised digit in the order of digits. -/
def raisedDigit (c : Char) : ℕ := ['⁰', '¹', '²', '³', '⁴', '⁵', '⁶', '⁷', '⁸', '⁹'].idxOf c

/-- `['⁺' | '⁻'] superdigits ['⁄' superdigits]`; the sign says whether it is negative. -/
@[ext] structure Raised where
  sign : Option Bool
  numerator : Block isSuperscriptDigit
  denominator : Option (Block isSuperscriptDigit)

namespace Raised

def signText : Option Bool → List Char
  | none => []
  | some false => ['⁺']
  | some true => ['⁻']

def denominatorText : Option (Block isSuperscriptDigit) → List Char
  | none => []
  | some digits => '⁄' :: digits.chars

def text (n : Raised) : List Char :=
  signText n.sign ++ (n.numerator.chars ++ denominatorText n.denominator)

def exponent? (n : Raised) : Option Exponent :=
  Grammar.exponent? (n.sign.getD false) (n.numerator.value raisedDigit)
    ((n.denominator.map fun digits => digits.value raisedDigit).getD 1)

end Raised

/-- The place of a plain digit in the order of digits. -/
def plainDigit (c : Char) : ℕ := c.toNat - '0'.toNat

/-- `[('+' | '-') W*] digits [W* '/' W* digits]` -/
@[ext] structure Plain where
  sign : Option (Bool × Blanks)
  numerator : Block Char.isDigit
  denominator : Option (Blanks × Blanks × Block Char.isDigit)

namespace Plain

def signText : Option (Bool × Blanks) → List Char
  | none => []
  | some (negative, blanks) => (if negative then '-' else '+') :: blanks.chars

def denominatorText : Option (Blanks × Blanks × Block Char.isDigit) → List Char
  | none => []
  | some (before, after, digits) => before.chars ++ '/' :: (after.chars ++ digits.chars)

def text (n : Plain) : List Char :=
  signText n.sign ++ (n.numerator.chars ++ denominatorText n.denominator)

def exponent? (n : Plain) : Option Exponent :=
  Grammar.exponent? ((n.sign.map Prod.fst).getD false) (n.numerator.value plainDigit)
    ((n.denominator.map fun d => d.2.2.value plainDigit).getD 1)

end Plain

/-- What stands behind a base: nothing, `W* sup`, or `W* '^' W*` and a number. -/
inductive Power where
  | absent
  | raised (gap : Blanks) (number : Raised)
  | caret (before after : Blanks) (number : Plain)

namespace Power

def text : Power → List Char
  | absent => []
  | raised gap number => gap.chars ++ number.text
  | caret before after number => before.chars ++ '^' :: (after.chars ++ number.text)

/-- The exponent that is written; 1 if none is. -/
def exponent? : Power → Option Exponent
  | absent => some .one
  | raised _ number => number.exponent?
  | caret _ _ number => number.exponent?

end Power

/-- A base with what stands behind it. -/
@[ext] structure Factor where
  base : Base
  power : Power

namespace Factor

def text (f : Factor) : List Char := f.base.text ++ f.power.text

def term? (f : Factor) : Option Term :=
  f.power.exponent?.map fun exponent => ⟨String.ofList f.base.text, exponent⟩

end Factor

/-- `(W* '.' W* term)*` -/
abbrev Factors := List (Blanks × Blanks × Factor)

namespace Factors

def text : Factors → List Char
  | [] => []
  | (before, after, factor) :: more =>
    before.chars ++ '.' :: (after.chars ++ (factor.text ++ text more))

def terms? : Factors → Option (List Term)
  | [] => some []
  | (_, _, factor) :: more => do
    let term ← factor.term?
    let terms ← terms? more
    return term :: terms

end Factors

/-- `W* term (W* '.' W* term)* W*` -/
@[ext] structure Derivation where
  lead : Blanks
  first : Factor
  more : Factors
  trail : Blanks

namespace Derivation

/-- The text that is derived. -/
def text (d : Derivation) : List Char :=
  d.lead.chars ++ (d.first.text ++ (d.more.text ++ d.trail.chars))

/-- The terms in their order; none if a denominator is 0. -/
def terms? (d : Derivation) : Option (List Term) := do
  let term ← d.first.term?
  let terms ← d.more.terms?
  return term :: terms

end Derivation

end Grammar

end Metrology
