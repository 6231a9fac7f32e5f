import Metrology.Scalar

/-!
Fractions close to a number.

The continued fraction of a number is followed through its convergents, and the last one whose
denominator stays within a bound is the answer. The walk ends early at a convergent that meets the
number up to `1e-12`.
-/

namespace Metrology

variable {α : Type} [Scalar α]

/-- Two neighbouring convergents of a continued fraction and what remains to be expanded. -/
structure Convergents (α : Type) where
  previousNumerator : α
  previousDenominator : α
  numerator : α
  denominator : α
  remainder : α

namespace Convergents

/-- Before the first step: zero and infinity as quotients. -/
def start (target : α) : Convergents α := ⟨0, 1, 1, 0, target⟩

/-- The whole part of the remainder, the next term of the continued fraction. -/
def whole (c : Convergents α) : α := Scalar.floor c.remainder

def nextDenominator (c : Convergents α) : α := c.previousDenominator + c.whole * c.denominator

def nextNumerator (c : Convergents α) : α := c.previousNumerator + c.whole * c.numerator

def next (c : Convergents α) : Convergents α where
  previousNumerator := c.numerator
  previousDenominator := c.denominator
  numerator := c.nextNumerator
  denominator := c.nextDenominator
  remainder := 1 / (c.remainder - c.whole)

/-- Whether the step after which `next` stands has met the target. -/
def meets (c next : Convergents α) (target : α) : Bool :=
  decide (c.remainder - c.whole < 1e-12)
    || decide (Scalar.abs (next.numerator / next.denominator - target) < 1e-12)

/-- The convergents of a target up to a bound on the denominator, and up to a number of steps. -/
def walk (maxDenominator target : α) : Nat → Convergents α → Convergents α
  | 0, c => c
  | steps + 1, c =>
    if maxDenominator < c.nextDenominator then c
    else if c.meets c.next target then c.next
    else walk maxDenominator target steps c.next

end Convergents

/-- More steps than any walk takes: from one step to the next but one a denominator at least
doubles, and no finite double exceeds `2 ^ 1024`. -/
def convergentSteps : Nat := 2100

/-- A fraction close to a number, with a denominator within a bound: numerator, then
denominator. -/
def closeFraction (value maxDenominator : α) : α × α :=
  let target := Scalar.abs value
  let c := (Convergents.start target).walk maxDenominator target convergentSteps
  (if value < 0 then -1 * c.numerator else 1 * c.numerator, c.denominator)

end Metrology
