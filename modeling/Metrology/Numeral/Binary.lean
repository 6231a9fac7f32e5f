import Metrology.Numeral.Power

/-!
Doubles as the binary fractions they stand for.
-/

namespace Metrology

/-- The binary fraction `± significand · 2 ^ exponent`. -/
structure Binary where
  negative : Bool
  significand : Nat
  exponent : Int

namespace Binary

/-- The value of a finite double, read off its sign, exponent and fraction fields; none for an
infinity and for what is undefined. -/
def ofFloat? (x : Float) : Option Binary :=
  let bits := x.toBits.toNat
  let scale : Nat := bits / twoTo 52 % twoTo 11
  let fraction : Nat := bits % twoTo 52
  let negative := decide (twoTo 63 ≤ bits)
  if scale = twoTo 11 - 1 then none
  else if scale = 0 then some ⟨negative, fraction, -1074⟩
  else some ⟨negative, twoTo 52 + fraction, (scale : Int) - 1075⟩

/-- The absolute value as a quotient of natural numbers. -/
def quotient (b : Binary) : Nat × Nat :=
  if 0 ≤ b.exponent then (b.significand * twoTo b.exponent.toNat, 1)
  else (b.significand, twoTo (-b.exponent).toNat)

def toRat (b : Binary) : Rat :=
  let (numerator, denominator) := b.quotient
  mkRat (if b.negative then -(numerator : Int) else numerator) denominator

/-- Whether the next double towards zero is only half as far away as the one beyond: so it is at a
power of two, except where the spacing no longer shrinks. -/
def stepsDown (b : Binary) : Bool := b.significand == twoTo 52 && decide (-1074 < b.exponent)

end Binary

end Metrology
