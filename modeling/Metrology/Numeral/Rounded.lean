import Metrology.Numeral.Shortest

/-!
Numerals with a fixed number of significant digits.
-/

namespace Metrology

/-- A quotient rounded to the nearest natural number, a half upwards. -/
def roundQuotient (numerator denominator : Nat) : Nat :=
  (2 * numerator + denominator) / (2 * denominator)

/-- The scientific numeral of a number with so many digits after the point. A tie goes away from
zero, and zero has no sign. -/
def exponential (places : Nat) (q : Rat) : List Char :=
  if q.num = 0 then
    Decimal.scientific (List.replicate (places + 1) '0') 0
  else
    let lead := leadingPower q.num.natAbs q.den
    let (numerator, denominator) := inUnitsOf (lead - places) q.num.natAbs q.den
    let digits := roundQuotient numerator denominator
    let (digits, lead) :=
      if digits = tenTo (places + 1) then (tenTo places, lead + 1) else (digits, lead)
    signed (decide (q.num < 0)) (Decimal.scientific (Nat.toDigits 10 digits) lead)

end Metrology
