import Metrology.Numeral.Power

/-!
Decimal numerals and how they are laid out.

A numeral is positional while its leading digit stands between the sixth place after the point and
the twenty-first before it, and scientific beyond. The digits themselves are the business of the
modules that choose them.
-/

namespace Metrology

/-- The decimal `digits · 10 ^ exponent`. -/
structure Decimal where
  digits : Nat
  exponent : Int

def digitCount (n : Nat) : Nat := (Nat.toDigits 10 n).length

/-- A number without the zeros at its end, and how many there were. -/
def dropTrailingZeros (n : Nat) : Nat × Nat :=
  if _h : n ≠ 0 ∧ n % 10 = 0 then
    let (m, zeros) := dropTrailingZeros (n / 10)
    (m, zeros + 1)
  else (n, 0)
termination_by n
decreasing_by omega

namespace Decimal

/-- The same value with a last digit that is not 0. -/
def normalize (d : Decimal) : Decimal :=
  let (digits, zeros) := dropTrailingZeros d.digits
  ⟨digits, if digits = 0 then 0 else d.exponent + zeros⟩

/-- The power of ten at which the first digit stands. -/
def lead (d : Decimal) : Int := d.exponent + digitCount d.digits - 1

/-- One digit before the point, the others after it, and the power of ten with its sign. -/
def scientific (digits : List Char) (lead : Int) : List Char :=
  let fraction := digits.drop 1
  let mantissa := if fraction = [] then digits else digits.take 1 ++ '.' :: fraction
  mantissa ++ 'e' :: (if lead < 0 then '-' else '+') :: Nat.toDigits 10 lead.natAbs

def positional (d : Decimal) : List Char :=
  if 0 ≤ d.exponent then Nat.toDigits 10 (d.digits * tenTo d.exponent.toNat)
  else
    let places := (-d.exponent).toNat
    let digits := Nat.toDigits 10 d.digits
    let padded := List.replicate (places + 1 - digits.length) '0' ++ digits
    padded.take (padded.length - places) ++ '.' :: padded.drop (padded.length - places)

/-- The numeral of a decimal, with as few digits as its value needs. -/
def chars (d : Decimal) : List Char :=
  let d := d.normalize
  if -7 < d.lead ∧ d.lead < 21 then d.positional
  else scientific (Nat.toDigits 10 d.digits) d.lead

end Decimal

def signed (negative : Bool) (numeral : List Char) : List Char :=
  if negative then '-' :: numeral else numeral

end Metrology
