import Metrology.Scalar
import Metrology.Numeral.Decimal

/-!
The rational numbers as scalars: every computation is exact, and nothing is infinite.
-/

namespace Metrology

/-- The text of a rational number: a decimal numeral for a whole number, a quotient otherwise. -/
def rationalText (q : Rat) : String :=
  String.ofList <| signed (decide (q.num < 0)) <|
    if q.den = 1 then (Decimal.mk q.num.natAbs 0).chars
    else Nat.toDigits 10 q.num.natAbs ++ '/' :: Nat.toDigits 10 q.den

/-- Powers with whole exponents are exact; no other power is rational in general, and none is
computed. Nor is there a negative power of 0, which is infinite over the doubles: the number that
stands for it here is not to be relied on. -/
def rationalPower (base exponent : Rat) : Rat :=
  if exponent.den = 1 then Rat.zpow base exponent.num else Rat.ofInt 0

instance : Scalar Rat where
  zero := Rat.ofInt 0
  one := Rat.ofInt 1
  add := Rat.add
  sub := Rat.sub
  mul := Rat.mul
  div := Rat.div
  neg := Rat.neg
  ofScientific := Rat.ofScientific
  lt := Rat.instLT.lt
  le := Rat.instLE.le
  beq x y := decide (x = y)
  decLt := Rat.instDecidableLt
  decLe := Rat.instDecidableLe
  ofInt := Rat.ofInt
  floor q := Rat.ofInt q.floor
  power := rationalPower
  isFinite _ := true
  toRat? := some
  text := rationalText

end Metrology
