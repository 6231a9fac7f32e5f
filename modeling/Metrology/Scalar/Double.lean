import Metrology.Scalar
import Metrology.Numeral.Shortest

/-!
The doubles as scalars: every operation is rounded to the nearest double.
-/

namespace Metrology

/-- The power of two doubles. It is undefined where the exponent is, and for an infinite exponent
over a base of absolute value 1. -/
def doublePower (base exponent : Float) : Float :=
  if exponent.isNaN || exponent.isInf && base.abs == 1 then 0 / 0
  else Float.pow base exponent

/-- The greatest integral double that is not above the given one. Between two doubles of `2 ^ 52`
and more there is no fraction, so below that the sum with `2 ^ 52` is rounded to an integral
number. -/
def doubleFloor (x : Float) : Float :=
  let shift : Float := 4503599627370496
  if x.abs < shift then
    let nearest := if x < 0 then x - shift + shift else x + shift - shift
    -- zero keeps its sign
    if nearest == x then x else if x < nearest then nearest - 1 else nearest
  else x

instance : Scalar Float where
  zero := 0
  one := 1
  add := Float.add
  sub := Float.sub
  mul := Float.mul
  div := Float.div
  neg := Float.neg
  ofScientific := Float.ofScientific
  lt := instLTFloat.lt
  le := instLEFloat.le
  beq := Float.beq
  decLt := Float.decLt
  decLe := Float.decLe
  ofInt n :=
    let magnitude := Float.ofScientific n.natAbs false 0
    if n < 0 then Float.neg magnitude else magnitude
  floor := doubleFloor
  power := doublePower
  isFinite := Float.isFinite
  toRat? x := (Binary.ofFloat? x).map Binary.toRat
  text := doubleText

end Metrology
