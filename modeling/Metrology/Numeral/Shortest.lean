import Metrology.Numeral.Decimal
import Metrology.Numeral.Binary

/-!
The shortest decimal that reads back as a given double.

Every real number of an interval around a double is rounded to that double. For one digit, two
digits and so on, the two neighbours of the double with so many digits are tried against the
interval; the first count with a hit wins, and of two hits the nearer one, an even digit on a tie.
Seventeen digits always suffice.
-/

namespace Metrology

def leadingPower (numerator denominator : Nat) : Int :=
  if denominator ≤ numerator then digitCount (numerator / denominator) - 1
  else (digitCount (numerator * tenTo 330 / denominator) : Int) - 331

/-- A quotient in units of a power of ten, as a quotient again. -/
def inUnitsOf (power : Int) (numerator denominator : Nat) : Nat × Nat :=
  if 0 ≤ power then (numerator, denominator * tenTo power.toNat)
  else (numerator * tenTo (-power).toNat, denominator)

namespace Binary

/-- The decimal with so many digits that is nearest to a positive double, if it reads back. The
interval of what reads back is measured in quarters of the distance between two doubles. -/
def withDigits? (b : Binary) (lead : Int) (count : Nat) : Option Decimal :=
  let power := lead - count + 1
  let (numerator, denominator) := b.quotient
  let (unit, denominator) := inUnitsOf power (numerator / b.significand) (4 * denominator)
  let value := 4 * b.significand * unit
  let low := value - (if b.stepsDown then unit else 2 * unit)
  let high := value + 2 * unit
  let readsBack (n : Nat) : Bool :=
    let point := n * denominator
    if b.significand % 2 = 0 then decide (low ≤ point ∧ point ≤ high)
    else decide (low < point ∧ point < high)
  let below := value / denominator
  let above := below + 1
  let toBelow := value - below * denominator
  let toAbove := above * denominator - value
  let belowFirst := decide (toBelow < toAbove ∨ toBelow = toAbove ∧ below % 2 = 0)
  let (first, second) := if belowFirst then (below, above) else (above, below)
  if readsBack first then some ⟨first, power⟩
  else if readsBack second then some ⟨second, power⟩
  else none

/-- The fewest digits, from a count upwards, that read back. -/
def searchDigits (b : Binary) (lead : Int) (count : Nat) : Nat → Decimal
  | 0 => ⟨b.significand, 0⟩
  | more + 1 => (b.withDigits? lead count).getD (searchDigits b lead (count + 1) more)

def shortest (b : Binary) : Decimal :=
  if b.significand = 0 then ⟨0, 0⟩
  else
    let (numerator, denominator) := b.quotient
    b.searchDigits (leadingPower numerator denominator) 1 17

end Binary

/-- The text of a double: the shortest numeral that reads back, without a sign on zero. -/
def doubleText (x : Float) : String :=
  match Binary.ofFloat? x with
  | some b => String.ofList (signed (b.negative && b.significand != 0) b.shortest.chars)
  | none => if x.isNaN then "NaN" else if x < 0 then "-Infinity" else "Infinity"

end Metrology
