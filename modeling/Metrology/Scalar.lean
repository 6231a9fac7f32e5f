/-!
The numbers that exponents, conversion factors and values are made of.

Every computation of the library is written once, over `Scalar`, and is used at two types: at the
doubles, where it runs, and at the rationals, where the same steps are exact and can be reasoned
about. What is said here of "a number" holds at both.
-/

namespace Metrology

/-- The operations the algebra needs of a number. A type with values that are no numbers (an
infinity, an undefined result) tells them apart by `isFinite`. -/
class Scalar (α : Type) extends
    Zero α, One α, Add α, Sub α, Mul α, Div α, Neg α, OfScientific α, LT α, LE α, BEq α where
  decLt : (x y : α) → Decidable (x < y)
  decLe : (x y : α) → Decidable (x ≤ y)
  /-- The number nearest to an integer. -/
  ofInt : Int → α
  floor : α → α
  power : α → α → α
  /-- Whether the value is a number, neither infinite nor undefined. -/
  isFinite : α → Bool
  /-- The exact value of a number; none for what is not finite. -/
  toRat? : α → Option Rat
  /-- How the number is written in messages and rendered exponents. -/
  text : α → String

namespace Scalar

variable {α : Type} [Scalar α]

instance (x y : α) : Decidable (x < y) := decLt x y
instance (x y : α) : Decidable (x ≤ y) := decLe x y

def ofNat (n : Nat) : α := ofInt n

@[inline] def abs (x : α) : α := if x < 0 then -x else x

/-- The nearest integral number; a half goes up. -/
@[specialize] def round (x : α) : α :=
  let below := floor x
  if 0.5 ≤ x - below then below + 1 else below

/-- The number, with 0 for a zero that bears a sign. -/
def normalized (x : α) : α := if x == 0 then 0 else x

def isIntegral (x : α) : Bool := isFinite x && floor x == x

def toInt? (x : α) : Option Int :=
  match toRat? x with
  | some q => if q.den = 1 then some q.num else none
  | none => none

/-- The greatest natural number not above a finite number; 0 if there is none. -/
def toNatFloor (x : α) : Nat :=
  match toRat? x with
  | some q => q.floor.toNat
  | none => 0

/-- The smaller of two numbers; undefined if one of them is. -/
def min (x y : α) : α := if x ≤ y then x else if y ≤ x then y else x + y

/-- Two exponents no further apart than this count as equal, and an exponent no further from zero
as absent. -/
def tolerance : α := 1e-9

end Scalar

end Metrology
