import Metrology.Scalar
import Metrology.Text.Blank

/-!
Numbers as they are written in texts, such as those of a configuration.

A literal is a decimal with an optional sign, point and power of ten, a natural number in base 16, 8
or 2 with the prefix that says so, or the word for infinity. Blanks around it do not count, and
blanks alone stand for 0.
-/

namespace Metrology

def digitValue? (c : Char) : Option Nat :=
  if c.isDigit then some (c.toNat - '0'.toNat)
  else if 'a' ≤ c ∧ c ≤ 'f' then some (c.toNat - 'a'.toNat + 10)
  else if 'A' ≤ c ∧ c ≤ 'F' then some (c.toNat - 'A'.toNat + 10)
  else none

def digitIn? (base : Nat) (c : Char) : Option Nat := (digitValue? c).filter (· < base)

/-- Digits of a given base, of which there has to be one. -/
def natural? (base : Nat) (digits : List Char) : Option Nat :=
  if digits = [] then none
  else digits.foldl (fun value? c => do return base * (← value?) + (← digitIn? base c)) (some 0)

/-- Decimal digits, of which there may be none. -/
def digits? (digits : List Char) : Option Nat :=
  if digits = [] then some 0 else natural? 10 digits

/-- The base that a prefix after a leading 0 names. -/
def literalBase? (c : Char) : Option Nat :=
  if c = 'x' ∨ c = 'X' then some 16
  else if c = 'o' ∨ c = 'O' then some 8
  else if c = 'b' ∨ c = 'B' then some 2
  else none

def splitSign : List Char → Bool × List Char
  | '-' :: cs => (true, cs)
  | '+' :: cs => (false, cs)
  | cs => (false, cs)

/-- The power of ten behind a decimal, if one is written; 0 if not. -/
def powerOfTen? : List Char → Option Int
  | [] => some 0
  | c :: cs =>
    if c = 'e' ∨ c = 'E' then
      let (negative, digits) := splitSign cs
      (natural? 10 digits).map fun n => if negative then -(n : Int) else n
    else none

/-- Powers of ten beyond this range, counted from the first digit, are all alike: too large or too
small for a double. -/
def powerLimit : Nat := 1000

variable {α : Type} [Scalar α]

def timesPowerOfTen (digits : Nat) (power : Int) : α :=
  if power < 0 then
    OfScientific.ofScientific digits true
      (min power.natAbs ((Nat.toDigits 10 digits).length + powerLimit))
  else OfScientific.ofScientific digits false (min power.natAbs powerLimit)

/-- A decimal without a sign: digits before or after a point, and a power of ten. -/
def decimalLiteral? (cs : List Char) : Option α := do
  let isMark (c : Char) : Bool := c == 'e' || c == 'E'
  let mantissa := cs.takeWhile fun c => !isMark c
  let power ← powerOfTen? (cs.dropWhile fun c => !isMark c)
  let whole := mantissa.takeWhile fun c => c != '.'
  let fraction := (mantissa.dropWhile fun c => c != '.').drop 1
  if whole = [] ∧ fraction = [] then none
  else
    let digits ← digits? (whole ++ fraction)
    return timesPowerOfTen digits (power - fraction.length)

def signedLiteral? (cs : List Char) : Option α :=
  let (negative, digits) := splitSign cs
  let magnitude? : Option α :=
    if digits = "Infinity".toList then some (1 / 0) else decimalLiteral? digits
  magnitude?.map fun x => if negative then -x else x

def literal? (text : String) : Option α :=
  match trimBlanks text.toList with
  | [] => some 0
  | '0' :: c :: cs =>
    match literalBase? c with
    | some base => (natural? base cs).map Scalar.ofNat
    | none => signedLiteral? ('0' :: c :: cs)
  | cs => signedLiteral? cs

def wholeLiteral? (text : String) : Option α := (literal? text).filter Scalar.isIntegral

end Metrology
