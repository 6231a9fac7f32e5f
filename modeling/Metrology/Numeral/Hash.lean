import Metrology.Scalar

/-!
Hashes of numbers: words of 32 bits by which lists are told apart before they are compared.

A whole number of 32 bits is its own hash. Of any other number the whole parts of a multiple of it,
and of its quotients by powers of `2 ^ 32 - 1`, are put together.
-/

namespace Metrology

variable {α : Type} [Scalar α]

/-- The last 32 bits of the whole part of a number; none are set if it is not finite. -/
def lowWord (x : α) : UInt32 :=
  let magnitude := UInt32.ofNat (Scalar.toNatFloor (Scalar.abs x))
  if x < 0 then -magnitude else magnitude

def isWord (x : α) : Bool :=
  Scalar.isIntegral x && decide (-2147483648.0 ≤ x) && decide (x ≤ 2147483647.0)

def maxWord : α := 4294967295.0

/-- A word together with the whole parts of what is left when a number is divided until it fits into
32 bits, for at most as many divisions as are counted. -/
def hashQuotients : Nat → α → UInt32 → UInt32
  | 0, _, word => word
  | count + 1, x, word =>
    if maxWord < x then hashQuotients count (x / maxWord) (word ^^^ lowWord (x / maxWord)) else word

/-- The word with its sign in place of the bit behind it. -/
def signMoved (word : UInt32) : UInt32 :=
  (word &&& (0xbfffffff : UInt32)) ||| ((word >>> 1) &&& (0x40000000 : UInt32))

def numberHash (x : α) : UInt32 :=
  if isWord x then signMoved (lowWord x)
  else
    -- every division takes away at least 31 bits
    let count := (Scalar.toNatFloor x).log2 / 31 + 1
    signMoved (hashQuotients count x (lowWord x ^^^ lowWord (x * maxWord)))

def listHash (xs : List α) : UInt32 :=
  signMoved (xs.foldl (fun word x => word * 53 ^^^ numberHash x) 6151)

end Metrology
