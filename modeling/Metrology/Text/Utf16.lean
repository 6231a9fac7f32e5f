/-!
Texts as sequences of UTF-16 code units.

Offsets in messages count these units, and a message may quote a single unit of a character that
takes two.
-/

namespace Metrology

abbrev Utf16 := List UInt16

namespace Utf16

def ofChar (c : Char) : Utf16 :=
  let code := c.toNat
  if code < 0x10000 then [UInt16.ofNat code]
  else
    let offset := code - 0x10000
    [UInt16.ofNat (0xD800 + offset / 0x400), UInt16.ofNat (0xDC00 + offset % 0x400)]

def width (c : Char) : Nat := if c.toNat < 0x10000 then 1 else 2

/-- How many units the first characters of a text take. -/
def widthOfFirst : Nat → List Char → Nat
  | 0, _ => 0
  | _ + 1, [] => 0
  | n + 1, c :: cs => width c + widthOfFirst n cs

def first (c : Char) : UInt16 :=
  let code := c.toNat
  if code < 0x10000 then UInt16.ofNat code else UInt16.ofNat (0xD800 + (code - 0x10000) / 0x400)

def ofString (s : String) : Utf16 := s.toList.flatMap ofChar

/-- Whether one text comes before another one, or is the same, in the order of their units. -/
def atMost : Utf16 → Utf16 → Bool
  | [], _ => true
  | _ :: _, [] => false
  | u :: us, v :: vs => u < v || u == v && atMost us vs

end Utf16

end Metrology
