/-!
Texts between quotes, with everything escaped that could be mistaken.
-/

namespace Metrology

def hexDigit (n : Nat) : Char := (Nat.toDigits 16 (n % 16)).getD 0 '0'

/-- The escape of a control character that has no short one. -/
def escapedControl (code : Nat) : List Char :=
  ['\\', 'u', '0', '0', hexDigit (code / 16), hexDigit code]

def quotedChar (c : Char) : List Char :=
  if c = '"' then ['\\', '"']
  else if c = '\\' then ['\\', '\\']
  else if c.toNat = 0x8 then ['\\', 'b']
  else if c.toNat = 0x9 then ['\\', 't']
  else if c.toNat = 0xA then ['\\', 'n']
  else if c.toNat = 0xC then ['\\', 'f']
  else if c.toNat = 0xD then ['\\', 'r']
  else if c.toNat < 0x20 then escapedControl c.toNat
  else [c]

def quotedText (s : String) : String :=
  String.ofList ('"' :: (s.toList.flatMap quotedChar ++ ['"']))

end Metrology
