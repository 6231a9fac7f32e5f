/-!
Blank characters, and texts without blanks at their ends.
-/

namespace Metrology

/-- Whether a character is white space: the controls from tab to carriage return, the space
separators of Unicode, the line and paragraph separators, and the byte order mark. -/
def isBlank (c : Char) : Bool :=
  let code := c.toNat
  decide (0x9 ≤ code ∧ code ≤ 0xD) || code == 0x20 || code == 0xA0 || code == 0x1680
    || decide (0x2000 ≤ code ∧ code ≤ 0x200A) || code == 0x2028 || code == 0x2029
    || code == 0x202F || code == 0x205F || code == 0x3000 || code == 0xFEFF

def trimBlanks (s : List Char) : List Char :=
  ((s.dropWhile isBlank).reverse.dropWhile isBlank).reverse

/-- Whether a text is not empty and neither begins nor ends with a blank. -/
def isTrimmed (s : String) : Bool :=
  s.toList.head?.any (fun c => !isBlank c) && s.toList.getLast?.any (fun c => !isBlank c)

end Metrology
