/-!
Powers of the two bases in which numbers are written.
-/

namespace Metrology

def tenTo (n : Nat) : Nat := Nat.pow 10 n

def twoTo (n : Nat) : Nat := Nat.pow 2 n

end Metrology
