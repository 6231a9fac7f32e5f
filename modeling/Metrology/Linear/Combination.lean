import Metrology.Scalar

/-!
Combinations of the members of a list, in lexicographic order of their positions, and how many
there are; and the step from one choice of positions to the next.
-/

namespace Metrology

/-- At most `budget` of the ways to choose `count` members of a list, in lexicographic order. A list
that is too short offers none. -/
def combinationsUpTo {β : Type} : Nat → List β → Nat → List (List β)
  | 0, _, _ => []
  | _ + 1, _, 0 => [[]]
  | _ + 1, [], _ + 1 => []
  | budget + 1, x :: xs, count + 1 =>
    if xs.length < count then []
    else
      let first := (combinationsUpTo (budget + 1) xs count).map (x :: ·)
      first ++ combinationsUpTo (budget + 1 - first.length) xs (count + 1)
termination_by _ xs _ => xs.length

/-- All ways to choose `count` members of a list, in lexicographic order. -/
def combinations {β : Type} : List β → Nat → List (List β)
  | _, 0 => [[]]
  | [], _ + 1 => []
  | x :: xs, count + 1 =>
    if xs.length < count then []
    else (combinations xs count).map (x :: ·) ++ combinations xs (count + 1)
termination_by xs _ => xs.length

/-- The choice of `count` indices below `n` that comes first, if there are so many. -/
def firstChoice (n count : Nat) : Option (List Nat) :=
  if n < count then none else some (List.range count)

/-- The last place of a choice whose index has room: it is not yet as high as the places after it
allow. -/
def lastWithRoom (n : Nat) (choice : List Nat) : Option Nat :=
  (List.range choice.length).reverse.find? fun place =>
    choice.getD place 0 ≠ n - choice.length + place

/-- The choice of indices below `n` that comes next: the last index with room is raised by 1, and
those behind it follow it one by one. -/
def nextChoice (n : Nat) (choice : List Nat) : Option (List Nat) :=
  (lastWithRoom n choice).map fun place =>
    choice.take place ++ List.range' (choice.getD place 0 + 1) (choice.length - place)

/-- The product of the first factors of a binomial coefficient, each divided by its number. -/
def binomialSteps {α : Type} [Scalar α] (n : α) : Nat → α
  | 0 => 1
  | step + 1 =>
    let number : α := Scalar.ofNat (step + 1)
    binomialSteps n step * (n - number + 1) / number

/-- The number of ways to choose `k` of `n` things, 0 where that makes no sense. The shorter of the
two products is taken, and its last value is rounded. -/
def binomial {α : Type} [Scalar α] (n k : α) : α :=
  if k < 0 ∨ n < k then 0
  else Scalar.round (binomialSteps n (Scalar.toNatFloor (Scalar.min k (n - k))))

end Metrology
