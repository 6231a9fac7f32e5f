import Metrology.Dimension
import Metrology.Numeral.Power

/-!
A dimension composed of few factors.

What is left to compose is divided or multiplied by whichever dimension of the registry leaves the
smallest sum of absolute exponents, for as long as that makes the sum smaller. What then still is
left, as happens with fractional exponents, is composed of primary dimensions.
-/

namespace Metrology

namespace Dimension

variable {α : Type} [Scalar α] {r : Registry α}

/-- A factor of a composition: a dimension of the registry or its inverse, and what is left to
compose once it has been taken. -/
structure Candidate (α : Type) where
  index : Nat
  direction : α
  residual : ExponentVector α
  norm : α

@[specialize] def candidates (basis : List (ExponentVector α)) (residual : ExponentVector α) :
    List (Candidate α) :=
  let candidate (direction : α) (index : Nat) (left : ExponentVector α) : Candidate α :=
    ⟨index, direction, left, ExponentVector.l1Norm left⟩
  (basis.zipIdx.map fun (v, index) => candidate 1 index (ExponentVector.subtract residual v))
    ++ (basis.zipIdx.map fun (v, index) =>
        candidate (-1) index (ExponentVector.add residual v))

/-- The first of the factors that leave the least. -/
@[specialize] def best? (candidates : List (Candidate α)) : Option (Candidate α) :=
  candidates.foldl
    (fun best c =>
      match best with
      | none => if Scalar.isFinite c.norm then some c else none
      | some b => if c.norm < b.norm then some c else best)
    none

@[specialize] def addAt (v : ExponentVector α) (index : Nat) (x : α) : ExponentVector α :=
  v.modify index fun y => y + x

/-- A vector with another one added to its first entries. -/
def addFront : ExponentVector α → ExponentVector α → ExponentVector α
  | x :: v, y :: w => (x + y) :: addFront v w
  | v, _ => v

theorem length_addFront (v w : ExponentVector α) : (addFront v w).length = v.length := by
  induction v generalizing w with
  | nil => cases w <;> simp [addFront]
  | cons x v ih => cases w <;> simp [addFront, ih]

/-- Takes factors, a bounded number of them, and puts the rest onto the primary dimensions. -/
@[specialize] def reduce (basis : List (ExponentVector α)) :
    Nat → (result residual : ExponentVector α) → α → ExponentVector α
  | 0, result, _, _ => result
  | steps + 1, result, residual, norm =>
    if Scalar.tolerance < norm then
      match best? (candidates basis residual) with
      | none => addFront result residual
      | some c =>
        if norm - Scalar.tolerance ≤ c.norm then addFront result residual
        else reduce basis steps (addAt result c.index c.direction) c.residual c.norm
    else result

theorem length_reduce (basis : List (ExponentVector α)) (steps : Nat)
    (result residual : ExponentVector α) (norm : α) :
    (reduce basis steps result residual norm).length = result.length := by
  induction steps generalizing result residual norm with
  | zero => rfl
  | succ steps ih =>
    unfold reduce
    split
    · split
      · exact length_addFront _ _
      · split
        · exact length_addFront _ _
        · rw [ih]; simp [addAt]
    · rfl

/-- How many ones a sum has room for at most. No double is `2 ^ 1024` or more. -/
def sumBound (norm : α) : Nat :=
  if Scalar.isFinite norm then Scalar.toNatFloor norm + 1 else twoTo 1024

/-- How many factors can be taken: each takes more than the tolerance, a billionth, off the sum, and
before that one may lead from an infinite sum to a finite one. -/
def reductionSteps (norm : α) : Nat := tenTo 9 * sumBound norm + 2

@[specialize] def shortest (d : Dimension r) : Dimension r :=
  let norm := ExponentVector.l1Norm d.primary
  ⟨reduce r.basis (reductionSteps norm) (ExponentVector.zeros r.dimensionCount) d.primary norm,
    by rw [length_reduce]; exact ExponentVector.length_zeros _⟩

@[specialize] def description (d : Dimension r) : Except Error String := do
  let shortest := d.shortest
  let primary ← d.toPrimary
  let line (title : String) (e : Dimension r) : Except Error String := do
    let symbol ← e.symbol
    let unit ← e.siUnit
    return title ++ symbol ++ " = " ++ e.name ++ " [" ++ unit ++ "]"
  let lines ← [("As is:    ", d), ("Shortest: ", shortest), ("Primary:  ", primary)].mapM
    fun (title, e) => line title e
  return "\n".intercalate lines

end Dimension

end Metrology
