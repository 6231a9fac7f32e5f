import Metrology.ExponentVector

/-!
Square systems of linear equations, solved by elimination with partial pivoting.

Each step brings the equation with the largest leading coefficient to the front and subtracts
multiples of it from the others; the leading unknown then occurs in no later equation and its
column is dropped. The system counts as singular once no leading coefficient reaches the pivot
tolerance.
-/

namespace Metrology

variable {α : Type} [Scalar α]

/-- A linear equation: the coefficients of the unknowns that are left, and the value. -/
structure Equation (α : Type) where
  coefficients : List α
  value : α

namespace Equation

@[specialize] def leading (e : Equation α) : α := e.coefficients.headD 0

def tail (e : Equation α) : Equation α := ⟨e.coefficients.tail, e.value⟩

@[specialize] def minus (e : Equation α) (ratio : α) (other : Equation α) : Equation α :=
  ⟨List.zipWith (fun x y => x - ratio * y) e.coefficients other.coefficients,
    e.value - ratio * other.value⟩

end Equation

/-- No smaller leading coefficient is divided by. -/
def pivotTolerance : α := 1e-10

/-- The equations of a system whose columns are given. Missing coefficients are 0. -/
@[specialize] def equationsOf (columns : List (List α)) : List α → List (Equation α)
  | [] => []
  | value :: values =>
    ⟨columns.map fun column => column.headD 0, value⟩
      :: equationsOf (columns.map List.tail) values

/-- The position, counted from `index`, of the first equation whose leading coefficient is larger
in absolute value than that of all others and of the best one so far. -/
@[specialize] def pivotFrom (index best : Nat) (largest : α) : List (Equation α) → Nat
  | [] => best
  | e :: equations =>
    let size := Scalar.abs e.leading
    if largest < size then pivotFrom (index + 1) index size equations
    else pivotFrom (index + 1) best largest equations

/-- A system with the equation of the largest leading coefficient in front, which has changed
places with the first one. -/
@[specialize] def pivoted (first : Equation α) (equations : List (Equation α)) :
    Equation α × List (Equation α) :=
  match pivotFrom 1 0 (Scalar.abs first.leading) equations with
  | 0 => (first, equations)
  | best + 1 => (equations.getD best first, equations.set best first)

@[specialize] def eliminated (pivot e : Equation α) : Equation α :=
  let ratio := e.leading / pivot.leading
  if ratio == 0 then e.tail else e.tail.minus ratio pivot.tail

/-- The system in triangular form: each equation has one unknown less than the one before. None if
the system is singular. -/
@[specialize] def triangular : Nat → List (Equation α) → Option (List (Equation α))
  | 0, _ => some []
  | _ + 1, [] => some []
  | size + 1, e :: equations =>
    let (pivot, others) := pivoted e equations
    if Scalar.abs pivot.leading < pivotTolerance then none
    else
      match triangular size (others.map (eliminated pivot)) with
      | none => none
      | some rest => some (pivot :: rest)

/-- The value that an equation leaves for its first unknown, the others being known. -/
@[specialize] def remainingValue (value : α) : List α → List α → α
  | x :: xs, y :: ys => remainingValue (value - x * y) xs ys
  | _, _ => value

/-- The solution of a triangular system, the last unknown first found. -/
@[specialize] def backSubstituted : List (Equation α) → List α
  | [] => []
  | e :: equations =>
    let known := backSubstituted equations
    remainingValue e.value e.coefficients.tail known / e.leading :: known

/-- The factors with which the columns sum up to the target; none if the system is not square or
is singular. -/
@[specialize] def solveColumns (columns : List (List α)) (target : List α) : Option (List α) :=
  if columns.length ≠ target.length then none
  else (triangular target.length (equationsOf columns target)).map backSubstituted

end Metrology
