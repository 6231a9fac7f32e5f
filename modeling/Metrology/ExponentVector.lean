import Metrology.Scalar
import Metrology.Error

/-!
Vectors of exponents: one number for each entry of a table.
-/

namespace Metrology

abbrev ExponentVector (α : Type) := List α

namespace ExponentVector

variable {α : Type} [Scalar α]

def zeros (length : Nat) : ExponentVector α := List.replicate length 0

@[specialize] def add (v w : ExponentVector α) : ExponentVector α := List.zipWith (· + ·) v w

@[specialize] def subtract (v w : ExponentVector α) : ExponentVector α := List.zipWith (· - ·) v w

@[specialize] def scale (v : ExponentVector α) (factor : α) : ExponentVector α := v.map (· * factor)

@[specialize] def l1Norm (v : ExponentVector α) : α := v.foldl (fun sum x => sum + Scalar.abs x) 0

def isZero (v : ExponentVector α) (tolerance : α) : Bool :=
  v.all fun x => decide (Scalar.abs x ≤ tolerance)

def isClose (v w : ExponentVector α) (tolerance : α) : Bool :=
  v.length == w.length
    && (List.zipWith (fun x y => decide (Scalar.abs (x - y) ≤ tolerance)) v w).all id

def countNonzero (v : ExponentVector α) : Nat :=
  v.countP fun x => decide (Scalar.tolerance < Scalar.abs x)

/-- The order by the first entry that differs, and by length if none does: negative, zero or
positive. -/
def compare : ExponentVector α → ExponentVector α → Int
  | x :: v, y :: w =>
    let difference := x - y
    if difference == 0 then compare v w else if difference < 0 then -1 else 1
  | v, w => (v.length : Int) - (w.length : Int)

/-- A vector plus a multiple of another, of which missing entries count as 0. -/
@[specialize] def addMultiple (factor : α) : ExponentVector α → ExponentVector α → ExponentVector α
  | [], _ => []
  | x :: v, [] => (x + factor * 0) :: addMultiple factor v []
  | x :: v, y :: w => (x + factor * y) :: addMultiple factor v w

/-- Adds to a vector the sum of the basis vectors, each as often as its exponent says. -/
@[specialize] def combineOnto (sum : ExponentVector α) :
    ExponentVector α → List (ExponentVector α) → ExponentVector α
  | [], _ => sum
  | exponent :: exponents, basis =>
    combineOnto (if exponent == 0 then sum else addMultiple exponent sum (basis.headD []))
      exponents basis.tail

@[specialize] def combine (exponents : ExponentVector α) (basis : List (ExponentVector α))
    (width : Nat) : ExponentVector α :=
  combineOnto (zeros width) exponents basis

def sumAt (index : Nat) (marked : List (Nat × α)) : α :=
  marked.foldl (fun sum (i, x) => if i = index then sum + x else sum) 0

/-- The vector that has at each index the sum of the numbers marked with it. -/
def gather (length : Nat) (marked : List (Nat × α)) : ExponentVector α :=
  (List.range length).map fun index => sumAt index marked

@[simp] theorem length_zeros (n : Nat) : (zeros n : ExponentVector α).length = n := by
  simp [zeros]

@[simp] theorem length_add (v w : ExponentVector α) :
    (add v w).length = min v.length w.length := by
  simp [add]

@[simp] theorem length_subtract (v w : ExponentVector α) :
    (subtract v w).length = min v.length w.length := by
  simp [subtract]

@[simp] theorem length_scale (v : ExponentVector α) (x : α) : (scale v x).length = v.length := by
  simp [scale]

@[simp] theorem length_gather (n : Nat) (marked : List (Nat × α)) :
    (gather n marked).length = n := by
  simp [gather]

def add? (v w : ExponentVector α) : Except Violation (ExponentVector α) :=
  if v.length = w.length then .ok (add v w) else .error (.lengthsDiffer v.length w.length)

def subtract? (v w : ExponentVector α) : Except Violation (ExponentVector α) :=
  if v.length = w.length then .ok (subtract v w) else .error (.lengthsDiffer v.length w.length)

def notFinite (v : ExponentVector α) : List (α × Nat) :=
  v.zipIdx.filter fun (x, _) => !Scalar.isFinite x

/-- What is wrong with a vector as one of a given length: the length itself, or else the first
entry that is not finite. -/
def violation? (role : VectorRole) (length : Nat) (v : ExponentVector α) : Option Violation :=
  if v.length ≠ length then some (.vectorLength role length.repr v.length.repr)
  else
    match notFinite v with
    | (x, index) :: _ => some (.vectorEntry role index (Scalar.text x))
    | [] => none

end ExponentVector

/-- Whether two numbers are equal up to an absolute tolerance and one relative to the second
number. -/
def isCloseTo {α : Type} [Scalar α] (x y : α) (relative absolute : α) : Bool :=
  x == y || decide (Scalar.abs (x - y) ≤ absolute + relative * Scalar.abs y)

end Metrology
