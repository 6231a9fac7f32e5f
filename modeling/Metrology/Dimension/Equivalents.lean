import Metrology.Dimension
import Metrology.Linear.Elimination
import Metrology.Linear.Combination

/-!
All ways to compose a dimension with integral exponents.

For every seven dimensions of the registry, the exponents with which they compose the given
dimension are the solution of a square system. Solutions in small integers are collected, each
once, from the simplest to the most complex.
-/

namespace Metrology

/-- The bounds of a search as they are asked for. -/
structure SearchOptions (α : Type) where
  /-- How many factors a result may have. -/
  maxComposingDimensions : Datum α
  /-- What the absolute value of every exponent stays below. -/
  maxExponent : Datum α
  maxCombinations : Datum α

/-- The bounds of a search. Without `maxCombinations`, every system is solved. -/
structure SearchBounds (α : Type) where
  maxComposingDimensions : Nat
  maxExponent : α
  maxCombinations : Option Nat

namespace SearchOptions

variable {α : Type} [Scalar α]

/-- Five factors with exponents up to two. -/
def standard (maxCombinations : Datum α) : SearchOptions α :=
  ⟨.number (Scalar.ofNat 5), .number (Scalar.ofNat 3), maxCombinations⟩

def count (option : CountOption) (d : Datum α) : Except Violation Nat :=
  match d with
  | .number x =>
    if Scalar.isIntegral x && decide (0 ≤ x) then .ok (Scalar.toNatFloor x)
    else .error (.notCount option d.quoted)
  | _ => .error (.notCount option d.quoted)

/-- A bound for exponents: positive, possibly infinite. -/
def exponentBound (d : Datum α) : Except Violation α :=
  match d.numeric? with
  | some x => if 0 < x then .ok x else .error (.exponentBound d.quoted)
  | none => .error (.exponentBound d.quoted)

/-- A natural number, or infinity for none. -/
def optionalCount (option : CountOption) (d : Datum α) : Except Violation (Option Nat) :=
  match d with
  | .number x =>
    if 0 < x && !Scalar.isFinite x then .ok none else (count option d).map some
  | _ => (count option d).map some

def bounds (o : SearchOptions α) : Except Violation (SearchBounds α) := do
  let maxComposingDimensions ← count .maxComposingDimensions o.maxComposingDimensions
  let maxExponent ← exponentBound o.maxExponent
  let maxCombinations ← optionalCount .maxCombinations o.maxCombinations
  return { maxComposingDimensions, maxExponent, maxCombinations }

end SearchOptions

/-- What a search has found, and how much of the search space it has covered. -/
structure Search {α : Type} (r : Registry α) where
  dimensions : List (Dimension r)
  solved : Nat
  total : α
  exhausted : Bool

namespace Dimension

variable {α : Type} [Scalar α] {r : Registry α}

/-- A solution in whole numbers below a bound, if it is one up to the tolerance. -/
@[specialize] def roundSolution (maxExponent : α) : List α → Option (List α)
  | [] => some []
  | x :: xs =>
    let nearest := Scalar.round x
    if Scalar.tolerance < Scalar.abs (x - nearest) ∨ maxExponent ≤ Scalar.abs nearest then none
    else
      match roundSolution maxExponent xs with
      | none => none
      | some rest => some ((if nearest == 0 then 0 else nearest) :: rest)

/-- The exponents with which chosen vectors compose a target, marked with their places. -/
@[specialize] def solutionFor (target : ExponentVector α) (maxExponent : α)
    (chosen : List (Nat × ExponentVector α)) : Option (List (Nat × α)) :=
  match solveColumns (chosen.map Prod.snd) target with
  | none => none
  | some values =>
    (roundSolution maxExponent values).map fun exponents => (chosen.map Prod.fst).zip exponents

/-- The order of numbers, in which what is no number comes last. -/
@[specialize] def numberOrder (x y : α) : Ordering :=
  if x < y then .lt
  else if y < x then .gt
  else if Scalar.isFinite x == Scalar.isFinite y then .eq
  else if Scalar.isFinite x then .lt
  else .gt

@[specialize] def vectorOrder : ExponentVector α → ExponentVector α → Ordering
  | x :: v, y :: w => (numberOrder x y).then (vectorOrder v w)
  | [], [] => .eq
  | [], _ :: _ => .lt
  | _ :: _, [] => .gt

/-- The order by the sum of absolute exponents, and by the first exponent that differs. -/
@[specialize] def complexityOrder (v w : ExponentVector α) : Ordering :=
  (numberOrder (ExponentVector.l1Norm v) (ExponentVector.l1Norm w)).then (vectorOrder v w)

def withoutRepeats (v : ExponentVector α) : List (ExponentVector α) → List (ExponentVector α)
  | [] => [v]
  | w :: rest =>
    if vectorOrder v w = .eq then withoutRepeats v rest else v :: withoutRepeats w rest

/-- The vectors of a list, each once, from the simplest to the most complex. -/
def sorted (vectors : List (ExponentVector α)) : List (ExponentVector α) :=
  match vectors.mergeSort fun v w => (complexityOrder v w).isLE with
  | [] => []
  | v :: rest => withoutRepeats v rest

/-- The systems to be solved: seven dimensions of the registry each, with their places. -/
def systems (r : Registry α) (maxCombinations : Option Nat) :
    List (List (Nat × ExponentVector α)) :=
  let entries := r.basis.zipIdx.map fun (v, index) => (index, v)
  match maxCombinations with
  | none => combinations entries primaryCount
  | some budget => combinationsUpTo budget entries primaryCount

@[specialize] def searchWithin (d : Dimension r) (bounds : SearchBounds α) : Search r :=
  let target := d.primary
  let systems := systems r bounds.maxCombinations
  let found := systems.filterMap (solutionFor target bounds.maxExponent)
  let distinct := (sorted (found.map (ExponentVector.gather r.dimensionCount))).filter fun v =>
    !ExponentVector.isClose v d.exponents Scalar.tolerance
      && decide (ExponentVector.countNonzero v ≤ bounds.maxComposingDimensions)
  let total := binomial (Scalar.ofNat r.dimensionCount : α) (Scalar.ofNat primaryCount)
  { dimensions := distinct.map (padded r)
    solved := systems.length
    total
    exhausted := decide (total ≤ Scalar.ofNat systems.length) }

@[specialize] def search (d : Dimension r) (options : SearchOptions α) : Except Error (Search r) :=
  match options.bounds with
  | .error violation => .error (.invalid violation)
  | .ok bounds => .ok (d.searchWithin bounds)

end Dimension

end Metrology
