import Metrology.Catalogue
import Metrology.Dimension.Equivalents

/-!
Shared objects: dimensions, units and quantities that are held at places and can be changed there.

A unit refers to the place of its dimension and a quantity to the place of its unit, so that a
change at one place shows wherever the place is referred to. Results with parts never change, but
are told apart even where they look alike. A computation reads values from the places and comes to
an effect; only the effect changes the store.
-/

namespace Metrology

/-- A unit at a place, with the place of its dimension. -/
structure HeldUnit {α : Type} (r : Registry α) where
  exponents : ExponentVector α
  length_eq : exponents.length = r.unitCount
  dimension : Nat

structure HeldQuantity (α : Type) where
  value : α
  unit : Nat

inductive Owner where
  | dimension (place : Nat)
  | unit (place : Nat)
deriving DecidableEq

/-- The objects over one registry, each kind with places of its own. -/
structure Store {α : Type} (r : Registry α) where
  dimensions : List (Dimension r)
  units : List (HeldUnit r)
  quantities : List (HeldQuantity α)
  made : Nat
  /-- The objects that have been changed in place, once for each change. -/
  changes : List Owner

/-- A unit that is held already, or one that is yet to be held. -/
inductive Target {α : Type} (r : Registry α) where
  | held (place : Nat)
  | fresh (unit : Unit r)

/-- What tells a compound from others that look alike. -/
inductive Identity where
  /-- The compound that was made when so many had been made before. -/
  | made (number : Nat)
  | found (search : Nat)
  /-- The exponents of an object after so many changes. -/
  | exponents (owner : Owner) (changes : Nat)
deriving DecidableEq

/-- A result with parts, which never changes. -/
inductive Compound (α : Type) where
  | vector (values : List α)
  | dimensions (places : List Nat)
  | search (number : Nat) (places : List Nat) (solved : Nat) (total : α) (exhausted : Bool)
  | conversion (coefficients : Coefficients α) (unit : Nat)
  | coefficients (coefficients : Coefficients α)
  | convertibility (convertibility : Convertibility α)

/-- What a computation comes to, in terms of places. -/
inductive Outcome (α : Type) where
  | dimension (place : Nat)
  | unit (place : Nat)
  | quantity (place : Nat)
  | compound (identity : Identity) (parts : Compound α)
  | number (value : α)
  | converted (value : α)
  | flag (value : Bool)
  /-- A text; none for a product with an exponent that is not finite. -/
  | text (value : Option String)

inductive Effect {α : Type} (r : Registry α) where
  | holdDimension (d : Dimension r)
  | holdDimensions (ds : List (Dimension r))
  | holdSearch (search : Search r)
  | holdUnit (u : Unit r)
  | holdQuantity (value : α) (unit : Target r)
  | holdConversion (coefficients : Coefficients α) (unit : Target r)
  | changeDimension (place : Nat) (d : Dimension r)
  | changeUnit (place : Nat) (u : Unit r)
  /-- Makes a compound whose parts are there already. -/
  | compose (parts : Compound α)
  | nothing (outcome : Outcome α)

namespace Store

variable {α : Type} {r : Registry α}

def empty : Store r := ⟨[], [], [], 0, []⟩

section
variable [Scalar α]

def dimension (s : Store r) (place : Nat) : Dimension r := s.dimensions.getD place (.one r)

/-- The unit at a place, with the dimension its place refers to; where there is none, the product
of nothing. -/
def unit (s : Store r) (place : Nat) : Unit r :=
  match s.units[place]? with
  | some held => ⟨held.exponents, held.length_eq, s.dimension held.dimension⟩
  | none => ⟨ExponentVector.zeros r.unitCount, ExponentVector.length_zeros _, .one r⟩

def quantity (s : Store r) (place : Nat) : Quantity r :=
  match s.quantities[place]? with
  | some held => ⟨held.value, s.unit held.unit⟩
  | none => ⟨0, ⟨ExponentVector.zeros r.unitCount, ExponentVector.length_zeros _, .one r⟩⟩

end

def dimensionPlace (s : Store r) (unit : Nat) : Nat :=
  ((s.units[unit]?).map HeldUnit.dimension).getD 0

def unitPlace (s : Store r) (quantity : Nat) : Nat :=
  ((s.quantities[quantity]?).map HeldQuantity.unit).getD 0

def holdDimension (s : Store r) (d : Dimension r) : Nat × Store r :=
  (s.dimensions.length, { s with dimensions := s.dimensions ++ [d] })

def holdDimensions (s : Store r) (ds : List (Dimension r)) : List Nat × Store r :=
  ((List.range ds.length).map (s.dimensions.length + ·),
    { s with dimensions := s.dimensions ++ ds })

/-- Holds a unit at a new place, and its dimension at a new place too. -/
def holdUnit (s : Store r) (u : Unit r) : Nat × Store r :=
  let (dimension, s) := s.holdDimension u.dimension
  (s.units.length, { s with units := s.units ++ [⟨u.exponents, u.length_eq, dimension⟩] })

def holdTarget (s : Store r) : Target r → Nat × Store r
  | .held place => (place, s)
  | .fresh u => s.holdUnit u

def holdQuantity (s : Store r) (value : α) (unit : Nat) : Nat × Store r :=
  (s.quantities.length, { s with quantities := s.quantities ++ [⟨value, unit⟩] })

def changeDimension (s : Store r) (place : Nat) (d : Dimension r) : Store r :=
  { s with
    dimensions := s.dimensions.set place d
    changes := .dimension place :: s.changes }

/-- Puts another unit at a place. Its dimension gets a new place; the old dimension stays where it
is. -/
def changeUnit (s : Store r) (place : Nat) (u : Unit r) : Store r :=
  let (dimension, s) := s.holdDimension u.dimension
  { s with
    units := s.units.set place ⟨u.exponents, u.length_eq, dimension⟩
    changes := .unit place :: s.changes }

/-- What the exponents of an object are told from others by. -/
def exponentsOf (s : Store r) (owner : Owner) : Identity :=
  .exponents owner (s.changes.count owner)

def compose (s : Store r) (parts : Compound α) : Outcome α × Store r :=
  (.compound (.made s.made) parts, { s with made := s.made + 1 })

def apply (s : Store r) : Effect r → Outcome α × Store r
  | .holdDimension d =>
    let (place, s) := s.holdDimension d
    (.dimension place, s)
  | .holdDimensions ds =>
    let (places, s) := s.holdDimensions ds
    s.compose (.dimensions places)
  | .holdSearch search =>
    let (places, s) := s.holdDimensions search.dimensions
    s.compose (.search s.made places search.solved search.total search.exhausted)
  | .holdUnit u =>
    let (place, s) := s.holdUnit u
    (.unit place, s)
  | .holdQuantity value unit =>
    let (unit, s) := s.holdTarget unit
    let (place, s) := s.holdQuantity value unit
    (.quantity place, s)
  | .holdConversion coefficients unit =>
    let (unit, s) := s.holdTarget unit
    s.compose (.conversion coefficients unit)
  | .changeDimension place d => (.dimension place, s.changeDimension place d)
  | .changeUnit place u => (.unit place, s.changeUnit place u)
  | .compose parts => s.compose parts
  | .nothing outcome => (outcome, s)

end Store

end Metrology
