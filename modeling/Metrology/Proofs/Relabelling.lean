import Mathlib
import Metrology.Proofs.Tables

/-!
Exponents moved from place to place: from units to the dimensions they count for, from dimensions to
their SI units, and from units to SI units.

All three moves collect, at every place, the exponents that are sent there, and one move after
another is again a move. In a registry that is built, every SI unit belongs to the dimension whose
SI unit it is. So going from dimensions to SI units and back changes nothing, and going from units
to dimensions and on to SI units is a projection.
-/

namespace Metrology

namespace ExponentVector

open Finset

/-! ### Moving exponents -/

lemma sumAt_zip (marks : List ℕ) (v : ExponentVector ℚ) (i : ℕ) : sumAt i (marks.zip v) =
    ∑ k ∈ range marks.length, if marks.getD k 0 = i then v.getD k 0 else 0 := by
  induction marks generalizing v with
  | nil => rfl
  | cons m marks ih =>
    cases v with
    | nil => simp
    | cons x v =>
      rw [List.zip_cons_cons, sumAt_cons, ih, List.length_cons, sum_range_succ']
      simp only [List.getD_cons_succ, List.getD_cons_zero]
      ring

/-- What is sent to a place is collected there. -/
lemma getD_gather_zip {n i : ℕ} (hi : i < n) (marks : List ℕ) (v : ExponentVector ℚ) :
    (gather n (marks.zip v)).getD i 0 =
      ∑ k ∈ range marks.length, if marks.getD k 0 = i then v.getD k 0 else 0 := by
  rw [getD_gather hi, sumAt_zip]

variable {n m : ℕ} {marks : List ℕ}

/-- Two moves come to one. -/
lemma gather_zip_gather_zip {next : List ℕ} (hnext : next.length = n)
    (hmarks : ∀ k ∈ marks, k < n) (v : ExponentVector ℚ) :
    gather m (next.zip (gather n (marks.zip v))) =
      gather m ((marks.map fun k => next.getD k 0).zip v) := by
  refine ext_getD (by simp) fun j hj => ?_
  rw [length_gather] at hj
  rw [getD_gather_zip hj, getD_gather_zip hj, List.length_map, hnext]
  have hinner : ∀ i ∈ range n,
      (if next.getD i 0 = j then (gather n (marks.zip v)).getD i 0 else 0) =
        ∑ k ∈ range marks.length,
          if marks.getD k 0 = i then (if next.getD i 0 = j then v.getD k 0 else 0) else 0 := by
    intro i hi
    rw [getD_gather_zip (mem_range.mp hi)]
    split_ifs with h
    · rfl
    · simp
  rw [sum_congr rfl hinner, sum_comm]
  refine sum_congr rfl fun k hk => ?_
  have hk : k < marks.length := mem_range.mp hk
  have hmem : marks.getD k 0 ∈ range n := by
    rw [List.getD_eq_getElem _ _ hk]
    exact mem_range.mpr (hmarks _ (List.getElem_mem hk))
  rw [sum_ite_eq, if_pos hmem, List.getD_eq_getElem (marks.map _) _ (by simpa using hk),
    List.getElem_map, List.getD_eq_getElem _ _ hk]

/-- What stays at its place is not moved. -/
lemma gather_zip_range (n : ℕ) (v : ExponentVector ℚ) :
    gather n ((List.range n).zip v) = (List.range n).map fun i => v.getD i 0 := by
  refine ext_getD (by simp) fun i hi => ?_
  rw [length_gather] at hi
  have hplace : i < ((List.range n).map fun i => v.getD i 0).length := by simpa using hi
  rw [getD_gather_zip hi, List.length_range, List.getD_eq_getElem _ _ hplace, List.getElem_map,
    List.getElem_range, sum_eq_single i]
  · rw [List.getD_eq_getElem _ _ (by simpa using hi), List.getElem_range, if_pos rfl]
  · intro k hk hne
    have hk : k < (List.range n).length := by simpa using hk
    rw [List.getD_eq_getElem _ _ hk, List.getElem_range, if_neg hne]
  · exact fun hnot => absurd (mem_range.mpr hi) hnot

/-- What is moved comes to places that something is sent to. -/
lemma mem_of_getD_gather_zip_ne_zero {i : ℕ} {v : ExponentVector ℚ}
    (h : (gather n (marks.zip v)).getD i 0 ≠ 0) : i ∈ marks := by
  have hi : i < n := by simpa using lt_length_of_getD_ne_zero h
  by_contra hnot
  refine h ((getD_gather_zip hi _ _).trans (sum_eq_zero fun k hk => if_neg fun heq => hnot ?_))
  have hk : k < marks.length := mem_range.mp hk
  rw [← heq, List.getD_eq_getElem _ _ hk]
  exact List.getElem_mem hk

lemma getD_scale (v : ExponentVector ℚ) (x : ℚ) (i : ℕ) :
    (scale v x).getD i 0 = v.getD i 0 * x := by
  simp only [scale, List.getD_eq_getElem?_getD, List.getElem?_map]
  cases v[i]? <;> simp

/-- Whether a map on vectors is linear, with results of a given length. An entry that a vector does
not have counts as 0. -/
structure IsLinear (n : ℕ) (move : ExponentVector ℚ → ExponentVector ℚ) : Prop where
  length_eq : ∀ v, (move v).length = n
  getD_eq : ∀ {u v w : ExponentVector ℚ} {a b : ℚ},
    (∀ k, u.getD k 0 = a * v.getD k 0 + b * w.getD k 0) →
      ∀ i, (move u).getD i 0 = a * (move v).getD i 0 + b * (move w).getD i 0

namespace IsLinear

variable {move : ExponentVector ℚ → ExponentVector ℚ} (h : IsLinear n move)

include h

lemma length_eq_length (v w : ExponentVector ℚ) : (move v).length = (move w).length :=
  (h.length_eq v).trans (h.length_eq w).symm

/-- What is combined of two vectors is moved to what is combined of the moved ones. -/
lemma map_combination (a b : ℚ) (v w : ExponentVector ℚ) {u moved : ExponentVector ℚ}
    (hlength : moved.length = n)
    (hu : ∀ k, u.getD k 0 = a * v.getD k 0 + b * w.getD k 0)
    (hmoved : ∀ i, moved.getD i 0 = a * (move v).getD i 0 + b * (move w).getD i 0) :
    move u = moved :=
  ext_getD ((h.length_eq u).trans hlength.symm) fun i _ =>
    (h.getD_eq hu i).trans (hmoved i).symm

lemma map_add {v w : ExponentVector ℚ} (hl : v.length = w.length) :
    move (add v w) = add (move v) (move w) :=
  h.map_combination 1 1 v w (by simp [h.length_eq])
    (fun k => by rw [getD_add hl, one_mul, one_mul])
    (fun i => by rw [getD_add (h.length_eq_length v w), one_mul, one_mul])

lemma map_subtract {v w : ExponentVector ℚ} (hl : v.length = w.length) :
    move (subtract v w) = subtract (move v) (move w) :=
  h.map_combination 1 (-1) v w (by simp [h.length_eq])
    (fun k => by rw [getD_subtract hl]; ring)
    (fun i => by rw [getD_subtract (h.length_eq_length v w)]; ring)

lemma map_scale (v : ExponentVector ℚ) (x : ℚ) : move (scale v x) = scale (move v) x :=
  h.map_combination x 0 v v (by simp [h.length_eq])
    (fun k => by rw [getD_scale]; ring) (fun i => by rw [getD_scale]; ring)

lemma comp {next : ExponentVector ℚ → ExponentVector ℚ} (hnext : IsLinear m next) :
    IsLinear m fun v => next (move v) :=
  ⟨fun _ => hnext.length_eq _, fun hcombination => hnext.getD_eq (h.getD_eq hcombination)⟩

end IsLinear

/-- Moves are linear. -/
lemma isLinear_gather_zip : IsLinear n fun v => gather n (marks.zip v) where
  length_eq _ := length_gather _ _
  getD_eq {u v w a b} h i := by
    rcases lt_or_ge i n with hi | hi
    · rw [getD_gather_zip hi, getD_gather_zip hi, getD_gather_zip hi, mul_sum, mul_sum,
        ← sum_add_distrib]
      refine sum_congr rfl fun k _ => ?_
      rw [h k]
      split_ifs <;> simp
    · have hout : ∀ x : ExponentVector ℚ, (gather n (marks.zip x)).getD i 0 = 0 := fun x =>
        getD_of_length_le (by simpa using hi)
      rw [hout, hout, hout, mul_zero, mul_zero, add_zero]

end ExponentVector

/-! ### Units, dimensions and SI units -/

namespace Registry

variable (r : Registry ℚ)

/-- The place of its dimension, for each unit. -/
def dimensionPlaces : List ℕ := r.units.map UnitEntry.dimensionIndex

/-- The place of the SI unit of its dimension, for each unit. -/
def siPlaces : List ℕ := r.units.map UnitEntry.siUnitIndex

lemma exponents_dimensionOf (v : ExponentVector ℚ) : (r.dimensionOf v).exponents =
    ExponentVector.gather r.dimensionCount (r.dimensionPlaces.zip v) := by
  rw [dimensionPlaces, List.zip_map_left]
  rfl

lemma siExponents_eq (v : ExponentVector ℚ) :
    r.siExponents v = ExponentVector.gather r.unitCount (r.siPlaces.zip v) := by
  rw [siPlaces, List.zip_map_left]
  rfl

lemma isWhole_siExponents {v : ExponentVector ℚ} (h : v.IsWhole) : (r.siExponents v).IsWhole := by
  refine ExponentVector.isWhole_gather _ fun p hp => ?_
  obtain ⟨q, hq, rfl⟩ := List.mem_map.mp hp
  exact h _ (List.of_mem_zip hq).2

variable {r}

lemma getD_dimensionPlaces {i : ℕ} {u : UnitEntry ℚ} (h : r.units[i]? = some u) :
    r.dimensionPlaces.getD i 0 = u.dimensionIndex := by
  simp [dimensionPlaces, h]

lemma getD_siPlaces {i : ℕ} {u : UnitEntry ℚ} (h : r.units[i]? = some u) :
    r.siPlaces.getD i 0 = u.siUnitIndex := by
  simp [siPlaces, h]

lemma getD_siUnitIndices {j : ℕ} {d : DimensionEntry ℚ} (h : r.dimensions[j]? = some d) :
    r.siUnitIndices.getD j 0 = d.siUnitIndex := by
  simp [siUnitIndices, h]

namespace IsAccepted

variable (h : r.IsAccepted)

include h

lemma index_eq {i : ℕ} {u : UnitEntry ℚ} (hu : r.units[i]? = some u) : u.index = i := by
  obtain ⟨definitions, h⟩ := h.exists_laidOut
  exact eq_of_map_eq_range h.map_index_units hu

lemma getElem?_index {u : UnitEntry ℚ} (hu : u ∈ r.units) : r.units[u.index]? = some u := by
  obtain ⟨definitions, h⟩ := h.exists_laidOut
  exact h.getElem?_index hu

lemma exists_dimension {u : UnitEntry ℚ} (hu : u ∈ r.units) :
    ∃ d, r.dimensions[u.dimensionIndex]? = some d ∧ u.siUnitIndex = d.siUnitIndex := by
  obtain ⟨definitions, h⟩ := h.exists_laidOut
  exact h.exists_dimension hu

lemma exists_siUnit {j : ℕ} {d : DimensionEntry ℚ} (hd : r.dimensions[j]? = some d) :
    ∃ u, r.units[d.siUnitIndex]? = some u ∧ u.dimensionIndex = j := by
  obtain ⟨definitions, h⟩ := h.exists_laidOut
  exact h.exists_siUnit hd

lemma lt_dimensionCount : ∀ j ∈ r.dimensionPlaces, j < r.dimensionCount := by
  intro j hj
  obtain ⟨u, hu, rfl⟩ := List.mem_map.mp hj
  obtain ⟨d, hd, -⟩ := h.exists_dimension hu
  exact (List.getElem?_eq_some_iff.mp hd).1

lemma lt_unitCount : ∀ i ∈ r.siUnitIndices, i < r.unitCount := by
  intro i hi
  obtain ⟨d, hd, rfl⟩ := List.mem_map.mp hi
  obtain ⟨j, hj⟩ := List.mem_iff_getElem?.mp hd
  obtain ⟨u, hu, -⟩ := h.exists_siUnit hj
  exact (List.getElem?_eq_some_iff.mp hu).1

/-- The SI unit of a dimension belongs to it. -/
lemma map_dimensionPlaces : (r.siUnitIndices.map fun i => r.dimensionPlaces.getD i 0) =
    List.range r.dimensionCount := by
  refine List.ext_getElem (by simp [siUnitIndices, dimensionCount]) fun j hj hj' => ?_
  have hlt : j < r.dimensions.length := by simpa [siUnitIndices] using hj
  obtain ⟨u, hu, hdimension⟩ := h.exists_siUnit (List.getElem?_eq_getElem hlt)
  simp only [List.getElem_map, siUnitIndices, List.getElem_range]
  rw [getD_dimensionPlaces hu, hdimension]

/-- The SI unit that a unit moves onto is that of its dimension. -/
lemma map_siUnitIndices : (r.dimensionPlaces.map fun j => r.siUnitIndices.getD j 0) =
    r.siPlaces := by
  rw [dimensionPlaces, siPlaces, List.map_map]
  refine List.map_congr_left fun u hu => ?_
  obtain ⟨d, hd, hsi⟩ := h.exists_dimension hu
  rw [Function.comp_apply, getD_siUnitIndices hd, hsi]

/-- An SI unit moves onto itself. -/
lemma siUnitIndex_of_mem {u : UnitEntry ℚ} (hu : u ∈ r.units)
    (hplace : u.index ∈ r.siUnitIndices) : u.siUnitIndex = u.index := by
  obtain ⟨definitions, h⟩ := h.exists_laidOut
  obtain ⟨d, hd, hindex⟩ := List.mem_map.mp hplace
  obtain ⟨j, hj⟩ := List.mem_iff_getElem?.mp hd
  rw [← hindex]
  exact h.siUnitIndex_of_place hj (hindex ▸ h.getElem?_index hu)

end IsAccepted

/-! ### Moving back and forth -/

section Moves

open ExponentVector

variable {r : Registry ℚ} (h : r.IsAccepted)

include h

/-- From dimensions to SI units and back nothing changes. -/
lemma IsAccepted.dimensionOf_siUnitsOf (v : ExponentVector ℚ) :
    r.dimensionOf (r.siUnitsOf v) = Dimension.padded r v := by
  refine Dimension.exponents_injective ?_
  rw [exponents_dimensionOf, siUnitsOf,
    gather_zip_gather_zip (by simp [dimensionPlaces, unitCount]) h.lt_unitCount,
    h.map_dimensionPlaces, gather_zip_range, Dimension.padded]

lemma IsAccepted.dimensionOf_siUnitsOf_exponents (d : Dimension r) :
    r.dimensionOf (r.siUnitsOf d.exponents) = d := by
  rw [h.dimensionOf_siUnitsOf]
  exact Dimension.exponents_injective (Dimension.exponents_padded d.length_eq)

/-- From units to dimensions and on to SI units is the move from units to SI units. -/
lemma IsAccepted.siUnitsOf_dimensionOf (v : ExponentVector ℚ) :
    r.siUnitsOf (r.dimensionOf v).exponents = r.siExponents v := by
  rw [exponents_dimensionOf, siExponents_eq, siUnitsOf,
    gather_zip_gather_zip (by simp [siUnitIndices, dimensionCount]) h.lt_dimensionCount,
    h.map_siUnitIndices]

lemma IsAccepted.dimensionOf_siExponents (v : ExponentVector ℚ) :
    r.dimensionOf (r.siExponents v) = r.dimensionOf v := by
  rw [← h.siUnitsOf_dimensionOf, h.dimensionOf_siUnitsOf_exponents]

lemma IsAccepted.siExponents_siExponents (v : ExponentVector ℚ) :
    r.siExponents (r.siExponents v) = r.siExponents v := by
  rw [← h.siUnitsOf_dimensionOf (r.siExponents v), h.dimensionOf_siExponents,
    h.siUnitsOf_dimensionOf]

/-- What is moved onto SI units stands at places of SI units. -/
lemma IsAccepted.getD_siExponents_eq_zero (v : ExponentVector ℚ) {u : UnitEntry ℚ}
    (hu : u ∈ r.units) (hne : u.index ≠ u.siUnitIndex) : (r.siExponents v).getD u.index 0 = 0 := by
  by_contra hnot
  rw [← h.siUnitsOf_dimensionOf] at hnot
  exact hne (h.siUnitIndex_of_mem hu (mem_of_getD_gather_zip_ne_zero hnot)).symm

/-- A vector is moved by nothing if it stands at places of SI units. -/
lemma IsAccepted.siExponents_eq_self_iff {v : ExponentVector ℚ} (hv : v.length = r.unitCount) :
    r.siExponents v = v ↔ ∀ u ∈ r.units, u.index ≠ u.siUnitIndex → v.getD u.index 0 = 0 := by
  constructor
  · intro hself u hu hne
    rw [← hself]
    exact h.getD_siExponents_eq_zero v hu hne
  · intro hzero
    -- an exponent that is not 0 stays where it is
    have hstays : ∀ k ∈ Finset.range r.unitCount, ∀ i,
        (if r.siPlaces.getD k 0 = i then v.getD k 0 else 0) = if k = i then v.getD k 0 else 0 := by
      intro k hk i
      have hlt : k < r.units.length := Finset.mem_range.mp hk
      have hplace := List.getElem?_eq_getElem hlt
      have hindex := h.index_eq hplace
      by_cases hstay : r.units[k].index = r.units[k].siUnitIndex
      · rw [getD_siPlaces hplace, ← hstay, hindex]
      · have hnone := hzero _ (List.getElem_mem hlt) hstay
        rw [hindex] at hnone
        rw [hnone, ite_self, ite_self]
    have hcount : r.siPlaces.length = r.unitCount := List.length_map _
    refine ext_getD (by simp [siExponents_eq, hv]) fun i hi => ?_
    have hi : i < r.unitCount := by simpa [siExponents_eq] using hi
    rw [siExponents_eq, getD_gather_zip hi, hcount,
      Finset.sum_congr rfl fun k hk => hstays k hk i, Finset.sum_ite_eq',
      if_pos (Finset.mem_range.mpr hi)]

end Moves

/-! ### Exponents in a dimension -/

/-- The exponents that a vector gives to the units of a dimension, summed up. -/
def exponentIn (r : Registry ℚ) (v : ExponentVector ℚ) (dimension : ℕ) : ℚ :=
  (((r.paired v).filter fun p => p.1.dimensionIndex == dimension).map Prod.snd).sum

lemma getD_dimensionOf {r : Registry ℚ} (v : ExponentVector ℚ) {j : ℕ}
    (hj : j < r.dimensionCount) : (r.dimensionOf v).exponents.getD j 0 = r.exponentIn v j := by
  have hsum : ∀ l : List (UnitEntry ℚ × ℚ),
      ExponentVector.sumAt j (l.map fun p => (p.1.dimensionIndex, p.2)) =
        ((l.filter fun p => p.1.dimensionIndex == j).map Prod.snd).sum := by
    intro l
    induction l with
    | nil => rfl
    | cons p l ih =>
      rw [List.map_cons, ExponentVector.sumAt_cons, ih]
      by_cases hp : p.1.dimensionIndex = j
      · simp [hp]
      · simp [hp]
  exact (ExponentVector.getD_gather hj _).trans (hsum _)

end Registry

namespace Unit

variable {r : Registry ℚ}

/-- Whether a unit carries the dimension that its exponents measure: the exponent of each dimension
is that of all its units together. Every unit that is made does; but the dimension that a unit
carries can be changed in place, and then the unit no longer does. -/
def IsConsistent (u : Unit r) : Prop :=
  ∀ j < r.dimensionCount, u.dimension.exponents.getD j 0 = r.exponentIn u.exponents j

instance (u : Unit r) : Decidable u.IsConsistent :=
  inferInstanceAs (Decidable (∀ j < r.dimensionCount, _ = _))

lemma isConsistent_iff {u : Unit r} : u.IsConsistent ↔ u.dimension = r.dimensionOf u.exponents := by
  constructor
  · intro h
    refine Dimension.exponents_injective (ExponentVector.ext_getD ?_ fun j hj => ?_)
    · rw [Dimension.length_eq, Dimension.length_eq]
    · rw [Dimension.length_eq] at hj
      rw [h j hj, Registry.getD_dimensionOf _ hj]
  · intro h j hj
    rw [h, Registry.getD_dimensionOf _ hj]

/-- Units are made with the dimension that their exponents measure. -/
lemma isConsistent_of_ofVector {v : ExponentVector ℚ} {hv : v.length = r.unitCount} {u : Unit r}
    (h : ofVector r v hv = .ok u) : u.IsConsistent := by
  rw [ofVector_eq_ok] at h
  obtain rfl := Except.ok.inj h
  exact isConsistent_iff.mpr rfl

/-- The exponents say which unit it is, as long as the dimension is what they measure. -/
lemma IsConsistent.eq_ok {u : Unit r} (h : u.IsConsistent) {exponents : ExponentVector ℚ}
    (hexponents : u.exponents = exponents) (hlength : exponents.length = r.unitCount) :
    ofVector r exponents hlength = .ok u := by
  obtain ⟨w, hw, d⟩ := u
  obtain rfl : w = exponents := hexponents
  rw [ofVector_eq_ok, ← show d = r.dimensionOf w from isConsistent_iff.mp h]

/-! ### The projection onto SI units -/

lemma ofVector_congr {v w : ExponentVector ℚ} {hv : v.length = r.unitCount}
    {hw : w.length = r.unitCount} (h : v = w) : ofVector r v hv = ofVector r w hw := by
  subst h
  rfl

lemma toSi_eq (u : Unit r) : u.toSi = .ok ⟨r.siExponents u.exponents,
    ExponentVector.length_gather _ _, r.dimensionOf (r.siExponents u.exponents)⟩ :=
  ofVector_eq_ok _ _

/-- Moving onto SI units what is made of a vector. -/
lemma exists_toSi_ofVector {v w : ExponentVector ℚ} (hv : v.length = r.unitCount)
    (hw : w.length = r.unitCount) (h : r.siExponents v = w) :
    ∃ u s, ofVector r v hv = .ok u ∧ ofVector r w hw = .ok s ∧ u.toSi = .ok s := by
  subst h
  exact ⟨_, _, ofVector_eq_ok _ _, ofVector_eq_ok _ _, toSi_eq _⟩

section Operations

variable (a b : Unit r) {sa sb : Unit r} (hsa : a.toSi = .ok sa) (hsb : b.toSi = .ok sb)

include hsa

lemma toSi_pow (power : ℚ) :
    ∃ u s, a.pow power = .ok u ∧ sa.pow power = .ok s ∧ u.toSi = .ok s := by
  obtain rfl := Except.ok.inj ((toSi_eq a).symm.trans hsa)
  refine exists_toSi_ofVector _ _ ?_
  simp only [Registry.siExponents_eq]
  exact ExponentVector.isLinear_gather_zip.map_scale a.exponents power

include hsb

lemma toSi_mul : ∃ u s, a.mul b = .ok u ∧ sa.mul sb = .ok s ∧ u.toSi = .ok s := by
  obtain rfl := Except.ok.inj ((toSi_eq a).symm.trans hsa)
  obtain rfl := Except.ok.inj ((toSi_eq b).symm.trans hsb)
  refine exists_toSi_ofVector _ _ ?_
  simp only [Registry.siExponents_eq]
  exact ExponentVector.isLinear_gather_zip.map_add (a.length_eq.trans b.length_eq.symm)

lemma toSi_div : ∃ u s, a.div b = .ok u ∧ sa.div sb = .ok s ∧ u.toSi = .ok s := by
  obtain rfl := Except.ok.inj ((toSi_eq a).symm.trans hsa)
  obtain rfl := Except.ok.inj ((toSi_eq b).symm.trans hsb)
  refine exists_toSi_ofVector _ _ ?_
  simp only [Registry.siExponents_eq]
  exact ExponentVector.isLinear_gather_zip.map_subtract (a.length_eq.trans b.length_eq.symm)

end Operations

lemma isSi_eq (u : Unit r) : u.isSi = .ok
    (ExponentVector.isClose u.exponents (r.siExponents u.exponents) Scalar.tolerance) := by
  rw [isSi, toSi_eq]
  rfl

/-- **Relabelling is the projection that dimensions induce**: the SI unit of a dimension measures
it, a unit is moved onto the SI unit of its dimension, which measures the same, and moving commutes
with products, quotients and powers. What has been moved is composed of SI units, and whatever has
whole exponents is if no other unit occurs in it. A unit is moved by its exponents, but the SI unit
of its dimension is read off the dimension that it carries; so the first unit has to carry the
dimension that its exponents measure. -/
theorem toSi_projection (hr : r.IsAccepted) (d : Dimension r) {a b : Unit r}
    (ha : a.IsConsistent) (power : ℚ) :
    (∃ u, ofDimension d = .ok u ∧ u.dimension = d) ∧
      ∃ sa sb, a.toSi = .ok sa ∧ b.toSi = .ok sb ∧
        ofDimension a.dimension = .ok sa ∧ sa.dimension = a.dimension ∧ sa.toSi = .ok sa ∧
        (∃ u s, a.mul b = .ok u ∧ sa.mul sb = .ok s ∧ u.toSi = .ok s) ∧
        (∃ u s, a.div b = .ok u ∧ sa.div sb = .ok s ∧ u.toSi = .ok s) ∧
        (∃ u s, a.pow power = .ok u ∧ sa.pow power = .ok s ∧ u.toSi = .ok s) ∧
        sa.isSi = .ok true ∧
        (a.exponents.IsWhole → a.isSi = .ok (decide
          (∀ e ∈ r.units, e.index ≠ e.siUnitIndex → a.exponents.getD e.index 0 = 0))) := by
  rw [isConsistent_iff] at ha
  have hself := hr.siExponents_siExponents a.exponents
  refine ⟨⟨_, ofVector_eq_ok _ _, hr.dimensionOf_siUnitsOf_exponents d⟩, _, _, toSi_eq a,
    toSi_eq b, ?_, ?_, ?_, toSi_mul a b (toSi_eq a) (toSi_eq b),
    toSi_div a b (toSi_eq a) (toSi_eq b), toSi_pow a (toSi_eq a) power, ?_, fun hwhole => ?_⟩
  · have hmove : r.siUnitsOf a.dimension.exponents = r.siExponents a.exponents := by
      rw [ha, hr.siUnitsOf_dimensionOf]
    exact (ofVector_congr hmove).trans (ofVector_eq_ok _ _)
  · exact (hr.dimensionOf_siExponents _).trans ha.symm
  · exact (ofVector_congr hself).trans (ofVector_eq_ok _ _)
  · rw [isSi_eq]
    dsimp only
    rw [hself, ExponentVector.isClose_self]
  · have hlength : a.exponents.length = (r.siExponents a.exponents).length :=
      a.length_eq.trans (ExponentVector.length_gather _ _).symm
    rw [isSi_eq, Except.ok.injEq, Bool.eq_iff_iff, decide_eq_true_iff,
      ExponentVector.isClose_iff hlength hwhole (r.isWhole_siExponents hwhole), eq_comm,
      hr.siExponents_eq_self_iff a.length_eq]

/-- Kilocalories for a mole are no SI units, but joules for a mole are, and measure the same. -/
theorem toSi_projection_molar :
    let a := Registry.Bundled.unit "kcal.mol^-1"
    a.IsConsistent ∧ a.exponents.IsWhole ∧ a.isSi = .ok false ∧
      ∃ sa, a.toSi = .ok sa ∧ sa.dimension = a.dimension ∧ sa.isSi = .ok true := by
  intro a
  have hconsistent : a.IsConsistent := by decide +kernel
  have hwhole : a.exponents.IsWhole := by decide +kernel
  obtain ⟨-, sa, -, hsa, -, -, hdimension, -, -, -, -, hsi, hiff⟩ := toSi_projection
    Registry.Bundled.isAccepted_registry (Dimension.one _) (b := a) hconsistent 1
  have hother : ¬∀ e ∈ Registry.Bundled.registry.units,
      e.index ≠ e.siUnitIndex → a.exponents.getD e.index 0 = 0 := by decide +kernel
  exact ⟨hconsistent, hwhole, (hiff hwhole).trans (congrArg _ (decide_eq_false hother)), sa, hsa,
    hdimension, hsi⟩

end Unit

end Metrology
