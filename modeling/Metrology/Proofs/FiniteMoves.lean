import Mathlib
import Metrology.Proofs.Finiteness

/-!
Exponents moved between the tables of a registry, over the doubles.

What is moved onto SI units counts for its dimension alone: all other units of the dimension bring
zeros, which do not change a sum. So a product of SI units measures a finite dimension if and only
if it is finite itself, and the move from units to SI units is finite if and only if the dimension
is that the units measure.
-/

namespace Metrology

open Double

namespace ExponentVector

/-! ### Sums with one part that counts -/

section

variable {α β : Type} [Scalar α] {i j : ℕ}

lemma sumAt_eq_zero {marked : List (ℕ × α)} (h : ∀ p ∈ marked, p.1 ≠ i) : sumAt i marked = 0 := by
  unfold sumAt
  generalize (0 : α) = start
  induction marked generalizing start with
  | nil => rfl
  | cons p marked ih =>
    obtain ⟨j, y⟩ := p
    obtain ⟨hj, hrest⟩ := List.forall_mem_cons.mp h
    simp only [List.foldl_cons, if_neg hj]
    exact ih hrest start

/-- A sum depends on which parts are marked with the index only. -/
lemma sumAt_map_congr {items : List β} {f g : β → ℕ} (x : β → α)
    (h : ∀ b ∈ items, f b = i ↔ g b = j) :
    sumAt i (items.map fun b => (f b, x b)) = sumAt j (items.map fun b => (g b, x b)) := by
  unfold sumAt
  generalize (0 : α) = start
  induction items generalizing start with
  | nil => rfl
  | cons b items ih =>
    obtain ⟨hb, hrest⟩ := List.forall_mem_cons.mp h
    simp only [List.map_cons, List.foldl_cons, hb]
    exact ih hrest _

lemma getElem?_gather {marked : List (ℕ × α)} {n : ℕ} {x : α} :
    (gather n marked)[i]? = some x ↔ i < n ∧ sumAt i marked = x :=
  getElem?_map_range

end

variable {marked : List (ℕ × Float)} {i k : ℕ} {x : Float} {q : ℚ}

/-- Zeros do not change a sum. -/
lemma isNumber_foldl_of_zeros {start : Float} (hstart : IsNumber start q)
    (h : ∀ p ∈ marked, p.1 = i → IsNumber p.2 0) :
    IsNumber (marked.foldl (fun sum (j, y) => if j = i then sum + y else sum) start) q := by
  induction marked generalizing start with
  | nil => exact hstart
  | cons p marked ih =>
    obtain ⟨hp, hrest⟩ := List.forall_mem_cons.mp h
    refine ih ?_ hrest
    show IsNumber (if p.1 = i then start + p.2 else start) q
    split_ifs with hi
    · obtain ⟨v, hv, hrounds⟩ := hstart.add (hp hi) (by rw [add_zero]; exact hstart.inRange)
      rw [add_zero] at hrounds
      rwa [hrounds.eq hstart.isRepresentable] at hv
    · exact hstart

/-- **A sum with one part**: if all other parts are zeros, a sum is finite if and only if its part
is. -/
lemma isFinite_sumAt_iff (hk : marked[k]? = some (i, x))
    (hzero : ∀ l y, l ≠ k → marked[l]? = some (i, y) → IsNumber y 0) :
    (sumAt i marked).isFinite = true ↔ x.isFinite = true := by
  unfold sumAt
  refine ⟨fun h => (isFinite_of_foldl h).2 (i, x) (List.mem_of_getElem? hk) rfl, fun h => ?_⟩
  obtain ⟨q, hq⟩ := exists_isNumber h
  obtain ⟨hlt, hget⟩ := List.getElem?_eq_some_iff.mp hk
  have hfront : ∀ p ∈ marked.take k, p.1 = i → IsNumber p.2 0 := by
    rintro ⟨_, y⟩ hp rfl
    obtain ⟨l, hl, hget⟩ := List.mem_take_iff_getElem.mp hp
    exact hzero l y (by omega) (List.getElem?_eq_some_iff.mpr ⟨by omega, hget⟩)
  have hback : ∀ p ∈ marked.drop (k + 1), p.1 = i → IsNumber p.2 0 := by
    rintro ⟨_, y⟩ hp rfl
    obtain ⟨l, hl⟩ := List.mem_iff_getElem?.mp hp
    rw [List.getElem?_drop] at hl
    exact hzero (k + 1 + l) y (by omega) hl
  have hsplit : marked = marked.take k ++ (i, x) :: marked.drop (k + 1) := by
    rw [← hget, List.getElem_cons_drop, List.take_append_drop]
  have hbefore := isNumber_foldl_of_zeros isNumber_zero hfront
  obtain ⟨v, hv, hrounds⟩ := hbefore.add hq (by rw [zero_add]; exact hq.inRange)
  rw [zero_add] at hrounds
  rw [hrounds.eq hq.isRepresentable] at hv
  rw [hsplit, List.foldl_append, List.foldl_cons]
  dsimp only
  rw [if_pos rfl]
  exact (isNumber_foldl_of_zeros hv hback).isFinite

end ExponentVector

/-! ### Moves onto SI units -/

namespace Registry

variable {r : Registry Float} {definitions : List (DimensionDefinition Float)}
  (h : r.LaidOut definitions) {v w : ExponentVector Float}

/-- Whether a vector of units stands at the places of SI units: elsewhere there are zeros. -/
def OnSiUnits (r : Registry Float) (w : ExponentVector Float) : Prop :=
  ∀ (i : ℕ) (u : UnitEntry Float) (x : Float), r.units[i]? = some u → w[i]? = some x →
    i ≠ u.siUnitIndex → IsNumber x 0

lemma getElem?_paired {β : Type} (key : UnitEntry Float → β) {i : ℕ} {b : β} {x : Float} :
    ((r.paired w).map fun (unit, exponent) => (key unit, exponent))[i]? = some (b, x) ↔
      ∃ u, r.units[i]? = some u ∧ w[i]? = some x ∧ key u = b := by
  rw [paired, List.getElem?_map, Option.map_eq_some_iff]
  constructor
  · rintro ⟨⟨u, y⟩, hpair, heq⟩
    obtain ⟨hu, hy⟩ := List.getElem?_zip_eq_some.mp hpair
    obtain ⟨hkey, rfl⟩ := Prod.mk.injEq .. ▸ heq
    exact ⟨u, hu, hy, hkey⟩
  · rintro ⟨u, hu, hx, rfl⟩
    exact ⟨(u, x), List.getElem?_zip_eq_some.mpr ⟨hu, hx⟩, rfl⟩

lemma getElem?_siUnitIndices {k i : ℕ} :
    r.siUnitIndices[k]? = some i ↔ ∃ d, r.dimensions[k]? = some d ∧ d.siUnitIndex = i := by
  rw [siUnitIndices, List.getElem?_map, Option.map_eq_some_iff]

namespace LaidOut

include h

/-- **Products of SI units** measure a finite dimension if and only if they are finite. -/
lemma isFinite_dimensionOf_iff (hr : r.IsComplete) (hlength : w.length = r.unitCount)
    (hw : r.OnSiUnits w) :
    (r.dimensionOf w).isFinite = true ↔ w.all Scalar.isFinite = true := by
  refine ⟨hr.all_isFinite_of_dimensionOf hlength, fun hfinite => ?_⟩
  refine List.all_eq_true.mpr fun x hx => ?_
  obtain ⟨j, hj, rfl⟩ := List.mem_map.mp hx
  obtain ⟨d, hd⟩ : ∃ d, r.dimensions[j]? = some d :=
    ⟨_, List.getElem?_eq_getElem (List.mem_range.mp hj)⟩
  obtain ⟨s, hs, hdimension⟩ := h.exists_siUnit hd
  have hplace : d.siUnitIndex < w.length :=
    (List.getElem?_eq_some_iff.mp hs).1.trans_eq hlength.symm
  have hpart := (getElem?_paired UnitEntry.dimensionIndex).mpr
    ⟨s, hs, List.getElem?_eq_getElem hplace, hdimension⟩
  refine (ExponentVector.isFinite_sumAt_iff hpart fun l y hne hl => ?_).mpr
    (List.all_eq_true.mp hfinite _ (List.getElem_mem hplace))
  obtain ⟨u, hu, hy, hdimension'⟩ := (getElem?_paired _).mp hl
  refine hw l u y hu hy ?_
  rwa [(h.siUnitIndex_eq_iff hd (List.mem_of_getElem? hu)).mpr hdimension']

/-- What is moved onto SI units stands at their places. -/
lemma onSiUnits_gather {marked : List (ℕ × Float)}
    (hmarked : ∀ p ∈ marked, p.1 ∈ r.siUnitIndices) :
    r.OnSiUnits (ExponentVector.gather r.unitCount marked) := by
  intro i u x hu hx hne
  rw [ExponentVector.getElem?_gather] at hx
  obtain ⟨-, rfl⟩ := hx
  rw [ExponentVector.sumAt_eq_zero fun p hp hpi => ?_]
  · exact isNumber_zero
  · obtain ⟨d, hd, hplace⟩ := List.mem_map.mp (hmarked p hp)
    obtain ⟨j, hj⟩ := List.mem_iff_getElem?.mp hd
    rw [hpi] at hplace
    exact hne (hplace ▸ (h.siUnitIndex_of_place hj (hplace ▸ hu)).symm)

lemma siUnitsOf_onSiUnits (v : ExponentVector Float) : r.OnSiUnits (r.siUnitsOf v) :=
  h.onSiUnits_gather fun _ hp => (List.of_mem_zip hp).1

lemma siExponents_onSiUnits (v : ExponentVector Float) : r.OnSiUnits (r.siExponents v) := by
  refine h.onSiUnits_gather fun p hp => ?_
  obtain ⟨⟨u, x⟩, hpair, rfl⟩ := List.mem_map.mp hp
  obtain ⟨d, hd, hsi⟩ := h.exists_dimension (List.of_mem_zip hpair).1
  show u.siUnitIndex ∈ r.siUnitIndices
  rw [hsi]
  exact List.mem_map_of_mem (List.mem_of_getElem? hd)

/-- From finite dimensions to their SI units. -/
lemma all_isFinite_siUnitsOf (hv : v.all Scalar.isFinite = true) :
    (r.siUnitsOf v).all Scalar.isFinite = true := by
  refine List.all_eq_true.mpr fun x hx => ?_
  obtain ⟨i, -, rfl⟩ := List.mem_map.mp hx
  by_cases hmark : ∀ p ∈ r.siUnitIndices.zip v, p.1 ≠ i
  · rw [ExponentVector.sumAt_eq_zero hmark]
    exact isNumber_zero.isFinite
  · obtain ⟨⟨_, y⟩, hp, rfl⟩ : ∃ p ∈ r.siUnitIndices.zip v, p.1 = i := by
      simpa only [not_forall, not_not, exists_prop] using hmark
    obtain ⟨k, hk⟩ := List.mem_iff_getElem?.mp hp
    refine (ExponentVector.isFinite_sumAt_iff hk fun l z hne hl => ?_).mpr
      (List.all_eq_true.mp hv _ (List.of_mem_zip hp).2)
    -- no two dimensions have one SI unit
    obtain ⟨d, hd, hplace⟩ := getElem?_siUnitIndices.mp (List.getElem?_zip_eq_some.mp hk).1
    obtain ⟨e, he, hplace'⟩ := getElem?_siUnitIndices.mp (List.getElem?_zip_eq_some.mp hl).1
    exact absurd (h.eq_of_siUnitIndex he hd (hplace'.trans hplace.symm)) hne

/-- What is moved onto the SI unit of a dimension is what counts for the dimension. -/
lemma sumAt_siUnitIndex {j : ℕ} {d : DimensionEntry Float} (hd : r.dimensions[j]? = some d) :
    ExponentVector.sumAt d.siUnitIndex
        ((r.paired v).map fun (unit, exponent) => (unit.siUnitIndex, exponent)) =
      ExponentVector.sumAt j
        ((r.paired v).map fun (unit, exponent) => (unit.dimensionIndex, exponent)) :=
  ExponentVector.sumAt_map_congr _ fun _ hp => h.siUnitIndex_eq_iff hd (List.of_mem_zip hp).1

/-- **Units moved onto SI units** are finite if and only if they measure a finite dimension. -/
lemma all_isFinite_siExponents_iff :
    (r.siExponents v).all Scalar.isFinite = true ↔ (r.dimensionOf v).isFinite = true := by
  constructor
  · intro hfinite
    refine List.all_eq_true.mpr fun x hx => ?_
    obtain ⟨j, hj, rfl⟩ := List.mem_map.mp hx
    obtain ⟨d, hd⟩ : ∃ d, r.dimensions[j]? = some d :=
      ⟨_, List.getElem?_eq_getElem (List.mem_range.mp hj)⟩
    obtain ⟨s, hs, -⟩ := h.exists_siUnit hd
    rw [← h.sumAt_siUnitIndex hd]
    exact List.all_eq_true.mp hfinite _
      (List.mem_map_of_mem (List.mem_range.mpr (List.getElem?_eq_some_iff.mp hs).1))
  · intro hfinite
    refine List.all_eq_true.mpr fun x hx => ?_
    obtain ⟨i, -, rfl⟩ := List.mem_map.mp hx
    by_cases hmark : ∀ u ∈ r.units, u.siUnitIndex ≠ i
    · rw [ExponentVector.sumAt_eq_zero]
      · exact isNumber_zero.isFinite
      · intro p hp
        obtain ⟨⟨u, x⟩, hpair, rfl⟩ := List.mem_map.mp hp
        exact hmark u (List.of_mem_zip hpair).1
    · obtain ⟨u, hu, rfl⟩ : ∃ u ∈ r.units, u.siUnitIndex = i := by
        simpa only [not_forall, not_not, exists_prop] using hmark
      obtain ⟨d, hd, hsi⟩ := h.exists_dimension hu
      rw [hsi, h.sumAt_siUnitIndex hd]
      exact List.all_eq_true.mp hfinite _
        (List.mem_map_of_mem (List.mem_range.mpr (h.dimensionIndex_lt hu)))

end LaidOut

end Registry

end Metrology
