import Mathlib
import Metrology.Unit
import Metrology.Proofs.Coordinates

/-!
What a dimension comes to over the primary dimensions, slot by slot: a sum over all dimensions of
the registry, linear in the exponents, and whole where the exponents and the registry are. Over the
rationals no dimension and no unit is refused.
-/

namespace Metrology

open Finset

/-- Whether every dimension of a registry is composed of whole powers of the primary ones. -/
def Registry.IsWhole (r : Registry ℚ) : Prop :=
  ∀ d ∈ r.dimensions, ExponentVector.IsWhole d.primaryExponents

instance (r : Registry ℚ) : Decidable r.IsWhole :=
  inferInstanceAs (Decidable (∀ d ∈ r.dimensions, ExponentVector.IsWhole d.primaryExponents))

lemma Registry.length_basis (r : Registry ℚ) : r.basis.length = r.dimensionCount :=
  List.length_map _

lemma Registry.IsWhole.getD_basis {r : Registry ℚ} (h : r.IsWhole) (i : ℕ) :
    ExponentVector.IsWhole (r.basis.getD i []) := by
  refine getD_of_forall_mem (List.forall_mem_nil _) (fun column hcolumn => ?_) i
  obtain ⟨d, hd, rfl⟩ := List.mem_map.mp hcolumn
  exact h d hd

/-- Every exponent is finite. -/
lemma ExponentVector.violation?_eq_none (role : VectorRole) {n : ℕ} {v : ExponentVector ℚ}
    (h : v.length = n) : violation? role n v = none := by
  have hfinite : notFinite v = [] := by
    unfold notFinite
    simp
  unfold violation?
  simp [h, hfinite]

namespace Dimension

variable {r : Registry ℚ}

lemma exponents_injective : Function.Injective (exponents : Dimension r → ExponentVector ℚ) := by
  rintro ⟨v, hv⟩ ⟨w, hw⟩ h
  obtain rfl : v = w := h
  rfl

lemma exponents_padded {v : ExponentVector ℚ} (hv : v.length = r.dimensionCount) :
    (padded r v).exponents = v := by
  refine ExponentVector.ext_getD (by simp [padded, hv]) fun i hi => ?_
  have hi : i < r.dimensionCount := by simpa [padded] using hi
  simp [padded, hi]

@[simp] lemma length_primary {α : Type} [Scalar α] {r : Registry α} (d : Dimension r) :
    d.primary.length = primaryCount := ExponentVector.length_combine _ _ _

lemma getD_primary (d : Dimension r) {j : ℕ} (h : j < primaryCount) :
    d.primary.getD j 0 =
      ∑ i ∈ range r.dimensionCount, d.exponents.getD i 0 * (r.basis.getD i []).getD j 0 := by
  rw [primary, ExponentVector.getD_combine _ _ h, d.length_eq]

lemma getD_primary_div (d e : Dimension r) (j : ℕ) :
    (d / e).primary.getD j 0 = d.primary.getD j 0 - e.primary.getD j 0 := by
  rcases lt_or_ge j primaryCount with hj | hj
  · rw [getD_primary _ hj, getD_primary _ hj, getD_primary _ hj, ← sum_sub_distrib]
    refine sum_congr rfl fun i _ => ?_
    show (ExponentVector.subtract d.exponents e.exponents).getD i 0 * _ = _
    rw [ExponentVector.getD_subtract (d.length_eq.trans e.length_eq.symm), sub_mul]
  · simp only [ExponentVector.getD_of_length_le ((length_primary _).trans_le hj), sub_zero]

lemma getD_primary_mem_whole (hr : r.IsWhole) {d : Dimension r} (hd : d.exponents.IsWhole)
    (j : ℕ) : d.primary.getD j 0 ∈ whole := by
  rcases lt_or_ge j primaryCount with hj | hj
  · rw [getD_primary _ hj]
    exact sum_mem fun i _ => mul_mem (hd.getD_mem i) ((hr.getD_basis i).getD_mem j)
  · rw [ExponentVector.getD_of_length_le ((length_primary _).trans_le hj)]
    exact zero_mem _

lemma ofVector_eq_ok {v : ExponentVector ℚ} (h : v.length = r.dimensionCount) :
    ofVector r v = .ok ⟨v, h⟩ := by
  unfold ofVector
  rw [ExponentVector.violation?_eq_none _ h]
  simp [h]

end Dimension

lemma Unit.ofVector_eq_ok {r : Registry ℚ} (v : ExponentVector ℚ) (h : v.length = r.unitCount) :
    Unit.ofVector r v h = .ok ⟨v, h, r.dimensionOf v⟩ := by
  unfold ofVector
  rw [Dimension.ofVector_eq_ok (r.dimensionOf v).length_eq]

end Metrology
