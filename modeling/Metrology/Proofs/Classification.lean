import Mathlib
import Metrology.Dimension
import Metrology.Proofs.Accepted

/-!
Which dimensions are taken for primary ones.

The test adds up the absolute values of the slots, and the sum is 1 for a primary dimension or the
inverse of one. It is 1 for mixtures as well, whose fractional slots add up. What tells them apart
is the largest slot: it has to make up the whole sum. Whole slots cannot mix, and for them the test
is exact.
-/

namespace Metrology

open Finset

namespace ExponentVector

/-- How far a vector is, in the sum over its entries, from the one that has `x` in one slot and
nothing else. -/
def distanceTo (v : ExponentVector ℚ) (slot : ℕ) (x : ℚ) : ℚ :=
  ∑ i ∈ range v.length, |v.getD i 0 - if i = slot then x else 0|

section Distance

variable {v : ExponentVector ℚ} {slot : ℕ} {x tolerance : ℚ}

/-- The slot counts with its difference, and the others with what they add to the sum. -/
lemma distanceTo_eq (h : slot < v.length) :
    v.distanceTo slot x = |v.getD slot 0 - x| + (l1Norm v - |v.getD slot 0|) := by
  have hmem : slot ∈ range v.length := mem_range.mpr h
  have hothers : ∑ i ∈ (range v.length).erase slot, |v.getD i 0 - if i = slot then x else 0| =
      ∑ i ∈ (range v.length).erase slot, |v.getD i 0| :=
    sum_congr rfl fun i hi => by rw [if_neg (ne_of_mem_erase hi), sub_zero]
  have hsum := add_sum_erase (range v.length) (fun i => |v.getD i 0|) hmem
  rw [distanceTo, ← add_sum_erase _ _ hmem, hothers, if_pos rfl, l1Norm_eq_sum]
  linarith

/-- A slot is only as far from 1 or from -1 as its absolute value is from 1. -/
lemma exists_sign (y : ℚ) : ∃ sign : ℚ, |sign| = 1 ∧ |y - sign| = |(|y| - 1)| := by
  rcases le_total 0 y with hy | hy
  · exact ⟨1, abs_one, by rw [abs_of_nonneg hy]⟩
  · refine ⟨-1, by rw [abs_neg, abs_one], ?_⟩
    rw [abs_of_nonpos hy, ← abs_neg]
    congr 1
    ring

/-- **One slot makes up the sum**: a vector is close to one slot of 1 or -1 if and only if its sum
is close to 1 and the slot leaves almost nothing to the others. -/
lemma exists_distanceTo_le_iff (h : slot < v.length) :
    (∃ sign : ℚ, |sign| = 1 ∧ v.distanceTo slot sign ≤ tolerance) ↔
      |l1Norm v - 1| ≤ tolerance ∧ 1 + l1Norm v ≤ 2 * |v.getD slot 0| + tolerance := by
  have hle := abs_getD_le_l1Norm v slot
  constructor
  · rintro ⟨sign, hsign, hdistance⟩
    have hreverse := abs_abs_sub_abs_le (v.getD slot 0) sign
    rw [distanceTo_eq h] at hdistance
    rw [hsign] at hreverse
    obtain ⟨hlow, hhigh⟩ := abs_le.mp (hreverse.trans (by linarith : |v.getD slot 0 - sign| ≤
      tolerance - (l1Norm v - |v.getD slot 0|)))
    exact ⟨abs_le.mpr ⟨by linarith, by linarith⟩, by linarith⟩
  · rintro ⟨hnorm, hslot⟩
    obtain ⟨sign, hsign, hdifference⟩ := exists_sign (v.getD slot 0)
    obtain ⟨hlow, hhigh⟩ := abs_le.mp hnorm
    refine ⟨sign, hsign, ?_⟩
    have hclose : |(|v.getD slot 0| - 1)| ≤ tolerance - (l1Norm v - |v.getD slot 0|) :=
      abs_le.mpr ⟨by linarith, by linarith⟩
    rw [distanceTo_eq h, hdifference]
    linarith

/-- Where no slot makes up the sum, at least two contribute to it. -/
lemma exists_two_slots (htolerance : tolerance < 1) (hnorm : |l1Norm v - 1| ≤ tolerance)
    (hslots : ∀ slot < v.length, ¬1 + l1Norm v ≤ 2 * |v.getD slot 0| + tolerance) :
    ∃ i < v.length, ∃ j < v.length, i ≠ j ∧ v.getD i 0 ≠ 0 ∧ v.getD j 0 ≠ 0 ∧
      |v.getD i 0| < 1 ∧ |v.getD j 0| < 1 := by
  obtain ⟨hlow, hhigh⟩ := abs_le.mp hnorm
  have hsmall {slot : ℕ} (h : slot < v.length) : |v.getD slot 0| < 1 := by
    have hslot := not_le.mp (hslots slot h)
    linarith
  obtain ⟨i, hi, hne⟩ : ∃ i < v.length, v.getD i 0 ≠ 0 := by
    by_contra hzero
    push Not at hzero
    have hsum : l1Norm v = 0 := by
      rw [l1Norm_eq_sum]
      exact sum_eq_zero fun i hi => by rw [hzero i (mem_range.mp hi), abs_zero]
    rw [hsum] at hlow
    linarith
  obtain ⟨j, hj, hij, hne'⟩ : ∃ j < v.length, i ≠ j ∧ v.getD j 0 ≠ 0 := by
    by_contra hzero
    push Not at hzero
    -- alone the first slot would be the sum
    have hsum : l1Norm v = |v.getD i 0| := by
      rw [l1Norm_eq_sum]
      exact sum_eq_single_of_mem i (mem_range.mpr hi) fun j hj hne =>
        by rw [hzero j (mem_range.mp hj) hne.symm, abs_zero]
    have hslot := not_le.mp (hslots i hi)
    rw [hsum] at hlow hslot
    linarith
  exact ⟨i, hi, j, hj, hij, hne, hne', hsmall hi, hsmall hj⟩

/-- Whole slots are close to one slot of 1 or -1 only if they are it. -/
lemma distanceTo_le_iff_of_isWhole (hv : v.IsWhole) (hx : x ∈ whole) :
    v.distanceTo slot x ≤ Scalar.tolerance ↔
      ∀ i < v.length, v.getD i 0 = if i = slot then x else 0 := by
  have hentry (i : ℕ) : (if i = slot then x else 0) ∈ whole := by
    split_ifs
    · exact hx
    · exact zero_mem _
  constructor
  · intro hle i hi
    refine (abs_sub_le_tolerance (hv.getD_mem i) (hentry i)).mp (le_trans ?_ hle)
    exact single_le_sum (f := fun i => |v.getD i 0 - if i = slot then x else 0|)
      (fun i _ => abs_nonneg _) (mem_range.mpr hi)
  · intro heq
    have hzero : v.distanceTo slot x = 0 :=
      sum_eq_zero fun i hi => by rw [heq i (mem_range.mp hi), sub_self, abs_zero]
    rw [hzero]
    exact tolerance_pos.le

end Distance

end ExponentVector

namespace Dimension

variable {r : Registry ℚ} {d : Dimension r}

/-- Whether a dimension comes to one primary dimension or the inverse of one, up to the tolerance in
the sum over all slots. -/
def IsNearPrimary (d : Dimension r) : Prop :=
  ∃ slot < primaryCount, ∃ sign : ℚ, |sign| = 1 ∧
    d.primary.distanceTo slot sign ≤ Scalar.tolerance

lemma isPrimary_iff : d.isPrimary = true ↔
    |ExponentVector.l1Norm d.primary - 1| ≤ Scalar.tolerance := by
  unfold isPrimary
  rw [decide_eq_true_iff, abs_rat]

lemma isNearPrimary_iff_exists_slot : d.IsNearPrimary ↔ d.isPrimary = true ∧
    ∃ slot < primaryCount, 1 + ExponentVector.l1Norm d.primary ≤
      2 * |d.primary.getD slot 0| + Scalar.tolerance := by
  have hslot {slot : ℕ} (h : slot < primaryCount) :
      (∃ sign : ℚ, |sign| = 1 ∧ d.primary.distanceTo slot sign ≤ Scalar.tolerance) ↔ _ :=
    ExponentVector.exists_distanceTo_le_iff (h.trans_eq d.length_primary.symm)
  rw [isPrimary_iff]
  constructor
  · rintro ⟨slot, h, hnear⟩
    obtain ⟨hnorm, hlarge⟩ := (hslot h).mp hnear
    exact ⟨hnorm, slot, h, hlarge⟩
  · rintro ⟨hnorm, slot, h, hlarge⟩
    exact ⟨slot, h, (hslot h).mpr ⟨hnorm, hlarge⟩⟩

lemma exists_two_slots_of_isPrimary (h : d.isPrimary = true) (hnear : ¬d.IsNearPrimary) :
    ∃ i < primaryCount, ∃ j < primaryCount, i ≠ j ∧
      d.primary.getD i 0 ≠ 0 ∧ d.primary.getD j 0 ≠ 0 ∧
      |d.primary.getD i 0| < 1 ∧ |d.primary.getD j 0| < 1 := by
  rw [isNearPrimary_iff_exists_slot] at hnear
  have htwo := ExponentVector.exists_two_slots tolerance_lt_one (isPrimary_iff.mp h)
    fun slot hslot hlarge => hnear ⟨h, slot, hslot.trans_eq d.length_primary, hlarge⟩
  rwa [d.length_primary] at htwo

/-- Whole slots do not mix. -/
lemma isPrimary_iff_isNearPrimary_of_isWhole (hd : d.primary.IsWhole) :
    d.isPrimary = true ↔ d.IsNearPrimary := by
  refine ⟨fun h => ?_, fun h => (isNearPrimary_iff_exists_slot.mp h).1⟩
  by_contra hnear
  obtain ⟨i, -, -, -, -, hne, -, hlt, -⟩ := exists_two_slots_of_isPrimary h hnear
  refine hne (eq_of_abs_sub_lt_one (hd.getD_mem i) (zero_mem _) ?_)
  rwa [sub_zero]

/-- **What the test for primary dimensions accepts.** A dimension comes to one primary dimension or
the inverse of one, up to the tolerance, if and only if it passes and one of its slots leaves almost
nothing to the others. One that passes without has two slots strictly between -1 and 1 that are not
0. One with whole slots passes if and only if it is exactly a primary dimension or the inverse of
one. -/
theorem isNearPrimary_iff (d : Dimension r) :
    (d.IsNearPrimary ↔ d.isPrimary = true ∧
      ∃ slot < primaryCount, 1 + ExponentVector.l1Norm d.primary ≤
        2 * |d.primary.getD slot 0| + Scalar.tolerance) ∧
    (d.isPrimary = true → ¬d.IsNearPrimary →
      ∃ i < primaryCount, ∃ j < primaryCount, i ≠ j ∧
        d.primary.getD i 0 ≠ 0 ∧ d.primary.getD j 0 ≠ 0 ∧
        |d.primary.getD i 0| < 1 ∧ |d.primary.getD j 0| < 1) ∧
    (d.primary.IsWhole → (d.isPrimary = true ↔
      ∃ slot < primaryCount, ∃ sign : ℚ, |sign| = 1 ∧
        ∀ i < primaryCount, d.primary.getD i 0 = if i = slot then sign else 0)) := by
  refine ⟨isNearPrimary_iff_exists_slot, exists_two_slots_of_isPrimary, fun hwhole => ?_⟩
  have hsign {sign : ℚ} (h : |sign| = 1) : sign ∈ whole := by
    rcases (abs_eq zero_le_one).mp h with rfl | rfl
    · exact one_mem _
    · exact neg_mem (one_mem _)
  rw [isPrimary_iff_isNearPrimary_of_isWhole hwhole]
  constructor
  · rintro ⟨slot, hslot, sign, habs, hle⟩
    rw [ExponentVector.distanceTo_le_iff_of_isWhole hwhole (hsign habs), d.length_primary] at hle
    exact ⟨slot, hslot, sign, habs, hle⟩
  · rintro ⟨slot, hslot, sign, habs, heq⟩
    refine ⟨slot, hslot, sign, habs, ?_⟩
    rwa [ExponentVector.distanceTo_le_iff_of_isWhole hwhole (hsign habs), d.length_primary]

/-- The geometric mean of a mass and a length is taken for primary. -/
theorem not_isNearPrimary_of_isPrimary : ¬∀ (r : Registry ℚ), r.IsAccepted →
    ∀ d : Dimension r, d.isPrimary = true ↔ d.IsNearPrimary := by
  intro h
  have hnear := (h _ Registry.Bundled.isAccepted_registry
    (Registry.Bundled.dimension "M^1/2.L^1/2")).mp (by decide +kernel)
  obtain ⟨-, slot, hslot, hlarge⟩ := isNearPrimary_iff_exists_slot.mp hnear
  have hnone : ∀ slot < primaryCount,
      ¬1 + ExponentVector.l1Norm (Registry.Bundled.dimension "M^1/2.L^1/2").primary ≤
        2 * |(Registry.Bundled.dimension "M^1/2.L^1/2").primary.getD slot 0| +
          Scalar.tolerance := by
    decide +kernel
  exact hnone slot hslot hlarge

end Dimension

end Metrology
