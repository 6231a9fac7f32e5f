import Mathlib
import Metrology.ExponentVector
import Metrology.Scalar.Exact
import Metrology.Proofs.Traversal

/-!
The scalar operations at the rationals, said in terms of the field of rationals, and the whole
numbers among them.
-/

namespace Metrology

@[simp] lemma abs_rat (x : ℚ) : Scalar.abs x = |x| := by
  unfold Scalar.abs
  split_ifs with h
  · exact (abs_of_neg h).symm
  · exact (abs_of_nonneg (not_lt.mp h)).symm

@[simp] lemma ofInt_rat (n : ℤ) : (Scalar.ofInt n : ℚ) = n := rfl

@[simp] lemma ofNat_rat (n : ℕ) : (Scalar.ofNat n : ℚ) = n := rfl

@[simp] lemma floor_rat (x : ℚ) : Scalar.floor x = ⌊x⌋ := rfl

@[simp] lemma isFinite_rat (x : ℚ) : Scalar.isFinite x = true := rfl

lemma tolerance_rat : (Scalar.tolerance : ℚ) = 1 / 10 ^ 9 := by
  unfold Scalar.tolerance; norm_num

lemma tolerance_pos : (0 : ℚ) < Scalar.tolerance := by
  rw [tolerance_rat]
  norm_num

lemma tolerance_lt_one : (Scalar.tolerance : ℚ) < 1 := by
  rw [tolerance_rat]
  norm_num

@[simp] lemma round_rat (x : ℚ) : Scalar.round x = round x := by
  have hle := Int.floor_le x
  have hlt := Int.lt_floor_add_one x
  have hhalf : (0.5 : ℚ) = 1 / 2 := by norm_num
  show (if (0.5 : ℚ) ≤ x - ⌊x⌋ then (⌊x⌋ : ℚ) + 1 else ⌊x⌋) = round x
  rcases le_or_gt (0.5 : ℚ) (x - ⌊x⌋) with h | h
  · have hr : round x = ⌊x⌋ + 1 := by
      rw [round_eq_iff]
      constructor <;> push_cast <;> linarith
    rw [if_pos h, hr]
    push_cast
    ring
  · have hr : round x = ⌊x⌋ := by
      rw [round_eq_iff]
      constructor <;> linarith
    rw [if_neg (not_le.mpr h), hr]

/-- Powers with whole exponents are those of the field. -/
lemma power_intCast (x : ℚ) (n : ℤ) : Scalar.power x (n : ℚ) = x ^ n := by
  show rationalPower x n = x ^ n
  unfold rationalPower
  rw [if_pos (Rat.den_intCast n), Rat.num_intCast]
  rfl

/-- The whole numbers. -/
def whole : Subring ℚ := (Int.castRingHom ℚ).range

lemma mem_whole {x : ℚ} : x ∈ whole ↔ ∃ n : ℤ, (n : ℚ) = x := Iff.rfl

lemma intCast_mem_whole (n : ℤ) : (n : ℚ) ∈ whole := ⟨n, rfl⟩

lemma mem_whole_iff_den {x : ℚ} : x ∈ whole ↔ x.den = 1 :=
  ⟨fun ⟨n, hn⟩ => hn ▸ Rat.den_intCast n, fun h => ⟨x.num, Rat.coe_int_num_of_den_eq_one h⟩⟩

instance (x : ℚ) : Decidable (x ∈ whole) := decidable_of_iff _ mem_whole_iff_den.symm

lemma abs_mem_whole {x : ℚ} (h : x ∈ whole) : |x| ∈ whole := by
  rcases abs_choice x with hx | hx
  · rwa [hx]
  · rw [hx]
    exact neg_mem h

/-- Of two whole numbers the smaller is smaller by 1. -/
lemma add_one_le_of_lt {x y : ℚ} (hx : x ∈ whole) (hy : y ∈ whole) (h : x < y) : x + 1 ≤ y := by
  obtain ⟨m, rfl⟩ := mem_whole.mp hx
  obtain ⟨n, rfl⟩ := mem_whole.mp hy
  exact_mod_cast Int.add_one_le_iff.mpr (by exact_mod_cast h)

/-- Whole numbers closer than 1 are equal. -/
lemma eq_of_abs_sub_lt_one {x y : ℚ} (hx : x ∈ whole) (hy : y ∈ whole) (h : |x - y| < 1) :
    x = y := by
  obtain ⟨m, rfl⟩ := mem_whole.mp hx
  obtain ⟨n, rfl⟩ := mem_whole.mp hy
  have h' : |m - n| < 1 := by exact_mod_cast h
  rw [Int.abs_lt_one_iff, sub_eq_zero] at h'
  rw [h']

/-- Whole numbers agree up to the tolerance only if they are equal. -/
lemma abs_sub_le_tolerance {x y : ℚ} (hx : x ∈ whole) (hy : y ∈ whole) :
    |x - y| ≤ Scalar.tolerance ↔ x = y := by
  rw [tolerance_rat]
  constructor
  · intro h
    exact eq_of_abs_sub_lt_one hx hy (lt_of_le_of_lt h (by norm_num))
  · rintro rfl
    norm_num

namespace ExponentVector

/-- Whether all exponents are whole. -/
def IsWhole (v : ExponentVector ℚ) : Prop := ∀ x ∈ v, x ∈ whole

instance (v : ExponentVector ℚ) : Decidable v.IsWhole :=
  inferInstanceAs (Decidable (∀ x ∈ v, x ∈ whole))

lemma IsWhole.getD_mem {v : ExponentVector ℚ} (h : v.IsWhole) (i : ℕ) : v.getD i 0 ∈ whole :=
  getD_of_forall_mem whole.zero_mem h i

lemma isWhole_of_getD {v : ExponentVector ℚ} (h : ∀ i, v.getD i 0 ∈ whole) : v.IsWhole := by
  intro x hx
  obtain ⟨i, hi, rfl⟩ := List.getElem_of_mem hx
  rw [← List.getD_eq_getElem v 0 hi]
  exact h i

end ExponentVector

end Metrology
