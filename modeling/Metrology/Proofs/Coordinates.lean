import Mathlib
import Metrology.Proofs.Rational

/-!
Exponent vectors over the rationals, entry by entry. An entry that a vector does not have counts as
0, so that an entry of a linear combination is a sum over all exponents.
-/

namespace Metrology

namespace ExponentVector

open Finset

lemma ext_getD {v w : ExponentVector ℚ} (hl : v.length = w.length)
    (h : ∀ i < v.length, v.getD i 0 = w.getD i 0) : v = w := by
  refine List.ext_getElem hl fun i hv hw => ?_
  rw [← List.getD_eq_getElem v 0 hv, ← List.getD_eq_getElem w 0 hw]
  exact h i hv

lemma getD_of_length_le {v : ExponentVector ℚ} {i : ℕ} (h : v.length ≤ i) : v.getD i 0 = 0 :=
  List.getD_eq_default _ _ h

lemma lt_length_of_getD_ne_zero {v : ExponentVector ℚ} {i : ℕ} (h : v.getD i 0 ≠ 0) :
    i < v.length := by
  by_contra hge
  exact h (getD_of_length_le (not_lt.mp hge))

@[simp] lemma getD_zeros (n i : ℕ) : (zeros n : ExponentVector ℚ).getD i 0 = 0 := by
  rcases lt_or_ge i n with h | h
  · rw [List.getD_eq_getElem _ _ (by simpa using h)]
    simp [zeros]
  · exact getD_of_length_le (by simpa using h)

lemma getD_zipWith {f : ℚ → ℚ → ℚ} (hf : f 0 0 = 0) {v w : ExponentVector ℚ}
    (hl : v.length = w.length) (i : ℕ) :
    (List.zipWith f v w).getD i 0 = f (v.getD i 0) (w.getD i 0) := by
  rcases lt_or_ge i v.length with h | h
  · rw [List.getD_eq_getElem _ _ (by simp [← hl, h]), List.getD_eq_getElem _ _ h,
      List.getD_eq_getElem _ _ (hl ▸ h), List.getElem_zipWith]
  · rw [getD_of_length_le h, getD_of_length_le (v := w) (by omega),
      getD_of_length_le (v := List.zipWith f v w) (by simp [← hl, h]), hf]

lemma getD_add {v w : ExponentVector ℚ} (hl : v.length = w.length) (i : ℕ) :
    (add v w).getD i 0 = v.getD i 0 + w.getD i 0 := getD_zipWith (add_zero 0) hl i

lemma getD_subtract {v w : ExponentVector ℚ} (hl : v.length = w.length) (i : ℕ) :
    (subtract v w).getD i 0 = v.getD i 0 - w.getD i 0 := getD_zipWith (sub_zero 0) hl i

/-- A vector is zero up to a tolerance if every entry is, whether it has the entry or not. -/
lemma isZero_iff {v : ExponentVector ℚ} {tolerance : ℚ} (h : 0 ≤ tolerance) :
    isZero v tolerance = true ↔ ∀ i, |v.getD i 0| ≤ tolerance := by
  simp only [isZero, List.all_eq_true, decide_eq_true_eq, abs_rat]
  constructor
  · intro hv i
    rcases lt_or_ge i v.length with hi | hi
    · rw [List.getD_eq_getElem _ _ hi]
      exact hv _ (List.getElem_mem hi)
    · rw [getD_of_length_le hi, abs_zero]
      exact h
  · intro hv x hx
    obtain ⟨i, hi, rfl⟩ := List.getElem_of_mem hx
    rw [← List.getD_eq_getElem v 0 hi]
    exact hv i

lemma getD_set_zero (v : ExponentVector ℚ) (i j : ℕ) :
    (v.set i 0).getD j 0 = if j = i then 0 else v.getD j 0 := by
  simp only [List.getD_eq_getElem?_getD, List.getElem?_set]
  split_ifs <;> simp_all

lemma length_addMultiple {α : Type} [Scalar α] (x : α) (v w : ExponentVector α) :
    (addMultiple x v w).length = v.length := by
  induction v generalizing w with
  | nil => rfl
  | cons y v ih => cases w <;> simp [addMultiple, ih]

lemma getD_addMultiple (x : ℚ) {v : ExponentVector ℚ} (w : ExponentVector ℚ) {i : ℕ}
    (h : i < v.length) : (addMultiple x v w).getD i 0 = v.getD i 0 + x * w.getD i 0 := by
  induction v generalizing w i with
  | nil => simp at h
  | cons y v ih =>
    cases w <;> cases i <;> simp_all [addMultiple]

lemma length_combineOnto {α : Type} [Scalar α] (s e : ExponentVector α)
    (basis : List (ExponentVector α)) :
    (combineOnto s e basis).length = s.length := by
  induction e generalizing s basis with
  | nil => rfl
  | cons x e ih =>
    rw [combineOnto, ih]
    split
    · rfl
    · exact length_addMultiple _ _ _

lemma getD_combineOnto {s : ExponentVector ℚ} (e : ExponentVector ℚ)
    (basis : List (ExponentVector ℚ)) {j : ℕ} (h : j < s.length) :
    (combineOnto s e basis).getD j 0 =
      s.getD j 0 + ∑ i ∈ range e.length, e.getD i 0 * (basis.getD i []).getD j 0 := by
  induction e generalizing s basis with
  | nil => simp [combineOnto]
  | cons x e ih =>
    have hhead : basis.headD [] = basis.getD 0 [] := by cases basis <;> rfl
    have htail : ∀ i, basis.tail.getD i [] = basis.getD (i + 1) [] := by cases basis <;> simp
    have hstep : (if x == 0 then s else addMultiple x s (basis.headD [])).getD j 0 =
        s.getD j 0 + x * (basis.getD 0 []).getD j 0 := by
      by_cases hx : x = 0
      · simp [hx]
      · rw [if_neg (by simpa using hx), getD_addMultiple x _ h, hhead]
    have hlen : j < (if x == 0 then s else addMultiple x s (basis.headD [])).length := by
      split
      · exact h
      · rw [length_addMultiple]; exact h
    rw [combineOnto, ih _ hlen, hstep, List.length_cons, sum_range_succ']
    simp only [htail, List.getD_cons_succ, List.getD_cons_zero]
    ring

@[simp] lemma length_combine {α : Type} [Scalar α] (e : ExponentVector α)
    (basis : List (ExponentVector α)) (n : ℕ) : (combine e basis n).length = n := by
  rw [combine, length_combineOnto, length_zeros]

/-- An entry of a linear combination is the sum of the entries of its parts. -/
lemma getD_combine (e : ExponentVector ℚ) (basis : List (ExponentVector ℚ)) {n j : ℕ}
    (h : j < n) : (combine e basis n).getD j 0 =
      ∑ i ∈ range e.length, e.getD i 0 * (basis.getD i []).getD j 0 := by
  rw [combine, getD_combineOnto _ _ (by simpa using h), getD_zeros, zero_add]

/-! ### Sums of absolute values -/

lemma l1Norm_rat (v : ExponentVector ℚ) : l1Norm v = (v.map abs).sum := by
  have hfold : ∀ s : ℚ, v.foldl (fun sum x => sum + Scalar.abs x) s = s + (v.map abs).sum := by
    induction v with
    | nil => simp
    | cons x v ih =>
      intro s
      rw [List.foldl_cons, ih, abs_rat, List.map_cons, List.sum_cons]
      ring
  rw [l1Norm, hfold, zero_add]

lemma l1Norm_eq_sum (v : ExponentVector ℚ) :
    l1Norm v = ∑ i ∈ range v.length, |v.getD i 0| := by
  rw [l1Norm_rat]
  induction v with
  | nil => rfl
  | cons x v ih =>
    rw [List.map_cons, List.sum_cons, ih, List.length_cons, sum_range_succ']
    simp only [List.getD_cons_succ, List.getD_cons_zero]
    ring

lemma l1Norm_nonneg (v : ExponentVector ℚ) : 0 ≤ l1Norm v := by
  rw [l1Norm_eq_sum]
  exact sum_nonneg fun i _ => abs_nonneg _

/-- No entry exceeds the sum of all. -/
lemma abs_getD_le_l1Norm (v : ExponentVector ℚ) (i : ℕ) : |v.getD i 0| ≤ l1Norm v := by
  rcases lt_or_ge i v.length with hi | hi
  · rw [l1Norm_eq_sum]
    exact single_le_sum (f := fun i => |v.getD i 0|) (fun i _ => abs_nonneg _) (mem_range.mpr hi)
  · rw [getD_of_length_le hi, abs_zero]
    exact l1Norm_nonneg v

lemma l1Norm_mem_whole {v : ExponentVector ℚ} (h : v.IsWhole) : l1Norm v ∈ whole := by
  rw [l1Norm_eq_sum]
  exact sum_mem fun i _ => abs_mem_whole (h.getD_mem i)

/-- Vectors are close in every entry if they are in the sum over all entries. -/
lemma isClose_of_l1Norm {v w : ExponentVector ℚ} (hl : v.length = w.length) {tolerance : ℚ}
    (h : l1Norm (subtract v w) ≤ tolerance) : isClose v w tolerance = true := by
  have hall : (List.zipWith (fun x y => decide (Scalar.abs (x - y) ≤ tolerance)) v w) =
      (subtract v w).map fun x => decide (|x| ≤ tolerance) := by
    simp only [subtract, List.map_zipWith, abs_rat]
  unfold isClose
  rw [hall, Bool.and_eq_true, beq_iff_eq, List.all_map, List.all_eq_true]
  refine ⟨hl, fun x hx => decide_eq_true ?_⟩
  obtain ⟨i, hi, rfl⟩ := List.getElem_of_mem hx
  rw [← List.getD_eq_getElem _ 0 hi]
  exact (abs_getD_le_l1Norm _ i).trans h

lemma isClose_self (v : ExponentVector ℚ) : isClose v v Scalar.tolerance = true := by
  unfold isClose
  rw [Bool.and_eq_true, beq_iff_eq, List.all_eq_true]
  refine ⟨rfl, fun b hb => ?_⟩
  rw [List.zipWith_self] at hb
  obtain ⟨x, -, rfl⟩ := List.mem_map.mp hb
  simp [tolerance_rat]

/-- Whole vectors are close if they are equal. -/
lemma isClose_iff {v w : ExponentVector ℚ} (hl : v.length = w.length) (hv : v.IsWhole)
    (hw : w.IsWhole) : isClose v w Scalar.tolerance = true ↔ v = w := by
  have hentry : ∀ i (hi : i < v.length) (hi' : i < w.length),
      |v[i] - w[i]| ≤ Scalar.tolerance ↔ v[i] = w[i] := fun i hi hi' =>
    abs_sub_le_tolerance (hv _ (List.getElem_mem hi)) (hw _ (List.getElem_mem hi'))
  constructor
  · intro hclose
    unfold isClose at hclose
    rw [Bool.and_eq_true, List.all_eq_true] at hclose
    refine List.ext_getElem hl fun i hi hi' => (hentry i hi hi').mp ?_
    have hzip : i < (List.zipWith
        (fun x y => decide (Scalar.abs (x - y) ≤ Scalar.tolerance)) v w).length := by
      simp [hi, hi']
    have hmem := hclose.2 _ (List.getElem_mem hzip)
    rw [List.getElem_zipWith, abs_rat] at hmem
    exact of_decide_eq_true hmem
  · rintro rfl
    exact isClose_self v

/-! ### Gathering -/

@[simp] lemma sumAt_nil (i : ℕ) : sumAt i ([] : List (ℕ × ℚ)) = 0 := rfl

lemma sumAt_cons (i : ℕ) (p : ℕ × ℚ) (marked : List (ℕ × ℚ)) :
    sumAt i (p :: marked) = (if p.1 = i then p.2 else 0) + sumAt i marked := by
  have key : ∀ (l : List (ℕ × ℚ)) (s : ℚ),
      l.foldl (fun sum q => if q.1 = i then sum + q.2 else sum) s = s + sumAt i l := by
    intro l
    induction l with
    | nil => simp [sumAt]
    | cons q l ih =>
      intro s
      simp only [sumAt, List.foldl_cons]
      rw [ih, ih]
      split_ifs <;> ring
  simp only [sumAt, List.foldl_cons]
  rw [key]
  split_ifs <;> simp [sumAt]

lemma getD_gather {n i : ℕ} (h : i < n) (marked : List (ℕ × ℚ)) :
    (gather n marked).getD i 0 = sumAt i marked := by
  rw [List.getD_eq_getElem _ _ (by simpa using h)]
  simp [gather]

lemma sumAt_mem_whole (i : ℕ) {marked : List (ℕ × ℚ)} (h : ∀ p ∈ marked, p.2 ∈ whole) :
    sumAt i marked ∈ whole := by
  induction marked with
  | nil => exact zero_mem _
  | cons p l ih =>
    rw [sumAt_cons]
    refine add_mem ?_ (ih fun q hq => h q (List.mem_cons_of_mem _ hq))
    split_ifs
    · exact h p List.mem_cons_self
    · exact zero_mem _

lemma isWhole_gather (n : ℕ) {marked : List (ℕ × ℚ)} (h : ∀ p ∈ marked, p.2 ∈ whole) :
    IsWhole (gather n marked) := by
  intro x hx
  obtain ⟨i, _, rfl⟩ := List.mem_map.mp hx
  exact sumAt_mem_whole i h

end ExponentVector

end Metrology
