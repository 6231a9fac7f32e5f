import Mathlib
import Metrology.Linear.Elimination
import Metrology.Proofs.Rational

/-!
Elimination over the rationals: what is returned solves the system, which is then not singular; and
a small system of whole numbers is only given up if it is singular.

A step keeps the solutions, and the determinant up to its sign and the pivot. The pivot is the
largest leading coefficient, so a step at most doubles the coefficients. A system that is given up
therefore has a determinant close to zero, which for whole numbers is zero.
-/

namespace Metrology

open Matrix

lemma pivotTolerance_rat : (pivotTolerance : ℚ) = 1 / 10 ^ 10 := by
  unfold pivotTolerance; norm_num

/-! ### Systems -/

/-- A system of as many equations as unknowns. -/
structure IsSystem (m : ℕ) (eqs : List (Equation ℚ)) : Prop where
  length_eq : eqs.length = m
  width : ∀ e ∈ eqs, e.coefficients.length = m

/-- The left side of an equation. -/
def Equation.left (e : Equation ℚ) (xs : List ℚ) : ℚ :=
  (List.zipWith (· * ·) e.coefficients xs).sum

def Solves (eqs : List (Equation ℚ)) (xs : List ℚ) : Prop := ∀ e ∈ eqs, e.left xs = e.value

/-- The coefficients of a system; those that are missing are 0. -/
def coefficientMatrix (m : ℕ) (eqs : List (Equation ℚ)) : Matrix (Fin m) (Fin m) ℚ :=
  .of fun i j => ((eqs.map Equation.coefficients).getD i []).getD j 0

lemma coefficientMatrix_apply {m : ℕ} {eqs : List (Equation ℚ)} (i : Fin m)
    (hi : (i : ℕ) < eqs.length) (j : Fin m) :
    coefficientMatrix m eqs i j = eqs[(i : ℕ)].coefficients.getD j 0 := by
  simp [coefficientMatrix, hi]

lemma coefficientMatrix_zero_apply {m : ℕ} (e : Equation ℚ) (eqs : List (Equation ℚ))
    (j : Fin (m + 1)) : coefficientMatrix (m + 1) (e :: eqs) 0 j = e.coefficients.getD j 0 := rfl

lemma coefficientMatrix_succ_apply {m : ℕ} (e : Equation ℚ) {eqs : List (Equation ℚ)}
    (i : Fin m) (hi : (i : ℕ) < eqs.length) (j : Fin (m + 1)) :
    coefficientMatrix (m + 1) (e :: eqs) i.succ j = eqs[(i : ℕ)].coefficients.getD j 0 :=
  @coefficientMatrix_apply _ (e :: eqs) i.succ (Nat.succ_lt_succ hi) j

lemma getD_zero_coefficients (e : Equation ℚ) : e.coefficients.getD 0 0 = e.leading := by
  rcases e with ⟨_ | ⟨x, xs⟩, v⟩ <;> rfl

lemma sum_zipWith_mul {m : ℕ} {xs : List ℚ} (h : xs.length = m) (ys : List ℚ) :
    (List.zipWith (· * ·) xs ys).sum = ∑ j : Fin m, xs.getD j 0 * ys.getD j 0 := by
  subst h
  induction xs generalizing ys with
  | nil => simp
  | cons x xs ih =>
    rcases ys with _ | ⟨y, ys⟩
    · simp
    · rw [List.zipWith_cons_cons, List.sum_cons, ih, List.length_cons, Fin.sum_univ_succ]
      rfl

lemma remainingValue_eq (value : ℚ) (xs ys : List ℚ) :
    remainingValue value xs ys = value - (List.zipWith (· * ·) xs ys).sum := by
  induction xs generalizing value ys with
  | nil => simp [remainingValue]
  | cons x xs ih =>
    rcases ys with _ | ⟨y, ys⟩
    · simp [remainingValue]
    · rw [remainingValue, ih, List.zipWith_cons_cons, List.sum_cons]
      ring

lemma Equation.left_cons {e : Equation ℚ} {m : ℕ} (h : e.coefficients.length = m + 1) (x : ℚ)
    (xs : List ℚ) : e.left (x :: xs) = e.leading * x + e.tail.left xs := by
  rcases e with ⟨_ | ⟨y, ys⟩, v⟩
  · simp at h
  · simp [left, leading, tail]

/-! ### Choosing a pivot -/

lemma pivotFrom_spec (eqs : List (Equation ℚ)) (index best : ℕ) (largest : ℚ) :
    (pivotFrom index best largest eqs = best ∧ ∀ e ∈ eqs, |e.leading| ≤ largest) ∨
      ∃ (j : ℕ) (hj : j < eqs.length), pivotFrom index best largest eqs = index + j ∧
        largest < |eqs[j].leading| ∧ ∀ e ∈ eqs, |e.leading| ≤ |eqs[j].leading| := by
  induction eqs generalizing index best largest with
  | nil => exact Or.inl ⟨rfl, by simp⟩
  | cons e eqs ih =>
    simp only [pivotFrom, abs_rat]
    split_ifs with h
    · rcases ih (index + 1) index |e.leading| with ⟨heq, hle⟩ | ⟨j, hj, heq, hlt, hle⟩
      · exact Or.inr ⟨0, by simp, heq, h, by simpa using hle⟩
      · exact Or.inr ⟨j + 1, by simpa using hj, by rw [heq]; omega, h.trans hlt,
          by simpa using ⟨hlt.le, hle⟩⟩
    · have hle' : |e.leading| ≤ largest := not_lt.mp h
      rcases ih (index + 1) best largest with ⟨heq, hle⟩ | ⟨j, hj, heq, hlt, hle⟩
      · exact Or.inl ⟨heq, by simpa using ⟨hle', hle⟩⟩
      · exact Or.inr ⟨j + 1, by simpa using hj, by rw [heq]; omega, hlt,
          by simpa using ⟨hle'.trans hlt.le, hle⟩⟩

lemma pivoted_spec (e : Equation ℚ) (eqs : List (Equation ℚ)) :
    (pivoted e eqs = (e, eqs) ∧ ∀ e' ∈ eqs, |e'.leading| ≤ |e.leading|) ∨
      ∃ (j : ℕ) (hj : j < eqs.length), pivoted e eqs = (eqs[j], eqs.set j e) ∧
        |e.leading| ≤ |eqs[j].leading| ∧ ∀ e' ∈ eqs, |e'.leading| ≤ |eqs[j].leading| := by
  unfold pivoted
  rw [abs_rat]
  rcases pivotFrom_spec eqs 1 0 |e.leading| with ⟨heq, hle⟩ | ⟨j, hj, heq, hlt, hle⟩
  · exact Or.inl ⟨by rw [heq], hle⟩
  · refine Or.inr ⟨j, hj, ?_, hlt.le, hle⟩
    rw [heq, Nat.add_comm 1 j]
    simp [hj]

lemma pivoted_perm {e pivot : Equation ℚ} {eqs others : List (Equation ℚ)}
    (h : pivoted e eqs = (pivot, others)) : (pivot :: others).Perm (e :: eqs) := by
  rcases pivoted_spec e eqs with ⟨heq, -⟩ | ⟨j, hj, heq, -, -⟩
  · obtain ⟨rfl, rfl⟩ := Prod.mk.inj (heq.symm.trans h)
    exact List.Perm.refl _
  · obtain ⟨rfl, rfl⟩ := Prod.mk.inj (heq.symm.trans h)
    calc (eqs[j] :: eqs.set j e).Perm (eqs[j] :: e :: eqs.eraseIdx j) :=
          (List.set_perm_cons_eraseIdx hj e).cons _
      _ |>.Perm (e :: eqs[j] :: eqs.eraseIdx j) := List.Perm.swap _ _ _
      _ |>.Perm (e :: eqs) := (List.getElem_cons_eraseIdx_perm hj).cons _

lemma abs_leading_le {e pivot : Equation ℚ} {eqs others : List (Equation ℚ)}
    (h : pivoted e eqs = (pivot, others)) :
    ∀ e' ∈ pivot :: others, |e'.leading| ≤ |pivot.leading| := by
  intro e' he'
  have hmem := (pivoted_perm h).mem_iff.mp he'
  rcases pivoted_spec e eqs with ⟨heq, hle⟩ | ⟨j, hj, heq, hfirst, hle⟩
  all_goals
    obtain ⟨rfl, rfl⟩ := Prod.mk.inj (heq.symm.trans h)
    rcases List.mem_cons.mp hmem with rfl | hmem
  · exact le_rfl
  · exact hle e' hmem
  · exact hfirst
  · exact hle e' hmem

/-- To change the places of two equations changes the sign of the determinant only. -/
lemma abs_det_pivoted {m : ℕ} {e pivot : Equation ℚ} {eqs others : List (Equation ℚ)}
    (h : pivoted e eqs = (pivot, others)) (hm : eqs.length = m) :
    |(coefficientMatrix (m + 1) (e :: eqs)).det| =
      |(coefficientMatrix (m + 1) (pivot :: others)).det| := by
  rcases pivoted_spec e eqs with ⟨heq, -⟩ | ⟨j, hj, heq, -, -⟩
  · obtain ⟨rfl, rfl⟩ := Prod.mk.inj (heq.symm.trans h)
    rfl
  · obtain ⟨rfl, rfl⟩ := Prod.mk.inj (heq.symm.trans h)
    let k : Fin (m + 1) := Fin.succ ⟨j, hm ▸ hj⟩
    have hswap : coefficientMatrix (m + 1) (eqs[j] :: eqs.set j e) =
        (coefficientMatrix (m + 1) (e :: eqs)).submatrix (Equiv.swap 0 k) id := by
      ext i l
      rw [submatrix_apply, id]
      refine Fin.cases ?_ (fun i => ?_) i
      · rw [Equiv.swap_apply_left, coefficientMatrix_zero_apply,
          coefficientMatrix_succ_apply _ _ hj]
      · rw [coefficientMatrix_succ_apply _ _ (by simp [hm, i.isLt])]
        rcases eq_or_ne i ⟨j, hm ▸ hj⟩ with rfl | hi
        · rw [Equiv.swap_apply_right, coefficientMatrix_zero_apply]
          simp
        · rw [Equiv.swap_apply_of_ne_of_ne (Fin.succ_ne_zero _)
            (fun hk => hi (Fin.succ_inj.mp hk)), coefficientMatrix_succ_apply _ _ (hm ▸ i.isLt),
            List.getElem_set_ne (fun hk => hi (Fin.ext hk.symm))]
    rw [hswap, det_permute, Equiv.Perm.sign_swap (Fin.succ_ne_zero _).symm]
    simp

/-! ### One step -/

section Step

variable {m : ℕ} {e pivot : Equation ℚ}

lemma getD_eliminated (hp : pivot.coefficients.length = m + 1)
    (he : e.coefficients.length = m + 1) (j : ℕ) :
    (eliminated pivot e).coefficients.getD j 0 =
      e.coefficients.getD (j + 1) 0 -
        e.leading / pivot.leading * pivot.coefficients.getD (j + 1) 0 := by
  rcases pivot with ⟨_ | ⟨p, ps⟩, v⟩
  · simp at hp
  rcases e with ⟨_ | ⟨x, xs⟩, w⟩
  · simp at he
  have hlength : xs.length = ps.length := by
    simp only [List.length_cons] at hp he
    omega
  unfold eliminated
  dsimp only
  split_ifs with h
  · rw [beq_iff_eq.mp h]
    simp [Equation.tail]
  · rcases lt_or_ge j xs.length with hj | hj
    · simp [Equation.tail, Equation.minus, hj, hlength ▸ hj]
    · simp [Equation.tail, Equation.minus, hj, hlength ▸ hj]

lemma length_eliminated (hp : pivot.coefficients.length = m + 1)
    (he : e.coefficients.length = m + 1) : (eliminated pivot e).coefficients.length = m := by
  unfold eliminated
  dsimp only
  split_ifs <;> simp [Equation.tail, Equation.minus, hp, he]

/-- An equation less a multiple of one that holds is the equation without its first unknown. -/
lemma left_eliminated_iff (hp : pivot.coefficients.length = m + 1)
    (he : e.coefficients.length = m + 1) (hne : pivot.leading ≠ 0) {x : ℚ} {xs : List ℚ}
    (hx : pivot.left (x :: xs) = pivot.value) :
    (eliminated pivot e).left xs = (eliminated pivot e).value ↔ e.left (x :: xs) = e.value := by
  have hleft : (eliminated pivot e).left xs =
      e.tail.left xs - e.leading / pivot.leading * pivot.tail.left xs := by
    unfold Equation.left
    rw [sum_zipWith_mul (length_eliminated hp he),
      sum_zipWith_mul (m := m) (by simp [Equation.tail, he]),
      sum_zipWith_mul (m := m) (by simp [Equation.tail, hp]), Finset.mul_sum,
      ← Finset.sum_sub_distrib]
    refine Finset.sum_congr rfl fun j _ => ?_
    rw [getD_eliminated hp he]
    simp only [Equation.tail, List.getD_eq_getElem?_getD, List.getElem?_tail]
    ring
  have hvalue : (eliminated pivot e).value =
      e.value - e.leading / pivot.leading * pivot.value := by
    unfold eliminated
    dsimp only
    split_ifs with h
    · rw [beq_iff_eq.mp h, zero_mul, sub_zero]
      rfl
    · rfl
  have hratio := div_mul_cancel₀ e.leading hne
  rw [Equation.left_cons hp] at hx
  rw [hleft, hvalue, Equation.left_cons he, ← hx]
  constructor
  · intro h
    linear_combination h - x * hratio
  · intro h
    linear_combination h + x * hratio

lemma IsSystem.eliminated {others : List (Equation ℚ)} (h : IsSystem (m + 1) (pivot :: others)) :
    IsSystem m (others.map (eliminated pivot)) := by
  refine ⟨by simpa using h.length_eq, fun e' he' => ?_⟩
  obtain ⟨e, he, rfl⟩ := List.mem_map.mp he'
  exact length_eliminated (h.width _ List.mem_cons_self) (h.width _ (List.mem_cons_of_mem _ he))

/-- To take multiples of the pivot equation from the others keeps the determinant. -/
lemma det_eliminated {others : List (Equation ℚ)} (h : IsSystem (m + 1) (pivot :: others))
    (hne : pivot.leading ≠ 0) :
    (coefficientMatrix (m + 1) (pivot :: others)).det =
      pivot.leading * (coefficientMatrix m (others.map (eliminated pivot))).det := by
  have hlength : others.length = m := by simpa using h.length_eq
  let ratio : Fin (m + 1) → ℚ :=
    Fin.cons 0 fun i => coefficientMatrix (m + 1) (pivot :: others) i.succ 0 / pivot.leading
  let B : Matrix (Fin (m + 1)) (Fin (m + 1)) ℚ := .of fun i j =>
    coefficientMatrix (m + 1) (pivot :: others) i j - ratio i * pivot.coefficients.getD j 0
  have hdet : (coefficientMatrix (m + 1) (pivot :: others)).det = B.det := by
    refine det_eq_of_forall_row_eq_smul_add_const ratio 0 rfl fun i j => ?_
    simp [B, ratio, coefficientMatrix_zero_apply]
  have hcorner : B 0 0 = pivot.leading := by
    simp [B, ratio, coefficientMatrix_zero_apply, ← getD_zero_coefficients]
  have hcolumn : ∀ i : Fin m, B i.succ 0 = 0 := by
    intro i
    simp [B, ratio, getD_zero_coefficients, hne, -List.getD_eq_getElem?_getD]
  have hminor : B.submatrix (Fin.succAbove 0) Fin.succ =
      coefficientMatrix m (others.map (eliminated pivot)) := by
    ext i j
    have hi : (i : ℕ) < others.length := hlength ▸ i.isLt
    have hrow := h.width _ (List.mem_cons_of_mem _ (List.getElem_mem hi))
    rw [coefficientMatrix_apply i (by simpa using hi), List.getElem_map,
      getD_eliminated (h.width _ List.mem_cons_self) hrow, ← getD_zero_coefficients others[(i : ℕ)]]
    simp only [submatrix_apply, Fin.zero_succAbove, B, ratio, of_apply, Fin.cons_succ,
      coefficientMatrix_succ_apply _ _ hi]
    rfl
  rw [hdet, det_succ_column_zero, Fin.sum_univ_succ, hminor, hcorner]
  simp only [hcolumn]
  simp

end Step

/-! ### The whole run -/

section Run

variable {m : ℕ} {eqs : List (Equation ℚ)}

lemma triangular_succ (h : IsSystem (m + 1) eqs) :
    ∃ pivot others, IsSystem (m + 1) (pivot :: others) ∧
      (∀ e, e ∈ pivot :: others ↔ e ∈ eqs) ∧
      (∀ e ∈ pivot :: others, |e.leading| ≤ |pivot.leading|) ∧
      |(coefficientMatrix (m + 1) eqs).det| =
        |(coefficientMatrix (m + 1) (pivot :: others)).det| ∧
      triangular (m + 1) eqs = if |pivot.leading| < pivotTolerance then none
        else (triangular m (others.map (eliminated pivot))).map (pivot :: ·) := by
  rcases eqs with _ | ⟨e, eqs⟩
  · simpa using h.length_eq
  obtain ⟨pivot, others, hpivot⟩ : ∃ pivot others, pivoted e eqs = (pivot, others) := ⟨_, _, rfl⟩
  have hperm := pivoted_perm hpivot
  refine ⟨pivot, others, ⟨hperm.length_eq.trans h.length_eq, fun e' he' => ?_⟩,
    fun e' => hperm.mem_iff, abs_leading_le hpivot,
    abs_det_pivoted hpivot (by simpa using h.length_eq), ?_⟩
  · exact h.width e' (hperm.mem_iff.mp he')
  · simp only [triangular, hpivot, abs_rat]
    split_ifs
    · rfl
    · rcases triangular m (others.map (eliminated pivot)) with _ | rows <;> rfl

lemma leading_ne_zero {pivot : Equation ℚ} (h : ¬|pivot.leading| < pivotTolerance) :
    pivot.leading ≠ 0 := by
  intro hzero
  refine h ?_
  rw [hzero, pivotTolerance_rat]
  norm_num

/-- What is found solves the system, and the system is not singular. -/
lemma solves_of_triangular {rows : List (Equation ℚ)} (h : IsSystem m eqs)
    (hrows : triangular m eqs = some rows) : (backSubstituted rows).length = m ∧
      Solves eqs (backSubstituted rows) ∧ (coefficientMatrix m eqs).det ≠ 0 := by
  induction m generalizing eqs rows with
  | zero =>
    obtain rfl : [] = rows := by simpa [triangular] using hrows
    refine ⟨rfl, fun e he => ?_, by simp⟩
    rw [List.eq_nil_of_length_eq_zero h.length_eq] at he
    exact absurd he List.not_mem_nil
  | succ m ih =>
    obtain ⟨pivot, others, hsystem, hmem, -, hdet, hstep⟩ := triangular_succ h
    rw [hstep] at hrows
    split_ifs at hrows with hsmall
    have hne := leading_ne_zero hsmall
    obtain ⟨rows, hothers, rfl⟩ := Option.map_eq_some_iff.mp hrows
    obtain ⟨hlength, hsolves, hminor⟩ := ih hsystem.eliminated hothers
    have hwidth := hsystem.width pivot List.mem_cons_self
    have hpivot : pivot.left (backSubstituted (pivot :: rows)) = pivot.value := by
      rw [backSubstituted, Equation.left_cons hwidth, remainingValue_eq]
      show _ + pivot.tail.left _ = _
      rw [mul_div_cancel₀ _ hne]
      exact sub_add_cancel _ _
    refine ⟨by simp [backSubstituted, hlength], fun e he => ?_, ?_⟩
    · rcases List.mem_cons.mp ((hmem e).mpr he) with rfl | he
      · exact hpivot
      · exact (left_eliminated_iff hwidth (hsystem.width e (List.mem_cons_of_mem _ he)) hne
          hpivot).mp (hsolves _ (List.mem_map_of_mem he))
    · rw [← abs_ne_zero, hdet, det_eliminated hsystem hne, abs_ne_zero]
      exact mul_ne_zero hne hminor

/-- How much larger than the pivot tolerance the determinant of a system can be that is given up,
if its coefficients are at most 1. -/
def pivotGrowth : ℕ → ℕ
  | 0 => 1
  | m + 1 => max (m + 1).factorial (2 ^ (m - 1) * pivotGrowth m)

lemma abs_det_le_of_column {A : Matrix (Fin (m + 1)) (Fin (m + 1)) ℚ} {B δ : ℚ}
    (hA : ∀ i j, |A i j| ≤ B) (hδ : ∀ i, |A i 0| ≤ δ) :
    |A.det| ≤ (m + 1).factorial * B ^ m * δ := by
  have hminor : ∀ i : Fin (m + 1),
      |(A.submatrix i.succAbove Fin.succ).det| ≤ m.factorial * B ^ m := by
    intro i
    have hentry : ∀ k l, AbsoluteValue.abs (A.submatrix i.succAbove Fin.succ k l) ≤ B :=
      fun k l => hA (i.succAbove k) l.succ
    simpa using det_le hentry
  have hδ0 : 0 ≤ δ := (abs_nonneg _).trans (hδ 0)
  rw [det_succ_column_zero]
  calc |∑ i : Fin (m + 1), (-1) ^ (i : ℕ) * A i 0 * (A.submatrix i.succAbove Fin.succ).det|
      ≤ ∑ i : Fin (m + 1),
          |(-1) ^ (i : ℕ) * A i 0 * (A.submatrix i.succAbove Fin.succ).det| :=
        Finset.abs_sum_le_sum_abs _ _
    _ ≤ ∑ _i : Fin (m + 1), δ * (m.factorial * B ^ m) := by
        refine Finset.sum_le_sum fun i _ => ?_
        rw [abs_mul, abs_mul, abs_pow, abs_neg, abs_one, one_pow, one_mul]
        exact mul_le_mul (hδ i) (hminor i) (abs_nonneg _) hδ0
    _ = (m + 1).factorial * B ^ m * δ := by
        rw [Finset.sum_const, Finset.card_univ, Fintype.card_fin, Nat.factorial_succ,
          nsmul_eq_mul]
        push_cast
        ring

lemma abs_coefficientMatrix_le {B : ℚ} (h : IsSystem m eqs)
    (hB : ∀ e ∈ eqs, ∀ j, |e.coefficients.getD j 0| ≤ B) (i j : Fin m) :
    |coefficientMatrix m eqs i j| ≤ B := by
  have hi : (i : ℕ) < eqs.length := h.length_eq ▸ i.isLt
  rw [coefficientMatrix_apply i hi]
  exact hB _ (List.getElem_mem hi) j

/-- The coefficients are doubled at most, the pivot being the largest leading one. -/
lemma abs_eliminated_le {B : ℚ} {e pivot : Equation ℚ} (hp : pivot.coefficients.length = m + 1)
    (he : e.coefficients.length = m + 1) (hle : |e.leading| ≤ |pivot.leading|)
    (hpB : ∀ j, |pivot.coefficients.getD j 0| ≤ B) (heB : ∀ j, |e.coefficients.getD j 0| ≤ B)
    (j : ℕ) : |(eliminated pivot e).coefficients.getD j 0| ≤ 2 * B := by
  have hratio : |e.leading / pivot.leading| ≤ 1 := by
    rw [abs_div]
    exact div_le_one_of_le₀ hle (abs_nonneg _)
  rw [getD_eliminated hp he]
  calc |e.coefficients.getD (j + 1) 0 -
          e.leading / pivot.leading * pivot.coefficients.getD (j + 1) 0|
      ≤ |e.coefficients.getD (j + 1) 0| +
          |e.leading / pivot.leading| * |pivot.coefficients.getD (j + 1) 0| := by
        rw [← abs_mul]
        exact abs_sub _ _
    _ ≤ B + 1 * B := add_le_add (heB _) (mul_le_mul hratio (hpB _) (abs_nonneg _) zero_le_one)
    _ = 2 * B := by ring

/-- If no coefficient of the first unknown is larger than the tolerance, a system is almost
singular. -/
lemma abs_det_le_of_small {B : ℚ} (h : IsSystem (m + 1) eqs)
    (hB : ∀ e ∈ eqs, ∀ j, |e.coefficients.getD j 0| ≤ B)
    (hsmall : ∀ e ∈ eqs, |e.leading| ≤ pivotTolerance) :
    |(coefficientMatrix (m + 1) eqs).det| ≤ (m + 1).factorial * B ^ m * pivotTolerance := by
  refine abs_det_le_of_column (abs_coefficientMatrix_le h hB) fun i => ?_
  have hi : (i : ℕ) < eqs.length := i.isLt.trans_eq h.length_eq.symm
  rw [coefficientMatrix_apply i hi, Fin.val_zero, getD_zero_coefficients]
  exact hsmall _ (List.getElem_mem hi)

/-- A system that is given up is almost singular. -/
lemma abs_det_le_of_triangular {B : ℚ} (h : IsSystem m eqs)
    (hB : ∀ e ∈ eqs, ∀ j, |e.coefficients.getD j 0| ≤ B) (hnone : triangular m eqs = none) :
    |(coefficientMatrix m eqs).det| ≤ pivotGrowth m * B ^ (m - 1) * pivotTolerance := by
  induction m generalizing eqs B with
  | zero => simp [triangular] at hnone
  | succ m ih =>
    obtain ⟨pivot, others, hsystem, hmem, hlargest, hdet, hstep⟩ := triangular_succ h
    have hB' : ∀ e ∈ pivot :: others, ∀ j, |e.coefficients.getD j 0| ≤ B :=
      fun e he => hB e ((hmem e).mp he)
    have hleading : |pivot.leading| ≤ B := by
      rw [← getD_zero_coefficients]
      exact hB' pivot List.mem_cons_self 0
    have hB0 : 0 ≤ B := (abs_nonneg _).trans hleading
    have htol : (0 : ℚ) ≤ pivotTolerance := by rw [pivotTolerance_rat]; norm_num
    rw [hstep] at hnone
    rw [hdet, Nat.add_sub_cancel]
    split_ifs at hnone with hsmall
    · refine (abs_det_le_of_small hsystem hB' fun e he => (hlargest e he).trans hsmall.le).trans
        (mul_le_mul_of_nonneg_right (mul_le_mul_of_nonneg_right ?_ ?_) htol)
      · exact_mod_cast le_max_left _ _
      · positivity
    · have hnone' : triangular m (others.map (eliminated pivot)) = none := by simpa using hnone
      rcases m with _ | m
      · simp [triangular] at hnone'
      have hwidth := hsystem.width pivot List.mem_cons_self
      have hminor := ih (B := 2 * B) hsystem.eliminated (fun e' he' => by
        obtain ⟨e, he, rfl⟩ := List.mem_map.mp he'
        have he := List.mem_cons_of_mem pivot he
        exact abs_eliminated_le hwidth (hsystem.width e he) (hlargest e he)
          (hB' pivot List.mem_cons_self) (hB' e he)) hnone'
      rw [det_eliminated hsystem (leading_ne_zero hsmall), abs_mul]
      calc |pivot.leading| * |(coefficientMatrix (m + 1) (others.map (eliminated pivot))).det|
          ≤ B * (pivotGrowth (m + 1) * (2 * B) ^ m * pivotTolerance) :=
            mul_le_mul hleading hminor (abs_nonneg _) hB0
        _ = (2 ^ m * pivotGrowth (m + 1) : ℕ) * B ^ (m + 1) * pivotTolerance := by
            push_cast
            ring
        _ ≤ pivotGrowth (m + 1 + 1) * B ^ (m + 1) * pivotTolerance := by
            refine mul_le_mul_of_nonneg_right (mul_le_mul_of_nonneg_right ?_ ?_) htol
            · exact_mod_cast le_max_right _ _
            · positivity

end Run

/-! ### Columns -/

/-- The matrix with the given columns; entries that are missing are 0. -/
def columnMatrix (m : ℕ) (columns : List (List ℚ)) : Matrix (Fin m) (Fin m) ℚ :=
  .of fun i j => (columns.getD j []).getD i 0

section Columns

variable {m : ℕ} {columns : List (List ℚ)} {target : List ℚ}

lemma equationsOf_eq (columns : List (List ℚ)) (target : List ℚ) :
    equationsOf columns target = (List.range target.length).map fun i =>
      ⟨columns.map fun column => column.getD i 0, target.getD i 0⟩ := by
  induction target generalizing columns with
  | nil => rfl
  | cons value values ih =>
    rw [equationsOf, ih, List.length_cons, List.range_succ_eq_map, List.map_cons, List.map_map]
    congr 1
    · congr 1
      refine List.map_congr_left fun column _ => ?_
      rcases column with _ | ⟨x, xs⟩ <;> rfl
    · refine List.map_congr_left fun i _ => ?_
      simp [Function.comp_def]

lemma isSystem_equationsOf (hc : columns.length = m) (ht : target.length = m) :
    IsSystem m (equationsOf columns target) := by
  refine ⟨by simp [equationsOf_eq, ht], fun e he => ?_⟩
  rw [equationsOf_eq] at he
  obtain ⟨i, -, rfl⟩ := List.mem_map.mp he
  simpa using hc

lemma coefficientMatrix_equationsOf (hc : columns.length = m) (ht : target.length = m) :
    coefficientMatrix m (equationsOf columns target) = columnMatrix m columns := by
  ext i j
  rw [coefficientMatrix_apply i (by simp [equationsOf_eq, ht])]
  simp [equationsOf_eq, columnMatrix, hc]

lemma mulVec_columnMatrix (hc : columns.length = m) (xs : List ℚ) (i : Fin m) :
    (columnMatrix m columns *ᵥ fun j : Fin m => xs.getD j 0) i =
      (List.zipWith (· * ·) (columns.map fun column => column.getD i 0) xs).sum := by
  rw [sum_zipWith_mul (by simpa using hc)]
  simp [mulVec, dotProduct, columnMatrix, hc]

lemma solves_equationsOf_iff (hc : columns.length = m) (ht : target.length = m) (xs : List ℚ) :
    Solves (equationsOf columns target) xs ↔
      columnMatrix m columns *ᵥ (fun j : Fin m => xs.getD j 0) =
        fun i : Fin m => target.getD i 0 := by
  unfold Solves
  rw [equationsOf_eq, funext_iff]
  simp only [mulVec_columnMatrix hc]
  constructor
  · intro h i
    exact h _ (List.mem_map_of_mem (List.mem_range.mpr (ht ▸ i.isLt)))
  · intro h e he
    obtain ⟨i, hi, rfl⟩ := List.mem_map.mp he
    exact h ⟨i, ht ▸ List.mem_range.mp hi⟩

/-- What the solver returns is the solution of a system that is not singular. -/
lemma solution_of_solveColumns {xs : List ℚ} (ht : target.length = m)
    (h : solveColumns columns target = some xs) :
    columns.length = m ∧ xs.length = m ∧ (columnMatrix m columns).det ≠ 0 ∧
      columnMatrix m columns *ᵥ (fun j : Fin m => xs.getD j 0) =
        fun i : Fin m => target.getD i 0 := by
  unfold solveColumns at h
  split_ifs at h with hc
  have hc : columns.length = m := (not_not.mp hc).trans ht
  obtain ⟨rows, hrows, rfl⟩ := Option.map_eq_some_iff.mp h
  rw [ht] at hrows
  obtain ⟨hlength, hsolves, hdet⟩ := solves_of_triangular (isSystem_equationsOf hc ht) hrows
  rw [coefficientMatrix_equationsOf hc ht] at hdet
  exact ⟨hc, hlength, hdet, (solves_equationsOf_iff hc ht _).mp hsolves⟩

/-- A system that is not singular has one solution only. -/
lemma eq_of_mulVec_eq {A : Matrix (Fin m) (Fin m) ℚ} (hne : A.det ≠ 0) {xs ys : List ℚ}
    (hx : xs.length = m) (hy : ys.length = m)
    (h : A *ᵥ (fun j : Fin m => xs.getD j 0) = A *ᵥ fun j : Fin m => ys.getD j 0) : xs = ys := by
  have heq := mulVec_injective_of_isUnit ((isUnit_iff_isUnit_det _).mpr hne.isUnit) h
  refine List.ext_getElem (hx.trans hy.symm) fun j hj hj' => ?_
  have hentry := congrFun heq ⟨j, hx ▸ hj⟩
  simpa [hj, hj'] using hentry

lemma columnMatrix_mem_whole (h : ∀ column ∈ columns, ExponentVector.IsWhole column)
    (i j : Fin m) : columnMatrix m columns i j ∈ whole := by
  have hcolumn : ExponentVector.IsWhole (columns.getD j []) :=
    getD_of_forall_mem (List.forall_mem_nil _) h j
  exact hcolumn.getD_mem i

lemma det_mem_whole {A : Matrix (Fin m) (Fin m) ℚ} (h : ∀ i j, A i j ∈ whole) :
    A.det ∈ whole := by
  rw [det_apply']
  exact sum_mem fun σ _ => mul_mem (intCast_mem_whole _) (prod_mem fun i _ => h _ _)

lemma abs_getD_le {xs : List ℚ} {B : ℚ} (hB : 0 ≤ B) (h : ∀ x ∈ xs, |x| ≤ B) (i : ℕ) :
    |xs.getD i 0| ≤ B :=
  getD_of_forall_mem (p := fun x => |x| ≤ B) (by rwa [abs_zero]) h i

/-- Seven columns of whole numbers up to 3 are only given up if the system is singular. -/
lemma det_eq_zero_of_solveColumns (hc : columns.length = 7) (ht : target.length = 7)
    (hwhole : ∀ column ∈ columns, ExponentVector.IsWhole column)
    (hB : ∀ column ∈ columns, ∀ x ∈ column, |x| ≤ 3) (h : solveColumns columns target = none) :
    (columnMatrix 7 columns).det = 0 := by
  unfold solveColumns at h
  rw [if_neg (by rw [hc, ht]; simp), Option.map_eq_none_iff, ht] at h
  have hle := abs_det_le_of_triangular (B := 3) (isSystem_equationsOf hc ht) (fun e he j => by
    rw [equationsOf_eq] at he
    obtain ⟨i, -, rfl⟩ := List.mem_map.mp he
    refine abs_getD_le (by norm_num) (fun x hx => ?_) j
    obtain ⟨column, hcolumn, rfl⟩ := List.mem_map.mp hx
    exact abs_getD_le (by norm_num) (hB column hcolumn) i) h
  have hgrowth : pivotGrowth 7 = 98304 := by decide
  rw [coefficientMatrix_equationsOf hc ht, hgrowth, pivotTolerance_rat] at hle
  refine eq_of_abs_sub_lt_one (det_mem_whole (columnMatrix_mem_whole hwhole)) whole.zero_mem ?_
  rw [sub_zero]
  exact hle.trans_lt (by norm_num)

/-- **Cramer's rule**: a solution in whole coefficients has the determinant for a denominator. -/
lemma det_mul_mem_whole {A : Matrix (Fin m) (Fin m) ℚ} (hA : ∀ i j, A i j ∈ whole)
    {x b : Fin m → ℚ} (hb : ∀ i, b i ∈ whole) (h : A *ᵥ x = b) (j : Fin m) :
    A.det * x j ∈ whole := by
  have hcramer : A.det • x = A.cramer b := by
    rw [cramer_eq_adjugate_mulVec, ← h, mulVec_mulVec, adjugate_mul, smul_mulVec, one_mulVec]
  have hj : A.det * x j = (A.updateCol j b).det := by
    rw [← cramer_apply, ← hcramer]
    rfl
  rw [hj]
  refine det_mem_whole fun i k => ?_
  rw [updateCol_apply]
  split_ifs
  · exact hb i
  · exact hA i k

end Columns

/-! ### Solutions -/

/-- Whether the columns, each taken as often as the factors say, sum up to the target. -/
def IsSolution (columns : List (List ℚ)) (target factors : List ℚ) : Prop :=
  factors.length = columns.length ∧ ∀ i < target.length,
    ∑ j ∈ Finset.range columns.length, factors.getD j 0 * (columns.getD j []).getD i 0 =
      target.getD i 0

lemma isSolution_iff {m : ℕ} {columns : List (List ℚ)} {target : List ℚ}
    (hc : columns.length = m) (ht : target.length = m) (factors : List ℚ) :
    IsSolution columns target factors ↔ factors.length = m ∧
      columnMatrix m columns *ᵥ (fun j : Fin m => factors.getD j 0) =
        fun i : Fin m => target.getD i 0 := by
  unfold IsSolution
  rw [hc, ht, funext_iff, Fin.forall_iff]
  refine and_congr_right fun _ => forall₂_congr fun i hi => ?_
  rw [Finset.sum_range]
  simp only [mulVec, dotProduct, columnMatrix, of_apply, mul_comm]

/-- **The solver is exact.** What it returns is the one solution of a system that is not singular.
Seven columns of whole numbers up to 3 are given up if and only if they are singular. -/
theorem solveColumns_exact (n : ℕ) (columns : List (List ℚ)) (target : List ℚ)
    (hc : columns.length = n) (ht : target.length = n) :
    (∀ factors, solveColumns columns target = some factors →
      (columnMatrix n columns).det ≠ 0 ∧
        ∀ factors', IsSolution columns target factors' ↔ factors' = factors) ∧
    (n = 7 → (∀ column ∈ columns, ∀ x ∈ column, x ∈ whole ∧ |x| ≤ 3) →
      (solveColumns columns target = none ↔ (columnMatrix n columns).det = 0)) := by
  refine ⟨fun factors h => ?_, ?_⟩
  · obtain ⟨-, hlength, hne, hsolves⟩ := solution_of_solveColumns ht h
    refine ⟨hne, fun factors' => ?_⟩
    rw [isSolution_iff hc ht]
    constructor
    · rintro ⟨hlength', hsolves'⟩
      exact eq_of_mulVec_eq hne hlength' hlength (hsolves'.trans hsolves.symm)
    · rintro rfl
      exact ⟨hlength, hsolves⟩
  · rintro rfl hsmall
    constructor
    · exact det_eq_zero_of_solveColumns hc ht (fun column hmem x hx => (hsmall column hmem x hx).1)
        fun column hmem x hx => (hsmall column hmem x hx).2
    · intro hzero
      by_contra hsome
      obtain ⟨factors, h⟩ := Option.ne_none_iff_exists'.mp hsome
      obtain ⟨-, -, hne, -⟩ := solution_of_solveColumns ht h
      exact hne hzero

/-- The primary exponents of a force, an energy, a third dimension, a charge and three primary
dimensions. -/
def mechanics (third : List ℚ) : List (List ℚ) :=
  [[1, 1, -2, 0, 0, 0, 0], [1, 2, -2, 0, 0, 0, 0], third, [0, 0, 1, 1, 0, 0, 0],
    [0, 0, 0, 0, 1, 0, 0], [0, 0, 0, 0, 0, 1, 0], [0, 0, 0, 0, 0, 0, 1]]

/-- A power is a force times a speed and no other product of such dimensions. With a length in place
of the speed the solver gives up: an energy is itself a force times a length. -/
theorem solveColumns_exact_power :
    (solveColumns (mechanics [0, 1, -1, 0, 0, 0, 0]) [1, 2, -3, 0, 0, 0, 0] =
        some [1, 0, 1, 0, 0, 0, 0] ∧
      (columnMatrix 7 (mechanics [0, 1, -1, 0, 0, 0, 0])).det ≠ 0 ∧
      ∀ factors, IsSolution (mechanics [0, 1, -1, 0, 0, 0, 0]) [1, 2, -3, 0, 0, 0, 0] factors ↔
        factors = [1, 0, 1, 0, 0, 0, 0]) ∧
    solveColumns (mechanics [0, 1, 0, 0, 0, 0, 0]) [1, 2, -3, 0, 0, 0, 0] = none ∧
      (columnMatrix 7 (mechanics [0, 1, 0, 0, 0, 0, 0])).det = 0 := by
  have hpower : solveColumns (mechanics [0, 1, -1, 0, 0, 0, 0]) [1, 2, -3, 0, 0, 0, 0] =
      some [1, 0, 1, 0, 0, 0, 0] := by decide +kernel
  have hnone : solveColumns (mechanics [0, 1, 0, 0, 0, 0, 0]) [1, 2, -3, 0, 0, 0, 0] = none := by
    decide +kernel
  exact ⟨⟨hpower, (solveColumns_exact 7 _ _ rfl rfl).1 _ hpower⟩, hnone,
    ((solveColumns_exact 7 _ _ rfl rfl).2 rfl (by decide +kernel)).mp hnone⟩

end Metrology
