import Mathlib
import Metrology.Dimension.Equivalents
import Metrology.Proofs.Coordinates

/-!
The order of compositions, and what sorting by it leaves: the same vectors, each once, from the
simplest to the most complex. Sorting by the exponents and then by the sums comes to the same.
-/

namespace Metrology

namespace ExponentVector

/-- The order by the sum of the absolute exponents and, between equal sums, by the first exponent
that differs. -/
def Simpler (v w : ExponentVector ℚ) : Prop :=
  (v.map abs).sum < (w.map abs).sum ∨ (v.map abs).sum = (w.map abs).sum ∧ v < w

/-- A vector with its sum of absolute exponents in front. -/
def key (v : ExponentVector ℚ) : ℚ ×ₗ List ℚ := toLex ((v.map abs).sum, v)

lemma key_injective : Function.Injective key :=
  fun _ _ h => congrArg (fun p => (ofLex p).2) h

lemma key_lt_key_iff {v w : ExponentVector ℚ} : key v < key w ↔ Simpler v w := by
  rw [key, key, Prod.Lex.toLex_lt_toLex]
  exact Iff.rfl

instance : Std.Antisymm Simpler where
  antisymm _ _ h h' :=
    absurd (key_lt_key_iff.mpr h) (key_lt_key_iff.mpr h').not_gt

lemma Simpler.ne {v w : ExponentVector ℚ} (h : Simpler v w) : v ≠ w := by
  rintro rfl
  exact lt_irrefl _ (key_lt_key_iff.mpr h)

end ExponentVector

namespace Dimension

open ExponentVector

lemma numberOrder_rat (x y : ℚ) :
    numberOrder x y = if x < y then .lt else if y < x then .gt else .eq := by
  unfold numberOrder
  simp

lemma vectorOrder_rat (v w : ExponentVector ℚ) :
    vectorOrder v w = if v < w then .lt else if w < v then .gt else .eq := by
  induction v generalizing w with
  | nil => rcases w with _ | ⟨y, w⟩ <;> simp [vectorOrder]
  | cons x v ih =>
    rcases w with _ | ⟨y, w⟩
    · simp [vectorOrder]
    · rw [vectorOrder, ih, numberOrder_rat]
      simp only [List.cons_lt_cons_iff]
      rcases lt_trichotomy x y with h | rfl | h
      · simp [h]
      · simp
      · simp [h, h.not_gt, h.ne', h.ne]

lemma vectorOrder_eq_iff {v w : ExponentVector ℚ} : vectorOrder v w = .eq ↔ v = w := by
  rw [vectorOrder_rat]
  rcases lt_trichotomy v w with h | rfl | h
  · have h' : v < w := h
    simp [h', h.ne]
  · simp
  · have h' : w < v := h
    simp [h', h.ne', List.lt_asymm h']

lemma isLE_complexityOrder {v w : ExponentVector ℚ} :
    (complexityOrder v w).isLE = true ↔ key v ≤ key w := by
  rw [← not_lt, key_lt_key_iff, Simpler, complexityOrder, l1Norm_rat, l1Norm_rat, vectorOrder_rat,
    numberOrder_rat]
  rcases lt_trichotomy (v.map abs).sum (w.map abs).sum with h | h | h
  · simp [h, h.not_gt, h.ne']
  · rw [h]
    rcases lt_trichotomy v w with hvw | rfl | hvw
    · have hvw : v < w := hvw
      simp [hvw, List.lt_asymm hvw]
    · simp
    · have hvw : w < v := hvw
      simp [hvw, List.lt_asymm hvw]
  · simp [h, h.not_gt]

lemma mem_withoutRepeats {u v : ExponentVector ℚ} {rest : List (ExponentVector ℚ)} :
    u ∈ withoutRepeats v rest ↔ u ∈ v :: rest := by
  induction rest generalizing v with
  | nil => simp [withoutRepeats]
  | cons w rest ih =>
    rw [withoutRepeats]
    split_ifs with h
    · rw [ih, vectorOrder_eq_iff.mp h]
      simp
    · rw [List.mem_cons, ih, List.mem_cons (a := u) (b := v)]

lemma pairwise_withoutRepeats {v : ExponentVector ℚ} {rest : List (ExponentVector ℚ)}
    (h : (v :: rest).Pairwise fun u w => key u ≤ key w) :
    (withoutRepeats v rest).Pairwise Simpler := by
  induction rest generalizing v with
  | nil => simp [withoutRepeats]
  | cons w rest ih =>
    obtain ⟨hv, hrest⟩ := List.pairwise_cons.mp h
    rw [withoutRepeats]
    split_ifs with heq
    · exact ih (vectorOrder_eq_iff.mp heq ▸ hrest)
    · refine List.pairwise_cons.mpr ⟨fun u hu => ?_, ih hrest⟩
      have hlt : key v < key w :=
        lt_of_le_of_ne (hv w List.mem_cons_self) fun hk =>
          heq (vectorOrder_eq_iff.mpr (key_injective hk))
      rw [← key_lt_key_iff]
      rcases List.mem_cons.mp (mem_withoutRepeats.mp hu) with rfl | hu
      · exact hlt
      · exact hlt.trans_le ((List.pairwise_cons.mp hrest).1 u hu)

lemma mem_sorted {v : ExponentVector ℚ} {vectors : List (ExponentVector ℚ)} :
    v ∈ sorted vectors ↔ v ∈ vectors := by
  have hmem : v ∈ (vectors.mergeSort fun v w => (complexityOrder v w).isLE) ↔ v ∈ vectors :=
    List.mem_mergeSort
  unfold sorted
  split
  · rename_i h
    rw [← hmem, h]
  · rename_i h
    rw [← hmem, h, mem_withoutRepeats]

lemma pairwise_sorted (vectors : List (ExponentVector ℚ)) :
    (sorted vectors).Pairwise Simpler := by
  have htrans : ∀ u v w : ExponentVector ℚ, (complexityOrder u v).isLE = true →
      (complexityOrder v w).isLE = true → (complexityOrder u w).isLE = true := by
    intro u v w huv hvw
    rw [isLE_complexityOrder] at huv hvw ⊢
    exact huv.trans hvw
  have htotal : ∀ v w : ExponentVector ℚ,
      ((complexityOrder v w).isLE || (complexityOrder w v).isLE) = true := by
    intro v w
    rw [Bool.or_eq_true, isLE_complexityOrder, isLE_complexityOrder]
    exact le_total _ _
  have hsorted := List.pairwise_mergeSort htrans htotal vectors
  unfold sorted
  split
  · exact List.Pairwise.nil
  · rename_i h
    rw [h] at hsorted
    exact pairwise_withoutRepeats (hsorted.imp isLE_complexityOrder.mp)

/-! ### Sorting twice -/

/-- What is tied keeps its order when a list is sorted. -/
lemma filter_mergeSort {β : Type} {le : β → β → Bool}
    (htrans : ∀ a b c, le a b = true → le b c = true → le a c = true)
    (htotal : ∀ a b, (le a b || le b a) = true) {p : β → Bool}
    (htied : ∀ a b, p a = true → p b = true → le a b = true) (l : List β) :
    (l.mergeSort le).filter p = l.filter p := by
  have htie : (l.filter p).Pairwise fun a b => le a b = true := by
    refine List.pairwise_iff_forall_sublist.mpr fun {a b} hab => htied a b ?_ ?_ <;>
      exact (List.mem_filter.mp (hab.subset (by simp))).2
  have hkept := (List.sublist_mergeSort htrans htotal htie List.filter_sublist).filter p
  rw [List.filter_filter] at hkept
  simp only [Bool.and_self] at hkept
  exact (hkept.eq_of_length ((List.mergeSort_perm l le).filter p).length_eq.symm).symm

lemma compare_pos_iff {v w : ExponentVector ℚ} : 0 < v.compare w ↔ w < v := by
  induction v generalizing w with
  | nil => rcases w with _ | ⟨y, w⟩ <;> simp [ExponentVector.compare]
  | cons x v ih =>
    rcases w with _ | ⟨y, w⟩
    · simp [ExponentVector.compare]
    · simp only [ExponentVector.compare, List.cons_lt_cons_iff]
      rcases lt_trichotomy x y with h | rfl | h
      · simp [h, h.ne, h.ne', h.not_gt, sub_eq_zero]
      · simp [ih]
      · simp [h, h.not_gt, h.ne', sub_eq_zero]

lemma compare_le_zero_iff {v w : ExponentVector ℚ} : v.compare w ≤ 0 ↔ v ≤ w := by
  rw [← not_lt, compare_pos_iff]
  exact not_lt

/-- The vectors of a list by their exponents, and then, without changing the order of what is tied,
by the sum of the absolute exponents. -/
def sortedTwice (vectors : List (ExponentVector ℚ)) : List (ExponentVector ℚ) :=
  (vectors.mergeSort fun v w => decide (v.compare w ≤ 0)).mergeSort
    fun v w => decide (v.l1Norm ≤ w.l1Norm)

lemma sortedTwice_perm (vectors : List (ExponentVector ℚ)) : (sortedTwice vectors).Perm vectors :=
  (List.mergeSort_perm _ _).trans (List.mergeSort_perm _ _)

lemma pairwise_sortedTwice {vectors : List (ExponentVector ℚ)} (h : vectors.Nodup) :
    (sortedTwice vectors).Pairwise Simpler := by
  have htrans : ∀ u v w : ExponentVector ℚ, decide (u.l1Norm ≤ v.l1Norm) = true →
      decide (v.l1Norm ≤ w.l1Norm) = true → decide (u.l1Norm ≤ w.l1Norm) = true := by
    simpa using fun _ _ _ => le_trans
  have htotal : ∀ v w : ExponentVector ℚ,
      (decide (v.l1Norm ≤ w.l1Norm) || decide (w.l1Norm ≤ v.l1Norm)) = true := by
    simpa using fun _ _ => le_total _ _
  have hexponents : (vectors.mergeSort fun v w => decide (v.compare w ≤ 0)).Pairwise fun v w =>
      decide (v.compare w ≤ 0) = true :=
    List.pairwise_mergeSort (by simpa [compare_le_zero_iff] using fun _ _ _ => le_trans)
      (by simpa [compare_le_zero_iff] using fun _ _ => le_total _ _) vectors
  have hnorm := List.pairwise_mergeSort htrans htotal
    (vectors.mergeSort fun v w => decide (v.compare w ≤ 0))
  have hnodup := (sortedTwice_perm vectors).nodup_iff.mpr h
  refine List.pairwise_iff_forall_sublist.mpr fun {v w} hvw => ?_
  have hle := of_decide_eq_true (List.pairwise_iff_forall_sublist.mp hnorm hvw)
  rcases hle.lt_or_eq with hlt | heq
  · rw [l1Norm_rat, l1Norm_rat] at hlt
    exact .inl hlt
  · -- the two are tied, so they stand as they did before
    have htied := hvw.filter fun u => decide (u.l1Norm = w.l1Norm)
    rw [sortedTwice, filter_mergeSort htrans htotal (by simp +contextual)] at htied
    simp only [heq, List.filter_cons, decide_true, if_true, List.filter_nil] at htied
    have hle := of_decide_eq_true
      (List.pairwise_iff_forall_sublist.mp hexponents (htied.trans List.filter_sublist))
    rw [l1Norm_rat, l1Norm_rat] at heq
    exact .inr ⟨heq, lt_of_le_of_ne (compare_le_zero_iff.mp hle)
      (List.pairwise_iff_forall_sublist.mp hnodup hvw)⟩

/-- **Sorting by complexity** is sorting twice what has been found, each vector once. The order in
which the vectors have been found does not matter. -/
lemma sorted_eq_sortedTwice {vectors distinct : List (ExponentVector ℚ)}
    (hdistinct : distinct.Nodup) (hmem : ∀ v, v ∈ distinct ↔ v ∈ vectors) :
    sorted vectors = sortedTwice distinct := by
  have hunique : (sorted vectors).Nodup := (pairwise_sorted vectors).imp fun h => h.ne
  have hnodup := (sortedTwice_perm distinct).nodup_iff.mpr hdistinct
  refine List.Perm.eq_of_pairwise (fun _ _ _ _ hvw hwv => antisymm hvw hwv)
    (pairwise_sorted vectors) (pairwise_sortedTwice hdistinct) ?_
  refine (List.perm_ext_iff_of_nodup hunique hnodup).mpr fun v => ?_
  rw [mem_sorted, (sortedTwice_perm distinct).mem_iff, hmem]

end Dimension

end Metrology
