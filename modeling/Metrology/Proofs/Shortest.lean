import Mathlib
import Metrology.Proofs.Layout
import Metrology.Proofs.Reduction

/-!
The shortest composition of a dimension comes to the dimension.

What is composed and what is left come to the dimension together, before every step. Over whole
numbers a primary dimension can be taken for as long as anything is left, so that nothing is left at
the end; and each step takes at least as much off the sum of what is left as it puts onto the sum of
what is composed.
-/

namespace Metrology

open Finset ExponentVector Registry

namespace Dimension

/-! ### What is composed -/

/-- What a vector comes to over a basis, entry by entry. -/
def total (basis : List (ExponentVector ℚ)) (v : ExponentVector ℚ) (j : ℕ) : ℚ :=
  ∑ i ∈ range basis.length, v.getD i 0 * (basis.getD i []).getD j 0

/-- A basis that begins with the unit vectors of its width. -/
structure HasUnits (width : ℕ) (basis : List (ExponentVector ℚ)) : Prop where
  le_length : width ≤ basis.length
  length_eq : ∀ v ∈ basis, v.length = width
  getD_unit : ∀ i < width, ∀ j < width, (basis.getD i []).getD j 0 = if j = i then 1 else 0

section Totals

variable {basis : List (ExponentVector ℚ)} {v w : ExponentVector ℚ} {width : ℕ}

lemma HasUnits.getD_of_le (h : HasUnits width basis) (i : ℕ) {j : ℕ} (hj : width ≤ j) :
    (basis.getD i []).getD j 0 = 0 := by
  exact getD_of_length_le (getD_of_forall_mem (p := fun v => v.length ≤ j) (Nat.zero_le j)
    (fun v hv => (h.length_eq v hv).trans_le hj) i)

lemma total_zeros (n j : ℕ) : total basis (zeros n) j = 0 := by
  refine sum_eq_zero fun i _ => ?_
  rw [getD_zeros, zero_mul]

lemma getD_addAt {i : ℕ} (hi : i < v.length) (x : ℚ) (j : ℕ) :
    (addAt v i x).getD j 0 = v.getD j 0 + if j = i then x else 0 := by
  simp only [addAt, List.getD_eq_getElem?_getD, List.getElem?_modify]
  by_cases hj : j = i
  · subst hj
    simp [hi]
  · simp [hj, Ne.symm hj]

lemma total_addAt (hv : v.length = basis.length) {i : ℕ} (hi : i < basis.length) (x : ℚ) (j : ℕ) :
    total basis (addAt v i x) j = total basis v j + x * (basis.getD i []).getD j 0 := by
  unfold total
  have hsplit : ∀ k, (addAt v i x).getD k 0 * (basis.getD k []).getD j 0 =
      v.getD k 0 * (basis.getD k []).getD j 0 +
        if k = i then x * (basis.getD i []).getD j 0 else 0 := by
    intro k
    rw [getD_addAt (hv ▸ hi), add_mul, ite_mul, zero_mul]
    by_cases hk : k = i
    · rw [if_pos hk, if_pos hk, hk]
    · rw [if_neg hk, if_neg hk]
  rw [sum_congr rfl fun k _ => hsplit k, sum_add_distrib, sum_ite_eq', if_pos (mem_range.mpr hi)]

lemma getD_addFront {i : ℕ} (hi : i < v.length) :
    (addFront v w).getD i 0 = v.getD i 0 + w.getD i 0 := by
  induction v generalizing w i with
  | nil => simp at hi
  | cons x v ih =>
    rcases w with _ | ⟨y, w⟩
    · simp [addFront]
    · rcases i with _ | i
      · simp [addFront]
      · simpa [addFront] using ih (by simpa using hi)

/-- The unit vectors come to what they are multiplied with. -/
lemma total_addFront (h : HasUnits width basis) (hv : v.length = basis.length)
    (hw : w.length = width) (j : ℕ) :
    total basis (addFront v w) j = total basis v j + w.getD j 0 := by
  have hentry : ∀ i ∈ range basis.length, (addFront v w).getD i 0 * (basis.getD i []).getD j 0 =
      v.getD i 0 * (basis.getD i []).getD j 0 + if j = i then w.getD j 0 else 0 := by
    intro i hi
    rw [getD_addFront (hv ▸ mem_range.mp hi), add_mul]
    congr 1
    rcases lt_or_ge j width with hj | hj
    · rcases lt_or_ge i width with hiw | hiw
      · rw [h.getD_unit i hiw j hj, mul_ite, mul_one, mul_zero]
        by_cases hij : j = i
        · rw [if_pos hij, if_pos hij, hij]
        · rw [if_neg hij, if_neg hij]
      · rw [getD_of_length_le (hw.trans_le hiw), zero_mul, if_neg (by omega)]
    · rw [h.getD_of_le i hj, mul_zero, getD_of_length_le (hw.trans_le hj), ite_self]
  unfold total
  rw [sum_congr rfl hentry, sum_add_distrib, sum_ite_eq]
  rcases lt_or_ge j basis.length with hj | hj
  · rw [if_pos (mem_range.mpr hj)]
  · have hlast : w.length ≤ j := hw.trans_le (h.le_length.trans hj)
    rw [if_neg (by simpa using hj), getD_of_length_le hlast]

end Totals

/-! ### What every step keeps -/

/-- What is composed and what is left come to the target together. -/
structure Composes (basis : List (ExponentVector ℚ)) (target : ExponentVector ℚ) (p : Progress) :
    Prop where
  length_result : p.result.length = basis.length
  length_residual : p.residual.length = target.length
  total_add : ∀ j, total basis p.result j + p.residual.getD j 0 = target.getD j 0

section Steps

variable {basis : List (ExponentVector ℚ)} {target : ExponentVector ℚ} {p q : Progress}

lemma Composes.start (basis : List (ExponentVector ℚ)) (target : ExponentVector ℚ) :
    Composes basis target ⟨zeros basis.length, target⟩ where
  length_result := length_zeros _
  length_residual := rfl
  total_add j := by rw [total_zeros, zero_add]

variable (hbasis : ∀ v ∈ basis, v.length = target.length)

include hbasis in
lemma Composes.step (h : step? basis p = some q) (hp : Composes basis target p) :
    Composes basis target q := by
  obtain ⟨c, hc, -, rfl⟩ := of_step? h
  have hleaves := leaves_of_mem_candidates
    (fun v hv => (hbasis v hv).trans hp.length_residual.symm) hc
  refine ⟨?_, hleaves.length_residual.trans hp.length_residual, fun j => ?_⟩
  · simpa [addAt] using hp.length_result
  · have hsum := hp.total_add j
    dsimp only
    rw [total_addAt hp.length_result hleaves.index_lt, hleaves.getD_residual]
    linarith

/-- **At the end** the dimension is composed up to what is dropped. -/
lemma Composes.total_finish (hunits : HasUnits target.length basis) (hp : Composes basis target p)
    (j : ℕ) : target.getD j 0 - total basis p.finish j =
      if Scalar.tolerance < l1Norm p.residual then 0 else p.residual.getD j 0 := by
  have hsum := hp.total_add j
  unfold Progress.finish
  split_ifs with hnorm
  · rw [total_addFront hunits hp.length_result hp.length_residual]
    linarith
  · linarith

end Steps

/-! ### Whole numbers -/

lemma l1Norm_addAt_le {v : ExponentVector ℚ} {i : ℕ} (hi : i < v.length) (x : ℚ) :
    l1Norm (addAt v i x) ≤ l1Norm v + |x| := by
  have hlength : (addAt v i x).length = v.length := by simp [addAt]
  have hentry : ∀ j ∈ range v.length, |(addAt v i x).getD j 0| ≤
      |v.getD j 0| + if j = i then |x| else 0 := by
    intro j _
    rw [getD_addAt hi]
    split_ifs
    · exact abs_add_le _ _
    · rw [add_zero, add_zero]
  calc l1Norm (addAt v i x)
      = ∑ j ∈ range v.length, |(addAt v i x).getD j 0| := by rw [l1Norm_eq_sum, hlength]
    _ ≤ ∑ j ∈ range v.length, (|v.getD j 0| + if j = i then |x| else 0) := sum_le_sum hentry
    _ = l1Norm v + |x| := by
      rw [sum_add_distrib, sum_ite_eq', if_pos (mem_range.mpr hi), ← l1Norm_eq_sum]

/-- Whole exponents of bounded sizes, in what is composed and in what is left. -/
structure WholeWithin (bound : ℚ) (p : Progress) : Prop where
  result : p.result.IsWhole
  residual : p.residual.IsWhole
  norm_le : l1Norm p.result + l1Norm p.residual ≤ bound

section Whole

variable {basis : List (ExponentVector ℚ)} {target : ExponentVector ℚ} {p q : Progress}

lemma WholeWithin.start (n : ℕ) (h : target.IsWhole) :
    WholeWithin (l1Norm target) ⟨zeros n, target⟩ where
  result := isWhole_of_getD fun i => by
    rw [getD_zeros]
    exact zero_mem _
  residual := h
  norm_le := by
    have hzero : l1Norm (zeros n : ExponentVector ℚ) = 0 := by
      rw [l1Norm_eq_sum]
      exact sum_eq_zero fun i _ => by rw [getD_zeros, abs_zero]
    rw [hzero, zero_add]

variable (hwhole : ∀ v ∈ basis, v.IsWhole)

include hwhole in
/-- A step takes at least 1 off what is left, and puts 1 onto what is composed. -/
lemma WholeWithin.step {bound : ℚ} (hbasis : ∀ v ∈ basis, v.length = p.residual.length)
    (hresult : p.result.length = basis.length) (h : step? basis p = some q)
    (hp : WholeWithin bound p) : WholeWithin bound q := by
  obtain ⟨c, hc, hless, rfl⟩ := of_step? h
  have hleaves := leaves_of_mem_candidates hbasis hc
  have hindex : c.index < p.result.length := hresult ▸ hleaves.index_lt
  have hdirection : c.direction ∈ whole ∧ |c.direction| = 1 := by
    rcases hleaves.direction_eq with h | h <;> rw [h]
    · exact ⟨one_mem _, abs_one⟩
    · exact ⟨neg_mem (one_mem _), by rw [abs_neg, abs_one]⟩
  have hvector : ExponentVector.IsWhole (basis.getD c.index []) := by
    rw [List.getD_eq_getElem _ _ hleaves.index_lt]
    exact hwhole _ (List.getElem_mem hleaves.index_lt)
  have hresidual : c.residual.IsWhole := isWhole_of_getD fun j => by
    rw [hleaves.getD_residual]
    exact sub_mem (hp.residual.getD_mem j) (mul_mem hdirection.1 (hvector.getD_mem j))
  constructor
  · refine isWhole_of_getD fun j => ?_
    rw [getD_addAt hindex]
    refine add_mem (hp.result.getD_mem j) ?_
    split_ifs
    · exact hdirection.1
    · exact zero_mem _
  · exact hresidual
  · have hadded := l1Norm_addAt_le hindex c.direction
    have hsmaller : l1Norm c.residual < l1Norm p.residual := by
      rw [← norm_of_mem_candidates hc]
      linarith [tolerance_pos]
    have hdrop := add_one_le_of_lt (l1Norm_mem_whole hresidual) (l1Norm_mem_whole hp.residual)
      hsmaller
    have hbound := hp.norm_le
    dsimp only
    linarith [hdirection.2]

/-- Taking a unit vector with the sign of the entry makes the sum smaller by 1. -/
lemma l1Norm_of_getD_sub {v w : ExponentVector ℚ} (hlength : w.length = v.length) {j : ℕ}
    (hj : j < v.length) {x : ℚ} (hx : |v.getD j 0 - x| = |v.getD j 0| - 1)
    (hw : ∀ k < v.length, w.getD k 0 = v.getD k 0 - if k = j then x else 0) :
    l1Norm w = l1Norm v - 1 := by
  have hentry : ∀ k ∈ range v.length, |w.getD k 0| = |v.getD k 0| - if k = j then 1 else 0 := by
    intro k hk
    rw [hw k (mem_range.mp hk)]
    split_ifs with hkj
    · rw [hkj, hx]
    · rw [sub_zero, sub_zero]
  rw [l1Norm_eq_sum, l1Norm_eq_sum, hlength, sum_congr rfl hentry, sum_sub_distrib, sum_ite_eq',
    if_pos (mem_range.mpr hj)]

/-- A unit vector takes 1 off the sum wherever a whole entry is left. -/
lemma exists_candidate {residual : ExponentVector ℚ} (hunits : HasUnits residual.length basis)
    (hresidual : residual.IsWhole) {j : ℕ} (hj : residual.getD j 0 ≠ 0) :
    ∃ c ∈ candidates basis residual, c.norm = l1Norm residual - 1 := by
  have hlt := lt_length_of_getD_ne_zero hj
  obtain ⟨v, hv⟩ : ∃ v, basis[j]? = some v :=
    ⟨_, List.getElem?_eq_getElem (hlt.trans_le hunits.le_length)⟩
  have hlength : v.length = residual.length := hunits.length_eq v (List.mem_of_getElem? hv)
  have hunit : ∀ k < residual.length, v.getD k 0 = if k = j then 1 else 0 := by
    intro k hk
    have hgetD : basis.getD j [] = v := by rw [List.getD_eq_getElem?_getD, hv, Option.getD_some]
    rw [← hunits.getD_unit j hlt k hk, hgetD]
  have hx := hresidual.getD_mem j
  rcases lt_or_gt_of_ne hj with hneg | hpos
  · have hle := add_one_le_of_lt hx (zero_mem _) hneg
    refine ⟨_, mem_candidates.mpr ⟨j, v, hv, Or.inr rfl⟩, ?_⟩
    refine l1Norm_of_getD_sub (x := -1) (by simp [hlength]) hlt ?_ fun k hk => ?_
    · rw [abs_of_nonpos (by linarith), abs_of_neg hneg]
      ring
    · rw [getD_add hlength.symm, hunit k hk]
      split_ifs <;> ring
  · have hle := add_one_le_of_lt (zero_mem _) hx hpos
    refine ⟨_, mem_candidates.mpr ⟨j, v, hv, Or.inl rfl⟩, ?_⟩
    refine l1Norm_of_getD_sub (x := 1) (by simp [hlength]) hlt ?_ fun k hk => ?_
    · rw [abs_of_nonneg (by linarith), abs_of_pos hpos]
    · rw [getD_subtract hlength.symm, hunit k hk]

/-- **While anything is left there is a step**: a primary dimension can be taken. -/
lemma isSome_step?_of_isWhole (hunits : HasUnits p.residual.length basis)
    (hresidual : p.residual.IsWhole) (hnorm : Scalar.tolerance < l1Norm p.residual) :
    (step? basis p).isSome := by
  obtain ⟨j, hj⟩ : ∃ j, p.residual.getD j 0 ≠ 0 := by
    by_contra hzero
    push Not at hzero
    rw [l1Norm_eq_sum, sum_eq_zero fun i _ => by rw [hzero, abs_zero]] at hnorm
    exact absurd hnorm (not_lt.mpr tolerance_pos.le)
  obtain ⟨c, hc, hone⟩ := exists_candidate hunits hresidual hj
  refine isSome_step? hnorm hc ?_
  rw [hone]
  linarith [tolerance_lt_one]

end Whole

/-! ### The shortest composition -/

variable {r : Registry ℚ}

lemma hasUnits_basis (hr : r.IsAccepted) : HasUnits primaryCount r.basis := by
  obtain ⟨hcount, hvector⟩ := hr.primary_first
  obtain ⟨definitions, h⟩ := hr.exists_laidOut
  refine ⟨r.length_basis ▸ hcount, fun v hv => ?_, fun i hi j hj => ?_⟩
  · obtain ⟨e, he, rfl⟩ := List.mem_map.mp hv
    exact h.length_primaryExponents e he
  · have hentry := congrFun (hvector ⟨i, hi⟩) ⟨j, hj⟩
    rw [Pi.single_apply] at hentry
    simpa [Registry.vector, Fin.ext_iff] using hentry

lemma getD_primary_eq_total (d : Dimension r) {j : ℕ} (hj : j < primaryCount) :
    d.primary.getD j 0 = total r.basis d.exponents j := by
  rw [getD_primary d hj, total, r.length_basis]

/-- The composition of a dimension before the first step. -/
def start (d : Dimension r) : Progress := ⟨zeros r.dimensionCount, d.primary⟩

/-- **The loop is a run**: the shortest composition is what becomes of a run of steps that ends
where no step is left. -/
lemma exists_run_shortest (d : Dimension r) : ∃ last, Run r.basis d.start last ∧
    step? r.basis last = none ∧ d.shortest.exponents = last.finish :=
  exists_run_reduce (p := d.start) (lt_reductionSteps _)

lemma length_of_mem_basis (hr : r.IsAccepted) (d : Dimension r) :
    ∀ v ∈ r.basis, v.length = d.primary.length := fun v hv =>
  ((hasUnits_basis hr).length_eq v hv).trans (length_primary d).symm

lemma composes_of_run (hr : r.IsAccepted) {d : Dimension r} {last : Progress}
    (h : Run r.basis d.start last) : Composes r.basis d.primary last := by
  refine h.preserves (fun p q hstep hp => hp.step (length_of_mem_basis hr d) hstep) ?_
  have hstart := Composes.start r.basis d.primary
  rwa [r.length_basis] at hstart

/-- What is dropped at the end is all that the shortest composition differs by. -/
lemma getD_primary_shortest (hr : r.IsAccepted) {d : Dimension r} {last : Progress}
    (hrun : Run r.basis d.start last) (hfinish : d.shortest.exponents = last.finish) (j : ℕ) :
    d.primary.getD j 0 - d.shortest.primary.getD j 0 =
      if Scalar.tolerance < l1Norm last.residual then 0 else last.residual.getD j 0 := by
  have hcomposes := composes_of_run hr hrun
  rcases lt_or_ge j primaryCount with hj | hj
  · have hunits : HasUnits d.primary.length r.basis := (length_primary d).symm ▸ hasUnits_basis hr
    rw [getD_primary_eq_total d.shortest hj, hfinish]
    exact hcomposes.total_finish hunits j
  · have hresidual : last.residual.length ≤ j :=
      (hcomposes.length_residual.trans (length_primary d)).trans_le hj
    rw [getD_of_length_le ((length_primary d).trans_le hj),
      getD_of_length_le ((length_primary d.shortest).trans_le hj), getD_of_length_le hresidual,
      sub_zero, ite_self]

lemma l1Norm_subtract_shortest (hr : r.IsAccepted) (d : Dimension r) :
    l1Norm (subtract d.shortest.primary d.primary) ≤ Scalar.tolerance := by
  obtain ⟨last, hrun, -, hfinish⟩ := exists_run_shortest d
  have hlength : (subtract d.shortest.primary d.primary).length = last.residual.length := by
    rw [(composes_of_run hr hrun).length_residual, length_subtract, length_primary, length_primary,
      min_self]
  have hentry : ∀ j, |(subtract d.shortest.primary d.primary).getD j 0| =
      if Scalar.tolerance < l1Norm last.residual then 0 else |last.residual.getD j 0| := by
    intro j
    rw [getD_subtract ((length_primary _).trans (length_primary d).symm), abs_sub_comm,
      getD_primary_shortest hr hrun hfinish, apply_ite abs, abs_zero]
  rw [l1Norm_eq_sum, sum_congr rfl fun j _ => hentry j, hlength]
  split_ifs with hnorm
  · rw [sum_const_zero]
    exact tolerance_pos.le
  · rw [← l1Norm_eq_sum]
    exact not_lt.mp hnorm

/-- The shortest composition depends on the exponents over the primary dimensions only. -/
lemma exponents_shortest_congr {d e : Dimension r} (h : d.primary = e.primary) :
    d.shortest.exponents = e.shortest.exponents := by
  unfold shortest
  dsimp only
  rw [h]

/-! ### Over whole numbers -/

section Whole

variable (hr : r.IsAccepted) (hwhole : r.IsWhole) {d : Dimension r} (hd : d.primary.IsWhole)

include hr hwhole hd

lemma wholeWithin_of_run {last : Progress} (h : Run r.basis d.start last) :
    WholeWithin (l1Norm d.primary) last := by
  have hbasis : ∀ v ∈ r.basis, ExponentVector.IsWhole v := List.forall_mem_map.mpr hwhole
  have hlength := length_of_mem_basis hr d
  have hboth : Composes r.basis d.primary last ∧ WholeWithin (l1Norm d.primary) last := by
    refine h.preserves
      (P := fun p => Composes r.basis d.primary p ∧ WholeWithin (l1Norm d.primary) p)
      (fun p q hstep hp => ?_)
      ⟨composes_of_run hr Relation.ReflTransGen.refl, WholeWithin.start _ hd⟩
    obtain ⟨hcomposes, hwithin⟩ := hp
    refine ⟨hcomposes.step hlength hstep, hwithin.step hbasis (fun v hv => ?_)
      hcomposes.length_result hstep⟩
    exact (hlength v hv).trans hcomposes.length_residual.symm
  exact hboth.2

/-- **Nothing is left** at the end of a run over whole numbers. -/
lemma l1Norm_residual_le {last : Progress} (hrun : Run r.basis d.start last)
    (hend : step? r.basis last = none) : l1Norm last.residual ≤ Scalar.tolerance := by
  by_contra hnorm
  have hlength : last.residual.length = primaryCount :=
    (composes_of_run hr hrun).length_residual.trans (length_primary d)
  have hunits : HasUnits last.residual.length r.basis := hlength.symm ▸ hasUnits_basis hr
  have hsome := isSome_step?_of_isWhole hunits
    (wholeWithin_of_run hr hwhole hd hrun).residual (not_le.mp hnorm)
  rw [hend] at hsome
  exact absurd hsome Bool.false_ne_true

lemma primary_shortest : d.shortest.primary = d.primary := by
  obtain ⟨last, hrun, hend, hfinish⟩ := exists_run_shortest d
  have hnorm := l1Norm_residual_le hr hwhole hd hrun hend
  have hresidual := (wholeWithin_of_run hr hwhole hd hrun).residual
  refine ext_getD ((length_primary _).trans (length_primary d).symm) fun j _ => ?_
  have hdropped := getD_primary_shortest hr hrun hfinish j
  have hzero : last.residual.getD j 0 = 0 := by
    refine (abs_sub_le_tolerance (hresidual.getD_mem j) (zero_mem _)).mp ?_
    rw [sub_zero]
    exact (abs_getD_le_l1Norm _ j).trans hnorm
  rw [hzero, ite_self, sub_eq_zero] at hdropped
  exact hdropped.symm

end Whole

/-- **The shortest composition is the same dimension.** The loop ends, and what it composes comes to
the dimension up to the tolerance, in the sum over all primary dimensions. Over whole numbers
nothing is left to be put onto the primary dimensions, what is composed is whole, comes to the
dimension exactly, is no longer than the primary composition, and is composed again as itself. -/
theorem shortest_correct (hr : r.IsAccepted) (d : Dimension r) :
    ∃ last, Run r.basis d.start last ∧ step? r.basis last = none ∧
      d.shortest.exponents = last.finish ∧
      d.shortest.equals d = true ∧
      l1Norm (subtract d.shortest.primary d.primary) ≤ Scalar.tolerance ∧
      (r.IsWhole → d.primary.IsWhole →
        ¬Scalar.tolerance < l1Norm last.residual ∧
        d.shortest.exponents.IsWhole ∧
        d.shortest.primary = d.primary ∧
        l1Norm d.shortest.exponents ≤ l1Norm d.primary ∧
        d.shortest.shortest.exponents = d.shortest.exponents) := by
  obtain ⟨last, hrun, hend, hfinish⟩ := exists_run_shortest d
  have hnorm := l1Norm_subtract_shortest hr d
  have hlength : d.shortest.primary.length = d.primary.length :=
    (length_primary _).trans (length_primary d).symm
  refine ⟨last, hrun, hend, hfinish, isClose_of_l1Norm hlength hnorm, hnorm, fun hwhole hd => ?_⟩
  have hresidual := not_lt.mpr (l1Norm_residual_le hr hwhole hd hrun hend)
  have hwithin := wholeWithin_of_run hr hwhole hd hrun
  have hexponents : d.shortest.exponents = last.result := by
    rw [hfinish, Progress.finish, if_neg hresidual]
  refine ⟨hresidual, ?_, primary_shortest hr hwhole hd, ?_,
    exponents_shortest_congr (primary_shortest hr hwhole hd)⟩
  · rw [hexponents]
    exact hwithin.result
  · rw [hexponents]
    have hbound := hwithin.norm_le
    have hleft := l1Norm_nonneg last.residual
    linarith

theorem shortest_correct_energy_force :
    (Bundled.dimension "M².L³.T⁻⁴").shortest.equals (Bundled.dimension "M².L³.T⁻⁴") = true ∧
      (Bundled.dimension "M².L³.T⁻⁴").shortest.exponents.IsWhole ∧
      (Bundled.dimension "M².L³.T⁻⁴").shortest.primary =
        (Bundled.dimension "M².L³.T⁻⁴").primary ∧
      l1Norm (Bundled.dimension "M².L³.T⁻⁴").shortest.exponents ≤
        l1Norm (Bundled.dimension "M².L³.T⁻⁴").primary ∧
      (Bundled.dimension "M².L³.T⁻⁴").shortest.shortest.exponents =
        (Bundled.dimension "M².L³.T⁻⁴").shortest.exponents := by
  obtain ⟨last, -, -, -, hequals, -, hwhole⟩ :=
    shortest_correct Bundled.isAccepted_registry (Bundled.dimension "M².L³.T⁻⁴")
  obtain ⟨-, hexponents, hprimary, hnorm, hagain⟩ :=
    hwhole Bundled.isWhole_registry (by decide +kernel)
  exact ⟨hequals, hexponents, hprimary, hnorm, hagain⟩

example : (Bundled.dimension "M².L³.T⁻⁴").shortest.exponents =
    (Bundled.dimension "E.F").exponents := by decide +kernel

end Dimension

end Metrology
