import Mathlib
import Metrology.Proofs.Combinations
import Metrology.Proofs.Elimination
import Metrology.Proofs.Layout
import Metrology.Proofs.Sorting

/-!
What the search for compositions finds.

The systems that are solved have whole coefficients up to 3, so that the denominators of a solution
divide a determinant up to `7! * 3 ^ 7`: a solution that is whole up to the tolerance is whole. A
composition by independent dimensions is found because its support can be extended by other
dimensions to seven independent ones.
-/

namespace Metrology

open Matrix

namespace Dimension

variable {r : Registry ℚ}

/-! ### Rounding -/

/-- A number with a small denominator is whole if it is close to a whole number. -/
lemma round_eq_of_mul_mem_whole {D x : ℚ} (hD : D ∈ whole) (hne : D ≠ 0)
    (hle : |D| ≤ Nat.factorial 7 * 3 ^ 7) (hx : D * x ∈ whole)
    (h : |x - round x| ≤ Scalar.tolerance) : (round x : ℚ) = x := by
  have hclose : |D * x - D * round x| < 1 := by
    rw [← mul_sub, abs_mul]
    refine (mul_le_mul hle h (abs_nonneg _) (by positivity)).trans_lt ?_
    rw [tolerance_rat]
    norm_num [Nat.factorial]
  have heq := eq_of_abs_sub_lt_one hx (mul_mem hD (intCast_mem_whole (round x))) hclose
  exact (mul_left_cancel₀ hne heq).symm

lemma roundSolution_eq_some_iff {maxExponent : ℚ} {xs ys : List ℚ} :
    roundSolution maxExponent xs = some ys ↔
      (∀ x ∈ xs, |x - round x| ≤ Scalar.tolerance ∧ |(round x : ℚ)| < maxExponent) ∧
        ys = xs.map fun x => (round x : ℚ) := by
  induction xs generalizing ys with
  | nil => simp [roundSolution, eq_comm]
  | cons x xs ih =>
    have hzero : (if (round x : ℚ) == 0 then 0 else (round x : ℚ)) = round x := by
      split_ifs with h
      · exact (beq_iff_eq.mp h).symm
      · rfl
    rw [roundSolution]
    simp only [abs_rat, round_rat, hzero]
    split_ifs with h
    · refine ⟨fun hnone => absurd hnone (by simp), fun h' => ?_⟩
      obtain ⟨hle, hlt⟩ := h'.1 x List.mem_cons_self
      rcases h with h | h
      · exact absurd hle (not_le.mpr h)
      · exact absurd hlt (not_lt.mpr h)
    · have hx : |x - round x| ≤ Scalar.tolerance ∧ |(round x : ℚ)| < maxExponent :=
        ⟨not_lt.mp fun hlt => h (Or.inl hlt), not_le.mp fun hle => h (Or.inr hle)⟩
      rw [List.forall_mem_cons, List.map_cons]
      rcases hrest : roundSolution maxExponent xs with _ | rest
      · refine ⟨fun hnone => absurd hnone (by simp), fun h' => ?_⟩
        rw [ih.mpr ⟨h'.1.2, rfl⟩] at hrest
        exact absurd hrest (by simp)
      · obtain ⟨hall, rfl⟩ := ih.mp hrest
        exact ⟨fun h => ⟨⟨hx, hall⟩, (Option.some.inj h).symm⟩,
          fun h => congrArg some h.2.symm⟩

/-! ### Places -/

/-- A sum over all places is a sum over places beyond which nothing counts. -/
lemma sum_places {n : ℕ} {places : List ℕ} (hp : places.Sublist (List.range n)) {f : ℕ → ℚ}
    (hf : ∀ i ∉ places, f i = 0) : (places.map f).sum = ∑ i ∈ Finset.range n, f i := by
  rw [← List.sum_toFinset f (hp.nodup List.nodup_range)]
  refine Finset.sum_subset (fun i hi => ?_) fun i _ hi => hf i (by simpa using hi)
  exact Finset.mem_range.mpr (List.mem_range.mp (hp.subset (List.mem_toFinset.mp hi)))

lemma sumAt_zip_map (f : ℕ → ℚ) {places : List ℕ} (hp : places.Nodup) (i : ℕ) :
    ExponentVector.sumAt i (places.zip (places.map f)) = if i ∈ places then f i else 0 := by
  induction places with
  | nil => rfl
  | cons p places ih =>
    obtain ⟨hnot, hp⟩ := List.nodup_cons.mp hp
    rw [List.map_cons, List.zip_cons_cons, ExponentVector.sumAt_cons, ih hp]
    by_cases h : p = i
    · subst h
      simp [hnot]
    · simp [h, Ne.symm h]

lemma getD_gather_zip_map {n : ℕ} {places : List ℕ} (hp : places.Sublist (List.range n))
    (f : ℕ → ℚ) (i : ℕ) :
    (ExponentVector.gather n (places.zip (places.map f))).getD i 0 =
      if i ∈ places then f i else 0 := by
  rcases lt_or_ge i n with hi | hi
  · rw [ExponentVector.getD_gather hi, sumAt_zip_map f (hp.nodup List.nodup_range)]
  · have hnot : i ∉ places := fun hmem => absurd (List.mem_range.mp (hp.subset hmem)) hi.not_gt
    rw [ExponentVector.getD_of_length_le (by simpa using hi), if_neg hnot]

/-- A vector that has small numbers at some places, and nothing elsewhere, is small. -/
lemma abs_lt_of_mem_gather {n : ℕ} {places : List ℕ} (hp : places.Sublist (List.range n))
    (hne : places ≠ []) {f : ℕ → ℚ} {bound : ℚ} (h : ∀ i ∈ places, |f i| < bound) :
    ∀ x ∈ ExponentVector.gather n (places.zip (places.map f)), |x| < bound := by
  intro x hx
  obtain ⟨i, hi, rfl⟩ := List.getElem_of_mem hx
  rw [← List.getD_eq_getElem _ 0 hi, getD_gather_zip_map hp]
  split_ifs with hmem
  · exact h i hmem
  · obtain ⟨j, hj⟩ := List.exists_mem_of_ne_nil _ hne
    rw [abs_zero]
    exact (abs_nonneg _).trans_lt (h j hj)

/-- Numbers at different places are the values of a function. -/
lemma exists_map_eq {places : List ℕ} (hp : places.Nodup) {xs : List ℚ}
    (h : xs.length = places.length) : ∃ f : ℕ → ℚ, places.map f = xs := by
  refine ⟨fun i => xs.getD (places.idxOf i) 0, List.ext_getElem (by simp [h]) fun j hj hj' => ?_⟩
  have hj : j < places.length := by simpa using hj
  simp [hp.idxOf_getElem j hj, hj']

lemma linearIndependent_places {places : List ℕ} (hp : places.Nodup) :
    LinearIndependent ℚ (fun j : Fin places.length => r.vector places[j]) ↔
      LinearIndepOn ℚ r.vector {i | i ∈ places} := by
  have hinjective : Function.Injective fun j : Fin places.length => places[j] :=
    List.nodup_iff_injective_get.mp hp
  have hrange : Set.range (fun j : Fin places.length => places[j]) = {i | i ∈ places} := by
    ext i
    simp [List.mem_iff_get]
  rw [← hrange, linearIndepOn_range_iff hinjective]
  rfl

/-- The vectors of all dimensions, at the places that are chosen. -/
def columns (r : Registry ℚ) (places : List ℕ) : List (ExponentVector ℚ) :=
  places.map fun i => r.basis.getD i []

lemma det_columns_ne_zero_iff {places : List ℕ} (hp : places.Nodup)
    (hlength : places.length = primaryCount) :
    (columnMatrix primaryCount (columns r places)).det ≠ 0 ↔
      LinearIndepOn ℚ r.vector {i | i ∈ places} := by
  rw [← linearIndependent_places hp, ← isUnit_iff_ne_zero, ← isUnit_iff_isUnit_det,
    ← linearIndependent_cols_iff_isUnit]
  have hcol : (columnMatrix primaryCount (columns r places)).col =
      (fun j : Fin places.length => r.vector places[j]) ∘ Fin.cast hlength.symm := by
    funext j k
    have hj : (j : ℕ) < places.length := j.isLt.trans_eq hlength.symm
    simp [columnMatrix, columns, Registry.vector, hj]
  rw [hcol]
  exact linearIndependent_equiv (finCongr hlength.symm)

/-- Independent vectors can be extended to a basis by others: the primary ones span everything. -/
lemma exists_places (hr : r.IsAccepted) {S : Set ℕ} (hS : ∀ i ∈ S, i < r.dimensionCount)
    (hind : LinearIndepOn ℚ r.vector S) :
    ∃ places : List ℕ, places.Sublist (List.range r.dimensionCount) ∧
      places.length = primaryCount ∧ (∀ i ∈ S, i ∈ places) ∧
      LinearIndepOn ℚ r.vector {i | i ∈ places} := by
  classical
  obtain ⟨T, hT, hST, hspan, hTind⟩ :=
    exists_linearIndepOn_extension (t := {i | i < r.dimensionCount}) hind hS
  set places := (List.range r.dimensionCount).filter (· ∈ T) with hplaces
  have hmem : ∀ i, i ∈ places ↔ i ∈ T := by
    intro i
    rw [hplaces, List.mem_filter, List.mem_range, decide_eq_true_iff]
    exact ⟨And.right, fun hi => ⟨hT hi, hi⟩⟩
  have hset : {i | i ∈ places} = T := Set.ext hmem
  have hsub : places.Sublist (List.range r.dimensionCount) := List.filter_sublist
  have hnodup := hsub.nodup List.nodup_range
  obtain ⟨hcount, hprimary⟩ := hr.primary_first
  have hfull :
      ⊤ ≤ Submodule.span ℚ (Set.range fun j : Fin places.length => r.vector places[j]) := by
    rw [← (Pi.basisFun ℚ (Fin primaryCount)).span_eq, Submodule.span_le]
    rintro _ ⟨i, rfl⟩
    have hi := hspan ⟨i, i.isLt.trans_le hcount, rfl⟩
    rw [hprimary i] at hi
    rw [Pi.basisFun_apply]
    refine Submodule.span_mono ?_ hi
    rintro _ ⟨k, hk, rfl⟩
    obtain ⟨j, hj, rfl⟩ := List.getElem_of_mem ((hmem k).mpr hk)
    exact ⟨⟨j, hj⟩, rfl⟩
  have hbasis := Module.Basis.mk ((linearIndependent_places hnodup).mpr (hset ▸ hTind)) hfull
  have hlength := Module.finrank_eq_card_basis hbasis
  rw [Module.finrank_fin_fun, Fintype.card_fin] at hlength
  exact ⟨places, hsub, hlength.symm, fun i hi => (hmem i).mpr (hST hi), hset ▸ hTind⟩

/-! ### One system -/

lemma abs_det_columnMatrix_le {columns : List (List ℚ)}
    (hB : ∀ column ∈ columns, ∀ x ∈ column, |x| ≤ 3) :
    |(columnMatrix 7 columns).det| ≤ Nat.factorial 7 * 3 ^ 7 := by
  have hentry : ∀ i j, AbsoluteValue.abs (columnMatrix 7 columns i j) ≤ 3 := by
    intro i j
    exact abs_getD_le (by norm_num) (getD_of_forall_mem
      (p := fun column => ∀ x ∈ column, |x| ≤ 3) (List.forall_mem_nil _) hB j) i
  simpa using det_le hentry

/-- Whatever system is solved, what it returns are small whole numbers. -/
lemma exists_of_solutionFor {target : ExponentVector ℚ} {maxExponent : ℚ}
    {chosen : List (ℕ × ExponentVector ℚ)} {marked : List (ℕ × ℚ)}
    (ht : target.length = primaryCount) (h : solutionFor target maxExponent chosen = some marked) :
    ∃ xs : List ℚ, xs.length = primaryCount ∧ ExponentVector.IsWhole xs ∧
      (∀ x ∈ xs, |x| < maxExponent) ∧ marked = (chosen.map Prod.fst).zip xs := by
  unfold solutionFor at h
  split at h
  · exact absurd h (by simp)
  · rename_i values hvalues
    obtain ⟨xs, hxs, rfl⟩ := Option.map_eq_some_iff.mp h
    obtain ⟨hall, rfl⟩ := roundSolution_eq_some_iff.mp hxs
    obtain ⟨-, hlength, -⟩ := solution_of_solveColumns ht hvalues
    refine ⟨_, (List.length_map _).trans hlength, fun x hx => ?_, fun x hx => ?_, rfl⟩
    all_goals obtain ⟨y, hy, rfl⟩ := List.mem_map.mp hx
    · exact intCast_mem_whole _
    · exact (hall y hy).2

/-- A solution of a system that is not singular is rounded to itself or not at all. -/
lemma round_eq_of_solution {columns : List (List ℚ)} {target xs : List ℚ}
    (htarget : ExponentVector.IsWhole target)
    (hwhole : ∀ column ∈ columns, ExponentVector.IsWhole column)
    (hB : ∀ column ∈ columns, ∀ x ∈ column, |x| ≤ 3) (hne : (columnMatrix 7 columns).det ≠ 0)
    (hlength : xs.length = 7)
    (hsolves : columnMatrix 7 columns *ᵥ (fun j : Fin 7 => xs.getD j 0) =
      fun i : Fin 7 => target.getD i 0) :
    ∀ x ∈ xs, |x - round x| ≤ Scalar.tolerance → (round x : ℚ) = x := by
  intro x hx hclose
  obtain ⟨j, hj, rfl⟩ := List.getElem_of_mem hx
  have hcramer := det_mul_mem_whole (columnMatrix_mem_whole hwhole)
    (fun i => htarget.getD_mem i) hsolves ⟨j, hlength ▸ hj⟩
  refine round_eq_of_mul_mem_whole (det_mem_whole (columnMatrix_mem_whole hwhole)) hne
    (abs_det_columnMatrix_le hB) ?_ hclose
  simpa [hj] using hcramer

lemma map_round_eq {xs : List ℚ} (h : ∀ x ∈ xs, (round x : ℚ) = x) :
    xs.map (fun x => (round x : ℚ)) = xs := by
  conv_rhs => rw [← List.map_id xs]
  exact List.map_congr_left h

/-- **One system**: a solution is returned if the columns are independent and the solution is in
whole numbers below the bound. -/
lemma solutionFor_eq_some_iff {target : ExponentVector ℚ} {maxExponent : ℚ}
    {chosen : List (ℕ × ExponentVector ℚ)} {marked : List (ℕ × ℚ)} (hc : chosen.length = 7)
    (ht : target.length = 7) (htarget : target.IsWhole)
    (hwhole : ∀ column ∈ chosen.map Prod.snd, ExponentVector.IsWhole column)
    (hB : ∀ column ∈ chosen.map Prod.snd, ∀ x ∈ column, |x| ≤ 3) :
    solutionFor target maxExponent chosen = some marked ↔
      (columnMatrix 7 (chosen.map Prod.snd)).det ≠ 0 ∧ ∃ xs : List ℚ, xs.length = 7 ∧
        columnMatrix 7 (chosen.map Prod.snd) *ᵥ (fun j : Fin 7 => xs.getD j 0) =
          (fun i : Fin 7 => target.getD i 0) ∧
        ExponentVector.IsWhole xs ∧ (∀ x ∈ xs, |x| < maxExponent) ∧
        marked = (chosen.map Prod.fst).zip xs := by
  unfold solutionFor
  rcases hsolve : solveColumns (chosen.map Prod.snd) target with _ | values
  · refine ⟨fun hnone => absurd hnone (by simp), fun h => ?_⟩
    exact absurd (det_eq_zero_of_solveColumns (by simpa using hc) ht hwhole hB hsolve) h.1
  obtain ⟨-, hlength, hne, hvalues⟩ := solution_of_solveColumns ht hsolve
  dsimp only
  rw [Option.map_eq_some_iff]
  constructor
  · rintro ⟨ys, hys, rfl⟩
    obtain ⟨hall, rfl⟩ := roundSolution_eq_some_iff.mp hys
    have hround : ∀ x ∈ values, (round x : ℚ) = x := fun x hx =>
      round_eq_of_solution htarget hwhole hB hne hlength hvalues x hx (hall x hx).1
    rw [map_round_eq hround]
    refine ⟨hne, values, hlength, hvalues, fun x hx => ?_, fun x hx => ?_, rfl⟩
    · exact hround x hx ▸ intCast_mem_whole _
    · exact hround x hx ▸ (hall x hx).2
  · rintro ⟨-, xs, hxs, hsolves, hxwhole, hlt, rfl⟩
    obtain rfl := eq_of_mulVec_eq hne hxs hlength (hsolves.trans hvalues.symm)
    have hround : ∀ x ∈ xs, (round x : ℚ) = x := by
      intro x hx
      obtain ⟨n, rfl⟩ := mem_whole.mp (hxwhole x hx)
      rw [round_intCast]
    refine ⟨xs, roundSolution_eq_some_iff.mpr ⟨fun x hx => ?_, (map_round_eq hround).symm⟩, rfl⟩
    rw [hround x hx, sub_self, abs_zero, tolerance_rat]
    exact ⟨by norm_num, hlt x hx⟩

/-! ### The search -/

/-- Numbers at chosen places solve the system of these places if the vector with these numbers has
the target as its linear combination. -/
lemma mulVec_columns_iff {places : List ℕ}
    (hp : places.Sublist (List.range r.dimensionCount)) (hlength : places.length = primaryCount)
    {v : ExponentVector ℚ} (hv : v.length = r.dimensionCount)
    (hsupport : ∀ i ∉ places, v.getD i 0 = 0) {target : ExponentVector ℚ}
    (ht : target.length = primaryCount) :
    columnMatrix primaryCount (columns r places) *ᵥ
        (fun j : Fin primaryCount => (places.map fun i => v.getD i 0).getD j 0) =
          (fun j : Fin primaryCount => target.getD j 0) ↔
      ExponentVector.combine v r.basis primaryCount = target := by
  have hentry : ∀ j : Fin primaryCount, (columnMatrix primaryCount (columns r places) *ᵥ
      fun j : Fin primaryCount => (places.map fun i => v.getD i 0).getD j 0) j =
        (ExponentVector.combine v r.basis primaryCount).getD j 0 := by
    intro j
    rw [mulVec_columnMatrix (by simpa [columns] using hlength), columns, List.map_map,
      List.zipWith_map_left, List.zipWith_map_right, List.zipWith_self,
      ExponentVector.getD_combine _ _ j.isLt, hv, ← sum_places hp]
    · simp only [Function.comp_apply, mul_comm]
    · intro i hi
      rw [hsupport i hi, zero_mul]
  rw [funext_iff]
  simp only [hentry]
  constructor
  · intro h
    exact ExponentVector.ext_getD (by simp [ht]) fun j hj => h ⟨j, by simpa using hj⟩
  · rintro rfl j
    rfl

/-- The vectors that the systems give, in the order in which they are solved. -/
def found (d : Dimension r) (maxExponent : ℚ) : List (ExponentVector ℚ) :=
  ((systems r none).filterMap (solutionFor d.primary maxExponent)).map
    (ExponentVector.gather r.dimensionCount)

lemma mem_found {d : Dimension r} {maxExponent : ℚ} {v : ExponentVector ℚ} :
    v ∈ found d maxExponent ↔ ∃ places : List ℕ,
      places.Sublist (List.range r.dimensionCount) ∧ places.length = primaryCount ∧
      ∃ marked, solutionFor d.primary maxExponent
          (places.map fun i => (i, r.basis.getD i [])) = some marked ∧
        ExponentVector.gather r.dimensionCount marked = v := by
  unfold found
  rw [List.mem_map]
  constructor
  · rintro ⟨marked, hmarked, rfl⟩
    obtain ⟨_, hchosen, hsolution⟩ := List.mem_filterMap.mp hmarked
    obtain ⟨places, hp, hlength, rfl⟩ := mem_systems.mp hchosen
    exact ⟨places, hp, hlength, marked, hsolution, rfl⟩
  · rintro ⟨places, hp, hlength, marked, hsolution, rfl⟩
    exact ⟨marked, List.mem_filterMap.mpr
      ⟨_, mem_systems.mpr ⟨places, hp, hlength, rfl⟩, hsolution⟩, rfl⟩

lemma isWhole_primary (hwhole : r.IsWhole) {d : Dimension r} (hd : d.exponents.IsWhole) :
    ExponentVector.IsWhole d.primary := by
  intro x hx
  obtain ⟨j, hj, rfl⟩ := List.getElem_of_mem hx
  rw [← List.getD_eq_getElem _ 0 hj]
  exact getD_primary_mem_whole hwhole hd j

section Search

variable (hwhole : r.IsWhole) (hB : ∀ e ∈ r.dimensions, ∀ x ∈ e.primaryExponents, |x| ≤ 3)
  {d : Dimension r} (hd : d.exponents.IsWhole) {maxExponent : ℚ}

include hwhole hB hd in
/-- What a choice of places contributes. -/
lemma solutionFor_places_iff {places : List ℕ}
    (hp : places.Sublist (List.range r.dimensionCount)) (hlength : places.length = primaryCount)
    {marked : List (ℕ × ℚ)} :
    solutionFor d.primary maxExponent (places.map fun i => (i, r.basis.getD i [])) =
        some marked ↔
      LinearIndepOn ℚ r.vector {i | i ∈ places} ∧ ∃ xs : List ℚ, xs.length = primaryCount ∧
        columnMatrix primaryCount (columns r places) *ᵥ
            (fun j : Fin primaryCount => xs.getD j 0) =
          (fun j : Fin primaryCount => d.primary.getD j 0) ∧
        ExponentVector.IsWhole xs ∧ (∀ x ∈ xs, |x| < maxExponent) ∧ marked = places.zip xs := by
  have hsnd : (places.map fun i => (i, r.basis.getD i [])).map Prod.snd = columns r places := by
    simp [columns]
  have hfst : (places.map fun i => (i, r.basis.getD i [])).map Prod.fst = places := by
    simp [Function.comp_def]
  have hmem : ∀ column ∈ columns r places, ∃ e ∈ r.dimensions, e.primaryExponents = column := by
    intro column hcolumn
    obtain ⟨i, hi, rfl⟩ := List.mem_map.mp hcolumn
    have hi : i < r.basis.length := by
      simpa [Registry.basis, Registry.dimensionCount] using List.mem_range.mp (hp.subset hi)
    rw [List.getD_eq_getElem _ _ hi]
    exact List.mem_map.mp (List.getElem_mem hi)
  rw [solutionFor_eq_some_iff ((List.length_map _).trans hlength) d.length_primary
    (isWhole_primary hwhole hd) (fun column hcolumn => ?_) (fun column hcolumn => ?_)]
  · rw [hsnd, hfst, ← det_columns_ne_zero_iff (hp.nodup List.nodup_range) hlength]
    exact Iff.rfl
  · obtain ⟨e, he, rfl⟩ := hmem column (hsnd ▸ hcolumn)
    exact hwhole e he
  · obtain ⟨e, he, rfl⟩ := hmem column (hsnd ▸ hcolumn)
    exact hB e he

include hwhole hB hd in
/-- Soundness: what is found composes the dimension, in small whole numbers and independently. -/
lemma composes_of_mem_found {v : ExponentVector ℚ} (h : v ∈ found d maxExponent) :
    v.length = r.dimensionCount ∧ v.IsWhole ∧ (∀ x ∈ v, |x| < maxExponent) ∧
      ExponentVector.combine v r.basis primaryCount = d.primary ∧
      LinearIndepOn ℚ r.vector {i | v.getD i 0 ≠ 0} := by
  obtain ⟨places, hp, hlength, marked, hsolution, rfl⟩ := mem_found.mp h
  obtain ⟨hind, xs, hxs, hsolves, hxwhole, hlt, rfl⟩ :=
    (solutionFor_places_iff hwhole hB hd hp hlength).mp hsolution
  obtain ⟨f, rfl⟩ := exists_map_eq (hp.nodup List.nodup_range) (hxs.trans hlength.symm)
  have hentry := getD_gather_zip_map hp f
  have houtside : ∀ i ∉ places, (ExponentVector.gather r.dimensionCount
      (places.zip (places.map f))).getD i 0 = 0 := fun i hi => by rw [hentry, if_neg hi]
  have hinside : places.map (fun i => (ExponentVector.gather r.dimensionCount
      (places.zip (places.map f))).getD i 0) = places.map f :=
    List.map_congr_left fun i hi => by rw [hentry, if_pos hi]
  refine ⟨ExponentVector.length_gather _ _,
    ExponentVector.isWhole_gather _ fun p hmem => hxwhole _ (List.of_mem_zip hmem).2,
    abs_lt_of_mem_gather hp (List.ne_nil_of_length_eq_add_one hlength)
      fun i hi => hlt _ (List.mem_map_of_mem hi), ?_, hind.mono fun i hi => ?_⟩
  · exact (mulVec_columns_iff hp hlength (ExponentVector.length_gather _ _) houtside
      d.length_primary).mp (hinside.symm ▸ hsolves)
  · by_contra hnot
    exact hi (houtside i hnot)

include hwhole hB hd in
/-- Completeness: whatever composes the dimension like this is found. -/
lemma mem_found_of_composes (hr : r.IsAccepted) {v : ExponentVector ℚ}
    (hv : v.length = r.dimensionCount) (hvwhole : v.IsWhole) (hlt : ∀ x ∈ v, |x| < maxExponent)
    (hcombine : ExponentVector.combine v r.basis primaryCount = d.primary)
    (hind : LinearIndepOn ℚ r.vector {i | v.getD i 0 ≠ 0}) : v ∈ found d maxExponent := by
  have hsmall : ∀ i ∈ {i | v.getD i 0 ≠ 0}, i < r.dimensionCount := by
    intro i hi
    by_contra hge
    exact hi (ExponentVector.getD_of_length_le (hv.trans_le (not_lt.mp hge)))
  obtain ⟨places, hp, hlength, hsupport, hplaces⟩ := exists_places hr hsmall hind
  have houtside : ∀ i ∉ places, v.getD i 0 = 0 := by
    intro i hi
    by_contra hne
    exact hi (hsupport i hne)
  have hsolution : solutionFor d.primary maxExponent
      (places.map fun i => (i, r.basis.getD i [])) =
        some (places.zip (places.map fun i => v.getD i 0)) := by
    refine (solutionFor_places_iff hwhole hB hd hp hlength).mpr
      ⟨hplaces, _, by simpa using hlength, ?_, fun x hx => ?_, fun x hx => ?_, rfl⟩
    · exact (mulVec_columns_iff hp hlength hv houtside d.length_primary).mpr hcombine
    · obtain ⟨i, -, rfl⟩ := List.mem_map.mp hx
      exact hvwhole.getD_mem i
    · obtain ⟨i, hi, rfl⟩ := List.mem_map.mp hx
      have hi : i < v.length := hv ▸ List.mem_range.mp (hp.subset hi)
      rw [List.getD_eq_getElem _ _ hi]
      exact hlt _ (List.getElem_mem hi)
  refine mem_found.mpr ⟨places, hp, hlength, _, hsolution,
    ExponentVector.ext_getD (by simp [hv]) fun i _ => ?_⟩
  rw [getD_gather_zip_map hp]
  split_ifs with hi
  · rfl
  · exact (houtside i hi).symm

end Search

/-! ### Selection -/

open ExponentVector (isClose_iff)

lemma countNonzero_eq {v : ExponentVector ℚ} (hv : v.IsWhole) :
    ExponentVector.countNonzero v = v.countP fun x => x ≠ 0 := by
  unfold ExponentVector.countNonzero
  refine List.countP_congr fun x hx => ?_
  have hiff := abs_sub_le_tolerance (hv x hx) whole.zero_mem
  rw [sub_zero] at hiff
  rw [decide_eq_true_iff, decide_eq_true_iff, abs_rat, ← not_le, hiff]

/-- **The search is sound and complete**: without a bound on the systems, it returns exactly the
other compositions by independent dimensions in whole numbers within the bounds, each once, from the
simplest to the most complex. -/
theorem searchWithin_exact (hr : r.IsAccepted) (hwhole : r.IsWhole)
    (hB : ∀ e ∈ r.dimensions, ∀ x ∈ e.primaryExponents, |x| ≤ 3) {d : Dimension r}
    (hd : d.exponents.IsWhole) (maxComposingDimensions : ℕ) (maxExponent : ℚ) :
    (∀ e : Dimension r,
      e ∈ (d.searchWithin ⟨maxComposingDimensions, maxExponent, none⟩).dimensions ↔
        e.exponents.IsWhole ∧ e.exponents ≠ d.exponents ∧ e.primary = d.primary ∧
          (∀ x ∈ e.exponents, |x| < maxExponent) ∧
          (e.exponents.countP fun x => x ≠ 0) ≤ maxComposingDimensions ∧
          LinearIndepOn ℚ r.vector {i | e.exponents.getD i 0 ≠ 0}) ∧
      (d.searchWithin ⟨maxComposingDimensions, maxExponent, none⟩).dimensions.Nodup ∧
      (d.searchWithin ⟨maxComposingDimensions, maxExponent, none⟩).dimensions.Pairwise
        fun e e' => ExponentVector.Simpler e.exponents e'.exponents := by
  set selected := (sorted (found d maxExponent)).filter fun v =>
    !ExponentVector.isClose v d.exponents Scalar.tolerance
      && decide (ExponentVector.countNonzero v ≤ maxComposingDimensions) with hselected
  have hdimensions : (d.searchWithin ⟨maxComposingDimensions, maxExponent, none⟩).dimensions =
      selected.map (padded r) := rfl
  have hfound : ∀ v ∈ selected, v ∈ found d maxExponent :=
    fun v hv => mem_sorted.mp (List.mem_of_mem_filter hv)
  have hlength : ∀ v ∈ selected, v.length = r.dimensionCount :=
    fun v hv => (composes_of_mem_found hwhole hB hd (hfound v hv)).1
  have hsorted : selected.Pairwise ExponentVector.Simpler := (pairwise_sorted _).filter _
  have hpairwise : (selected.map (padded r)).Pairwise
      fun e e' => ExponentVector.Simpler e.exponents e'.exponents := by
    refine List.pairwise_map.mpr (hsorted.imp_of_mem fun {v w} hv hw hvw => ?_)
    rwa [exponents_padded (hlength v hv), exponents_padded (hlength w hw)]
  rw [hdimensions]
  refine ⟨fun e => ?_, hpairwise.imp fun {e e'} h heq => ?_, hpairwise⟩
  · constructor
    · intro he
      obtain ⟨v, hv, rfl⟩ := List.mem_map.mp he
      obtain ⟨hvlength, hvwhole, hlt, hcombine, hind⟩ :=
        composes_of_mem_found hwhole hB hd (hfound v hv)
      have hkept := (List.mem_filter.mp hv).2
      rw [Bool.and_eq_true, Bool.not_eq_true', decide_eq_true_iff, countNonzero_eq hvwhole]
        at hkept
      rw [primary, exponents_padded hvlength]
      refine ⟨hvwhole, fun heq => ?_, hcombine, hlt, hkept.2, hind⟩
      rw [(isClose_iff (hvlength.trans d.length_eq.symm) hvwhole hd).mpr heq] at hkept
      exact absurd hkept.1 (by simp)
    · rintro ⟨hewhole, hne, hprimary, hlt, hcount, hind⟩
      refine List.mem_map.mpr ⟨e.exponents, List.mem_filter.mpr
        ⟨mem_sorted.mpr (mem_found_of_composes hwhole hB hd hr e.length_eq hewhole hlt hprimary
          hind), ?_⟩, exponents_injective (exponents_padded e.length_eq)⟩
      rw [Bool.and_eq_true, Bool.not_eq_true', decide_eq_true_iff, countNonzero_eq hewhole]
      refine ⟨?_, hcount⟩
      rw [Bool.eq_false_iff, ne_eq,
        isClose_iff (e.length_eq.trans d.length_eq.symm) hewhole hd]
      exact hne
  · have hirrefl := ExponentVector.key_lt_key_iff.mpr (heq ▸ h)
    exact lt_irrefl _ hirrefl

/-- Among the compositions of an energy by two dimensions there is force times length. -/
theorem searchWithin_exact_energy :
    Registry.Bundled.dimension "F.L" ∈
      ((Registry.Bundled.dimension "E").searchWithin ⟨2, 2, none⟩).dimensions := by
  refine ((searchWithin_exact Registry.Bundled.isAccepted_registry
    Registry.Bundled.isWhole_registry (by decide +kernel) (by decide +kernel) 2 2).1 _).mpr
      ⟨by decide +kernel, by decide +kernel, by decide +kernel, by decide +kernel,
        by decide +kernel, ?_⟩
  have hsupport : {i | (Registry.Bundled.dimension "F.L").exponents.getD i 0 ≠ 0} ⊆ {1, 17} := by
    intro i hi
    have hlt : i < 19 := by
      by_contra hge
      exact hi (ExponentVector.getD_of_length_le
        ((Registry.Bundled.dimension "F.L").length_eq.trans_le (not_lt.mp hge)))
    have hall : ∀ i < 19,
        (Registry.Bundled.dimension "F.L").exponents.getD i 0 ≠ 0 → i = 1 ∨ i = 17 := by
      decide +kernel
    exact hall i hlt hi
  refine LinearIndepOn.mono ?_ hsupport
  rw [LinearIndepOn.pair_iff _ (by norm_num)]
  intro x y h
  -- force alone has mass in it
  let mass : Fin primaryCount := ⟨0, by decide⟩
  let length : Fin primaryCount := ⟨1, by decide⟩
  have hmass : x * Registry.Bundled.registry.vector 1 mass +
      y * Registry.Bundled.registry.vector 17 mass = 0 := congrFun h mass
  have hlength : x * Registry.Bundled.registry.vector 1 length +
      y * Registry.Bundled.registry.vector 17 length = 0 := congrFun h length
  rw [show Registry.Bundled.registry.vector 1 mass = 0 by decide +kernel,
    show Registry.Bundled.registry.vector 17 mass = 1 by decide +kernel] at hmass
  rw [show Registry.Bundled.registry.vector 1 length = 1 by decide +kernel,
    show Registry.Bundled.registry.vector 17 length = 1 by decide +kernel] at hlength
  constructor <;> linarith

end Dimension

end Metrology
