import Mathlib
import Metrology.Proofs.Effects
import Metrology.Proofs.NonFinite
import Metrology.Proofs.Traversal

/-!
Dimensions and units with finite exponents, over the doubles.

A vector that is handed over is checked entry by entry. Of a unit that is made only the dimension is
checked, but that is enough: an exponent that is not finite makes the sum for the dimension it
belongs to one that is not finite either.
-/

namespace Metrology

open Double

namespace ExponentVector

section

variable {α : Type} [Scalar α] {role : VectorRole} {v : ExponentVector α}

lemma all_isFinite_of_violation? {n : ℕ} (h : violation? role n v = none) :
    v.all Scalar.isFinite = true := by
  unfold violation? at h
  split_ifs at h
  split at h
  · exact absurd h (by simp)
  rename_i hnone
  refine List.all_eq_true.mpr fun x hx => ?_
  obtain ⟨i, hi⟩ := List.mem_iff_getElem?.mp hx
  have hmem : (x, i) ∈ v.zipIdx := List.mem_zipIdx_iff_getElem?.mpr hi
  have hfilter := List.filter_eq_nil_iff.mp hnone (x, i) hmem
  simpa using hfilter

/-- Of a vector of the right length only an entry that is not finite is refused. -/
lemma violation?_cases (role : VectorRole) {n : ℕ} (hv : v.length = n) :
    v.all Scalar.isFinite = true ∧ violation? role n v = none ∨
      ¬v.all Scalar.isFinite = true ∧ ∃ (i : ℕ) (x : α), Scalar.isFinite x = false ∧
        violation? role n v = some (.vectorEntry role i (Scalar.text x)) := by
  cases h : violation? role n v with
  | none => exact .inl ⟨all_isFinite_of_violation? h, rfl⟩
  | some violation =>
    right
    unfold violation? at h
    rw [if_neg (not_not.mpr hv)] at h
    split at h
    · rename_i x i _ hentries
      have hmem : (x, i) ∈ notFinite v := hentries ▸ List.mem_cons_self
      obtain ⟨hentry, hx⟩ := List.mem_filter.mp hmem
      have hx : Scalar.isFinite x = false := by simpa using hx
      refine ⟨fun hall => ?_, i, x, hx, h.symm⟩
      have hfinite := List.all_eq_true.mp hall x
        (List.mem_of_getElem? (List.mem_zipIdx_iff_getElem?.mp hentry))
      exact absurd hfinite (Bool.eq_false_iff.mp hx)
    · exact absurd h (by simp)

end

variable {role : VectorRole} {v : ExponentVector Float}

lemma isFinite_normalized {x : Float} (h : x.isFinite = true) :
    (Scalar.normalized x).isFinite = true := by
  unfold Scalar.normalized
  split_ifs
  · exact isNumber_zero.isFinite
  · exact h

lemma all_isFinite_of_ofEntries {index : ℕ} {entries : List (Datum Float)}
    (h : ofEntries role index entries = .ok v) : v.all Scalar.isFinite = true := by
  induction entries generalizing index v with
  | nil =>
    obtain rfl := Except.ok.inj h
    rfl
  | cons entry entries ih =>
    simp only [ofEntries] at h
    split at h
    · exact absurd h (by simp)
    · rename_i x hx
      split at h
      · exact absurd h (by simp)
      · rename_i values hvalues
        obtain rfl := Except.ok.inj h
        refine Bool.and_eq_true_iff.mpr ⟨isFinite_normalized ?_, ih hvalues⟩
        cases entry with
        | number y =>
          simp only [Datum.finite?] at hx
          split_ifs at hx with hfinite
          rwa [← Option.some.inj hx]
        | _ => exact absurd hx (by simp [Datum.finite?])

/-- A vector that is accepted is finite. -/
lemma all_isFinite_of_ofData {n : ℕ} {entries : List (Datum Float)}
    (h : ofData role n entries = .ok v) : v.all Scalar.isFinite = true := by
  unfold ofData at h
  split_ifs at h
  exact all_isFinite_of_ofEntries h

/-- A sum is finite only if all its parts are. -/
lemma isFinite_of_foldl {index : ℕ} {marked : List (ℕ × Float)} {start : Float}
    (h : (marked.foldl (fun sum (i, x) => if i = index then sum + x else sum)
      start).isFinite = true) :
    start.isFinite = true ∧ ∀ p ∈ marked, p.1 = index → p.2.isFinite = true := by
  induction marked generalizing start with
  | nil => exact ⟨h, fun _ hp => absurd hp List.not_mem_nil⟩
  | cons p marked ih =>
    obtain ⟨i, x⟩ := p
    obtain ⟨hstart, hrest⟩ := ih h
    simp only at hstart
    split_ifs at hstart with hi
    · obtain ⟨hstart, hx⟩ := isFinite_of_add hstart
      exact ⟨hstart, List.forall_mem_cons.mpr ⟨fun _ => hx, hrest⟩⟩
    · exact ⟨hstart, List.forall_mem_cons.mpr ⟨fun heq => absurd heq hi, hrest⟩⟩

lemma isFinite_of_gather {n : ℕ} {marked : List (ℕ × Float)}
    (h : (gather n marked).all Scalar.isFinite = true) {p : ℕ × Float} (hp : p ∈ marked)
    (hlt : p.1 < n) : p.2.isFinite = true := by
  have hsum : (sumAt p.1 marked).isFinite = true :=
    List.all_eq_true.mp h _ (List.mem_map_of_mem (List.mem_range.mpr hlt))
  exact (isFinite_of_foldl hsum).2 p hp rfl

lemma all_isFinite_zeros (n : ℕ) : (zeros n : ExponentVector Float).all Scalar.isFinite = true := by
  refine List.all_eq_true.mpr fun x hx => ?_
  obtain rfl := List.eq_of_mem_replicate hx
  exact isNumber_zero.isFinite

lemma isFinite_of_addMultiple {x : Float} {v w : ExponentVector Float}
    (h : (addMultiple x v w).all Scalar.isFinite = true) :
    v.all Scalar.isFinite = true ∧ (v ≠ [] → x.isFinite = true) := by
  induction v generalizing w with
  | nil => exact ⟨rfl, fun hne => absurd rfl hne⟩
  | cons y v ih =>
    have hcons (z : Float) (w : ExponentVector Float)
        (h : ((y + x * z) :: addMultiple x v w).all Scalar.isFinite = true) :
        (y :: v).all Scalar.isFinite = true ∧ (y :: v ≠ [] → x.isFinite = true) := by
      obtain ⟨hsum, hrest⟩ := Bool.and_eq_true_iff.mp h
      obtain ⟨hy, hproduct⟩ := isFinite_of_add hsum
      exact ⟨Bool.and_eq_true_iff.mpr ⟨hy, (ih hrest).1⟩, fun _ => isFinite_of_mul hproduct⟩
    cases w with
    | nil => exact hcons 0 [] h
    | cons z w => exact hcons z w h

/-- An exponent that is not finite makes all sums that it counts for such. -/
lemma isFinite_of_combineOnto {sum e : ExponentVector Float} {basis : List (ExponentVector Float)}
    (hsum : sum ≠ []) (h : (combineOnto sum e basis).all Scalar.isFinite = true) :
    sum.all Scalar.isFinite = true ∧ e.all Scalar.isFinite = true := by
  induction e generalizing sum basis with
  | nil => exact ⟨h, rfl⟩
  | cons x e ih =>
    rw [combineOnto] at h
    split_ifs at h with hzero
    · obtain ⟨hsum, he⟩ := ih hsum h
      have hx : x.isFinite = true := by
        by_contra hnot
        exact absurd hzero (Bool.eq_false_iff.mp
          (beq_isNumber (Bool.eq_false_iff.mpr hnot) isNumber_zero))
      exact ⟨hsum, Bool.and_eq_true_iff.mpr ⟨hx, he⟩⟩
    · have hnext : addMultiple x sum (basis.headD []) ≠ [] := by
        rwa [← List.length_pos_iff, length_addMultiple, List.length_pos_iff]
      obtain ⟨hnew, he⟩ := ih hnext h
      obtain ⟨hfinite, hx⟩ := isFinite_of_addMultiple hnew
      exact ⟨hfinite, Bool.and_eq_true_iff.mpr ⟨hx hsum, he⟩⟩

end ExponentVector

variable {r : Registry Float}

/-! ### Dimensions and units that are made -/

namespace Dimension

lemma isFinite_one : (one r).isFinite = true := ExponentVector.all_isFinite_zeros _

lemma isFinite_padded {v : ExponentVector Float} (h : v.all Scalar.isFinite = true) :
    (padded r v).isFinite = true := by
  refine List.all_eq_true.mpr fun x hx => ?_
  obtain ⟨slot, -, rfl⟩ := List.mem_map.mp hx
  exact getD_of_forall_mem (p := fun x : Float => Scalar.isFinite x = true) isNumber_zero.isFinite
    (List.all_eq_true.mp h) slot

lemma isFinite_of_ofVector {v : ExponentVector Float} {d : Dimension r} (h : ofVector r v = .ok d) :
    d.isFinite = true ∧ d.exponents = v := by
  unfold ofVector at h
  split at h
  · exact absurd h (by simp)
  · rename_i hnone
    split at h
    · obtain rfl := Except.ok.inj h
      exact ⟨ExponentVector.all_isFinite_of_violation? hnone, rfl⟩
    · exact absurd h (by simp)

lemma yields_isFinite_ofData (entries : List (Datum Float)) :
    Yields (fun d => d.isFinite = true) (ofData r entries) := by
  unfold ofData
  split
  · exact .error _
  · rename_i hv
    exact .ok (ExponentVector.all_isFinite_of_ofData hv)

lemma yields_isFinite_toPrimary (d : Dimension r) :
    Yields (fun e => e.isFinite = true) d.toPrimary := by
  unfold toPrimary ofPrimary
  split
  · exact .error _
  · rename_i hnone
    exact .ok (isFinite_padded (ExponentVector.all_isFinite_of_violation? hnone))

lemma all_isFinite_of_toPrimary {d e : Dimension r} (h : d.toPrimary = .ok e) :
    d.primary.all Scalar.isFinite = true := by
  unfold toPrimary ofPrimary at h
  split at h
  · exact absurd h (by simp)
  · rename_i hnone
    exact ExponentVector.all_isFinite_of_violation? hnone

/-- A dimension is finite if it comes to finite exponents of the primary dimensions. -/
lemma isFinite_of_primary {d : Dimension r} (h : d.primary.all Scalar.isFinite = true) :
    d.isFinite = true :=
  (ExponentVector.isFinite_of_combineOnto (List.cons_ne_nil _ _) h).2

end Dimension

/-- Whether the places that the entries of a registry refer to are there. -/
structure Registry.IsComplete (r : Registry Float) : Prop where
  index_lt : ∀ d ∈ r.dimensions, d.index < r.dimensionCount
  dimensionIndex_lt : ∀ u ∈ r.units, u.dimensionIndex < r.dimensionCount

lemma Registry.isComplete_of_decode {document : Datum Float} (h : decode document = .ok r) :
    r.IsComplete := by
  obtain ⟨data, -, -, hlaid⟩ := exists_laidOut_of_decode h
  refine ⟨fun d hd => ?_, fun u hu => hlaid.dimensionIndex_lt hu⟩
  have hindex : d.index ∈ r.dimensions.map DimensionEntry.index := List.mem_map_of_mem hd
  rw [hlaid.map_index_dimensions] at hindex
  exact List.mem_range.mp hindex

/-- An exponent that is not finite makes the sum for its dimension one that is not finite. -/
lemma Registry.IsComplete.all_isFinite_of_dimensionOf (hr : r.IsComplete)
    {v : ExponentVector Float} (h : v.length = r.unitCount)
    (hfinite : (r.dimensionOf v).isFinite = true) : v.all Scalar.isFinite = true := by
  refine List.all_eq_true.mpr fun x hx => ?_
  obtain ⟨i, hi, rfl⟩ := List.getElem_of_mem hx
  have hi' : i < r.units.length := hi.trans_eq h
  have hpair : (r.units[i], v[i]) ∈ r.paired v := by
    have hlt : i < (r.units.zip v).length := by
      rw [List.length_zip]
      exact lt_min hi' hi
    have hget : (r.units.zip v)[i] = (r.units[i], v[i]) := List.getElem_zip
    exact hget ▸ List.getElem_mem hlt
  have hmarked : (r.units[i].dimensionIndex, v[i]) ∈
      (r.paired v).map fun (unit, exponent) => (unit.dimensionIndex, exponent) :=
    List.mem_map.mpr ⟨_, hpair, rfl⟩
  have hgather : (ExponentVector.gather r.dimensionCount
      ((r.paired v).map fun (unit, exponent) => (unit.dimensionIndex, exponent))).all
        Scalar.isFinite = true := hfinite
  have hexponent := ExponentVector.isFinite_of_gather hgather hmarked
    (hr.dimensionIndex_lt _ (List.getElem_mem hi'))
  exact hexponent

namespace Unit

/-- Whether the exponents of a unit and of the dimension that it carries are finite. -/
structure IsFinite (u : Unit r) : Prop where
  exponents : u.isFinite = true
  dimension : u.dimension.isFinite = true

/-- **Checking the dimension is enough**: a unit whose dimension is finite is finite itself. -/
lemma yields_isFinite_ofVector (hr : r.IsComplete) (v : ExponentVector Float)
    (h : v.length = r.unitCount) : Yields IsFinite (ofVector r v h) := by
  unfold ofVector
  split
  · exact .error _
  · rename_i dimension hdimension
    obtain ⟨hfinite, heq⟩ := Dimension.isFinite_of_ofVector hdimension
    refine .ok ⟨hr.all_isFinite_of_dimensionOf h ?_, hfinite⟩
    rw [Dimension.isFinite, ← heq]
    exact hfinite

variable (hr : r.IsComplete)

include hr

lemma yields_isFinite_ofData (entries : List (Datum Float)) :
    Yields IsFinite (ofData r entries) := by
  unfold ofData
  split
  · exact .error _
  · exact yields_isFinite_ofVector hr _ _

lemma yields_isFinite_parse (text : String) : Yields IsFinite (parse r text) := by
  unfold parse
  split
  · exact .error _
  · split
    · exact .error _
    · exact yields_isFinite_ofVector hr _ _

lemma yields_isFinite_mul (u v : Unit r) : Yields IsFinite (u.mul v) :=
  yields_isFinite_ofVector hr _ _

lemma yields_isFinite_div (u v : Unit r) : Yields IsFinite (u.div v) :=
  yields_isFinite_ofVector hr _ _

lemma yields_isFinite_pow (u : Unit r) (power : Float) : Yields IsFinite (u.pow power) := by
  unfold pow
  split
  · exact yields_isFinite_ofVector hr _ _
  · exact .error _

lemma yields_isFinite_toSi (u : Unit r) : Yields IsFinite u.toSi :=
  yields_isFinite_ofVector hr _ _

lemma yields_isFinite_toSiPrimary (u : Unit r) : Yields IsFinite u.toSiPrimary := by
  unfold toSiPrimary ofPrimary
  split
  · exact .error _
  · exact yields_isFinite_ofVector hr _ _

end Unit

end Metrology
