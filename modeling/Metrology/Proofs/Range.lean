import Mathlib
import Metrology.Proofs.Errors
import Metrology.Proofs.Finiteness

/-!
Results in the range of the doubles.

A sum, difference or product of finite doubles is finite if and only if the exact result is not too
large. So whether a dimension is finite that is computed from finite ones, or read from a text, can
be told from the exact results of the single steps.
-/

namespace Metrology

open Double

/-! ### Numbers -/

namespace Double

/-- The exact value of a double; 0 for what is not finite. -/
def exact (x : Float) : ℚ := (Scalar.toRat? x).getD 0

lemma isNumber_exact {x : Float} (h : x.isFinite = true) : IsNumber x (exact x) := by
  obtain ⟨p, hp⟩ := exists_isNumber h
  have hexact : exact x = p := by rw [exact, hp.toRat?, Option.getD_some]
  rwa [hexact]

instance : DecidablePred InRange := fun q => inferInstanceAs (Decidable (|q| < 2 ^ 1024 - 2 ^ 970))

end Double

/-! ### Vectors -/

namespace ExponentVector

/-- Whether an operation, carried out exactly on the entries of two vectors, leads to nothing that
is too large. -/
def Fits (operation : ℚ → ℚ → ℚ) (v w : ExponentVector Float) : Prop :=
  ∀ p ∈ v.zip w, InRange (operation (exact p.1) (exact p.2))

/-- Whether the exact products of the entries of a vector with a factor are not too large. -/
def ScaleFits (v : ExponentVector Float) (factor : Float) : Prop :=
  ∀ x ∈ v, InRange (exact x * exact factor)

/-- Whether, on from a sum, the numbers that are marked with an index can be added one after the
other without a sum that is too large. -/
def RunFits (index : ℕ) : Float → List (ℕ × Float) → Prop
  | _, [] => True
  | sum, (i, x) :: marked =>
    if i = index then InRange (exact sum + exact x) ∧ RunFits index (sum + x) marked
    else RunFits index sum marked

variable {v w : ExponentVector Float}

lemma all_isFinite_zipWith_iff {f : Float → Float → Float} {operation : ℚ → ℚ → ℚ}
    (hf : ∀ x y p q, IsNumber x p → IsNumber y q →
      ((f x y).isFinite = true ↔ InRange (operation p q)))
    (hv : v.all Scalar.isFinite = true) (hw : w.all Scalar.isFinite = true) :
    (List.zipWith f v w).all Scalar.isFinite = true ↔ Fits operation v w := by
  rw [List.all_eq_true] at hv hw ⊢
  rw [← List.map_uncurry_zip_eq_zipWith, List.forall_mem_map]
  refine forall₂_congr fun p hp => ?_
  obtain ⟨hx, hy⟩ := List.of_mem_zip hp
  exact hf _ _ _ _ (isNumber_exact (hv _ hx)) (isNumber_exact (hw _ hy))

lemma all_isFinite_add_iff (hv : v.all Scalar.isFinite = true) (hw : w.all Scalar.isFinite = true) :
    (add v w).all Scalar.isFinite = true ↔ Fits (· + ·) v w :=
  all_isFinite_zipWith_iff (fun _ _ _ _ hx hy => hx.isFinite_add_iff hy) hv hw

lemma all_isFinite_subtract_iff (hv : v.all Scalar.isFinite = true)
    (hw : w.all Scalar.isFinite = true) :
    (subtract v w).all Scalar.isFinite = true ↔ Fits (· - ·) v w :=
  all_isFinite_zipWith_iff (fun _ _ _ _ hx hy => hx.isFinite_sub_iff hy) hv hw

lemma all_isFinite_scale_iff (hv : v.all Scalar.isFinite = true) {factor : Float}
    (hfactor : factor.isFinite = true) :
    (scale v factor).all Scalar.isFinite = true ↔ ScaleFits v factor := by
  rw [List.all_eq_true] at hv ⊢
  rw [scale, List.forall_mem_map]
  exact forall₂_congr fun x hx =>
    (isNumber_exact (hv x hx)).isFinite_mul_iff (isNumber_exact hfactor)

/-- A sum that is taken step by step is finite if and only if no step leads to a sum that is too
large. -/
lemma isFinite_foldl_iff {index : ℕ} {marked : List (ℕ × Float)} {start : Float}
    (hstart : start.isFinite = true) (hmarked : ∀ p ∈ marked, p.2.isFinite = true) :
    (marked.foldl (fun sum (i, x) => if i = index then sum + x else sum) start).isFinite = true ↔
      RunFits index start marked := by
  induction marked generalizing start with
  | nil => exact iff_of_true hstart trivial
  | cons p marked ih =>
    obtain ⟨i, x⟩ := p
    obtain ⟨hx, hmarked⟩ := List.forall_mem_cons.mp hmarked
    rw [List.foldl_cons, RunFits]
    dsimp only
    split_ifs
    · have hsum := (isNumber_exact hstart).isFinite_add_iff (isNumber_exact hx)
      rw [← hsum]
      constructor
      · intro h
        have hfinite := (isFinite_of_foldl h).1
        exact ⟨hfinite, (ih hfinite hmarked).mp h⟩
      · exact fun ⟨hfinite, h⟩ => (ih hfinite hmarked).mpr h
    · exact ih hstart hmarked

end ExponentVector

/-! ### Dimensions and units -/

variable {r : Registry Float}

namespace Dimension

/-- Whether the dimension that a text describes can be read without a number that is too large: no
numerator is, and no sum of exponents of one dimension. -/
def ParseFits (r : Registry Float) (text : String) : Prop :=
  ∀ terms marked, parseTerms text = .ok terms → terms.mapM (factor r) = .ok marked →
    (∀ t ∈ terms, InRange t.exponent.numerator) ∧
      ∀ index < r.dimensionCount, ExponentVector.RunFits index 0 marked

/-- What is read as a factor has an exponent that is finite if and only if its numerator is not too
large. -/
lemma of_factor (hr : r.IsComplete) {t : Term} {p : ℕ × Float} (h : factor r t = .ok p) :
    p.1 < r.dimensionCount ∧ (p.2.isFinite = true ↔ InRange t.exponent.numerator) := by
  unfold factor at h
  split at h
  · rename_i entry hentry
    obtain rfl := Except.ok.inj h
    refine ⟨hr.index_lt entry ?_, isFinite_quotient_iff t.exponent.denominator_ne_zero⟩
    rcases Option.or_eq_some_iff.mp hentry with h | ⟨-, h⟩ <;> exact List.mem_of_find?_eq_some h
  · exact absurd h (by simp)

/-- What is gathered is finite if and only if no sum of exponents of one dimension gets too
large. -/
lemma isFinite_gather_iff {marked : List (ℕ × Float)} (h : ∀ p ∈ marked, p.2.isFinite = true) :
    (gather r marked).isFinite = true ↔
      ∀ index < r.dimensionCount, ExponentVector.RunFits index 0 marked := by
  have hexponents : (gather r marked).exponents =
      (List.range r.dimensionCount).map fun index => ExponentVector.sumAt index marked := rfl
  unfold isFinite
  rw [List.all_eq_true, hexponents, List.forall_mem_map]
  refine forall_congr' fun index => ?_
  rw [List.mem_range]
  exact imp_congr_right fun _ => ExponentVector.isFinite_foldl_iff isNumber_zero.isFinite h

/-- **Reading a dimension**: it is finite if and only if nothing in it is too large. -/
lemma isFinite_parse_iff (hr : r.IsComplete) {text : String} {d : Dimension r}
    (h : parse r text = .ok d) : d.isFinite = true ↔ ParseFits r text := by
  unfold parse at h
  split at h
  · exact absurd h (by simp)
  rename_i terms hterms
  split at h
  · exact absurd h (by simp)
  rename_i marked hmarked
  obtain rfl := Except.ok.inj h
  have hforall := forall₂_of_mapM hmarked
  constructor
  · intro hfinite terms' marked' hterms' hmarked'
    obtain rfl := Except.ok.inj (hterms.symm.trans hterms')
    obtain rfl := Except.ok.inj (hmarked.symm.trans hmarked')
    -- a number that is too large would be found in the sums
    have hmarked : ∀ p ∈ marked, p.2.isFinite = true := fun p hp => by
      obtain ⟨t, -, ht⟩ := exists_of_forall₂ hforall.flip hp
      exact ExponentVector.isFinite_of_gather hfinite hp (of_factor hr ht).1
    refine ⟨fun t ht => ?_, (isFinite_gather_iff hmarked).mp hfinite⟩
    obtain ⟨p, hp, heq⟩ := exists_of_forall₂ hforall ht
    exact (of_factor hr heq).2.mp (hmarked p hp)
  · intro hfits
    obtain ⟨hnumerators, hsums⟩ := hfits terms marked hterms hmarked
    refine (isFinite_gather_iff fun p hp => ?_).mpr hsums
    obtain ⟨t, ht, heq⟩ := exists_of_forall₂ hforall.flip hp
    exact (of_factor hr heq).2.mpr (hnumerators t ht)

end Dimension

end Metrology
