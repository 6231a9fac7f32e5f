import Mathlib
import Metrology.Proofs.Doubles

/-!
Doubles that are no numbers: the infinities and what stands for an undefined result.

What is no number stays none: no sum, difference or product with it is finite. An undefined double
spreads to all results and fails all comparisons.
-/

namespace Metrology

namespace Double

open Float.Model Float.Model.UnpackedFloat

/-! ### Finite results -/

lemma isFinite_of_pack {u : UnpackedFloat} (h : (Float.Model.pack u).isFinite = true) :
    u.isFinite = true := by
  cases u with
  | notANumber => exact absurd h Bool.false_ne_true
  | infinity s => cases s <;> exact absurd h Bool.false_ne_true
  | zero _ | finite _ _ _ _ => rfl

lemma isFinite_of_unpacked_add {a b : UnpackedFloat}
    (h : (UnpackedFloat.add Format.binary64 a b).isFinite = true) :
    a.isFinite = true ∧ b.isFinite = true := by
  cases a with
  | notANumber => exact absurd h Bool.false_ne_true
  | infinity s =>
    cases b with
    | infinity t => cases s <;> cases t <;> exact absurd h Bool.false_ne_true
    | notANumber | zero _ | finite _ _ _ _ => exact absurd h Bool.false_ne_true
  | zero _ | finite _ _ _ _ =>
    cases b with
    | notANumber | infinity _ => exact absurd h Bool.false_ne_true
    | zero _ | finite _ _ _ _ => exact ⟨rfl, rfl⟩

lemma isFinite_of_unpacked_div {a b : UnpackedFloat}
    (h : (UnpackedFloat.div Format.binary64 a b).isFinite = true) : a.isFinite = true := by
  cases a with
  | notANumber => exact absurd h Bool.false_ne_true
  | infinity s => cases b <;> exact absurd h Bool.false_ne_true
  | zero _ | finite _ _ _ _ => rfl

lemma isFinite_of_unpacked_mul {a b : UnpackedFloat}
    (h : (UnpackedFloat.mul Format.binary64 a b).isFinite = true) : a.isFinite = true := by
  cases a with
  | notANumber => exact absurd h Bool.false_ne_true
  | infinity s => cases b <;> exact absurd h Bool.false_ne_true
  | zero _ | finite _ _ _ _ => rfl

section

variable {x y : Float}

/-- A sum is finite only if both summands are. -/
lemma isFinite_of_add (h : (x + y).isFinite = true) : x.isFinite = true ∧ y.isFinite = true :=
  isFinite_of_unpacked_add (isFinite_of_pack h)

/-- A quotient is finite only if the dividend is. -/
lemma isFinite_of_div (h : (x / y).isFinite = true) : x.isFinite = true :=
  isFinite_of_unpacked_div (isFinite_of_pack h)

/-- A product is finite only if the first factor is. -/
lemma isFinite_of_mul (h : (x * y).isFinite = true) : x.isFinite = true :=
  isFinite_of_unpacked_mul (isFinite_of_pack h)

lemma isFinite_neg_iff : (-x).isFinite = true ↔ x.isFinite = true := by
  constructor
  · intro h
    have hneg : x.toModel.unpack.neg.isFinite = true := isFinite_of_pack h
    show x.toModel.unpack.isFinite = true
    cases hx : x.toModel.unpack <;> rw [hx] at hneg <;> exact hneg
  · intro h
    obtain ⟨p, hp⟩ := exists_isNumber h
    exact hp.neg.isFinite

end

/-- A double that stands for an undefined result. -/
def IsUndefined (x : Float) : Prop := x.toModel.unpack = .notANumber

/-- A double that is infinite, but not below all numbers, or undefined. -/
def IsExcessive (x : Float) : Prop := IsUndefined x ∨ x.toModel.unpack = .infinity .positive

lemma isUndefined_ofModel {u : UnpackedFloat} (h : u = .notANumber) :
    IsUndefined (.ofModel (Float.Model.pack u)) := by
  subst h
  rfl

namespace IsUndefined

variable {x : Float} (h : IsUndefined x) (y : Float)

include h

lemma add_right : IsUndefined (y + x) := by
  refine isUndefined_ofModel ?_
  rw [h]
  cases y.toModel.unpack <;> rfl

lemma add_left : IsUndefined (x + y) := by
  refine isUndefined_ofModel ?_
  rw [h]
  cases y.toModel.unpack <;> rfl

lemma sub_left : IsUndefined (x - y) := by
  refine isUndefined_ofModel ?_
  rw [h]
  cases y.toModel.unpack <;> rfl

lemma mul_left : IsUndefined (x * y) := by
  refine isUndefined_ofModel ?_
  rw [h]
  cases y.toModel.unpack <;> rfl

lemma div_right : IsUndefined (y / x) := by
  refine isUndefined_ofModel ?_
  rw [h]
  cases y.toModel.unpack <;> rfl

lemma compare_right : y.toModel.unpack.compare x.toModel.unpack = none := by
  rw [h]
  cases y.toModel.unpack <;> rfl

lemma compare_left : x.toModel.unpack.compare y.toModel.unpack = none := by
  rw [h]
  cases y.toModel.unpack <;> rfl

lemma not_lt : ¬x < y := by
  rw [lt_iff_compare, h.compare_left]
  exact (Option.some_ne_none _).symm

lemma not_gt : ¬y < x := by
  rw [lt_iff_compare, h.compare_right]
  exact (Option.some_ne_none _).symm

lemma not_ge : ¬y ≤ x := by
  rw [le_iff_compare, h.compare_right]
  exact Bool.false_ne_true

lemma not_le : ¬x ≤ y := by
  rw [le_iff_compare, h.compare_left]
  exact Bool.false_ne_true

lemma beq_left : (x == y) = false := by
  show (x.toModel.unpack.compare y.toModel.unpack == some .eq) = false
  rw [h.compare_left]
  rfl

end IsUndefined

lemma isFinite_eq_false_iff {x : Float} : x.isFinite = false ↔
    IsUndefined x ∨ ∃ s, x.toModel.unpack = .infinity s := by
  show x.toModel.unpack.isFinite = false ↔ x.toModel.unpack = .notANumber ∨ _
  cases x.toModel.unpack with
  | notANumber => exact iff_of_true rfl (.inl rfl)
  | infinity s => exact iff_of_true rfl (.inr ⟨s, rfl⟩)
  | zero _ | finite _ _ _ _ =>
    refine iff_of_false Bool.true_eq_false.mp ?_
    rintro (h | ⟨_, h⟩) <;> cases h

section

variable {x : Float} (h : x.isFinite = false)

include h

lemma isUndefined_sub_self : IsUndefined (x - x) := by
  rcases isFinite_eq_false_iff.mp h with h | ⟨s, h⟩
  · exact h.sub_left x
  · refine isUndefined_ofModel ?_
    rw [h]
    cases s <;> rfl

lemma isUndefined_mul_zero : IsUndefined (x * 0) := by
  rcases isFinite_eq_false_iff.mp h with h | ⟨s, h⟩
  · exact h.mul_left 0
  · refine isUndefined_ofModel ?_
    rw [h]
    rfl

lemma beq_isNumber {y : Float} {q : ℚ} (hy : IsNumber y q) : (x == y) = false := by
  rcases isFinite_eq_false_iff.mp h with h | ⟨s, h⟩
  · exact h.beq_left y
  · obtain ⟨hcanonical, -⟩ := hy
    show (x.toModel.unpack.compare y.toModel.unpack == some .eq) = false
    rw [h]
    generalize y.toModel.unpack = u at hcanonical
    cases u with
    | infinity _ | notANumber => exact hcanonical.elim
    | zero _ | finite _ _ _ _ => cases s <;> rfl

end

namespace IsExcessive

variable {x y : Float} {q : ℚ}

lemma isFinite (h : IsExcessive x) : x.isFinite = false :=
  isFinite_eq_false_iff.mpr (h.imp id fun h => ⟨.positive, h⟩)

lemma compare_isNumber (h : IsExcessive x) (hy : IsNumber y q) :
    x.toModel.unpack.compare y.toModel.unpack = none ∨
      x.toModel.unpack.compare y.toModel.unpack = some .gt := by
  rcases h with h | h
  · exact .inl (h.compare_left y)
  · obtain ⟨hcanonical, -⟩ := hy
    rw [h]
    generalize y.toModel.unpack = u at hcanonical
    cases u with
    | infinity _ | notANumber => exact hcanonical.elim
    | zero _ | finite _ _ _ _ => exact .inr rfl

lemma not_lt (h : IsExcessive x) (hy : IsNumber y q) : ¬x < y := by
  rw [lt_iff_compare]
  rcases h.compare_isNumber hy with h | h <;> simp [h]

lemma not_le (h : IsExcessive x) (hy : IsNumber y q) : ¬x ≤ y := by
  rw [le_iff_compare]
  rcases h.compare_isNumber hy with h | h <;> simp [h]

end IsExcessive

lemma isExcessive_abs {x : Float} (h : x.isFinite = false) : IsExcessive x.abs := by
  rcases isFinite_eq_false_iff.mp h with h | ⟨s, h⟩
  · refine .inl (isUndefined_ofModel ?_)
    rw [h]
    rfl
  · right
    show (Float.Model.pack x.toModel.unpack.abs).unpack = _
    rw [h]
    cases s <;> rfl

lemma doubleFloor_eq_self {x : Float} (h : x.isFinite = false) : doubleFloor x = x := by
  unfold doubleFloor
  exact if_neg ((isExcessive_abs h).not_lt isNumber_shift)

lemma IsUndefined.scalar_abs {x : Float} (h : IsUndefined x) : IsUndefined (Scalar.abs x) := by
  unfold Scalar.abs
  rwa [if_neg (h.not_lt 0)]

lemma isExcessive_scalar_abs {x : Float} (h : x.isFinite = false) : IsExcessive (Scalar.abs x) := by
  unfold Scalar.abs
  rcases isFinite_eq_false_iff.mp h with h | ⟨s, h⟩
  · rw [if_neg (h.not_lt 0)]
    exact .inl h
  · cases s
    · have hsign : x < 0 := by
        rw [lt_iff_compare, h]
        decide
      rw [if_pos hsign]
      right
      show (Float.Model.pack x.toModel.unpack.neg).unpack = _
      rw [h]
      rfl
    · rw [if_neg (IsExcessive.not_lt (.inr h) isNumber_zero)]
      exact .inr h

lemma round_eq_self {x : Float} (h : x.isFinite = false) : Scalar.round x = x := by
  have hfloor : Scalar.floor x = x := doubleFloor_eq_self h
  unfold Scalar.round
  simp only [hfloor]
  exact if_neg ((isUndefined_sub_self h).not_ge _)

lemma isNumber_scalar_abs {x : Float} {p : ℚ} (h : IsNumber x p) : IsNumber (Scalar.abs x) |p| := by
  unfold Scalar.abs
  split_ifs with hsign
  · rw [abs_of_neg ((h.lt_iff isNumber_zero).mp hsign)]
    exact h.neg
  · rw [abs_of_nonneg (not_lt.mp (mt (h.lt_iff isNumber_zero).mpr hsign))]
    exact h

/-! ### Quotients of whole numbers -/

variable {n : ℤ} {d : ℕ}

/-- A whole number is a double if and only if it is not too large. -/
lemma isFinite_ofInt_iff : (Scalar.ofInt n : Float).isFinite = true ↔ InRange n := by
  obtain ⟨u, hu, hspec⟩ := ofScientific_spec n.natAbs
  have hrange : InRange n.natAbs ↔ InRange n := by
    unfold InRange
    rw [Nat.cast_natAbs, Int.cast_abs, abs_abs]
  show (if n < 0 then -Float.ofScientific n.natAbs false 0
    else Float.ofScientific n.natAbs false 0).isFinite = true ↔ _
  rw [← hrange, ← isFinite_ofModel_iff hspec, ← hu]
  split_ifs
  · exact isFinite_neg_iff
  · rfl

/-- **Written exponents**: a quotient of whole numbers is finite if and only if the first one is not
too large. A divisor that is too large only makes it zero. -/
lemma isFinite_quotient_iff (hd : d ≠ 0) :
    (Scalar.ofInt n / Scalar.ofNat d : Float).isFinite = true ↔ InRange n := by
  refine ⟨fun h => isFinite_ofInt_iff.mp (isFinite_of_div h), fun h => ?_⟩
  obtain ⟨p, hp⟩ := exists_isNumber (isFinite_ofInt_iff.mpr h)
  obtain ⟨u, hu, hcanonical, hrounds⟩ := ofScientific_spec d
  have hdivisor : (Scalar.ofNat d : Float) = .ofModel (Float.Model.pack u) := hu
  rw [hdivisor]
  by_cases hsmall : |value u| < 2 ^ 1024
  · have hone : (1 : ℚ) ≤ d := by exact_mod_cast Nat.one_le_iff_ne_zero.mpr hd
    have hlow := hrounds.le_of_le 1 isNumber_one.isRepresentable hone
    have hle : |p / value u| ≤ |p| := by
      rw [abs_div]
      exact div_le_self (abs_nonneg p) (hlow.trans (le_abs_self _))
    obtain ⟨v, hv, -⟩ := hp.div (isNumber_ofModel hcanonical hsmall) (by linarith)
      (hp.inRange.of_abs_le hle)
    exact hv.isFinite
  · obtain ⟨s, hs, -⟩ := unpack_pack_of_large hcanonical hsmall
    have hzero : ∃ t, UnpackedFloat.div Format.binary64
        (Scalar.ofInt n : Float).toModel.unpack (.infinity s) = .zero t := by
      obtain ⟨hp, -⟩ := hp
      generalize (Scalar.ofInt n : Float).toModel.unpack = a at hp
      cases a with
      | infinity _ | notANumber => exact hp.elim
      | zero t | finite t _ _ _ => exact ⟨t / s, rfl⟩
    obtain ⟨t, ht⟩ := hzero
    show (Float.Model.pack (UnpackedFloat.div Format.binary64 _
      (Float.Model.pack u).unpack)).isFinite = true
    rw [hs, ht]
    cases t <;> rfl

end Double

end Metrology
