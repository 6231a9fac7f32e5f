import Mathlib
import Metrology.Expression.Printer
import Metrology.Proofs.Fraction
import Metrology.Proofs.NonFinite

/-!
Where the expansion of a double as a continued fraction comes to an end.

It does for every finite number: once a step has been taken, remainders are at least 1 and
denominators at least double every two steps, so they pass the bound of printed denominators. It
does for nothing else: from what is not finite an undefined remainder results, and from that one
another one.
-/

namespace Metrology

namespace Convergents

/-! ### Finite targets -/

open Double

/-- What is left of a remainder of at least 0, unless it meets the target, has a reciprocal between
1 and `2 ^ 40`. -/
lemma exists_nextRemainder {c : Convergents Float} {r : ℚ} (hr : IsNumber c.remainder r)
    (hmeets : ¬c.remainder - c.whole < 1e-12) :
    ∃ r', IsNumber c.next.remainder r' ∧ 1 ≤ r' ∧ r' ≤ 2 ^ 40 := by
  have hsmall : IsNumber 1e-12 (4951760157141521 / 2 ^ 92) :=
    isNumber_of_unpack_eq (m := 4951760157141521) (e := -92) (by norm_num) rfl (by norm_num)
  have hone : IsRepresentable 1 := isNumber_one.isRepresentable
  have hwhole : IsNumber c.whole ⌊r⌋ := isNumber_doubleFloor hr
  have hnonneg : 0 ≤ r - ⌊r⌋ := sub_nonneg.mpr (Int.floor_le r)
  have hlt : r - ⌊r⌋ < 1 := by linarith [Int.lt_floor_add_one r]
  obtain ⟨f, hf, hrounds⟩ := hr.sub hwhole
    (inRange_of_abs_le (abs_le.mpr ⟨by linarith, by linarith⟩))
  have hfone : f ≤ 1 := hrounds.ge_of_ge 1 hone hlt.le
  have hfpos : (1 : ℚ) / 2 ^ 40 ≤ f := by
    have hle : (4951760157141521 / 2 ^ 92 : ℚ) ≤ f :=
      not_lt.mp fun hflt => hmeets ((hf.lt_iff hsmall).mpr hflt)
    exact le_trans (by norm_num) hle
  have hfpos' : 0 < f := lt_of_lt_of_le (by norm_num) hfpos
  have hlow : 1 ≤ 1 / f := (le_div_iff₀ hfpos').mpr (by rwa [one_mul])
  have hhigh : 1 / f ≤ 2 ^ 40 := by
    rw [div_le_iff₀ hfpos']
    linarith [mul_le_mul_of_nonneg_left hfpos (by norm_num : (0 : ℚ) ≤ 2 ^ 40)]
  obtain ⟨r', hr', hrounds'⟩ := isNumber_one.div hf hfpos'.ne'
    (inRange_of_abs_le (abs_le.mpr ⟨by linarith, by linarith⟩))
  exact ⟨r', hr', hrounds'.le_of_le 1 hone hlow,
    hrounds'.ge_of_ge _ (isRepresentable_two_pow 40) hhigh⟩

/-- An expansion after its first step: denominators do not fall, and remainders are at least 1. -/
structure IsUnderWay (c : Convergents Float) (previous current : ℚ) : Prop where
  previousDenominator : IsNumber c.previousDenominator previous
  denominator : IsNumber c.denominator current
  previous_nonneg : 0 ≤ previous
  previous_le : previous ≤ current
  one_le : 1 ≤ current
  le_max : current ≤ 10 ^ 6
  remainder : ∃ r, IsNumber c.remainder r ∧ 1 ≤ r ∧ r ≤ 2 ^ 40

variable {c : Convergents Float} {target : Float} {previous current : ℚ}

lemma isNumber_max : IsNumber maxPrintedDenominator (10 ^ 6) :=
  isNumber_of_unpack_eq (m := 10 ^ 6 * 2 ^ 33) (e := -33) (by norm_num) rfl (by norm_num)

/-- The next denominator is no smaller than the current one, and at least twice the previous one. -/
lemma IsUnderWay.exists_nextDenominator (h : c.IsUnderWay previous current) :
    ∃ d, IsNumber c.nextDenominator d ∧ current ≤ d ∧ 2 * previous ≤ d := by
  obtain ⟨r, hr, hone, hmax⟩ := h.remainder
  have hwhole : IsNumber c.whole ⌊r⌋ := isNumber_doubleFloor hr
  have hwhole_one : (1 : ℚ) ≤ ⌊r⌋ := by exact_mod_cast Int.le_floor.mpr (by exact_mod_cast hone)
  have hwhole_max : (⌊r⌋ : ℚ) ≤ 2 ^ 40 := (Int.floor_le r).trans hmax
  have hcurrent := h.one_le
  have hprevious := h.previous_nonneg
  have hle := h.previous_le
  have hlow : current ≤ ⌊r⌋ * current := le_mul_of_one_le_left (by linarith) hwhole_one
  have hhigh : ⌊r⌋ * current ≤ 2 ^ 60 :=
    (mul_le_mul hwhole_max h.le_max (by linarith) (by norm_num)).trans (by norm_num)
  obtain ⟨v, hv, hproduct⟩ := hwhole.mul h.denominator
    (inRange_of_abs_le (abs_le.mpr ⟨by linarith, by linarith⟩))
  have hvlow := hproduct.le_of_le _ h.denominator.isRepresentable hlow
  have hvhigh := hproduct.ge_of_ge _ (isRepresentable_two_pow 60) hhigh
  have hlast := h.le_max
  obtain ⟨d, hd, hsum⟩ := h.previousDenominator.add hv
    (inRange_of_abs_le (abs_le.mpr ⟨by linarith, by linarith⟩))
  refine ⟨d, hd, hsum.le_of_le _ h.denominator.isRepresentable (by linarith), ?_⟩
  exact hsum.le_of_le _ h.previousDenominator.isRepresentable.two_mul (by linarith)

/-- **One step**: an expansion that does not end goes on with denominators that have grown. -/
lemma IsUnderWay.step (h : c.IsUnderWay previous current)
    (hbound : ¬maxPrintedDenominator < c.nextDenominator)
    (hmeets : ¬c.meets c.next target = true) :
    ∃ d, c.next.IsUnderWay current d ∧ 2 * previous ≤ d := by
  obtain ⟨d, hd, hle, hdouble⟩ := h.exists_nextDenominator
  obtain ⟨r, hr, -, -⟩ := h.remainder
  have hrest : ¬c.remainder - c.whole < 1e-12 := by
    intro hlt
    exact hmeets (by simp [meets, hlt])
  refine ⟨d, ⟨h.denominator, hd, by linarith [h.one_le], hle, h.one_le.trans hle, ?_,
    exists_nextRemainder hr hrest⟩, hdouble⟩
  exact not_lt.mp (mt (isNumber_max.lt_iff hd).mpr hbound)

/-- Two steps double the previous denominator, which cannot get above the bound. -/
lemma IsUnderWay.endsWithin (n : ℕ) (h : c.IsUnderWay previous current)
    (hn : 2 ^ 20 ≤ 2 ^ n * previous) : c.EndsWithin maxPrintedDenominator target (2 * n) := by
  induction n generalizing c previous current with
  | zero =>
    have hmax := h.previous_le.trans h.le_max
    norm_num at hn hmax
    linarith
  | succ n ih =>
    refine or_iff_not_imp_left.mpr fun hbound => or_iff_not_imp_left.mpr fun hmeets => ?_
    obtain ⟨d, hnext, hdouble⟩ := h.step hbound hmeets
    refine or_iff_not_imp_left.mpr fun hbound => or_iff_not_imp_left.mpr fun hmeets => ?_
    obtain ⟨d', hnext', -⟩ := hnext.step hbound hmeets
    refine ih hnext' (hn.trans ?_)
    rw [pow_succ, mul_assoc]
    exact mul_le_mul_of_nonneg_left hdouble (by positivity)

/-- The first denominator is 1. -/
lemma isUnderWay_start {p : ℚ} (h : IsNumber target p)
    (hmeets : ¬(start target).meets (start target).next target = true) :
    (start target).next.IsUnderWay 0 1 := by
  have hwhole : IsNumber (start target).whole ⌊p⌋ := isNumber_doubleFloor h
  have hrest : ¬(start target).remainder - (start target).whole < 1e-12 := by
    intro hlt
    exact hmeets (by simp [meets, hlt])
  have hzero := hwhole.mul isNumber_zero
  rw [mul_zero] at hzero
  obtain ⟨v, hv, hproduct⟩ := hzero isNumber_zero.inRange
  obtain rfl := hproduct.eq isNumber_zero.isRepresentable
  obtain ⟨d, hd, hsum⟩ := isNumber_one.add hv (inRange_of_abs_le (by norm_num))
  rw [add_zero] at hsum
  obtain rfl := hsum.eq isNumber_one.isRepresentable
  exact ⟨isNumber_zero, hd, le_rfl, zero_le_one, le_rfl, by norm_num, exists_nextRemainder h hrest⟩

/-- **Finite targets**: the expansion ends before the walk runs out of steps. -/
lemma endsWithin_start (h : target.isFinite = true) :
    (start target).EndsWithin maxPrintedDenominator target convergentSteps := by
  obtain ⟨p, hp⟩ := exists_isNumber h
  have hends : (start target).EndsWithin maxPrintedDenominator target (2 * 20 + 2) := by
    refine or_iff_not_imp_left.mpr fun hbound => or_iff_not_imp_left.mpr fun hmeets => ?_
    have hfirst := isUnderWay_start hp hmeets
    refine or_iff_not_imp_left.mpr fun hbound => or_iff_not_imp_left.mpr fun hmeets => ?_
    obtain ⟨d, hsecond, -⟩ := hfirst.step hbound hmeets
    exact hsecond.endsWithin 20 (by norm_num)
  exact hends.mono 2058

/-! ### Targets that are not finite -/

/-- An expansion whose next step is undefined. -/
structure IsStuck (c : Convergents Float) : Prop where
  rest : IsUndefined (c.remainder - c.whole)
  nextDenominator : IsUndefined c.nextDenominator

lemma isStuck_start (h : target.isFinite = false) : (start target).IsStuck := by
  have hwhole : (start target).whole = target := doubleFloor_eq_self h
  constructor
  · rw [hwhole]
    exact isUndefined_sub_self h
  · rw [Convergents.nextDenominator, hwhole]
    exact (isUndefined_mul_zero h).add_right _

lemma IsStuck.next (h : c.IsStuck) : c.next.IsStuck := by
  have hremainder : IsUndefined c.next.remainder := h.rest.div_right 1
  have hwhole : c.next.whole = c.next.remainder :=
    doubleFloor_eq_self (isFinite_eq_false_iff.mpr (.inl hremainder))
  constructor
  · exact hremainder.sub_left _
  · rw [Convergents.nextDenominator, hwhole]
    exact (hremainder.mul_left _).add_right _

lemma IsStuck.not_meets (h : c.IsStuck) : ¬c.meets c.next target = true := by
  have hdistance : IsUndefined (Scalar.abs (c.next.numerator / c.next.denominator - target)) :=
    ((h.nextDenominator.div_right _).sub_left target).scalar_abs
  unfold meets
  rw [Bool.or_eq_true, decide_eq_true_iff, decide_eq_true_iff]
  exact not_or.mpr ⟨h.rest.not_lt _, hdistance.not_lt _⟩

/-- **Targets that are not finite**: the expansion never ends. -/
lemma IsStuck.not_endsWithin (h : c.IsStuck) (maxDenominator : Float) (steps : ℕ) :
    ¬c.EndsWithin maxDenominator target steps := by
  induction steps generalizing c with
  | zero => exact id
  | succ steps ih =>
    exact not_or.mpr ⟨h.nextDenominator.not_gt _, not_or.mpr ⟨h.not_meets, ih h.next⟩⟩

end Convergents

end Metrology
