import Mathlib
import Metrology.Proofs.Approximation

/-!
How accurate a close fraction is, and in which terms it is given.

The cross products of two neighbouring convergents differ by 1, so a convergent is in lowest terms.
It is further from the number than the test of the walk allows only if the next denominator is
beyond the bound; and its distance is below the reciprocal of the product of these two denominators.
-/

namespace Metrology

namespace Convergents.Stage

variable {p q : ℕ} {s : Stage p q}

lemma coprime (hs : |s.cross| = 1) : s.numerator.Coprime s.denominator := by
  rw [← Nat.isCoprime_iff_coprime]
  rcases (abs_eq Int.one_nonneg).mp hs with hcross | hcross <;> unfold cross at hcross
  · exact ⟨s.previousDenominator, -s.previousNumerator, by linarith⟩
  · exact ⟨-s.previousDenominator, s.previousNumerator, by linarith⟩

/-- Wherever the walk ends, it is in lowest terms. -/
lemma IsAnswer.coprime (hpq : p.Coprime q) {bound : ℕ} {c : Convergents ℚ}
    (h : IsAnswer p q bound c) {n d : ℕ} (hn : c.numerator = n) (hd : c.denominator = d) :
    n.Coprime d := by
  rcases h with ⟨-, hnumerator, hdenominator⟩ | ⟨s, hlast, hnumerator, hdenominator⟩
  · obtain rfl : n = p := by exact_mod_cast hn.symm.trans hnumerator
    obtain rfl : d = q := by exact_mod_cast hd.symm.trans hdenominator
    exact hpq
  · obtain rfl : n = s.numerator := by exact_mod_cast hn.symm.trans hnumerator
    obtain rfl : d = s.denominator := by exact_mod_cast hd.symm.trans hdenominator
    exact Stage.coprime hlast.cross

end Convergents.Stage

open Convergents.Stage

lemma gcd_closeFraction {x : ℚ} {bound : ℕ} (hbound : 1 ≤ bound) {n : ℤ} {d : ℕ}
    (h : closeFraction x bound = ((n : ℚ), (d : ℚ))) : n.gcd d = 1 := by
  have hanswer := isAnswer_walkAfter x hbound
  obtain ⟨N, D, hN, hD, -⟩ := exists_isClose_of_isAnswer x.den_pos hanswer
  obtain ⟨hn, hd⟩ := Prod.mk.inj (h.symm.trans (closeFraction_of_walkAfter hN hD))
  obtain rfl : d = D := by exact_mod_cast hd
  have hnatAbs : n.natAbs = N := by
    rw [Int.cast_injective hn]
    split_ifs <;> simp
  rw [Int.gcd, hnatAbs, Int.natAbs_natCast]
  exact hanswer.coprime x.reduced hN hD

lemma IsClose.abs_sub_lt {x : ℚ} {bound : ℕ} {n : ℤ} {d : ℕ} (h : IsClose x bound n d) :
    |x - n / d| < 1 / 10 ^ 12 ∨ |x - n / d| < 1 / (d * bound) := by
  refine h.met_or_enclosed.imp_right fun ⟨hle, _⟩ => hle.trans_lt ?_
  have hd : (0 : ℚ) < d := by exact_mod_cast h.denominator_pos
  have hbound : (0 : ℚ) < bound := by exact_mod_cast h.denominator_pos.trans_le h.denominator_le
  exact one_div_lt_one_div_of_lt (mul_pos hd hbound)
    (mul_lt_mul_of_pos_left (lt_add_one _) hd)

/-- **Close fractions are accurate.** The expansion ends before the steps of the walk run out, so
that more steps would change nothing. What it comes to is a fraction in lowest terms with a
denominator within the bound, which is closer to the number than `1e-12` or than the reciprocal of
the product of its denominator and the bound. -/
theorem closeFraction_accurate (x : ℚ) (bound : ℕ) (hbound : 1 ≤ bound) :
    (Convergents.start |x|).EndsWithin (bound : ℚ) |x| convergentSteps ∧
      (∀ more, (Convergents.start |x|).walk (bound : ℚ) |x| (convergentSteps + more) =
        (Convergents.start |x|).walk (bound : ℚ) |x| convergentSteps) ∧
      ∃ (n : ℤ) (d : ℕ), closeFraction x bound = ((n : ℚ), (d : ℚ)) ∧ 1 ≤ d ∧ d ≤ bound ∧
        n.gcd d = 1 ∧ (|x - n / d| < 1 / 10 ^ 12 ∨ |x - n / d| < 1 / (d * bound)) := by
  have hends : (Convergents.start |x|).EndsWithin (bound : ℚ) |x| convergentSteps := by
    rw [← natAbs_num_div_den, ← convergents_start _ x.den_pos]
    exact endsWithin_start _ x.den_pos
  obtain ⟨n, d, heq, hclose⟩ := exists_isClose x hbound
  exact ⟨hends, hends.walk_add, n, d, heq, hclose.denominator_pos, hclose.denominator_le,
    gcd_closeFraction hbound heq, hclose.abs_sub_lt⟩

/-- With denominators up to 1000 the number `-3.14159265` comes to `-355 / 113`, at a distance below
`1 / 113000`. -/
theorem closeFraction_accurate_thousand :
    1 ≤ 1000 ∧ closeFraction (-3.14159265 : ℚ) (1000 : ℕ) = (-355, 113) ∧
      Int.gcd (-355) 113 = 1 ∧
      (|(-3.14159265 : ℚ) - -355 / 113| < 1 / 10 ^ 12 ∨
        |(-3.14159265 : ℚ) - -355 / 113| < 1 / (113 * (1000 : ℕ))) := by
  have hvalue : closeFraction (-3.14159265 : ℚ) (1000 : ℕ) = (-355, 113) := by decide +kernel
  obtain ⟨-, -, n, d, heq, -, -, hgcd, hclose⟩ :=
    closeFraction_accurate (-3.14159265) 1000 (by norm_num)
  obtain ⟨hn, hd⟩ := Prod.mk.inj (hvalue.symm.trans heq)
  obtain rfl : n = -355 := by exact_mod_cast hn.symm
  obtain rfl : d = 113 := by exact_mod_cast hd.symm
  refine ⟨by norm_num, hvalue, hgcd, ?_⟩
  exact_mod_cast hclose

end Metrology
