import Mathlib
import Metrology.Proofs.Fraction

/-!
How close a close fraction is.

The expansion ends: the denominators grow until the walk cannot tell a convergent from the number. A
fraction with a small denominator it can tell from every convergent but the last, which is the
fraction itself.

Between two fractions whose cross products differ by 1 there is no fraction with a denominator
below the sum of theirs. A convergent is such a neighbour of the convergent before it, and of every
fraction that comes from adding it to that one, part by part. So a convergent is the closest
fraction up to its own denominator. When the bound cuts the expansion off, though, the convergent
and the last such sum within the bound enclose the number, and the sum may be the closer of the
two: the walk passes it by.
-/

namespace Metrology

/-! ### Neighbouring fractions -/

/-- Whether no fraction with a denominator up to a bound is closer to a number than `y` is, by more
than a margin. -/
def IsNearest (x : ℚ) (bound : ℕ) (margin y : ℚ) : Prop :=
  ∀ (a : ℤ) (b : ℕ), 0 < b → b ≤ bound → |x - y| ≤ |x - a / b| + margin

/-- Two neighbouring fractions on both sides of a number, between which no denominator up to a bound
has room. -/
structure Encloses (x : ℚ) (bound : ℕ) (n : ℤ) (d : ℕ) (n₁ : ℤ) (d₁ : ℕ) : Prop where
  denominator_pos : 0 < d
  neighbour_pos : 0 < d₁
  neighbour_le : d₁ ≤ bound
  bound_lt : bound < d + d₁
  cross : |n * d₁ - n₁ * d| = 1
  between : x ∈ Set.uIcc (n / d : ℚ) (n₁ / d₁)

section Neighbours

variable {x : ℚ} {bound : ℕ} {n n₁ a : ℤ} {d d₁ b : ℕ}

/-- Strictly between neighbours only denominators from the sum of theirs on have room. -/
lemma add_le_of_strictly_between (hcross : n₁ * d - n * d₁ = 1) (hlow : n * b < a * d)
    (hhigh : a * d₁ < n₁ * b) : d + d₁ ≤ b := by
  have hsplit : (b : ℤ) = d * (n₁ * b - a * d₁) + d₁ * (a * d - n * b) := by
    calc (b : ℤ) = (n₁ * d - n * d₁) * b := by rw [hcross, one_mul]
      _ = d * (n₁ * b - a * d₁) + d₁ * (a * d - n * b) := by ring
  have hfirst : (d : ℤ) * 1 ≤ d * (n₁ * b - a * d₁) :=
    mul_le_mul_of_nonneg_left (by omega) (Int.natCast_nonneg d)
  have hsecond : (d₁ : ℤ) * 1 ≤ d₁ * (a * d - n * b) :=
    mul_le_mul_of_nonneg_left (by omega) (Int.natCast_nonneg d₁)
  omega

/-- Of two neighbours in order, one is at least as close as any fraction with a smaller denominator
than the sum of theirs. -/
lemma abs_sub_le_or_of_le (hd : 0 < d) (hd₁ : 0 < d₁) (hb : 0 < b) (hlt : b < d + d₁)
    (hcross : |n * d₁ - n₁ * d| = 1) (hlow : (n / d : ℚ) ≤ x) (hhigh : x ≤ n₁ / d₁) :
    |x - n / d| ≤ |x - a / b| ∨ |x - n₁ / d₁| ≤ |x - a / b| := by
  have hd' : (0 : ℚ) < d := by exact_mod_cast hd
  have hd₁' : (0 : ℚ) < d₁ := by exact_mod_cast hd₁
  have hb' : (0 : ℚ) < b := by exact_mod_cast hb
  have hone : n₁ * d - n * d₁ = 1 := by
    have hle : n * d₁ ≤ n₁ * d := by
      exact_mod_cast (div_le_div_iff₀ hd' hd₁').mp (hlow.trans hhigh)
    rw [abs_of_nonpos (by omega)] at hcross
    omega
  rcases le_or_gt (a / b : ℚ) (n / d) with hleft | hleft
  · left
    rw [abs_of_nonneg (sub_nonneg.mpr hlow), abs_of_nonneg (by linarith)]
    linarith
  rcases le_or_gt (n₁ / d₁ : ℚ) (a / b) with hright | hright
  · right
    rw [abs_of_nonpos (sub_nonpos.mpr hhigh), abs_of_nonpos (by linarith)]
    linarith
  · have hlow' : n * b < a * d := by exact_mod_cast (div_lt_div_iff₀ hd' hb').mp hleft
    have hhigh' : a * d₁ < n₁ * b := by exact_mod_cast (div_lt_div_iff₀ hb' hd₁').mp hright
    have hsum := add_le_of_strictly_between hone hlow' hhigh'
    omega

/-- **One of two neighbours is closest** among all fractions up to the bound. -/
lemma Encloses.abs_sub_le_or (h : Encloses x bound n d n₁ d₁) (hb : 0 < b) (hle : b ≤ bound) :
    |x - n / d| ≤ |x - a / b| ∨ |x - n₁ / d₁| ≤ |x - a / b| := by
  have hlt : b < d + d₁ := hle.trans_lt h.bound_lt
  rcases Set.mem_uIcc.mp h.between with ⟨hlow, hhigh⟩ | ⟨hlow, hhigh⟩
  · exact abs_sub_le_or_of_le h.denominator_pos h.neighbour_pos hb hlt h.cross hlow hhigh
  · have hcross : |n₁ * d - n * d₁| = 1 := by rw [abs_sub_comm, h.cross]
    exact (abs_sub_le_or_of_le h.neighbour_pos h.denominator_pos hb (by omega) hcross hlow
      hhigh).symm

lemma Encloses.isNearest_iff (h : Encloses x bound n d n₁ d₁) {margin : ℚ} (hmargin : 0 ≤ margin) :
    IsNearest x bound margin (n / d) ↔ |x - n / d| ≤ |x - n₁ / d₁| + margin := by
  constructor
  · intro hnearest
    exact hnearest n₁ d₁ h.neighbour_pos h.neighbour_le
  · intro hle a b hb hbound
    rcases h.abs_sub_le_or (a := a) hb hbound with hclose | hclose <;> linarith

lemma Encloses.neg (h : Encloses x bound n d n₁ d₁) : Encloses (-x) bound (-n) d (-n₁) d₁ where
  denominator_pos := h.denominator_pos
  neighbour_pos := h.neighbour_pos
  neighbour_le := h.neighbour_le
  bound_lt := h.bound_lt
  cross := by rw [← h.cross, ← abs_neg]; congr 1; ring
  between := by
    have hbetween := Set.mem_uIcc.mp h.between
    push_cast
    rw [neg_div, neg_div, Set.mem_uIcc]
    rcases hbetween with ⟨hlow, hhigh⟩ | ⟨hlow, hhigh⟩
    · exact .inr ⟨neg_le_neg hhigh, neg_le_neg hlow⟩
    · exact .inl ⟨neg_le_neg hhigh, neg_le_neg hlow⟩

lemma IsNearest.neg {margin y : ℚ} (h : IsNearest x bound margin y) :
    IsNearest (-x) bound margin (-y) := by
  intro a b hb hbound
  have hle := h (-a) b hb hbound
  rw [show -x - -y = -(x - y) by ring, abs_neg, show -x - a / b = -(x - (-a : ℤ) / b) by
    push_cast; ring, abs_neg]
  exact hle

end Neighbours

/-! ### Stages of the expansion -/

namespace Convergents.Stage

variable {p q : ℕ}

lemma q_pos (s : Stage p q) : 0 < q := by
  rw [← s.denominator_eq]
  rcases s.denominator_pos with h | ⟨h, hle⟩
  · exact Nat.add_pos_left (Nat.mul_pos h s.divisor_pos) _
  · exact Nat.add_pos_right _ (Nat.mul_pos h (s.divisor_pos.trans_le hle))

/-- The difference of the cross products of the two convergents. -/
def cross (s : Stage p q) : ℤ :=
  s.numerator * s.previousDenominator - s.previousNumerator * s.denominator

lemma cross_next (s : Stage p q) (h : 0 < s.dividend % s.divisor) :
    (s.next h).cross = -s.cross := by
  show (s.nextNumerator : ℤ) * s.denominator - s.numerator * s.nextDenominator = _
  unfold nextNumerator nextDenominator cross
  push_cast
  ring

/-- How the cross products of the fraction and of a sum of the two convergents differ. -/
lemma cross_combination (s : Stage p q) (j k : ℤ) :
    p * (j * s.previousDenominator + k * s.denominator) -
        (j * s.previousNumerator + k * s.numerator) * q =
      s.cross * (j * s.dividend - k * s.divisor) := by
  have hp : (p : ℤ) = s.previousNumerator * s.divisor + s.numerator * s.dividend := by
    exact_mod_cast s.numerator_eq.symm
  have hq : (q : ℤ) = s.previousDenominator * s.divisor + s.denominator * s.dividend := by
    exact_mod_cast s.denominator_eq.symm
  rw [hp, hq, cross]
  ring

lemma cross_self (s : Stage p q) :
    (p : ℤ) * s.denominator - s.numerator * q = s.cross * -s.divisor := by
  have h := s.cross_combination 0 1
  simpa using h

lemma cross_sum (s : Stage p q) (k : ℕ) :
    (p : ℤ) * (s.previousDenominator + k * s.denominator : ℕ) -
        (s.previousNumerator + k * s.numerator : ℕ) * q =
      s.cross * (s.dividend - k * s.divisor) := by
  have h := s.cross_combination 1 k
  push_cast
  simpa only [one_mul] using h

lemma abs_div_sub_div {n d : ℕ} (hq : 0 < q) (hd : 0 < d) :
    |(p / q : ℚ) - n / d| = |(p * d - n * q : ℤ)| / (d * q) := by
  have hd' : (0 : ℚ) < d := by exact_mod_cast hd
  have hq' : (0 : ℚ) < q := by exact_mod_cast hq
  rw [div_sub_div _ _ hq'.ne' hd'.ne', abs_div, abs_of_pos (mul_pos hq' hd')]
  push_cast
  rw [mul_comm (q : ℚ) n, mul_comm (q : ℚ) d]

/-- A stage past the first step, from which on the denominators grow. -/
structure IsAdvanced (s : Stage p q) : Prop where
  cross : |s.cross| = 1
  previous_le : s.previousDenominator ≤ s.denominator
  denominator_pos : 0 < s.denominator
  divisor_le : s.divisor ≤ s.dividend

section Advanced

variable {s : Stage p q}

lemma abs_cross_mul (h : |s.cross| = 1) {x : ℤ} (hx : 0 ≤ x) : |s.cross * x| = x := by
  rw [abs_mul, h, one_mul, abs_of_nonneg hx]

/-- How far a convergent is from the fraction. -/
lemma IsAdvanced.abs_sub (h : s.IsAdvanced) :
    |(p / q : ℚ) - s.numerator / s.denominator| = s.divisor / (s.denominator * q) := by
  rw [abs_div_sub_div s.q_pos h.denominator_pos, cross_self, mul_neg, abs_neg,
    abs_cross_mul h.cross (Int.natCast_nonneg _), Int.cast_natCast]

/-- A convergent and the sums that the next one is reached by enclose the fraction. -/
lemma IsAdvanced.encloses (h : s.IsAdvanced) {k bound : ℕ} (hk : k ≤ s.dividend / s.divisor)
    (hpos : 0 < s.previousDenominator + k * s.denominator)
    (hle : s.previousDenominator + k * s.denominator ≤ bound)
    (hlt : bound < s.denominator + (s.previousDenominator + k * s.denominator)) :
    Encloses (p / q) bound s.numerator s.denominator
      (s.previousNumerator + k * s.numerator : ℕ) (s.previousDenominator + k * s.denominator) where
  denominator_pos := h.denominator_pos
  neighbour_pos := hpos
  neighbour_le := hle
  bound_lt := hlt
  cross := by
    rw [← h.cross, Stage.cross]
    congr 1
    push_cast
    ring
  between := by
    have hself := s.cross_self
    have hsum := s.cross_sum k
    have hq : (0 : ℚ) < q := by exact_mod_cast s.q_pos
    have hd : (0 : ℚ) < s.denominator := by exact_mod_cast h.denominator_pos
    have hd₁ : (0 : ℚ) < (s.previousDenominator + k * s.denominator : ℕ) := by exact_mod_cast hpos
    have hrest : (k : ℤ) * s.divisor ≤ s.dividend := by
      exact_mod_cast (Nat.le_div_iff_mul_le s.divisor_pos).mp hk
    rw [Set.mem_uIcc, Int.cast_natCast, Int.cast_natCast]
    -- the two differences have opposite signs
    rcases (abs_eq Int.one_nonneg).mp h.cross with hcross | hcross <;> rw [hcross] at hself hsum
    · refine .inr ⟨(div_le_div_iff₀ hd₁ hq).mpr ?_, (div_le_div_iff₀ hq hd).mpr ?_⟩
      · exact_mod_cast (by omega : ((s.previousNumerator + k * s.numerator : ℕ) : ℤ) * q ≤
          p * (s.previousDenominator + k * s.denominator : ℕ))
      · exact_mod_cast (by omega : (p : ℤ) * s.denominator ≤ s.numerator * q)
    · refine .inl ⟨(div_le_div_iff₀ hd hq).mpr ?_, (div_le_div_iff₀ hq hd₁).mpr ?_⟩
      · exact_mod_cast (by omega : (s.numerator : ℤ) * q ≤ p * s.denominator)
      · exact_mod_cast (by omega : (p : ℤ) * (s.previousDenominator + k * s.denominator : ℕ) ≤
          ((s.previousNumerator + k * s.numerator : ℕ) : ℤ) * q)

/-- A sum of the convergents is as far from the fraction as what it leaves of the remainder. -/
lemma abs_sub_sum (hs : |s.cross| = 1) {k : ℕ} (hk : k ≤ s.dividend / s.divisor)
    (hpos : 0 < s.previousDenominator + k * s.denominator) :
    |(p / q : ℚ) - (s.previousNumerator + k * s.numerator : ℕ) /
        (s.previousDenominator + k * s.denominator : ℕ)| =
      (s.dividend - k * s.divisor : ℚ) / ((s.previousDenominator + k * s.denominator : ℕ) * q) := by
  have hrest : (k : ℤ) * s.divisor ≤ s.dividend := by
    exact_mod_cast (Nat.le_div_iff_mul_le s.divisor_pos).mp hk
  rw [abs_div_sub_div s.q_pos hpos, cross_sum, abs_cross_mul hs (by omega)]
  push_cast
  rfl

/-- How far the next convergent is from the fraction. -/
lemma abs_sub_next (hs : |s.cross| = 1) :
    |(p / q : ℚ) - s.nextNumerator / s.nextDenominator| =
      (s.dividend % s.divisor : ℕ) / (s.nextDenominator * q) := by
  have hrest : ((s.dividend % s.divisor : ℕ) : ℚ) =
      s.dividend - (s.dividend / s.divisor : ℕ) * s.divisor := by
    have hdivision := Nat.div_add_mod s.dividend s.divisor
    rw [eq_sub_iff_add_eq]
    norm_cast
    rw [Nat.mul_comm] at hdivision
    omega
  rw [hrest]
  exact abs_sub_sum hs le_rfl s.nextDenominator_pos

/-- What the next convergent is multiplied with goes into the fraction. -/
lemma nextDenominator_mul_le (s : Stage p q) : s.nextDenominator * s.divisor ≤ q :=
  (Nat.le_add_left _ _).trans ((next_combination _ _ s).trans s.denominator_eq).le

/-- A convergent is the closest fraction up to its own denominator if a sum with no larger one
leaves at least as much. -/
lemma IsAdvanced.isNearest_of_sum (h : s.IsAdvanced) {k : ℕ}
    (hk : (k + 1) * s.divisor ≤ s.dividend)
    (hpos : 0 < s.previousDenominator + k * s.denominator)
    (hle : s.previousDenominator + k * s.denominator ≤ s.denominator) :
    IsNearest (p / q) s.denominator 0 (s.numerator / s.denominator) := by
  have hwhole : k ≤ s.dividend / s.divisor :=
    (Nat.le_div_iff_mul_le s.divisor_pos).mpr (by rw [Nat.add_mul] at hk; omega)
  have hrest : (s.divisor : ℚ) ≤ s.dividend - k * s.divisor := by
    have hcast : ((k + 1) * s.divisor : ℚ) ≤ s.dividend := by exact_mod_cast hk
    linarith
  have hq : (0 : ℚ) < q := by exact_mod_cast s.q_pos
  have hpos' : (0 : ℚ) < (s.previousDenominator + k * s.denominator : ℕ) := by exact_mod_cast hpos
  have hle' : ((s.previousDenominator + k * s.denominator : ℕ) : ℚ) ≤ s.denominator := by
    exact_mod_cast hle
  have hnonneg : (0 : ℚ) ≤ s.divisor := Nat.cast_nonneg _
  refine ((h.encloses hwhole hpos hle (by omega)).isNearest_iff le_rfl).mpr ?_
  rw [add_zero, Int.cast_natCast, Int.cast_natCast, h.abs_sub, abs_sub_sum h.cross hwhole hpos]
  exact div_le_div₀ (hnonneg.trans hrest) hrest (mul_pos hpos' hq)
    (mul_le_mul_of_nonneg_right hle' hq.le)

/-- Where the last denominator has settled, a convergent is the closest fraction up to its own. -/
lemma IsAdvanced.isNearest (h : s.IsAdvanced)
    (hsettled : 0 < s.previousDenominator ∨ 2 * s.divisor ≤ s.dividend) :
    IsNearest (p / q) s.denominator 0 (s.numerator / s.denominator) := by
  have hd := h.denominator_pos
  have hdivisor := h.divisor_le
  have hprevious := h.previous_le
  rcases Nat.eq_zero_or_pos s.previousDenominator with hzero | hpos
  · have htwo := hsettled.resolve_left (by omega)
    exact h.isNearest_of_sum (k := 1) htwo (by omega) (by omega)
  · exact h.isNearest_of_sum (k := 0) (by omega) (by omega) (by omega)

/-- The denominators grow at least as the Fibonacci numbers do. -/
lemma IsAdvanced.add_le_nextDenominator (h : s.IsAdvanced) :
    s.previousDenominator + s.denominator ≤ s.nextDenominator := by
  have hwhole : 1 ≤ s.dividend / s.divisor := Nat.div_pos h.divisor_le s.divisor_pos
  have hle := Nat.mul_le_mul_right s.denominator hwhole
  unfold nextDenominator
  omega

lemma IsAdvanced.next (h : s.IsAdvanced) (hrest : 0 < s.dividend % s.divisor) :
    (s.next hrest).IsAdvanced where
  cross := by rw [cross_next, abs_neg, h.cross]
  previous_le := (Nat.le_add_left _ _).trans h.add_le_nextDenominator
  denominator_pos := s.nextDenominator_pos
  divisor_le := (Nat.mod_lt _ s.divisor_pos).le

/-! ### The end of the walk -/

/-- A stage at which the walk may end within a bound: the next denominator is beyond the bound, or
the convergent meets the fraction. -/
structure IsLast (s : Stage p q) (bound : ℕ) : Prop extends IsAdvanced s where
  settled : 0 < s.previousDenominator ∨ 2 * s.divisor ≤ s.dividend
  denominator_le : s.denominator ≤ bound
  ended : bound < s.nextDenominator ∨
    |(p / q : ℚ) - s.numerator / s.denominator| < 1 / 10 ^ 12

lemma meets_iff (hs : |s.cross| = 1) :
    s.convergents.meets s.convergents.next (p / q) = true ↔
      |(p / q : ℚ) - s.nextNumerator / s.nextDenominator| < 1 / 10 ^ 12 := by
  have hsmall : (1e-12 : ℚ) = 1 / 10 ^ 12 := by norm_num
  have hdivisor : (0 : ℚ) < s.divisor := by exact_mod_cast s.divisor_pos
  -- what is left of the remainder is not below the difference
  have hle : |(p / q : ℚ) - s.nextNumerator / s.nextDenominator| ≤
      (s.dividend % s.divisor : ℕ) / s.divisor := by
    have hproduct : (s.divisor : ℚ) ≤ s.nextDenominator * q := by
      have hfirst := Nat.le_mul_of_pos_left s.divisor s.nextDenominator_pos
      have hsecond := Nat.le_mul_of_pos_left q s.nextDenominator_pos
      exact_mod_cast (hfirst.trans s.nextDenominator_mul_le).trans hsecond
    rw [abs_sub_next hs]
    exact div_le_div_of_nonneg_left (Nat.cast_nonneg _) hdivisor hproduct
  unfold meets
  rw [Bool.or_eq_true, decide_eq_true_iff, decide_eq_true_iff, fractional_convergents,
    numerator_next, denominator_next, abs_rat, hsmall, abs_sub_comm (_ / _ : ℚ)]
  exact ⟨fun h => h.elim hle.trans_lt id, .inr⟩

/-- Once the denominators add up to a million, the next convergent meets the fraction. -/
lemma IsAdvanced.abs_sub_next_lt (h : s.IsAdvanced)
    (hlarge : 10 ^ 6 ≤ s.previousDenominator + s.denominator) :
    |(p / q : ℚ) - s.nextNumerator / s.nextDenominator| < 1 / 10 ^ 12 := by
  have hnext : 10 ^ 6 ≤ s.nextDenominator := hlarge.trans h.add_le_nextDenominator
  have hq : 10 ^ 6 * s.divisor ≤ q :=
    (Nat.mul_le_mul_right s.divisor hnext).trans s.nextDenominator_mul_le
  have hproduct : 10 ^ 6 * (10 ^ 6 * s.divisor) ≤ s.nextDenominator * q := Nat.mul_le_mul hnext hq
  have hmod := Nat.mod_lt s.dividend s.divisor_pos
  have hpos : (0 : ℚ) < s.nextDenominator * q := by
    exact_mod_cast Nat.mul_pos s.nextDenominator_pos s.q_pos
  rw [abs_sub_next h.cross, div_lt_div_iff₀ hpos (by norm_num)]
  exact_mod_cast (by omega : s.dividend % s.divisor * 10 ^ 12 < 1 * (s.nextDenominator * q))

lemma IsAdvanced.isLast_next (h : s.IsAdvanced) {bound : ℕ} (hle : s.nextDenominator ≤ bound)
    (hmet : |(p / q : ℚ) - s.nextNumerator / s.nextDenominator| < 1 / 10 ^ 12)
    (hrest : 0 < s.dividend % s.divisor) : (s.next hrest).IsLast bound where
  toIsAdvanced := h.next hrest
  settled := .inl h.denominator_pos
  denominator_le := hle
  ended := .inr hmet

/-- Where the next denominator is beyond the bound, the remainder is at least 2 unless there is a
denominator before. -/
lemma IsAdvanced.isLast (h : s.IsAdvanced) {bound : ℕ} (hle : s.denominator ≤ bound)
    (hlt : bound < s.nextDenominator) : s.IsLast bound where
  toIsAdvanced := h
  settled := by
    rcases Nat.eq_zero_or_pos s.previousDenominator with hzero | hpos
    · right
      refine (Nat.le_div_iff_mul_le s.divisor_pos).mp ?_
      by_contra hsmall
      have hone := Nat.mul_le_mul_right s.denominator (by omega : s.dividend / s.divisor ≤ 1)
      unfold nextDenominator at hlt
      omega
    · exact .inl hpos
  denominator_le := hle
  ended := .inl hlt

/-- The walk ends with a fraction that is the one it is after, or with the convergent of a stage
that is a last one. -/
def IsAnswer (p q bound : ℕ) (c : Convergents ℚ) : Prop :=
  (q ≤ bound ∧ c.numerator = p ∧ c.denominator = q) ∨
    ∃ s : Stage p q, s.IsLast bound ∧ c.numerator = s.numerator ∧ c.denominator = s.denominator

lemma isAnswer_next (hpq : p.Coprime q) {bound : ℕ} (hle : s.nextDenominator ≤ bound)
    (hlast : ∀ hrest : 0 < s.dividend % s.divisor, (s.next hrest).IsLast bound) :
    IsAnswer p q bound s.convergents.next := by
  rcases Nat.eq_zero_or_pos (s.dividend % s.divisor) with hzero | hrest
  · obtain ⟨hnumerator, hdenominator⟩ := next_eq_of_mod_eq_zero hpq s hzero
    exact .inl ⟨hdenominator ▸ hle, by rw [numerator_next, hnumerator],
      by rw [denominator_next, hdenominator]⟩
  · exact .inr ⟨s.next hrest, hlast hrest, s.numerator_next, s.denominator_next⟩

/-- A small fraction is its own answer: any other convergent is further away than the walk can
tell. -/
lemma IsAnswer.eq_of_le {bound : ℕ} {c : Convergents ℚ} (h : IsAnswer p q bound c)
    (hle : q ≤ bound) (hmillion : q ≤ 10 ^ 6) : c.numerator = p ∧ c.denominator = q := by
  rcases h with ⟨-, hnumerator, hdenominator⟩ | ⟨s, hlast, -, -⟩
  · exact ⟨hnumerator, hdenominator⟩
  exfalso
  rcases hlast.ended with hlt | hmet
  · exact absurd (s.nextDenominator_le.trans hle) (not_le.mpr hlt)
  · have hden : s.denominator ≤ 10 ^ 6 :=
      ((Nat.le_add_left _ _).trans hlast.add_le_nextDenominator).trans
        (s.nextDenominator_le.trans hmillion)
    have hproduct : s.denominator * q ≤ 10 ^ 6 * 10 ^ 6 := Nat.mul_le_mul hden hmillion
    have hpos : (0 : ℚ) < s.denominator * q := by
      exact_mod_cast Nat.mul_pos hlast.denominator_pos s.q_pos
    rw [hlast.abs_sub, div_lt_div_iff₀ hpos (by norm_num)] at hmet
    have hsmall : s.divisor * 10 ^ 12 < 1 * (s.denominator * q) := by exact_mod_cast hmet
    have hdivisor := s.divisor_pos
    omega

/-- Where nothing of the remainder is left, the next convergent meets the fraction. -/
lemma met_or_rest (hs : |s.cross| = 1) :
    |(p / q : ℚ) - s.nextNumerator / s.nextDenominator| < 1 / 10 ^ 12 ∨
      0 < s.dividend % s.divisor :=
  (Nat.eq_zero_or_pos _).imp_left fun hzero => (meets_iff hs).mp (s.meets_of_mod_eq_zero hzero _)

/-- One step of the walk, unless the next denominator is beyond the bound: it ends where the next
convergent meets the fraction, and goes on otherwise. -/
lemma walk_step (hs : |s.cross| = 1) {bound : ℕ} (hle : s.nextDenominator ≤ bound) :
    (|(p / q : ℚ) - s.nextNumerator / s.nextDenominator| < 1 / 10 ^ 12 ∧
      ∀ steps, s.convergents.walk (bound : ℚ) (p / q) (steps + 1) = s.convergents.next) ∨
    ¬ |(p / q : ℚ) - s.nextNumerator / s.nextDenominator| < 1 / 10 ^ 12 ∧
      ∃ hrest, ∀ steps, s.convergents.walk (bound : ℚ) (p / q) (steps + 1) =
        (s.next hrest).convergents.walk (bound : ℚ) (p / q) steps := by
  have hcast : (s.nextDenominator : ℚ) ≤ bound := by exact_mod_cast hle
  by_cases hmet : |(p / q : ℚ) - s.nextNumerator / s.nextDenominator| < 1 / 10 ^ 12
  · exact .inl ⟨hmet, fun steps => by rw [walk_succ s hcast, if_pos ((meets_iff hs).mpr hmet)]⟩
  · have hrest := (met_or_rest hs).resolve_left hmet
    exact .inr ⟨hmet, hrest, fun steps => by
      rw [walk_succ s hcast, if_neg (mt (meets_iff hs).mp hmet), s.convergents_next hrest]⟩

/-- One step of the expansion: it ends beyond the bound or where it meets the fraction, and goes on
otherwise. -/
lemma endsWithin_succ_iff (hs : |s.cross| = 1) {maxDenominator : ℚ} {steps : ℕ} :
    s.convergents.EndsWithin maxDenominator (p / q) (steps + 1) ↔
      maxDenominator < s.nextDenominator ∨
        |(p / q : ℚ) - s.nextNumerator / s.nextDenominator| < 1 / 10 ^ 12 ∨
        ∃ hrest, (s.next hrest).convergents.EndsWithin maxDenominator (p / q) steps := by
  have hnext : s.convergents.nextDenominator = s.nextDenominator := s.denominator_next
  rw [EndsWithin, hnext, meets_iff hs]
  refine or_congr_right ⟨fun h => ?_, ?_⟩
  · rcases met_or_rest hs with hmet | hrest
    · exact .inl hmet
    · rw [s.convergents_next hrest] at h
      exact h.imp_right fun hends => ⟨hrest, hends⟩
  · rintro (hmet | ⟨hrest, hends⟩)
    · exact .inl hmet
    · rw [s.convergents_next hrest]
      exact .inr hends

lemma walk_of_lt {bound : ℕ} (hlt : bound < s.nextDenominator) (steps : ℕ) :
    s.convergents.walk (bound : ℚ) (p / q) (steps + 1) = s.convergents := by
  have hnext : s.convergents.nextDenominator = s.nextDenominator := s.denominator_next
  rw [walk, hnext, if_pos (by exact_mod_cast hlt)]

/-- **The expansion ends** once the denominators reach a million: they add up to one and a half
times as much at each step. -/
lemma IsAdvanced.endsWithin {maxDenominator : ℚ} (steps : ℕ) {s : Stage p q} (h : s.IsAdvanced)
    (hsteps : 10 ^ 6 * 2 ^ steps ≤ 3 ^ steps * (s.previousDenominator + s.denominator)) :
    s.convergents.EndsWithin maxDenominator (p / q) (steps + 1) := by
  induction steps generalizing s with
  | zero => exact (endsWithin_succ_iff h.cross).mpr (.inr (.inl (h.abs_sub_next_lt (by omega))))
  | succ steps ih =>
    refine (endsWithin_succ_iff h.cross).mpr (.inr ((met_or_rest h.cross).imp_right fun hrest =>
      ⟨hrest, ih (h.next hrest) ?_⟩))
    have hgrows : 3 * (s.previousDenominator + s.denominator) ≤
        2 * (s.denominator + s.nextDenominator) := by
      have hadd := h.add_le_nextDenominator
      have hprevious := h.previous_le
      omega
    have hmul := Nat.mul_le_mul_left (3 ^ steps) hgrows
    show 10 ^ 6 * 2 ^ steps ≤ 3 ^ steps * (s.denominator + s.nextDenominator)
    rw [pow_succ 2, pow_succ 3] at hsteps
    linarith

/-- Where the expansion ends, the walk has its answer. -/
lemma IsAdvanced.isAnswer_walk (hpq : p.Coprime q) {bound steps : ℕ} {s : Stage p q}
    (h : s.IsAdvanced) (hle : s.denominator ≤ bound)
    (hends : s.convergents.EndsWithin (bound : ℚ) (p / q) steps) :
    IsAnswer p q bound (s.convergents.walk (bound : ℚ) (p / q) steps) := by
  induction steps generalizing s with
  | zero => exact hends.elim
  | succ steps ih =>
    rcases lt_or_ge bound s.nextDenominator with hlt | hnext
    · rw [walk_of_lt hlt]
      exact .inr ⟨s, h.isLast hle hlt, rfl, rfl⟩
    rcases walk_step h.cross hnext with ⟨hmet, hwalk⟩ | ⟨hfar, hrest, hwalk⟩
    · rw [hwalk]
      exact isAnswer_next hpq hnext (h.isLast_next hnext hmet)
    · have hbound : ¬(bound : ℚ) < s.nextDenominator := not_lt.mpr (by exact_mod_cast hnext)
      obtain ⟨_, hends⟩ :=
        (((endsWithin_succ_iff h.cross).mp hends).resolve_left hbound).resolve_left hfar
      rw [hwalk]
      exact ih (h.next hrest) hnext hends

end Advanced

lemma cross_start (p : ℕ) (hq : 0 < q) : |(start p hq).cross| = 1 := by
  simp [cross, start]

lemma nextDenominator_start (p : ℕ) (hq : 0 < q) : (start p hq).nextDenominator = 1 := by
  simp [nextDenominator, start]

lemma isAdvanced_next_start (hq : 0 < q)
    (hrest : 0 < (start p hq).dividend % (start p hq).divisor) :
    ((start p hq).next hrest).IsAdvanced where
  cross := by rw [cross_next, abs_neg, cross_start]
  previous_le := Nat.zero_le _
  denominator_pos := nextDenominator_pos _
  divisor_le := (Nat.mod_lt _ hq).le

/-- If the whole part meets the fraction, less than half is left of it. -/
lemma isLast_next_start (hq : 0 < q) {bound : ℕ} (hbound : 1 ≤ bound)
    (hmet : |(p / q : ℚ) - (start p hq).nextNumerator / (start p hq).nextDenominator| <
      1 / 10 ^ 12) (hrest : 0 < (start p hq).dividend % (start p hq).divisor) :
    ((start p hq).next hrest).IsLast bound where
  toIsAdvanced := isAdvanced_next_start hq hrest
  settled := by
    right
    have hq' : (0 : ℚ) < q := by exact_mod_cast hq
    rw [abs_sub_next (cross_start p hq), nextDenominator_start, Nat.cast_one, one_mul,
      div_lt_div_iff₀ hq' (by norm_num)] at hmet
    have hsmall : p % q * 10 ^ 12 < 1 * q := by exact_mod_cast hmet
    show 2 * (p % q) ≤ q
    omega
  denominator_le := (nextDenominator_start p hq).trans_le hbound
  ended := .inr hmet

/-- Past the first step, the steps of a walk are enough. -/
lemma endsWithin_next_start {maxDenominator : ℚ} (hq : 0 < q)
    (hrest : 0 < (start p hq).dividend % (start p hq).divisor) :
    ((start p hq).next hrest).convergents.EndsWithin maxDenominator (p / q)
      (convergentSteps - 1) := by
  have hsum : ((start p hq).next hrest).previousDenominator +
      ((start p hq).next hrest).denominator = 1 := by
    show 0 + (start p hq).nextDenominator = 1
    rw [nextDenominator_start]
  obtain ⟨more, hmore⟩ : ∃ more, convergentSteps - 2 = 40 + more := ⟨2058, rfl⟩
  refine (isAdvanced_next_start hq hrest).endsWithin (convergentSteps - 2) ?_
  rw [hsum, mul_one, hmore, pow_add, pow_add, ← mul_assoc]
  exact Nat.mul_le_mul (by norm_num) (Nat.pow_le_pow_left (by norm_num) more)

/-- **Every expansion ends** before the steps of a walk run out. -/
lemma endsWithin_start {maxDenominator : ℚ} (p : ℕ) (hq : 0 < q) :
    (start p hq).convergents.EndsWithin maxDenominator (p / q) convergentSteps := by
  rw [show convergentSteps = convergentSteps - 1 + 1 from rfl,
    endsWithin_succ_iff (cross_start p hq)]
  exact .inr ((met_or_rest (cross_start p hq)).imp_right fun hrest =>
    ⟨hrest, endsWithin_next_start hq hrest⟩)

lemma isAnswer_walk_start (hpq : p.Coprime q) (hq : 0 < q) {bound : ℕ} (hbound : 1 ≤ bound) :
    IsAnswer p q bound
      ((start p hq).convergents.walk (bound : ℚ) (p / q) convergentSteps) := by
  have hnext : (start p hq).nextDenominator ≤ bound := (nextDenominator_start p hq).trans_le hbound
  rw [show convergentSteps = convergentSteps - 1 + 1 from rfl]
  rcases walk_step (cross_start p hq) hnext with ⟨hmet, hwalk⟩ | ⟨-, hrest, hwalk⟩
  · rw [hwalk]
    exact isAnswer_next hpq hnext (isLast_next_start hq hbound hmet)
  · rw [hwalk]
    exact (isAdvanced_next_start hq hrest).isAnswer_walk hpq hnext (endsWithin_next_start hq hrest)

/-- A last stage encloses the fraction with the last sum within the bound. -/
lemma IsLast.exists_encloses {s : Stage p q} {bound : ℕ} (h : s.IsLast bound)
    (hlt : bound < s.nextDenominator) :
    ∃ n₁ d₁ : ℕ, Encloses (p / q) bound s.numerator s.denominator n₁ d₁ := by
  have hsplit := Nat.div_add_mod (bound - s.previousDenominator) s.denominator
  have hmod := Nat.mod_lt (bound - s.previousDenominator) h.denominator_pos
  have hprevious := h.previous_le.trans h.denominator_le
  have hle := h.denominator_le
  rw [Nat.mul_comm] at hsplit
  refine ⟨_, _, h.encloses (k := (bound - s.previousDenominator) / s.denominator) ?_ ?_ ?_ ?_⟩
  · refine ((Nat.div_lt_iff_lt_mul h.denominator_pos).mpr ?_).le
    unfold nextDenominator at hlt
    omega
  all_goals omega

/-- Where the bound cuts the expansion off, the convergent is close for its denominator. -/
lemma IsLast.abs_sub_le {s : Stage p q} {bound : ℕ} (h : s.IsLast bound)
    (hlt : bound < s.nextDenominator) :
    |(p / q : ℚ) - s.numerator / s.denominator| ≤ 1 / (s.denominator * (bound + 1)) := by
  have hq : (0 : ℚ) < q := by exact_mod_cast s.q_pos
  have hd : (0 : ℚ) < s.denominator := by exact_mod_cast h.denominator_pos
  have hle : (s.divisor * (bound + 1) : ℚ) ≤ q := by
    have hnat : s.divisor * (bound + 1) ≤ q := by
      rw [Nat.mul_comm]
      exact (Nat.mul_le_mul_right _ hlt).trans s.nextDenominator_mul_le
    exact_mod_cast hnat
  rw [h.abs_sub, div_le_div_iff₀ (mul_pos hd hq) (mul_pos hd (by positivity))]
  calc (s.divisor * (s.denominator * (bound + 1)) : ℚ)
      = s.denominator * (s.divisor * (bound + 1)) := by ring
    _ ≤ s.denominator * q := mul_le_mul_of_nonneg_left hle hd.le
    _ = 1 * (s.denominator * q) := (one_mul _).symm

/-- A fraction whose reciprocal is beyond the bound comes to zero. -/
lemma walk_start_of_le (hq : 0 < q) {bound : ℕ} (hbound : 1 ≤ bound) (hle : p * (bound + 1) ≤ q) :
    ((start p hq).convergents.walk (bound : ℚ) (p / q) convergentSteps).numerator = 0 ∧
      ((start p hq).convergents.walk (bound : ℚ) (p / q) convergentSteps).denominator = 1 := by
  have htwice : p * 2 ≤ p * (bound + 1) := Nat.mul_le_mul_left p (by omega)
  have hsmall : p < q := by omega
  have hnumerator : (start p hq).nextNumerator = 0 := by
    show 0 + p / q * 1 = 0
    rw [Nat.div_eq_of_lt hsmall]
  have hdenominator := nextDenominator_start p hq
  rw [show convergentSteps = convergentSteps - 2 + 1 + 1 from rfl]
  rcases walk_step (cross_start p hq) (hdenominator.trans_le hbound) with
    ⟨-, hwalk⟩ | ⟨-, hrest, hwalk⟩
  · rw [hwalk, numerator_next, denominator_next, hnumerator, hdenominator]
    exact ⟨Nat.cast_zero, Nat.cast_one⟩
  · have hmod : p % q = p := Nat.mod_eq_of_lt hsmall
    have hpos : 0 < p := hmod ▸ hrest
    have hbeyond : bound < ((start p hq).next hrest).nextDenominator := by
      show bound < 0 + q / (p % q) * (start p hq).nextDenominator
      rw [hmod, hdenominator, Nat.zero_add, Nat.mul_one]
      exact (Nat.le_div_iff_mul_le hpos).mpr (by rw [Nat.mul_comm]; exact hle)
    rw [hwalk, walk_of_lt hbeyond]
    show ((start p hq).nextNumerator : ℚ) = 0 ∧ ((start p hq).nextDenominator : ℚ) = 1
    rw [hnumerator, hdenominator]
    exact ⟨Nat.cast_zero, Nat.cast_one⟩

end Convergents.Stage

/-! ### Close fractions -/

open Convergents.Stage

/-- What holds of every close fraction. -/
structure IsClose (x : ℚ) (bound : ℕ) (n : ℤ) (d : ℕ) : Prop where
  denominator_pos : 0 < d
  denominator_le : d ≤ bound
  nearest : IsNearest x d 0 (n / d)
  met_or_enclosed : |x - n / d| < 1 / 10 ^ 12 ∨
    |x - n / d| ≤ 1 / (d * (bound + 1)) ∧ ∃ (n₁ : ℤ) (d₁ : ℕ), Encloses x bound n d n₁ d₁

lemma IsClose.neg {x : ℚ} {bound : ℕ} {n : ℤ} {d : ℕ} (h : IsClose x bound n d) :
    IsClose (-x) bound (-n) d where
  denominator_pos := h.denominator_pos
  denominator_le := h.denominator_le
  nearest := by
    rw [Int.cast_neg, neg_div]
    exact h.nearest.neg
  met_or_enclosed := by
    have hneg : |-x - (-n : ℤ) / d| = |x - n / d| := by
      rw [Int.cast_neg, neg_div, show -x - -(n / d : ℚ) = -(x - n / d) by ring, abs_neg]
    rw [hneg]
    exact h.met_or_enclosed.imp id fun ⟨hle, n₁, d₁, hencloses⟩ => ⟨hle, -n₁, d₁, hencloses.neg⟩

lemma exists_isClose_of_isAnswer {p q bound : ℕ} (hq : 0 < q) {c : Convergents ℚ}
    (h : IsAnswer p q bound c) :
    ∃ n d : ℕ, c.numerator = n ∧ c.denominator = d ∧ IsClose (p / q) bound n d := by
  rcases h with ⟨hle, hnumerator, hdenominator⟩ | ⟨s, hlast, hnumerator, hdenominator⟩
  · refine ⟨p, q, hnumerator, hdenominator, hq, hle, fun a b _ _ => ?_, .inl ?_⟩
    · rw [Int.cast_natCast, sub_self, abs_zero, add_zero]
      exact abs_nonneg _
    · rw [Int.cast_natCast, sub_self, abs_zero]
      norm_num
  · refine ⟨s.numerator, s.denominator, hnumerator, hdenominator, hlast.denominator_pos,
      hlast.denominator_le, hlast.isNearest hlast.settled, ?_⟩
    rcases hlast.ended with hlt | hmet
    · obtain ⟨n₁, d₁, hencloses⟩ := hlast.exists_encloses hlt
      exact .inr ⟨hlast.abs_sub_le hlt, n₁, d₁, hencloses⟩
    · exact .inl hmet

lemma isAnswer_walkAfter (x : ℚ) {bound : ℕ} (hbound : 1 ≤ bound) :
    IsAnswer x.num.natAbs x.den bound (walkAfter x bound) :=
  isAnswer_walk_start x.reduced x.den_pos hbound

lemma closeFraction_of_walkAfter {x : ℚ} {bound n d : ℕ} (hn : (walkAfter x bound).numerator = n)
    (hd : (walkAfter x bound).denominator = d) :
    closeFraction x bound = (((if x < 0 then -n else n : ℤ) : ℚ), (d : ℚ)) := by
  rw [closeFraction_eq_walkAfter, hn, hd]
  split_ifs <;> simp

/-- A number whose reciprocal is beyond the bound comes to zero. -/
lemma closeFraction_eq_zero {x : ℚ} {bound : ℕ} (hbound : 1 ≤ bound)
    (hle : |x| ≤ 1 / (bound + 1)) : closeFraction x bound = (0, 1) := by
  have hden : (0 : ℚ) < x.den := by exact_mod_cast x.den_pos
  have hproduct : x.num.natAbs * (bound + 1) ≤ x.den := by
    rw [← natAbs_num_div_den, div_le_div_iff₀ hden (by positivity), one_mul] at hle
    exact_mod_cast hle
  obtain ⟨hnumerator, hdenominator⟩ := walk_start_of_le x.den_pos hbound hproduct
  rw [closeFraction_of_walkAfter (hnumerator.trans Nat.cast_zero.symm)
    (hdenominator.trans Nat.cast_one.symm)]
  simp

/-- **A fraction with a small denominator is found exactly**, in lowest terms. -/
lemma closeFraction_eq {x : ℚ} {bound : ℕ} (hden : x.den ≤ 10 ^ 6) (hbound : x.den ≤ bound) :
    closeFraction x bound = ((x.num : ℚ), (x.den : ℚ)) := by
  obtain ⟨hnumerator, hdenominator⟩ :=
    (isAnswer_walkAfter x (x.den_pos.trans_le hbound)).eq_of_le hbound hden
  have hsign : (if x < 0 then -x.num.natAbs else x.num.natAbs : ℤ) = x.num := by
    split_ifs with hneg
    · have hnum := Rat.num_neg.mpr hneg
      omega
    · have hnum := Rat.num_nonneg.mpr (not_lt.mp hneg)
      omega
  rw [closeFraction_of_walkAfter hnumerator hdenominator, hsign]

lemma exists_isClose (x : ℚ) {bound : ℕ} (hbound : 1 ≤ bound) :
    ∃ (n : ℤ) (d : ℕ), closeFraction x bound = ((n : ℚ), (d : ℚ)) ∧ IsClose x bound n d := by
  obtain ⟨n, d, hnumerator, hdenominator, hclose⟩ :=
    exists_isClose_of_isAnswer x.den_pos (isAnswer_walkAfter x hbound)
  refine ⟨_, d, closeFraction_of_walkAfter hnumerator hdenominator, ?_⟩
  rw [natAbs_num_div_den] at hclose
  split_ifs with hneg
  · rw [abs_of_neg hneg] at hclose
    simpa using hclose.neg
  · rwa [abs_of_nonneg (not_lt.mp hneg)] at hclose

/-- **How close a close fraction is.** It keeps to the bound, and no fraction up to its own
denominator is closer. Up to the bound, either it meets the number, so that none is closer by more
than `1e-12`; or it encloses the number with a neighbour, and then none is closer by more than
`1e-12` if and only if this neighbour is not. -/
theorem closeFraction_isNearest_iff (x : ℚ) (bound : ℕ) (hbound : 1 ≤ bound) :
    ∃ (n : ℤ) (d : ℕ), closeFraction x bound = ((n : ℚ), (d : ℚ)) ∧ 0 < d ∧ d ≤ bound ∧
      IsNearest x d 0 (n / d) ∧
      (|x - n / d| < 1 / 10 ^ 12 ∧ IsNearest x bound (1 / 10 ^ 12) (n / d) ∨
        ∃ (n₁ : ℤ) (d₁ : ℕ), Encloses x bound n d n₁ d₁ ∧
          (IsNearest x bound (1 / 10 ^ 12) (n / d) ↔
            |x - n / d| ≤ |x - n₁ / d₁| + 1 / 10 ^ 12)) := by
  obtain ⟨n, d, heq, hclose⟩ := exists_isClose x hbound
  refine ⟨n, d, heq, hclose.denominator_pos, hclose.denominator_le, hclose.nearest, ?_⟩
  rcases hclose.met_or_enclosed with hmet | ⟨-, n₁, d₁, hencloses⟩
  · exact .inl ⟨hmet, fun a b _ _ => hmet.le.trans (le_add_of_nonneg_left (abs_nonneg _))⟩
  · exact .inr ⟨n₁, d₁, hencloses, hencloses.isNearest_iff (by norm_num)⟩

lemma closeFraction_hundred : closeFraction (3.14159265 : ℚ) (100 : ℕ) = (22, 7) := by
  decide +kernel

/-- With denominators up to 100 the number `3.14159265` comes to `22 / 7`, which is closest up to
its own denominator. -/
theorem closeFraction_isNearest_hundred :
    1 ≤ 100 ∧ closeFraction (3.14159265 : ℚ) (100 : ℕ) = (22, 7) ∧
      IsNearest 3.14159265 7 0 (22 / 7) := by
  obtain ⟨n, d, hnd, -, -, hnearest, -⟩ :=
    closeFraction_isNearest_iff 3.14159265 100 (by norm_num)
  obtain ⟨hn, hd⟩ := Prod.mk.inj (closeFraction_hundred.symm.trans hnd)
  have hseven : d = 7 := by exact_mod_cast hd.symm
  rw [← hn, ← hd, hseven] at hnearest
  exact ⟨by norm_num, closeFraction_hundred, hnearest⟩

/-- Up to 100, though, `311 / 99` is closer. -/
theorem not_isNearest_closeFraction : ¬ ∀ (x : ℚ) (bound : ℕ), 1 ≤ bound →
    IsNearest x bound (1 / 10 ^ 12) ((closeFraction x bound).1 / (closeFraction x bound).2) := by
  intro h
  have hle := h 3.14159265 100 (by norm_num) 311 99 (by norm_num) (by norm_num)
  rw [closeFraction_hundred] at hle
  norm_num [abs_le] at hle

end Metrology
