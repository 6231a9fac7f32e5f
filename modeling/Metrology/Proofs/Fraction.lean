import Mathlib
import Metrology.Expression.Fraction
import Metrology.Proofs.Rational

/-!
The expansion of a fraction, stage by stage.

On a fraction in lowest terms the expansion is Euclid's algorithm: the remainder is a quotient of
two natural numbers, by which the two neighbouring convergents combine to the fraction. When nothing
of the remainder is left, the next convergent is the fraction itself.
-/

namespace Metrology

namespace Convergents

section

variable {α : Type} [Scalar α] {maxDenominator target : α} {c : Convergents α}

/-- Whether an expansion comes to an end within a number of steps: before a denominator above the
bound, or at a convergent that meets the target. -/
def EndsWithin (maxDenominator target : α) : ℕ → Convergents α → Prop
  | 0, _ => False
  | steps + 1, c => maxDenominator < c.nextDenominator ∨ c.meets c.next target = true ∨
      EndsWithin maxDenominator target steps c.next

lemma EndsWithin.mono {steps : ℕ} (h : EndsWithin maxDenominator target steps c) (more : ℕ) :
    EndsWithin maxDenominator target (steps + more) c := by
  induction steps generalizing c with
  | zero => exact h.elim
  | succ steps ih =>
    rw [Nat.add_right_comm]
    exact h.imp_right (Or.imp_right ih)

/-- Where the expansion has ended, further steps of the walk change nothing. -/
lemma EndsWithin.walk_add {steps : ℕ} (h : EndsWithin maxDenominator target steps c) (more : ℕ) :
    c.walk maxDenominator target (steps + more) = c.walk maxDenominator target steps := by
  induction steps generalizing c with
  | zero => exact h.elim
  | succ steps ih =>
    rw [Nat.add_right_comm, walk, walk]
    split_ifs with hbound hmeets
    · rfl
    · rfl
    · exact ih ((h.resolve_left hbound).resolve_left hmeets)

end

/-- A stage of the expansion of `p / q`: two neighbouring convergents, and the remainder
`dividend / divisor` by which they combine to `p / q`. -/
structure Stage (p q : ℕ) where
  previousNumerator : ℕ
  previousDenominator : ℕ
  numerator : ℕ
  denominator : ℕ
  dividend : ℕ
  divisor : ℕ
  divisor_pos : 0 < divisor
  numerator_eq : previousNumerator * divisor + numerator * dividend = p
  denominator_eq : previousDenominator * divisor + denominator * dividend = q
  denominator_pos : 0 < previousDenominator ∨ 0 < denominator ∧ divisor ≤ dividend

namespace Stage

variable {p q : ℕ}

/-- The convergents of a stage, as the walk sees them. -/
def convergents (s : Stage p q) : Convergents ℚ :=
  ⟨s.previousNumerator, s.previousDenominator, s.numerator, s.denominator,
    s.dividend / s.divisor⟩

/-- The stage at which the expansion begins. -/
def start (p : ℕ) (hq : 0 < q) : Stage p q where
  previousNumerator := 0
  previousDenominator := 1
  numerator := 1
  denominator := 0
  dividend := p
  divisor := q
  divisor_pos := hq
  numerator_eq := by omega
  denominator_eq := by omega
  denominator_pos := Or.inl Nat.one_pos

lemma convergents_start (p : ℕ) (hq : 0 < q) :
    (start p hq).convergents = Convergents.start (p / q : ℚ) := by
  simp [convergents, start, Convergents.start]

/-- The numerator of the next convergent. -/
def nextNumerator (s : Stage p q) : ℕ :=
  s.previousNumerator + s.dividend / s.divisor * s.numerator

/-- The denominator of the next convergent. -/
def nextDenominator (s : Stage p q) : ℕ :=
  s.previousDenominator + s.dividend / s.divisor * s.denominator

/-- What one division with remainder makes of the two sums. -/
lemma next_combination (x y : ℕ) (s : Stage p q) :
    y * (s.dividend % s.divisor) + (x + s.dividend / s.divisor * y) * s.divisor =
      x * s.divisor + y * s.dividend := by
  have hdivision := Nat.div_add_mod s.dividend s.divisor
  calc y * (s.dividend % s.divisor) + (x + s.dividend / s.divisor * y) * s.divisor
      = x * s.divisor + y * (s.divisor * (s.dividend / s.divisor) + s.dividend % s.divisor) := by
        ring
    _ = x * s.divisor + y * s.dividend := by rw [hdivision]

lemma nextDenominator_pos (s : Stage p q) : 0 < s.nextDenominator := by
  unfold nextDenominator
  rcases s.denominator_pos with h | ⟨h, hle⟩
  · omega
  · have hwhole : 0 < s.dividend / s.divisor := Nat.div_pos hle s.divisor_pos
    have hproduct := Nat.mul_pos hwhole h
    omega

/-- The next stage, as long as something remains to be expanded. -/
def next (s : Stage p q) (h : 0 < s.dividend % s.divisor) : Stage p q where
  previousNumerator := s.numerator
  previousDenominator := s.denominator
  numerator := s.nextNumerator
  denominator := s.nextDenominator
  dividend := s.divisor
  divisor := s.dividend % s.divisor
  divisor_pos := h
  numerator_eq := (next_combination _ _ s).trans s.numerator_eq
  denominator_eq := (next_combination _ _ s).trans s.denominator_eq
  denominator_pos := Or.inr ⟨s.nextDenominator_pos, (Nat.mod_lt _ s.divisor_pos).le⟩

/-! ### One step -/

lemma whole_convergents (s : Stage p q) :
    s.convergents.whole = ((s.dividend / s.divisor : ℕ) : ℚ) := by
  unfold whole convergents
  rw [floor_rat, Rat.floor_natCast_div_natCast]
  norm_cast

lemma numerator_next (s : Stage p q) : s.convergents.next.numerator = s.nextNumerator := by
  show s.convergents.nextNumerator = _
  rw [Convergents.nextNumerator, whole_convergents, Stage.nextNumerator]
  push_cast
  rfl

lemma denominator_next (s : Stage p q) : s.convergents.next.denominator = s.nextDenominator := by
  show s.convergents.nextDenominator = _
  rw [Convergents.nextDenominator, whole_convergents, Stage.nextDenominator]
  push_cast
  rfl

/-- What is left of the remainder once its whole part has been taken. -/
lemma fractional_convergents (s : Stage p q) : s.convergents.remainder - s.convergents.whole =
    ((s.dividend % s.divisor : ℕ) : ℚ) / s.divisor := by
  have hpos : (s.divisor : ℚ) ≠ 0 := by exact_mod_cast s.divisor_pos.ne'
  have hdivision : (s.divisor : ℚ) * ((s.dividend / s.divisor : ℕ) : ℚ) +
      ((s.dividend % s.divisor : ℕ) : ℚ) = s.dividend := by
    exact_mod_cast Nat.div_add_mod s.dividend s.divisor
  rw [whole_convergents, eq_div_iff hpos]
  show ((s.dividend : ℚ) / s.divisor - _) * s.divisor = _
  rw [sub_mul, div_mul_cancel₀ _ hpos, ← hdivision]
  ring

lemma convergents_next (s : Stage p q) (h : 0 < s.dividend % s.divisor) :
    s.convergents.next = (s.next h).convergents := by
  have hremainder : s.convergents.next.remainder = (s.next h).convergents.remainder := by
    show 1 / (s.convergents.remainder - s.convergents.whole) = _
    rw [fractional_convergents, one_div_div]
    rfl
  have hnumerator := s.numerator_next
  have hdenominator := s.denominator_next
  unfold Convergents.next at *
  simp only at hnumerator hdenominator hremainder
  rw [hnumerator, hdenominator, hremainder]
  rfl

lemma nextDenominator_le (s : Stage p q) : s.nextDenominator ≤ q := by
  have hsum := (next_combination _ _ s).trans s.denominator_eq
  have hle : s.nextDenominator * 1 ≤ s.nextDenominator * s.divisor :=
    Nat.mul_le_mul_left _ s.divisor_pos
  unfold nextDenominator at hle ⊢
  omega

/-! ### Where the walk ends -/

/-- When nothing remains, the next convergent is the fraction: the divisor divides both parts. -/
lemma next_eq_of_mod_eq_zero (hpq : p.Coprime q) (s : Stage p q)
    (h : s.dividend % s.divisor = 0) : s.nextNumerator = p ∧ s.nextDenominator = q := by
  have hnumerator := (next_combination _ _ s).trans s.numerator_eq
  have hdenominator := (next_combination _ _ s).trans s.denominator_eq
  rw [h, Nat.mul_zero, Nat.zero_add] at hnumerator hdenominator
  have hone : s.divisor = 1 :=
    Nat.eq_one_of_dvd_coprimes hpq (Dvd.intro_left _ hnumerator) (Dvd.intro_left _ hdenominator)
  unfold nextNumerator nextDenominator
  constructor
  · simpa [hone] using hnumerator
  · simpa [hone] using hdenominator

/-- What one more step of the walk does, as long as the next denominator is within the bound. -/
lemma walk_succ {maxDenominator : ℚ} (s : Stage p q) (hle : s.nextDenominator ≤ maxDenominator)
    (steps : ℕ) : s.convergents.walk maxDenominator (p / q) (steps + 1) =
      if s.convergents.meets s.convergents.next (p / q) then s.convergents.next
      else s.convergents.next.walk maxDenominator (p / q) steps := by
  have hnext : s.convergents.nextDenominator = s.nextDenominator := s.denominator_next
  rw [walk, hnext, if_neg (not_lt.mpr hle)]

lemma meets_of_mod_eq_zero (s : Stage p q) (h : s.dividend % s.divisor = 0) (target : ℚ) :
    s.convergents.meets s.convergents.next target = true := by
  unfold meets
  rw [fractional_convergents, h]
  norm_num

end Stage

end Convergents

lemma natAbs_num_div_den (x : ℚ) : ((x.num.natAbs : ℕ) : ℚ) / x.den = |x| := by
  rw [Nat.cast_natAbs, Int.cast_abs, ← Nat.abs_cast x.den, ← abs_div, Rat.num_div_den]

/-- The walk after a rational, in lowest terms. -/
def walkAfter (x maxDenominator : ℚ) : Convergents ℚ :=
  (Convergents.Stage.start x.num.natAbs x.den_pos).convergents.walk maxDenominator
    (x.num.natAbs / x.den) convergentSteps

/-- A close fraction is where the walk ends, with the sign of the number. -/
lemma closeFraction_eq_walkAfter (x maxDenominator : ℚ) :
    closeFraction x maxDenominator =
      (if x < 0 then -(walkAfter x maxDenominator).numerator
        else (walkAfter x maxDenominator).numerator, (walkAfter x maxDenominator).denominator) := by
  unfold closeFraction walkAfter
  dsimp only
  rw [Convergents.Stage.convergents_start, natAbs_num_div_den, abs_rat, neg_one_mul, one_mul]

end Metrology
