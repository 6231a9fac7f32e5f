import Mathlib
import Metrology.Scalar.Exact
import Metrology.Proofs.Rational

/-!
The numerals of whole numbers: below `10 ^ 21` they are written in plain digits, and from there on
with a power of ten.
-/

namespace Metrology

lemma dropTrailingZeros_mul_pow (n : ℕ) :
    (dropTrailingZeros n).1 * 10 ^ (dropTrailingZeros n).2 = n := by
  induction n using Nat.strong_induction_on with
  | h n ih =>
    rw [dropTrailingZeros]
    split_ifs with h
    · have hlt : n / 10 < n := Nat.div_lt_self (by omega) (by norm_num)
      have hshort := ih (n / 10) hlt
      calc (dropTrailingZeros (n / 10)).1 * 10 ^ ((dropTrailingZeros (n / 10)).2 + 1)
          = (dropTrailingZeros (n / 10)).1 * 10 ^ (dropTrailingZeros (n / 10)).2 * 10 := by
            rw [pow_succ, mul_assoc]
        _ = n := by rw [hshort]; omega
    · simp

lemma dropTrailingZeros_zero : dropTrailingZeros 0 = (0, 0) := by
  rw [dropTrailingZeros]
  simp

lemma normalize_natural (n : ℕ) : (Decimal.mk n 0).normalize =
    ⟨(dropTrailingZeros n).1, (dropTrailingZeros n).2⟩ := by
  unfold Decimal.normalize
  by_cases h : (dropTrailingZeros n).1 = 0
  · have hn : n = 0 := by
      rw [← dropTrailingZeros_mul_pow n, h, Nat.zero_mul]
    subst hn
    rw [dropTrailingZeros_zero]
    rfl
  · simp [h]

/-- The zeros taken off a number and the digits that are left are no more than the number has
places. -/
lemma digitCount_add_le {n zeros bound : ℕ} (h : n * 10 ^ zeros < 10 ^ bound)
    (hn : n = 0 → zeros < bound) : zeros + digitCount n ≤ bound := by
  have hzeros : zeros < bound := by
    by_contra hge
    rcases Nat.eq_zero_or_pos n with h0 | hpos
    · exact hge (hn h0)
    · have hpow : 10 ^ bound ≤ 10 ^ zeros := Nat.pow_le_pow_right (by norm_num) (by omega)
      have hle : 1 * 10 ^ zeros ≤ n * 10 ^ zeros := Nat.mul_le_mul_right _ hpos
      omega
  have hlt : n < 10 ^ (bound - zeros) := by
    have hsplit : 10 ^ (bound - zeros) * 10 ^ zeros = 10 ^ bound := by
      rw [← pow_add, Nat.sub_add_cancel hzeros.le]
    exact Nat.lt_of_mul_lt_mul_right (hsplit ▸ h)
  have hlength := (Nat.length_toDigits_le_iff (b := 10) (by norm_num) (by omega)).mpr hlt
  unfold digitCount
  omega

/-- **Plain digits**: a natural number below `10 ^ 21` is written with its decimal digits alone. -/
lemma chars_natural {n : ℕ} (h : n < 10 ^ 21) : (Decimal.mk n 0).chars = Nat.toDigits 10 n := by
  have hproduct := dropTrailingZeros_mul_pow n
  have hcount : (dropTrailingZeros n).2 + digitCount (dropTrailingZeros n).1 ≤ 21 := by
    refine digitCount_add_le (by rw [hproduct]; exact h) fun hzero => ?_
    have hn : n = 0 := by rw [← hproduct, hzero, Nat.zero_mul]
    rw [hn, dropTrailingZeros_zero]
    norm_num
  have hpos : 0 < digitCount (dropTrailingZeros n).1 := Nat.length_toDigits_pos
  have hlead : -7 < (Decimal.mk n 0).normalize.lead ∧ (Decimal.mk n 0).normalize.lead < 21 := by
    rw [normalize_natural]
    unfold Decimal.lead
    constructor <;> dsimp only <;> omega
  have htail : (Decimal.mk n 0).chars = (Decimal.mk n 0).normalize.positional := if_pos hlead
  rw [htail, normalize_natural]
  unfold Decimal.positional
  rw [if_pos (Int.natCast_nonneg _)]
  show Nat.toDigits 10 ((dropTrailingZeros n).1 * 10 ^ (dropTrailingZeros n).2) = _
  rw [hproduct]

/-- From `10 ^ 21` on a numeral is scientific. -/
lemma mem_chars_natural {n : ℕ} (h : 10 ^ 21 ≤ n) : 'e' ∈ (Decimal.mk n 0).chars := by
  have hproduct := dropTrailingZeros_mul_pow n
  have hdigits : (dropTrailingZeros n).1 < 10 ^ digitCount (dropTrailingZeros n).1 :=
    (Nat.length_toDigits_le_iff (b := 10) (by norm_num) Nat.length_toDigits_pos).mp le_rfl
  have hcount : 21 < digitCount (dropTrailingZeros n).1 + (dropTrailingZeros n).2 := by
    refine (Nat.pow_lt_pow_iff_right (a := 10) (by norm_num)).mp (h.trans_lt ?_)
    rw [pow_add]
    exact hproduct.symm.trans_lt (Nat.mul_lt_mul_of_pos_right hdigits (by positivity))
  have hlead : ¬(-7 < (Decimal.mk n 0).normalize.lead ∧ (Decimal.mk n 0).normalize.lead < 21) := by
    rw [normalize_natural]
    unfold Decimal.lead
    dsimp only
    omega
  have htail : (Decimal.mk n 0).chars =
      Decimal.scientific (Nat.toDigits 10 (Decimal.mk n 0).normalize.digits)
        (Decimal.mk n 0).normalize.lead := if_neg hlead
  rw [htail]
  exact List.mem_append_right _ List.mem_cons_self

lemma mem_text_intCast {n : ℤ} (h : 10 ^ 21 ≤ n.natAbs) : 'e' ∈ (Scalar.text (n : ℚ)).toList := by
  show 'e' ∈ (rationalText n).toList
  unfold rationalText signed
  rw [String.toList_ofList, if_pos (Rat.den_intCast n), Rat.num_intCast]
  split_ifs
  · exact List.mem_cons_of_mem _ (mem_chars_natural h)
  · exact mem_chars_natural h

/-- A whole number is written with its sign, if it is negative, and its plain digits. -/
lemma toList_text_intCast {n : ℤ} (h : n.natAbs < 10 ^ 21) :
    (Scalar.text (n : ℚ)).toList = signed (decide (n < 0)) (Nat.toDigits 10 n.natAbs) := by
  show (rationalText n).toList = _
  unfold rationalText
  rw [String.toList_ofList, if_pos (Rat.den_intCast n), Rat.num_intCast, chars_natural h]

end Metrology
