import Mathlib

/-!
How the results of operations on doubles are rounded.

A finite double is a rational number with a significand of at most 53 bits. An operation cuts the
significand of the exact result down and adds at most one to what is left. So the rounded result
never lies beyond a number that has such a significand itself, which is all that is needed to
compare results with given numbers. Whether a result is too large for a double is decided half-way
between the greatest double and the power of two above it.
-/

namespace Metrology

namespace Double

open Float.Model Float.Model.UnpackedFloat

/-! ### Numbers with short significands -/

/-- A number with a significand of at most 53 bits that is a multiple of the smallest double. -/
def IsRepresentable (q : ℚ) : Prop :=
  ∃ m e : ℤ, |m| < 2 ^ 53 ∧ -1074 ≤ e ∧ q = m * 2 ^ e

/-- Whether a number is small enough to be rounded to a double: from half-way between the greatest
one and the next power of two, it is rounded up to that power. -/
def InRange (q : ℚ) : Prop := |q| < 2 ^ 1024 - 2 ^ 970

/-- A number that an exact number may be rounded to: none that is representable lies between, and it
is too large for a double where the exact number is. -/
structure Rounds (exact rounded : ℚ) : Prop where
  le_of_le : ∀ q, IsRepresentable q → q ≤ exact → q ≤ rounded
  ge_of_ge : ∀ q, IsRepresentable q → exact ≤ q → rounded ≤ q
  abs_lt_iff : |rounded| < 2 ^ 1024 ↔ InRange exact

lemma IsRepresentable.neg {q : ℚ} (h : IsRepresentable q) : IsRepresentable (-q) := by
  obtain ⟨m, e, hm, he, rfl⟩ := h
  exact ⟨-m, e, by rwa [abs_neg], he, by push_cast; ring⟩

lemma isRepresentable_intCast {n : ℤ} (h : |n| ≤ 2 ^ 53) : IsRepresentable n := by
  rcases h.lt_or_eq with hlt | heq
  · exact ⟨n, 0, hlt, by norm_num, by simp⟩
  · rcases abs_eq (by norm_num) |>.mp heq with rfl | rfl
    · exact ⟨1, 53, by norm_num, by norm_num, by norm_num⟩
    · exact ⟨-1, 53, by norm_num, by norm_num, by norm_num⟩

lemma isRepresentable_two_zpow {e : ℤ} (he : -1074 ≤ e) : IsRepresentable (2 ^ e) :=
  ⟨1, e, by norm_num, he, by simp⟩

lemma isRepresentable_two_pow (n : ℕ) : IsRepresentable (2 ^ n) := by
  rw [← zpow_natCast]
  exact isRepresentable_two_zpow (by omega)

lemma mul_two_zpow_succ (x : ℚ) (e : ℤ) : x * 2 ^ (e + 1) = 2 * x * 2 ^ e := by
  rw [zpow_add_one₀ two_ne_zero]
  ring

lemma IsRepresentable.two_mul {q : ℚ} (h : IsRepresentable q) : IsRepresentable (2 * q) := by
  obtain ⟨m, e, hm, he, rfl⟩ := h
  exact ⟨m, e + 1, hm, by omega, by rw [mul_two_zpow_succ, mul_assoc]⟩

/-- A number with a short significand is a multiple of a power of two, or below its multiples by
long significands. -/
lemma IsRepresentable.multiple_or_lt {q : ℚ} (h : IsRepresentable q) (e : ℤ) :
    (∃ k : ℤ, q = k * 2 ^ e) ∨ -1074 < e ∧ |q| < 2 ^ 52 * 2 ^ e := by
  obtain ⟨m, e', hm, he', rfl⟩ := h
  rcases le_or_gt e e' with hle | hlt
  · obtain ⟨n, rfl⟩ := Int.le.dest hle
    refine .inl ⟨m * 2 ^ n, ?_⟩
    rw [zpow_add₀ (by norm_num), zpow_natCast]
    push_cast
    ring
  · refine .inr ⟨by omega, ?_⟩
    have hm : |(m : ℚ)| < 2 ^ 53 := by exact_mod_cast hm
    have hpow : (2 : ℚ) ^ (e' + 1) ≤ 2 ^ e := zpow_le_zpow_right₀ (by norm_num) (by omega)
    have hpos : (0 : ℚ) < 2 ^ e' := zpow_pos two_pos e'
    calc |(m : ℚ) * 2 ^ e'| = |(m : ℚ)| * 2 ^ e' := by rw [abs_mul, abs_of_pos hpos]
      _ < 2 ^ 53 * 2 ^ e' := mul_lt_mul_of_pos_right hm (by positivity)
      _ = 2 ^ 52 * 2 ^ (e' + 1) := by rw [zpow_add_one₀ (by norm_num)]; ring
      _ ≤ 2 ^ 52 * 2 ^ e := mul_le_mul_of_nonneg_left hpow (by positivity)

lemma two_mul_zpow_le {e f : ℤ} (h : e < f) : (2 : ℚ) * 2 ^ e ≤ 2 ^ f := by
  rw [mul_comm, ← zpow_add_one₀ two_ne_zero]
  exact zpow_le_zpow_right₀ one_le_two h

/-- The bounds in units of half the last place of the greatest double. -/
lemma bounds_eq : (2 : ℚ) ^ (971 : ℤ) = 2 * 2 ^ 970 ∧ (2 : ℚ) ^ 1024 = 2 ^ 54 * 2 ^ 970 :=
  ⟨by rw [zpow_ofNat, pow_succ' 2 970], (pow_add 2 54 970)⟩

/-- Below the next power of two, no representable number is above the greatest double. -/
lemma IsRepresentable.abs_le {q : ℚ} (h : IsRepresentable q) (hlt : |q| < 2 ^ 1024) :
    |q| ≤ 2 ^ 1024 - 2 * 2 ^ 970 := by
  have hpos : (0 : ℚ) < 2 ^ 970 := by positivity
  have hcases := h.multiple_or_lt 971
  obtain ⟨hplace, htop⟩ := bounds_eq
  rw [hplace] at hcases
  rw [htop] at hlt ⊢
  generalize (2 : ℚ) ^ 970 = u at hpos hcases hlt ⊢
  rcases hcases with ⟨k, rfl⟩ | ⟨-, hsmall⟩
  · have hu : |(k : ℚ) * (2 * u)| = 2 * |(k : ℚ)| * u := by
      rw [abs_mul, abs_of_pos (by linarith : 0 < 2 * u)]
      ring
    rw [hu] at hlt ⊢
    have hk : 2 * |(k : ℚ)| < 2 ^ 54 := lt_of_mul_lt_mul_right hlt hpos.le
    have hk : 2 * |k| < 2 ^ 54 := by exact_mod_cast hk
    have hk : 2 * |(k : ℚ)| + 2 ≤ 2 ^ 54 := by exact_mod_cast show 2 * |k| + 2 ≤ 2 ^ 54 by omega
    linarith [mul_le_mul_of_nonneg_right hk hpos.le]
  · linarith

lemma IsRepresentable.abs_lt_iff {q : ℚ} (h : IsRepresentable q) : |q| < 2 ^ 1024 ↔ InRange q := by
  have hpos : (0 : ℚ) < 2 ^ 970 := by positivity
  have hle := h.abs_le
  unfold InRange
  generalize (2 : ℚ) ^ 970 = u at hpos hle ⊢
  generalize (2 : ℚ) ^ 1024 = top at hle ⊢
  constructor
  · intro hlt
    linarith [hle hlt]
  · intro hlt
    linarith

namespace Rounds

variable {r v : ℚ}

lemma neg (h : Rounds r v) : Rounds (-r) (-v) where
  le_of_le q hq hle := by linarith [h.ge_of_ge (-q) hq.neg (by linarith)]
  ge_of_ge q hq hge := by linarith [h.le_of_le (-q) hq.neg (by linarith)]
  abs_lt_iff := by
    unfold InRange
    rw [abs_neg, abs_neg]
    exact h.abs_lt_iff

lemma eq (h : Rounds r v) (hr : IsRepresentable r) : v = r :=
  le_antisymm (h.ge_of_ge r hr le_rfl) (h.le_of_le r hr le_rfl)

lemma refl (hr : IsRepresentable r) : Rounds r r := ⟨fun _ _ h => h, fun _ _ h => h, hr.abs_lt_iff⟩

lemma zero : Rounds 0 0 := .refl (by exact_mod_cast isRepresentable_intCast (n := 0) (by norm_num))

end Rounds

/-! ### Cutting significands down -/

/-- What is left of a magnitude once it has been cut down to a multiple of a power of two, with two
bits that are clear if nothing has been cut off. The first one tells whether half of the power or
more has been cut off. -/
structure Approximates (em : ExtendedMantissa) (e : ℤ) (r : ℚ) : Prop where
  le : em.mantissa * 2 ^ e ≤ r
  lt : r < (em.mantissa + 1) * 2 ^ e
  clear : r = em.mantissa * 2 ^ e → em.roundBit = false ∧ em.stickyBit = false
  half : em.roundBit = true ↔ (em.mantissa + 1 / 2) * 2 ^ e ≤ r

namespace Approximates

variable {em : ExtendedMantissa} {e : ℤ} {r : ℚ}

lemma shiftRightOne (h : Approximates em e r) : Approximates em.shiftRightOne (e + 1) r := by
  have hpos : (0 : ℚ) < 2 ^ e := by positivity
  have hfloor : 2 * ((em.mantissa / 2 : ℕ) : ℚ) ≤ em.mantissa := by
    exact_mod_cast Nat.mul_div_le em.mantissa 2
  have hceil : (em.mantissa : ℚ) + 1 ≤ 2 * ((em.mantissa / 2 : ℕ) + 1) := by
    exact_mod_cast show em.mantissa + 1 ≤ 2 * (em.mantissa / 2 + 1) by omega
  constructor
  · show ((em.mantissa / 2 : ℕ) : ℚ) * 2 ^ (e + 1) ≤ r
    rw [mul_two_zpow_succ]
    exact (mul_le_mul_of_nonneg_right hfloor hpos.le).trans h.le
  · show r < (((em.mantissa / 2 : ℕ) : ℚ) + 1) * 2 ^ (e + 1)
    rw [mul_two_zpow_succ]
    exact h.lt.trans_le (mul_le_mul_of_nonneg_right hceil hpos.le)
  · intro hr
    have hr : r = 2 * ((em.mantissa / 2 : ℕ) : ℚ) * 2 ^ e := hr.trans (mul_two_zpow_succ _ _)
    -- nothing is cut off now, so the mantissa was even and nothing had been cut off before
    have heven : (em.mantissa : ℚ) ≤ 2 * ((em.mantissa / 2 : ℕ) : ℚ) :=
      le_of_mul_le_mul_right (h.le.trans_eq hr) hpos
    obtain ⟨hround, hsticky⟩ := h.clear (by rw [hr, le_antisymm hfloor heven])
    have hmod : em.mantissa % 2 = 0 := by
      have hnat : em.mantissa ≤ 2 * (em.mantissa / 2) := by exact_mod_cast heven
      omega
    exact ⟨by simp [ExtendedMantissa.shiftRightOne, hmod],
      by simp [ExtendedMantissa.shiftRightOne, hround, hsticky]⟩
  · have hmiddle : 2 * (((em.mantissa / 2 : ℕ) : ℚ) + 1 / 2) = (2 * (em.mantissa / 2) + 1 : ℕ) := by
      push_cast
      ring
    show (em.mantissa % 2 != 0) = true ↔ (((em.mantissa / 2 : ℕ) : ℚ) + 1 / 2) * 2 ^ (e + 1) ≤ r
    rw [mul_two_zpow_succ, hmiddle, bne_iff_ne]
    constructor
    · intro hodd
      rw [show 2 * (em.mantissa / 2) + 1 = em.mantissa by omega]
      exact h.le
    · intro hle heven
      rw [show 2 * (em.mantissa / 2) + 1 = em.mantissa + 1 by omega] at hle
      exact absurd h.lt (not_lt.mpr (by exact_mod_cast hle))

lemma shiftRight (h : Approximates em e r) (n : ℕ) : Approximates (em >>> n) (e + n) r := by
  induction n with
  | zero => exact (add_zero e).symm ▸ h
  | succ n ih =>
    have hstep := ih.shiftRightOne
    rwa [add_assoc, ← Nat.cast_succ] at hstep

lemma roundedMantissa_mem (em : ExtendedMantissa) :
    em.mantissa ≤ em.roundedMantissa ∧ em.roundedMantissa ≤ em.mantissa + 1 := by
  obtain ⟨m, round, sticky⟩ := em
  cases round <;> cases sticky <;>
    simp only [ExtendedMantissa.roundedMantissa, ExtendedMantissa.accuracy,
      Accuracy.roundToNearestEven] <;> omega

lemma roundedMantissa_eq (h : Approximates em e r) (hr : r = em.mantissa * 2 ^ e) :
    em.roundedMantissa = em.mantissa := by
  obtain ⟨m, round, sticky⟩ := em
  obtain ⟨rfl, rfl⟩ := h.clear hr
  rfl

lemma roundedMantissa_of_odd (hodd : em.mantissa % 2 = 1) :
    em.roundedMantissa = em.mantissa + em.roundBit.toNat := by
  obtain ⟨m, round, sticky⟩ := em
  have hodd : m % 2 = 1 := hodd
  cases round <;> cases sticky <;>
    simp only [ExtendedMantissa.roundedMantissa, ExtendedMantissa.accuracy,
      Accuracy.roundToNearestEven, Bool.toNat_true, Bool.toNat_false] <;> omega

/-- In the last binade, the greatest mantissa is the one that may be rounded up to the next power of
two. -/
lemma lt_iff_of_last_binade (h : Approximates em 971 r) (hmax : em.mantissa < 2 ^ 53) :
    (em.roundedMantissa : ℚ) * 2 ^ (971 : ℤ) < 2 ^ 1024 ↔ r < 2 ^ 1024 - 2 ^ 970 := by
  have hu : (0 : ℚ) < 2 ^ 970 := by positivity
  have hlow := h.le
  have hlt := h.lt
  have hhalf := h.half
  obtain ⟨hplace, htop⟩ := bounds_eq
  rw [hplace] at hlow hlt hhalf ⊢
  rw [htop]
  generalize (2 : ℚ) ^ 970 = u at hu hlow hlt hhalf ⊢
  rcases eq_or_lt_of_le (Nat.le_of_lt_succ hmax) with hgreatest | hless
  · rw [roundedMantissa_of_odd (by omega), hgreatest]
    rw [hgreatest] at hhalf
    push_cast at hhalf ⊢
    cases hbit : em.roundBit
    · have hbelow := not_le.mp (mt hhalf.mpr (by simp [hbit]))
      simp only [Bool.toNat_false, Nat.cast_zero, add_zero]
      constructor <;> intro <;> linarith
    · have habove := hhalf.mp hbit
      simp only [Bool.toNat_true, Nat.cast_one]
      constructor <;> intro <;> linarith
  · have hhigh := (roundedMantissa_mem em).2
    have hmantissa : (em.mantissa : ℚ) + 2 ≤ 2 ^ 53 := by
      exact_mod_cast show em.mantissa + 2 ≤ 2 ^ 53 by omega
    have hrounded : (em.roundedMantissa : ℚ) + 1 ≤ 2 ^ 53 := by
      exact_mod_cast show em.roundedMantissa + 1 ≤ 2 ^ 53 by omega
    have hle := mul_le_mul_of_nonneg_right hmantissa hu.le
    have hle' := mul_le_mul_of_nonneg_right hrounded hu.le
    constructor <;> intro <;> linarith

/-- What is rounded is too large for a double from half-way between the greatest one and the next
power of two. -/
lemma abs_lt_iff (h : Approximates em e r) (hmax : em.mantissa < 2 ^ 53)
    (hlong : 2 ^ 52 ≤ em.mantissa ∨ e = -1074) :
    |(em.roundedMantissa : ℚ) * 2 ^ e| < 2 ^ 1024 ↔ InRange r := by
  have hpos : (0 : ℚ) < 2 ^ e := by positivity
  have hrounded : |(em.roundedMantissa : ℚ) * 2 ^ e| = em.roundedMantissa * 2 ^ e :=
    abs_of_nonneg (by positivity)
  have hexact : |r| = r := abs_of_nonneg (le_trans (by positivity) h.le)
  have hu : (0 : ℚ) < 2 ^ 970 := by positivity
  obtain ⟨hlow, hhigh⟩ := roundedMantissa_mem em
  obtain ⟨hplace, htop⟩ := bounds_eq
  unfold InRange
  rw [hrounded, hexact]
  rcases lt_trichotomy e 971 with hsmall | rfl | hlarge
  · -- below the last binade nothing is too large
    have hstep := two_mul_zpow_le hsmall
    have hrounded : (em.roundedMantissa : ℚ) ≤ 2 ^ 53 := by exact_mod_cast hhigh.trans hmax
    have hmantissa : (em.mantissa : ℚ) + 1 ≤ 2 ^ 53 := by exact_mod_cast hmax
    have hle := mul_le_mul_of_nonneg_right hrounded hpos.le
    have hlt := h.lt.trans_le (mul_le_mul_of_nonneg_right hmantissa hpos.le)
    rw [hplace] at hstep
    rw [htop]
    generalize (2 : ℚ) ^ 970 = u at hu hstep ⊢
    constructor <;> intro <;> linarith
  · exact h.lt_iff_of_last_binade hmax
  · -- above the last binade everything is too large
    have hjump := two_mul_zpow_le hlarge
    have hmantissa : (2 : ℚ) ^ 52 ≤ em.mantissa := by exact_mod_cast hlong.resolve_right (by omega)
    have hrounded : (2 : ℚ) ^ 52 ≤ em.roundedMantissa :=
      hmantissa.trans (by exact_mod_cast hlow)
    have hle := (mul_le_mul_of_nonneg_right hmantissa hpos.le).trans h.le
    have hle' := mul_le_mul_of_nonneg_right hrounded hpos.le
    rw [hplace] at hjump
    rw [htop]
    generalize (2 : ℚ) ^ 970 = u at hu hjump ⊢
    constructor <;> intro <;> linarith

/-- **A long mantissa is rounded well**, and so is any mantissa at the least exponent. -/
lemma rounds (h : Approximates em e r) (hmax : em.mantissa < 2 ^ 53)
    (hlong : 2 ^ 52 ≤ em.mantissa ∨ e = -1074) : Rounds r (em.roundedMantissa * 2 ^ e) := by
  have hpos : (0 : ℚ) < 2 ^ e := by positivity
  obtain ⟨hlow, hhigh⟩ := roundedMantissa_mem em
  have hlowq : (em.mantissa : ℚ) ≤ em.roundedMantissa := by exact_mod_cast hlow
  have hfar (he : -1074 < e) : (2 : ℚ) ^ 52 * 2 ^ e ≤ em.mantissa * 2 ^ e := by
    have hnat := hlong.resolve_right (by omega)
    have hq : (2 : ℚ) ^ 52 ≤ em.mantissa := by exact_mod_cast hnat
    exact mul_le_mul_of_nonneg_right hq hpos.le
  constructor
  · intro q hq hle
    rcases hq.multiple_or_lt e with ⟨k, rfl⟩ | ⟨he, hlt⟩
    · have hk : (k : ℚ) < em.mantissa + 1 := lt_of_mul_lt_mul_right (hle.trans_lt h.lt) hpos.le
      have hk : k < (em.mantissa : ℤ) + 1 := by exact_mod_cast hk
      have hk : k ≤ (em.roundedMantissa : ℤ) := by omega
      exact mul_le_mul_of_nonneg_right (by exact_mod_cast hk) hpos.le
    · calc q ≤ |q| := le_abs_self q
        _ ≤ em.mantissa * 2 ^ e := hlt.le.trans (hfar he)
        _ ≤ em.roundedMantissa * 2 ^ e := mul_le_mul_of_nonneg_right hlowq hpos.le
  · intro q hq hge
    rcases hq.multiple_or_lt e with ⟨k, rfl⟩ | ⟨he, hlt⟩
    · have hk : (em.mantissa : ℚ) ≤ k := le_of_mul_le_mul_right (h.le.trans hge) hpos
      have hk : (em.mantissa : ℤ) ≤ k := by exact_mod_cast hk
      refine mul_le_mul_of_nonneg_right ?_ hpos.le
      rcases hk.lt_or_eq with hk | hk
      · have hk : (em.roundedMantissa : ℤ) ≤ k := by omega
        exact_mod_cast hk
      · have hcast : (k : ℚ) = em.mantissa := by exact_mod_cast hk.symm
        rw [hcast] at hge ⊢
        rw [h.roundedMantissa_eq (le_antisymm hge h.le)]
    · exact absurd (hge.trans (le_abs_self q)) (not_le.mpr (hlt.trans_le ((hfar he).trans h.le)))
  · exact h.abs_lt_iff hmax hlong

end Approximates

/-! ### Canonical forms -/

/-- A magnitude with a sign. -/
def signed : Sign → ℚ → ℚ
  | .positive, q => q
  | .negative, q => -q

/-- The number that an unpacked float is; 0 for what is no number. -/
def value : UnpackedFloat → ℚ
  | .finite s m e _ => signed s (m * 2 ^ e)
  | _ => 0

/-- Numbers in the only form in which they can be packed, if they are not too large. -/
def IsCanonical : UnpackedFloat → Prop
  | .zero _ => True
  | .finite _ m e _ => m < 2 ^ 53 ∧ -1074 ≤ e ∧ (2 ^ 52 ≤ m ∨ e = -1074)
  | _ => False

lemma IsCanonical.isRepresentable {u : UnpackedFloat} (h : IsCanonical u) :
    IsRepresentable (value u) := by
  cases u with
  | infinity _ | notANumber => exact h.elim
  | zero s => exact_mod_cast isRepresentable_intCast (n := 0) (by norm_num)
  | finite s m e hm =>
    obtain ⟨hmax, hmin, -⟩ := h
    have hmagnitude : IsRepresentable (m * 2 ^ e) :=
      ⟨m, e, by rw [abs_of_nonneg (by positivity)]; exact_mod_cast hmax, hmin, by norm_cast⟩
    cases s
    · exact hmagnitude.neg
    · exact hmagnitude

lemma Rounds.signed {r v : ℚ} (h : Rounds r v) (s : Sign) :
    Rounds (signed s r) (signed s v) := by
  cases s with
  | positive => exact h
  | negative => exact h.neg

/-- The exponent down to which a significand is cut. -/
lemma targetExponent_eq (m : ℕ) (e : ℤ) :
    Format.binary64.targetExponent (totalExponent m e) = max (m.log2 + e - 52) (-1074) := by
  unfold Format.targetExponent totalExponent Format.minExponent Format.mantissaBits
  norm_num
  congr 1
  ring

lemma mantissa_shiftRight (em : ExtendedMantissa) (n : ℕ) :
    (em >>> n).mantissa = em.mantissa / 2 ^ n := by
  induction n with
  | zero => exact (Nat.div_one _).symm
  | succ n ih =>
    rw [pow_succ, ← Nat.div_div_eq_div_mul, ← ih]
    rfl

lemma mantissa_ofMantissaAndAccuracy (m : ℕ) (accuracy : Accuracy) :
    (ExtendedMantissa.ofMantissaAndAccuracy m accuracy).mantissa = m := by
  unfold ExtendedMantissa.ofMantissaAndAccuracy
  split <;> rfl

lemma approximates_exact (m : ℕ) (e : ℤ) :
    Approximates (ExtendedMantissa.ofMantissaAndAccuracy m .exact) e (m * 2 ^ e) where
  le := le_rfl
  lt := mul_lt_mul_of_pos_right (lt_add_one _) (by positivity)
  clear _ := ⟨rfl, rfl⟩
  half := by
    have hlt : (m : ℚ) * 2 ^ e < (m + 1 / 2) * 2 ^ e :=
      mul_lt_mul_of_pos_right (by norm_num) (by positivity)
    exact ⟨fun h => absurd h Bool.false_ne_true, fun h => absurd hlt (not_lt.mpr h)⟩

lemma shiftToTargetExponent_eq (m : ℕ) (e : ℤ) (accuracy : Accuracy) {n : ℕ}
    (hn : (max ((m.log2 : ℤ) + e - 52) (-1074) - e).toNat = n) :
    shiftToTargetExponent Format.binary64 m e accuracy =
      (ExtendedMantissa.ofMantissaAndAccuracy m accuracy >>> n, e + n) := by
  unfold shiftToTargetExponent
  rw [targetExponent_eq, ← hn]
  rfl

/-- A mantissa that has been rounded needs one more shift at most, which cuts nothing off. -/
lemma shiftToTargetExponent_rounded {m : ℕ} {e : ℤ} (hm : m ≤ 2 ^ 53) (he : -1074 ≤ e) :
    shiftToTargetExponent Format.binary64 m e .exact =
      if m = 2 ^ 53 then (⟨2 ^ 52, false, false⟩, e + 1) else (⟨m, false, false⟩, e) := by
  split_ifs with hmax
  · subst hmax
    rw [shiftToTargetExponent_eq (n := 1) _ _ _ (by rw [Nat.log2_two_pow]; omega)]
    rfl
  · have hlog : m.log2 ≤ 52 := by
      rcases eq_or_ne m 0 with rfl | hzero
      · simp
      · have := (Nat.log2_lt hzero).mpr (lt_of_le_of_ne hm hmax)
        omega
    rw [shiftToTargetExponent_eq (n := 0) _ _ _ (by omega)]
    exact congrArg _ (add_zero e)

lemma log2_div_two_pow_le {m n : ℕ} (h : m.log2 ≤ 52 + n) : m / 2 ^ n < 2 ^ 53 := by
  refine (Nat.div_lt_iff_lt_mul (by positivity)).mpr ?_
  calc m < 2 ^ (m.log2 + 1) := Nat.lt_log2_self
    _ ≤ 2 ^ (53 + n) := Nat.pow_le_pow_right (by norm_num) (by omega)
    _ = 2 ^ 53 * 2 ^ n := pow_add _ _ _

lemma two_pow_le_div {m n : ℕ} (hm : m ≠ 0) (h : 52 + n ≤ m.log2) : 2 ^ 52 ≤ m / 2 ^ n := by
  refine (Nat.le_div_iff_mul_le (by positivity)).mpr ?_
  calc 2 ^ 52 * 2 ^ n = 2 ^ (52 + n) := (pow_add _ _ _).symm
    _ ≤ 2 ^ m.log2 := Nat.pow_le_pow_right (by norm_num) h
    _ ≤ m := Nat.log2_self_le hm

/-- The number with a sign, a mantissa, of which the bits behind it do not count, and an
exponent. -/
def ofMantissa (s : Sign) (shifted : ExtendedMantissa × ℤ) : UnpackedFloat :=
  if h : shifted.1.mantissa = 0 then .zero s
  else .finite s shifted.1.mantissa shifted.2 (Nat.pos_of_ne_zero h)

lemma roundWithAccuracy_eq (s : Sign) (m : ℕ) (e : ℤ) (accuracy : Accuracy) :
    roundWithAccuracy Format.binary64 s m e accuracy =
      let first := shiftToTargetExponent Format.binary64 m e accuracy
      ofMantissa s
        (shiftToTargetExponent Format.binary64 first.1.roundedMantissa first.2 .exact) := rfl

lemma value_ofMantissa (s : Sign) (em : ExtendedMantissa) (e : ℤ) :
    value (ofMantissa s (em, e)) = signed s (em.mantissa * 2 ^ e) := by
  unfold ofMantissa
  split_ifs with h
  · have h : em.mantissa = 0 := h
    rw [h, Nat.cast_zero, zero_mul]
    cases s <;> simp [value, signed]
  · rfl

lemma isCanonical_ofMantissa (s : Sign) {em : ExtendedMantissa} {e : ℤ}
    (hm : em.mantissa < 2 ^ 53) (he : -1074 ≤ e) (hlong : 2 ^ 52 ≤ em.mantissa ∨ e = -1074) :
    IsCanonical (ofMantissa s (em, e)) := by
  unfold ofMantissa
  split_ifs
  · trivial
  · exact ⟨hm, he, hlong⟩

/-- **What `roundWithAccuracy` computes**: a number in canonical form to which the magnitude that
the mantissa stands for is rounded, if the mantissa is not too short. -/
lemma roundWithAccuracy_spec (s : Sign) {m : ℕ} {e : ℤ} {accuracy : Accuracy} {r : ℚ}
    (h : Approximates (ExtendedMantissa.ofMantissaAndAccuracy m accuracy) e r)
    (hlong : 52 ≤ m.log2 ∨ e ≤ -1074) :
    IsCanonical (roundWithAccuracy Format.binary64 s m e accuracy) ∧
      Rounds (signed s r) (value (roundWithAccuracy Format.binary64 s m e accuracy)) := by
  obtain ⟨n, hn⟩ : ∃ n : ℕ, (max ((m.log2 : ℤ) + e - 52) (-1074) - e).toNat = n := ⟨_, rfl⟩
  set em := ExtendedMantissa.ofMantissaAndAccuracy m accuracy >>> n with hem
  have hmantissa : em.mantissa = m / 2 ^ n := by
    rw [hem, mantissa_shiftRight, mantissa_ofMantissaAndAccuracy]
  have hmax : em.mantissa < 2 ^ 53 := hmantissa ▸ log2_div_two_pow_le (by omega)
  have hmin : 2 ^ 52 ≤ em.mantissa ∨ e + n = -1074 := by
    rcases eq_or_ne (e + n) (-1074) with heq | hne
    · exact .inr heq
    · refine .inl (hmantissa ▸ two_pow_le_div ?_ (by omega))
      rintro rfl
      simp at hlong hn
      omega
  have hrounds := ((h.shiftRight n).rounds hmax hmin).signed s
  obtain ⟨hlow, hhigh⟩ := Approximates.roundedMantissa_mem em
  rw [← hem] at hrounds
  rw [roundWithAccuracy_eq, shiftToTargetExponent_eq m e accuracy hn]
  simp only [← hem]
  rw [shiftToTargetExponent_rounded (by omega) (by omega)]
  split_ifs with hcarry
  · refine ⟨isCanonical_ofMantissa s (by norm_num) (by omega) (.inl le_rfl), ?_⟩
    have hvalue : ((2 ^ 52 : ℕ) : ℚ) * 2 ^ (e + n + 1) = em.roundedMantissa * 2 ^ (e + n) := by
      rw [hcarry, zpow_add_one₀ (by norm_num)]
      push_cast
      ring
    rwa [value_ofMantissa, hvalue]
  · refine ⟨isCanonical_ofMantissa s ?_ (by omega) (hmin.imp_left hlow.trans'), ?_⟩
    · show em.roundedMantissa < 2 ^ 53
      omega
    · rwa [value_ofMantissa]

lemma log2_shiftLeft {m : ℕ} (hm : 0 < m) (n : ℕ) : (m <<< n).log2 = m.log2 + n := by
  rw [Nat.shiftLeft_eq, Nat.log2_eq_iff (by positivity), pow_add, add_right_comm, pow_add]
  exact ⟨Nat.mul_le_mul_right _ (Nat.log2_self_le hm.ne'),
    Nat.mul_lt_mul_of_pos_right Nat.lt_log2_self (by positivity)⟩

/-- A mantissa that is lengthened as far as its number needs it. -/
lemma round_spec (s : Sign) {m : ℕ} (hm : 0 < m) (e : ℤ) :
    IsCanonical (UnpackedFloat.round Format.binary64 s m e) ∧
      Rounds (signed s (m * 2 ^ e)) (value (UnpackedFloat.round Format.binary64 s m e)) := by
  obtain ⟨n, hn⟩ : ∃ n : ℕ, (e - max ((m.log2 : ℤ) + e - 52) (-1074)).toNat = n := ⟨_, rfl⟩
  have hround : UnpackedFloat.round Format.binary64 s m e =
      roundWithAccuracy Format.binary64 s (m <<< n) (e - n) .exact := by
    rw [← hn, ← targetExponent_eq]
    rfl
  have hvalue : ((m <<< n : ℕ) : ℚ) * 2 ^ (e - n) = m * 2 ^ e := by
    rw [Nat.shiftLeft_eq, zpow_sub₀ (by norm_num), zpow_natCast]
    push_cast
    field_simp
  have hlog := log2_shiftLeft hm n
  rw [hround, ← hvalue]
  exact roundWithAccuracy_spec s (approximates_exact _ _) (by omega)

/-- **What `normalize` computes**. -/
lemma normalize_spec (m e : ℤ) (zeroSign : Sign) :
    IsCanonical (UnpackedFloat.normalize Format.binary64 m e zeroSign) ∧
      Rounds (m * 2 ^ e) (value (UnpackedFloat.normalize Format.binary64 m e zeroSign)) := by
  rcases lt_trichotomy m 0 with hm | rfl | hm
  · have hnormalize : UnpackedFloat.normalize Format.binary64 m e zeroSign =
        UnpackedFloat.round Format.binary64 .negative (-m).toNat e := by
      unfold UnpackedFloat.normalize
      rw [compare_lt_iff_lt.mpr hm]
    have hcast : (((-m).toNat : ℕ) : ℚ) = -m := by
      exact_mod_cast Int.toNat_of_nonneg (neg_nonneg.mpr hm.le)
    have hspec := round_spec .negative (m := (-m).toNat) (by omega) e
    rwa [hnormalize, show (m : ℚ) * 2 ^ e = signed .negative (((-m).toNat : ℕ) * 2 ^ e) by
      rw [hcast, signed]; ring]
  · refine ⟨trivial, ?_⟩
    rw [Int.cast_zero, zero_mul]
    exact .zero
  · have hnormalize : UnpackedFloat.normalize Format.binary64 m e zeroSign =
        UnpackedFloat.round Format.binary64 .positive m.toNat e := by
      unfold UnpackedFloat.normalize
      rw [compare_gt_iff_gt.mpr hm]
    have hcast : ((m.toNat : ℕ) : ℚ) = m := by exact_mod_cast Int.toNat_of_nonneg hm.le
    have hspec := round_spec .positive (m := m.toNat) (by omega) e
    rwa [hnormalize, ← hcast]

/-! ### Operations -/

lemma cast_apply (s : Sign) (m : ℕ) : ((s.apply m : ℤ) : ℚ) = signed s m := by
  cases s <;> simp [Sign.apply, signed]

lemma signed_neg (s : Sign) (q : ℚ) : signed (-s) q = -signed s q := by
  cases s
  · exact (neg_neg q).symm
  · rfl

lemma signed_mul (s t : Sign) (p q : ℚ) : signed (s * t) (p * q) = signed s p * signed t q := by
  cases s <;> cases t
  · exact (neg_mul_neg p q).symm
  · exact (neg_mul p q).symm
  · exact (mul_neg p q).symm
  · rfl

lemma signed_div (s t : Sign) (p q : ℚ) : signed (s / t) (p / q) = signed s p / signed t q := by
  cases s <;> cases t
  · exact (neg_div_neg_eq p q).symm
  · exact (neg_div q p).symm
  · exact (div_neg p).symm
  · rfl

/-- A mantissa at a lower exponent. -/
lemma decreaseExponent_fst (s : Sign) (m : ℕ) {e e' : ℤ} (h : e' ≤ e) :
    ((s.apply (decreaseExponent m e e').1 : ℤ) : ℚ) * 2 ^ e' = signed s (m * 2 ^ e) := by
  obtain ⟨n, rfl⟩ := Int.le.dest h
  have hn : (e' + n - e').toNat = n := by omega
  have hfst : (decreaseExponent m (e' + n) e').1 = m * 2 ^ n := by
    show m <<< (e' + n - e').toNat = _
    rw [hn, Nat.shiftLeft_eq]
  rw [cast_apply, hfst, zpow_add₀ (by norm_num), zpow_natCast]
  cases s <;> simp only [signed] <;> push_cast <;> ring

variable {a b : UnpackedFloat}

lemma add_spec (ha : IsCanonical a) (hb : IsCanonical b) :
    IsCanonical (UnpackedFloat.add Format.binary64 a b) ∧
      Rounds (value a + value b) (value (UnpackedFloat.add Format.binary64 a b)) := by
  cases a with
  | infinity _ | notANumber => exact ha.elim
  | zero s =>
    cases b with
    | infinity _ | notANumber => exact hb.elim
    | zero t =>
      have hvalue : value (.zero s) + value (.zero t) = 0 := add_zero 0
      rw [hvalue]
      cases s <;> cases t <;> exact ⟨trivial, .zero⟩
    | finite t m e hm => exact ⟨hb, (zero_add (value _)).symm ▸ .refl hb.isRepresentable⟩
  | finite s m e hm =>
    cases b with
    | infinity _ | notANumber => exact hb.elim
    | zero t => exact ⟨ha, (add_zero (value _)).symm ▸ .refl ha.isRepresentable⟩
    | finite t n f hn =>
      have hsum : value (.finite s m e hm) + value (.finite t n f hn) =
          ((s.apply (decreaseExponent m e (min e f)).1 +
            t.apply (decreaseExponent n f (min e f)).1 : ℤ) : ℚ) * 2 ^ min e f := by
        rw [Int.cast_add, add_mul, decreaseExponent_fst s m (min_le_left e f),
          decreaseExponent_fst t n (min_le_right e f)]
        rfl
      rw [hsum]
      exact normalize_spec _ _ _

lemma neg_spec (ha : IsCanonical a) : IsCanonical a.neg ∧ value a.neg = -value a := by
  cases a with
  | infinity _ | notANumber => exact ha.elim
  | zero s => exact ⟨trivial, neg_zero.symm⟩
  | finite s m e hm => exact ⟨ha, signed_neg s _⟩

lemma apply_neg (s : Sign) (n : ℤ) : (-s).apply n = -s.apply n := by
  cases s
  · exact (neg_neg n).symm
  · rfl

/-- A difference is the sum with the opposite number. -/
lemma sub_eq_add (a b : UnpackedFloat) :
    UnpackedFloat.sub Format.binary64 a b = UnpackedFloat.add Format.binary64 a b.neg := by
  cases a with
  | finite s m e hm =>
    cases b with
    | finite t n f hn =>
      have hsum (i j : ℕ) : s.apply i - t.apply j = s.apply i + (-t).apply j := by
        rw [apply_neg, Int.sub_eq_add_neg]
      show UnpackedFloat.normalize _ _ _ _ = UnpackedFloat.normalize _ _ _ _
      rw [hsum]
    | infinity _ | notANumber | zero _ => rfl
  | infinity _ | notANumber | zero _ => cases b <;> rfl

lemma sub_spec (ha : IsCanonical a) (hb : IsCanonical b) :
    IsCanonical (UnpackedFloat.sub Format.binary64 a b) ∧
      Rounds (value a - value b) (value (UnpackedFloat.sub Format.binary64 a b)) := by
  obtain ⟨hneg, hvalue⟩ := neg_spec hb
  rw [sub_eq_add, sub_eq_add_neg, ← hvalue]
  exact add_spec ha hneg

lemma mul_spec (ha : IsCanonical a) (hb : IsCanonical b) :
    IsCanonical (UnpackedFloat.mul Format.binary64 a b) ∧
      Rounds (value a * value b) (value (UnpackedFloat.mul Format.binary64 a b)) := by
  cases a with
  | infinity _ | notANumber => exact ha.elim
  | zero s =>
    have hvalue : value (.zero s) * value b = 0 := zero_mul _
    rw [hvalue]
    cases b with
    | infinity _ | notANumber => exact hb.elim
    | zero _ | finite _ _ _ _ => exact ⟨trivial, .zero⟩
  | finite s m e hm =>
    cases b with
    | infinity _ | notANumber => exact hb.elim
    | zero t => exact ⟨trivial, (mul_zero (value _)).symm ▸ .zero⟩
    | finite t n f hn =>
      have hlong : 52 ≤ (m * n).log2 ∨ e + f ≤ -1074 := by
        obtain ⟨-, he, hm'⟩ := ha
        obtain ⟨-, hf, hn'⟩ := hb
        have hmn : m * n ≠ 0 := (Nat.mul_pos hm hn).ne'
        rcases hm' with hm' | rfl
        · exact .inl ((Nat.le_log2 hmn).mpr (hm'.trans (Nat.le_mul_of_pos_right m hn)))
        · rcases hn' with hn' | rfl
          · exact .inl ((Nat.le_log2 hmn).mpr (hn'.trans (Nat.le_mul_of_pos_left n hm)))
          · exact .inr (by norm_num)
      have hvalue : value (.finite s m e hm) * value (.finite t n f hn) =
          signed (s * t) ((m * n : ℕ) * 2 ^ (e + f)) := by
        show signed s _ * signed t _ = _
        rw [← signed_mul, zpow_add₀ (by norm_num)]
        push_cast
        ring_nf
      rw [hvalue]
      exact roundWithAccuracy_spec _ (approximates_exact _ _) hlong

/-- The first bit behind a quotient tells whether the remainder is half the divisor at least. -/
lemma roundBit_ofFraction_iff (m : ℕ) {n : ℕ} (hn : 0 < n) :
    (ExtendedMantissa.ofMantissaAndAccuracy (m / n) (accuracyOfFraction (m % n) n)).roundBit =
      true ↔ n ≤ 2 * (m % n) := by
  unfold accuracyOfFraction
  split_ifs with hzero
  · rw [hzero]
    exact ⟨fun h => absurd h Bool.false_ne_true, fun h => absurd h (by omega)⟩
  · rcases lt_trichotomy (2 * (m % n)) n with h | h | h
    · rw [compare_lt_iff_lt.mpr h]
      exact ⟨fun h => absurd h Bool.false_ne_true, fun h => absurd h (by omega)⟩
    · rw [compare_eq_iff_eq.mpr h]
      exact ⟨fun _ => h.ge, fun _ => rfl⟩
    · rw [compare_gt_iff_gt.mpr h]
      exact ⟨fun _ => h.le, fun _ => rfl⟩

lemma approximates_div (m : ℕ) {n : ℕ} (hn : 0 < n) (e : ℤ) :
    Approximates (ExtendedMantissa.ofMantissaAndAccuracy (m / n) (accuracyOfFraction (m % n) n)) e
      (m / n * 2 ^ e) := by
  have hpos : (0 : ℚ) < 2 ^ e := by positivity
  have hn' : (0 : ℚ) < n := by exact_mod_cast hn
  constructor
  · rw [mantissa_ofMantissaAndAccuracy]
    exact mul_le_mul_of_nonneg_right Nat.cast_div_le hpos.le
  · rw [mantissa_ofMantissaAndAccuracy]
    refine mul_lt_mul_of_pos_right ((div_lt_iff₀ hn').mpr ?_) hpos
    have hlt : m < (m / n + 1) * n := (Nat.div_lt_iff_lt_mul hn).mp (Nat.lt_succ_self _)
    exact_mod_cast hlt
  · rw [mantissa_ofMantissaAndAccuracy]
    intro hr
    have hquotient : (m : ℚ) / n = (m / n : ℕ) := mul_right_cancel₀ hpos.ne' hr
    have hmul : m = m / n * n := by
      rw [div_eq_iff hn'.ne'] at hquotient
      exact_mod_cast hquotient
    have hmod : m % n = 0 := Nat.mod_eq_zero_of_dvd ⟨m / n, by rw [Nat.mul_comm]; exact hmul⟩
    rw [hmod]
    exact ⟨rfl, rfl⟩
  · rw [mantissa_ofMantissaAndAccuracy]
    have hparts : (m : ℚ) = (m / n : ℕ) * n + (m % n : ℕ) := by
      exact_mod_cast (Nat.div_add_mod' m n).symm
    rw [roundBit_ofFraction_iff _ hn, mul_le_mul_iff_left₀ hpos, le_div_iff₀ hn',
      ← Nat.cast_le (α := ℚ)]
    push_cast
    constructor <;> intro <;> linarith

/-- A dividend that has been shifted far enough has a long quotient. -/
lemma two_pow_le_shiftLeft_div {m n k : ℕ} (hm : 0 < m) (hn : 0 < n)
    (h : n.log2 + 53 ≤ m.log2 + k) : 2 ^ 52 ≤ (m <<< k) / n := by
  rw [Nat.le_div_iff_mul_le hn, Nat.shiftLeft_eq]
  calc 2 ^ 52 * n ≤ 2 ^ 52 * 2 ^ (n.log2 + 1) := Nat.mul_le_mul_left _ Nat.lt_log2_self.le
    _ = 2 ^ (n.log2 + 53) := by rw [← pow_add]; congr 1; omega
    _ ≤ 2 ^ (m.log2 + k) := Nat.pow_le_pow_right (by norm_num) h
    _ = 2 ^ m.log2 * 2 ^ k := pow_add _ _ _
    _ ≤ m * 2 ^ k := Nat.mul_le_mul_right _ (Nat.log2_self_le hm.ne')

lemma divCore_spec (s : Sign) {m n : ℕ} (hm : 0 < m) (hn : 0 < n) (e f : ℤ) :
    let core := divCore Format.binary64 m e n f
    let quotient := roundWithAccuracy Format.binary64 s core.1 core.2.1 core.2.2
    IsCanonical quotient ∧ Rounds (signed s (m * 2 ^ e / (n * 2 ^ f))) (value quotient) := by
  obtain ⟨g, hg⟩ : ∃ g : ℤ,
      min (e - f) (max ((m.log2 : ℤ) - n.log2 + e - f - 53) (-1074)) = g := ⟨_, rfl⟩
  obtain ⟨k, hk⟩ : ∃ k : ℕ, (e - f - g).toNat = k := ⟨_, rfl⟩
  have hcore : divCore Format.binary64 m e n f =
      ((m <<< k) / n, g, accuracyOfFraction ((m <<< k) % n) n) := by
    have htarget : Format.binary64.targetExponent (totalExponent m e - totalExponent n f) =
        max ((m.log2 : ℤ) - n.log2 + e - f - 53) (-1074) := by
      unfold Format.targetExponent totalExponent Format.minExponent Format.mantissaBits
      norm_num
      congr 1
      ring
    unfold divCore
    rw [htarget, hg, ← hk]
  have hvalue : (m : ℚ) * 2 ^ e / (n * 2 ^ f) = (m <<< k : ℕ) / n * 2 ^ g := by
    have hexponent : e - f = k + g := by omega
    rw [Nat.shiftLeft_eq, mul_div_mul_comm, ← zpow_sub₀ (by norm_num), hexponent,
      zpow_add₀ (by norm_num), zpow_natCast]
    push_cast
    ring
  rw [hcore, hvalue]
  refine roundWithAccuracy_spec s (approximates_div _ hn g) ?_
  by_cases hle : g ≤ -1074
  · exact .inr hle
  · have hlong := two_pow_le_shiftLeft_div hm hn (k := k) (by omega)
    exact .inl ((Nat.le_log2 (by omega)).mpr hlong)

lemma div_spec (ha : IsCanonical a) (hb : IsCanonical b) (hne : value b ≠ 0) :
    IsCanonical (UnpackedFloat.div Format.binary64 a b) ∧
      Rounds (value a / value b) (value (UnpackedFloat.div Format.binary64 a b)) := by
  cases b with
  | infinity _ | notANumber => exact hb.elim
  | zero t => exact absurd rfl hne
  | finite t n f hn =>
    cases a with
    | infinity _ | notANumber => exact ha.elim
    | zero s => exact ⟨trivial, (zero_div (value _)).symm ▸ .zero⟩
    | finite s m e hm =>
      have hvalue : value (.finite s m e hm) / value (.finite t n f hn) =
          signed (s / t) (m * 2 ^ e / (n * 2 ^ f)) := (signed_div s t _ _).symm
      rw [hvalue]
      exact divCore_spec (s / t) hm hn e f

end Double

end Metrology
