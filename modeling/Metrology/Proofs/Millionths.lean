import Mathlib
import Metrology.Session
import Metrology.Proofs.Failures
import Metrology.Proofs.Hashing
import Metrology.Proofs.Range
import Metrology.Proofs.Writing

/-!
Dimensions that are equal and yet told apart.

Two dimensions are equal if their exponents over the primary dimensions are close. As keys they are
first told apart by a hash of these exponents in millionths, rounded to whole numbers. So half-way
between two whole numbers there are dimensions that are equal and are not the same key, unless the
hashes happen to collide; where the exponents are whole there are none.
-/

namespace Metrology

namespace Double

open Float.Model Float.Model.UnpackedFloat

/-! ### Rounding to whole numbers -/

variable {x y : Float} {p q : ℚ}

namespace IsNumber

/-- A double has one exact value. -/
lemma exact_eq (hx : IsNumber x p) : exact x = p := by rw [exact, hx.toRat?, Option.getD_some]

end IsNumber

/-- What is left of a significand when whole steps are taken off it, and less than half a step is
left, is no longer than the significand. -/
lemma abs_sub_mul_lt {m k s bound : ℤ} (hm : |m| < bound) (hlow : 0 ≤ m - k * s)
    (hhigh : 2 * (m - k * s) < s) : |m - k * s| < bound := by
  obtain ⟨hmin, hmax⟩ := abs_lt.mp hm
  rw [abs_of_nonneg hlow]
  rcases le_or_gt 0 k with hk | hk
  · have hpart : 0 ≤ k * s := mul_nonneg hk (by omega)
    omega
  · have hpart : k * s ≤ -1 * s := mul_le_mul_of_nonneg_right (by omega) (by omega)
    omega

/-- A fraction below a half takes no more bits than the number. -/
lemma IsRepresentable.fract (h : IsRepresentable p) (hlt : p - ⌊p⌋ < 1 / 2) :
    IsRepresentable (p - ⌊p⌋) := by
  obtain ⟨m, e, hm, he, hp⟩ := h
  rcases le_or_gt 0 e with hpos | hneg
  · obtain ⟨n, rfl⟩ := Int.eq_ofNat_of_zero_le hpos
    have hwhole : p = ((m * 2 ^ n : ℤ) : ℚ) := by rw [hp]; push_cast; simp
    rw [hwhole, Int.floor_intCast, sub_self]
    exact ⟨0, 0, by norm_num, by norm_num, by simp⟩
  · obtain ⟨n, hn⟩ := Int.eq_ofNat_of_zero_le (neg_nonneg.mpr hneg.le)
    obtain rfl : e = -n := by omega
    have hscale : (2 : ℚ) ^ (-(n : ℤ)) * 2 ^ n = 1 := by
      rw [zpow_neg, zpow_natCast, inv_mul_cancel₀ (by positivity)]
    -- the significand of the fraction is what is left of that of the number
    have hfract : p - ⌊p⌋ = (m - ⌊p⌋ * 2 ^ n : ℤ) * 2 ^ (-(n : ℤ)) := by
      rw [hp]
      push_cast
      rw [sub_mul, mul_assoc _ (2 ^ n), mul_comm (2 ^ n), hscale, mul_one]
    refine ⟨m - ⌊p⌋ * 2 ^ n, -n, ?_, he, hfract⟩
    have hsignificand : ((m - ⌊p⌋ * 2 ^ n : ℤ) : ℚ) = (p - ⌊p⌋) * 2 ^ n := by
      rw [hfract, mul_assoc, hscale, mul_one]
    have hpow : (0 : ℚ) < 2 ^ n := by positivity
    have hlow : 0 ≤ m - ⌊p⌋ * 2 ^ n := by
      have hfloor : 0 ≤ p - ⌊p⌋ := sub_nonneg.mpr (Int.floor_le p)
      have hnonneg : (0 : ℚ) ≤ (m - ⌊p⌋ * 2 ^ n : ℤ) := by
        rw [hsignificand]
        exact mul_nonneg hfloor hpow.le
      exact_mod_cast hnonneg
    have hhigh : 2 * (m - ⌊p⌋ * 2 ^ n) < 2 ^ n := by
      have hlt : 2 * ((m - ⌊p⌋ * 2 ^ n : ℤ) : ℚ) < 2 ^ n := by
        rw [hsignificand]
        linarith [mul_lt_mul_of_pos_right hlt hpow]
      exact_mod_cast hlt
    exact abs_sub_mul_lt hm hlow hhigh

lemma isNumber_half : IsNumber (0.5 : Float) (1 / 2) :=
  isNumber_of_unpack_eq (m := 2 ^ 52) (e := -53) (by norm_num) rfl (by norm_num)

lemma round_of_half_le (h : 1 / 2 ≤ p - ⌊p⌋) : round p = ⌊p⌋ + 1 := by
  rw [round_eq, Int.floor_eq_iff]
  push_cast
  constructor <;> linarith [Int.lt_floor_add_one p]

lemma round_of_lt_half (h : p - ⌊p⌋ < 1 / 2) : round p = ⌊p⌋ := by
  rw [round_eq, Int.floor_eq_iff]
  constructor <;> linarith [Int.floor_le p]

lemma abs_floor_add_one_le (h : |p| < 2 ^ 52) : |⌊p⌋ + 1| ≤ 2 ^ 53 := by
  obtain ⟨hmin, hmax⟩ := abs_lt.mp h
  have hlow : -2 ^ 52 ≤ ⌊p⌋ := Int.le_floor.mpr (by push_cast; linarith)
  have hhigh : ⌊p⌋ < 2 ^ 52 := Int.floor_lt.mpr (by push_cast; linarith)
  exact abs_le.mpr ⟨by omega, by omega⟩

/-- The difference to the whole number below a double may be rounded, but not across a half. -/
lemma half_le_sub_floor_iff (h : IsNumber x p) :
    (0.5 : Float) ≤ x - Scalar.floor x ↔ 1 / 2 ≤ p - ⌊p⌋ := by
  have hfloor : IsNumber (Scalar.floor x) ⌊p⌋ := isNumber_doubleFloor h
  have hlow : 0 ≤ p - ⌊p⌋ := sub_nonneg.mpr (Int.floor_le p)
  have hhigh : p - ⌊p⌋ ≤ 1 := by linarith [Int.lt_floor_add_one p]
  obtain ⟨v, hv, hrounds⟩ := h.sub hfloor (inRange_of_abs_le (by
    rw [abs_of_nonneg hlow]
    exact hhigh.trans (by norm_num)))
  rw [isNumber_half.le_iff hv]
  refine ⟨fun hle => ?_, hrounds.le_of_le _ isNumber_half.isRepresentable⟩
  by_contra hlt
  rw [hrounds.eq (h.isRepresentable.fract (not_le.mp hlt))] at hle
  exact hlt hle

/-- **Rounding** a double gives the nearest whole number; a half goes up. -/
lemma isNumber_round (h : IsNumber x p) : IsNumber (Scalar.round x) (round p) := by
  have hfloor : IsNumber (Scalar.floor x) ⌊p⌋ := isNumber_doubleFloor h
  have hround : Scalar.round x =
      if (0.5 : Float) ≤ x - Scalar.floor x then Scalar.floor x + 1 else Scalar.floor x := rfl
  rw [hround, if_congr (half_le_sub_floor_iff h) rfl rfl]
  split_ifs with hup
  · -- there is a fraction, so the number is small and so is the next whole number
    have hsmall : |p| < 2 ^ 52 := by
      by_contra hfar
      obtain ⟨n, rfl⟩ := h.isRepresentable.exists_int (not_lt.mp hfar)
      rw [Int.floor_intCast, sub_self] at hup
      norm_num at hup
    have hbound := abs_floor_add_one_le hsmall
    have hcast : (⌊p⌋ : ℚ) + 1 = ((⌊p⌋ + 1 : ℤ) : ℚ) := by push_cast; rfl
    obtain ⟨w, hw, hexact⟩ := hfloor.add isNumber_one (inRange_of_abs_le (by
      rw [hcast]
      exact_mod_cast hbound.trans (by norm_num)))
    rw [hcast] at hexact
    rw [hexact.eq (isRepresentable_intCast hbound)] at hw
    rwa [round_of_half_le hup]
  · rwa [round_of_lt_half (not_le.mp hup)]

/-- Whether half-way between two whole numbers lies a point that separates two numbers. -/
def Straddles (p q : ℚ) : Prop :=
  ∃ k : ℤ, (p < k + 1 / 2 ∧ k + 1 / 2 ≤ q) ∨ (q < k + 1 / 2 ∧ k + 1 / 2 ≤ p)

lemma not_straddles_self (p : ℚ) : ¬Straddles p p := by
  rintro ⟨k, ⟨hlt, hle⟩ | ⟨hlt, hle⟩⟩ <;> exact absurd hle (not_le.mpr hlt)

lemma round_eq_round_iff : round p = round q ↔ ¬Straddles p q := by
  have hpoint (r : ℚ) (k : ℤ) : (k : ℚ) + 1 / 2 ≤ r ↔ k + 1 ≤ round r := by
    rw [round_eq, Int.le_floor]
    push_cast
    constructor <;> intro h <;> linarith
  have hpoint' (r : ℚ) (k : ℤ) : r < (k : ℚ) + 1 / 2 ↔ round r < k + 1 := by
    rw [← not_le, hpoint, not_le]
  unfold Straddles
  simp only [hpoint, hpoint']
  constructor
  · rintro heq ⟨k, hk⟩
    omega
  · intro h
    by_contra hne
    rcases lt_or_gt_of_ne hne with hlt | hgt
    · exact h ⟨round q - 1, .inl ⟨by omega, by omega⟩⟩
    · exact h ⟨round p - 1, .inr ⟨by omega, by omega⟩⟩

/-! ### Close doubles -/

/-- A difference is finite only if both numbers are. -/
lemma isFinite_of_sub (h : (x - y).isFinite = true) : x.isFinite = true ∧ y.isFinite = true := by
  have hsub : (UnpackedFloat.sub Format.binary64 x.toModel.unpack y.toModel.unpack).isFinite =
      true := isFinite_of_pack h
  rw [sub_eq_add] at hsub
  obtain ⟨hx, hy⟩ := isFinite_of_unpacked_add hsub
  refine ⟨hx, ?_⟩
  show y.toModel.unpack.isFinite = true
  cases hunpack : y.toModel.unpack <;> rw [hunpack] at hy <;> exact hy

/-- Close doubles are finite, and so close that their rounded difference is less than a half. -/
lemma exists_of_close (h : Scalar.abs (x - y) ≤ Scalar.tolerance) :
    ∃ p q u, IsNumber x p ∧ IsNumber y q ∧ Rounds (p - q) u ∧ |u| < 1 := by
  have hfinite : (x - y).isFinite = true := by
    by_contra hnot
    exact (isExcessive_scalar_abs (Bool.eq_false_iff.mpr hnot)).not_le isNumber_tolerance h
  obtain ⟨hx, hy⟩ := isFinite_of_sub hfinite
  obtain ⟨p, hp⟩ := exists_isNumber hx
  obtain ⟨q, hq⟩ := exists_isNumber hy
  obtain ⟨u, hu, hrounds⟩ := hp.sub hq ((hp.isFinite_sub_iff hq).mp hfinite)
  have hle := ((isNumber_scalar_abs hu).le_iff isNumber_tolerance).mp h
  exact ⟨p, q, u, hp, hq, hrounds, hle.trans_lt (by norm_num)⟩

/-- No rounding takes a number of at least 1 below 1. -/
lemma Rounds.abs_lt_one {r u : ℚ} (h : Rounds r u) (hu : |u| < 1) : |r| < 1 := by
  obtain ⟨hlow, hhigh⟩ := abs_lt.mp hu
  have hone := isNumber_one.isRepresentable
  refine abs_lt.mpr ⟨?_, ?_⟩ <;> by_contra hfar
  · exact absurd (h.ge_of_ge _ hone.neg (not_lt.mp hfar)) (not_le.mpr hlow)
  · exact absurd (h.le_of_le _ hone (not_lt.mp hfar)) (not_le.mpr hhigh)

/-- Far from zero, where all doubles are whole, close doubles are equal. -/
lemma IsRepresentable.eq_of_near (hp : IsRepresentable p) (hq : IsRepresentable q)
    (hfar : 2 ^ 53 ≤ |p|) (h : |p - q| < 1) : p = q := by
  obtain ⟨m, rfl⟩ := hp.exists_int (le_trans (by norm_num) hfar)
  have hnear : |(m : ℚ)| - |q| < 1 := (abs_sub_abs_le_abs_sub _ _).trans_lt h
  obtain ⟨n, rfl⟩ := hq.exists_int (by norm_num at hfar ⊢; linarith)
  exact eq_of_abs_sub_lt_one (intCast_mem_whole m) (intCast_mem_whole n) h

lemma isNumber_million : IsNumber (1e6 : Float) 1000000 :=
  isNumber_of_unpack_eq (m := 10 ^ 6 * 2 ^ 33) (e := -33) (by norm_num) rfl (by norm_num)

lemma inRange_mul_million (h : |p| < 2 ^ 53) : InRange (p * 1000000) := by
  have hbound : |(2 : ℚ) ^ 80| = 2 ^ 80 := abs_of_pos (by positivity)
  refine ((isRepresentable_two_pow 80).abs_lt_iff.mp ?_).of_abs_le ?_
  · rw [hbound]
    exact pow_lt_pow_right₀ one_lt_two (by norm_num)
  · rw [hbound, abs_mul, abs_of_pos (by norm_num : (0 : ℚ) < 1000000)]
    linarith [mul_lt_mul_of_pos_right h (by norm_num : (0 : ℚ) < 1000000)]

lemma IsNumber.mul_congr (hx : IsNumber x p) (hy : IsNumber y p) (hp : p ≠ 0) (c : Float) :
    x * c = y * c := by
  show Float.ofModel (Float.Model.pack (UnpackedFloat.mul _ x.toModel.unpack _)) =
    Float.ofModel (Float.Model.pack (UnpackedFloat.mul _ y.toModel.unpack _))
  rw [hx.unpack_eq hy hp]

/-- An infinite product of finite doubles equals itself. -/
lemma beq_self_of_mul (hx : IsNumber x p) (hy : IsNumber y q) (h : (x * y).isFinite = false) :
    (x * y == x * y) = true := by
  obtain ⟨hcanonical, -⟩ := mul_spec hx.canonical hy.canonical
  have hlarge : ¬|value (UnpackedFloat.mul Format.binary64 x.toModel.unpack y.toModel.unpack)| <
      2 ^ 1024 := fun hsmall =>
    Bool.eq_false_iff.mp h ((isFinite_pack_iff hcanonical).mpr hsmall)
  obtain ⟨s, hs, -⟩ := unpack_pack_of_large hcanonical hlarge
  have hinfinite : (x * y).toModel.unpack = .infinity s := hs
  show ((x * y).toModel.unpack.compare (x * y).toModel.unpack == some .eq) = true
  rw [hinfinite]
  cases s <;> rfl

lemma IsNumber.unique (h : IsNumber x p) (h' : IsNumber x q) : p = q :=
  h.exact_eq.symm.trans h'.exact_eq

/-- Doubles of one value have products of one value; zeros can differ in their signs. -/
lemma IsNumber.exact_mul_congr (hx : IsNumber x p) (hy : IsNumber y p) {c : Float} {q : ℚ}
    (hc : IsNumber c q) : exact (x * c) = exact (y * c) := by
  by_cases hp : p = 0
  · subst hp
    have hzero {z : Float} (hz : IsNumber z 0) : exact (z * c) = 0 := by
      obtain ⟨v, hv, hrounds⟩ := hz.mul hc (inRange_of_abs_le (by norm_num))
      rw [zero_mul] at hrounds
      exact hv.exact_eq.trans (hrounds.eq isNumber_zero.isRepresentable)
    rw [hzero hx, hzero hy]
  · rw [hx.mul_congr hy hp]

/-- **Close doubles in millionths** are rounded to one whole number if and only if no point half-way
between two whole numbers separates them. -/
lemma beq_round_millionths_iff (h : Scalar.abs (x - y) ≤ Scalar.tolerance) :
    (Scalar.round (x * 1e6) == Scalar.round (y * 1e6)) = true ↔
      ¬Straddles (exact (x * 1e6)) (exact (y * 1e6)) := by
  obtain ⟨p, q, u, hp, hq, hrounds, hu⟩ := exists_of_close h
  have hnear := hrounds.abs_lt_one hu
  by_cases hfinite : (x * 1e6).isFinite = true ∧ (y * 1e6).isFinite = true
  · have hx := isNumber_exact hfinite.1
    have hy := isNumber_exact hfinite.2
    rw [(isNumber_round hx).beq_iff (isNumber_round hy), Int.cast_inj, round_eq_round_iff]
  · -- too large for a double in millionths, so they are one and the same number
    have hfar : 2 ^ 53 ≤ |p| ∨ 2 ^ 53 ≤ |q| := by
      by_contra hsmall
      obtain ⟨hp', hq'⟩ := not_or.mp hsmall
      exact hfinite ⟨(hp.isFinite_mul_iff isNumber_million).mpr
        (inRange_mul_million (not_le.mp hp')), (hq.isFinite_mul_iff isNumber_million).mpr
        (inRange_mul_million (not_le.mp hq'))⟩
    have heq : p = q := by
      rcases hfar with hfar | hfar
      · exact hp.isRepresentable.eq_of_near hq.isRepresentable hfar hnear
      · exact (hq.isRepresentable.eq_of_near hp.isRepresentable hfar
          (by rwa [abs_sub_comm])).symm
    subst heq
    have hne : p ≠ 0 := by
      rintro rfl
      norm_num at hfar
    rw [hp.mul_congr hq hne, and_self] at hfinite
    have hinfinite : (y * 1e6).isFinite = false := Bool.eq_false_iff.mpr hfinite
    rw [hp.mul_congr hq hne, round_eq_self hinfinite]
    exact iff_of_true (beq_self_of_mul hq isNumber_million hinfinite) (not_straddles_self _)

end Double

/-! ### Dimensions -/

open Double

lemma all_zipWith_iff {β γ : Type} {f : β → γ → Bool} {xs : List β} {ys : List γ} :
    (List.zipWith f xs ys).all id = true ↔ ∀ p ∈ xs.zip ys, f p.1 p.2 = true := by
  rw [← List.map_uncurry_zip_eq_zipWith, List.all_map, List.all_eq_true]
  rfl

namespace Dimension

variable {r : Registry Float}

/-- Whether a point half-way between two whole numbers separates two dimensions in millionths of an
exponent. -/
def Straddles (d e : Dimension r) : Prop :=
  ∃ p ∈ d.primary.zip e.primary, Double.Straddles (exact (p.1 * 1e6)) (exact (p.2 * 1e6))

/-- Whether a dimension is composed of whole powers of the primary dimensions. -/
def IsWhole (d : Dimension r) : Prop := ∀ x ∈ d.primary, ∃ n : ℤ, IsNumber x n

variable {d e : Dimension r}

lemma equals_iff : d.equals e = true ↔ d.primary.length = e.primary.length ∧
    ∀ p ∈ d.primary.zip e.primary, Scalar.abs (p.1 - p.2) ≤ Scalar.tolerance := by
  unfold equals ExponentVector.isClose
  rw [Bool.and_eq_true, beq_iff_eq, all_zipWith_iff]
  simp only [decide_eq_true_eq]

/-- **Rounded exponents** of equal dimensions are the same unless a half-way point separates the
dimensions. -/
lemma rounded_iff (h : d.equals e = true) :
    (List.zipWith (fun x y => x == y) d.rounded e.rounded).all id = true ↔ ¬d.Straddles e := by
  unfold rounded Straddles
  rw [List.zipWith_map, all_zipWith_iff, not_exists]
  refine forall_congr' fun p => ?_
  rw [not_and]
  exact forall_congr' fun hp => beq_round_millionths_iff ((equals_iff.mp h).2 p hp)

/-- The hashes of equal dimensions that nothing separates are the same. -/
lemma hash_rounded_eq {hash : List Float → UInt32} (hhash : RespectsEquality hash)
    (h : d.equals e = true) (hnot : ¬d.Straddles e) : hash d.rounded = hash e.rounded := by
  have hrounded := all_zipWith_iff.mp ((rounded_iff h).mpr hnot)
  have hlength : d.rounded.length = e.rounded.length := by
    simp only [rounded, List.length_map, (equals_iff.mp h).1]
  refine hhash _ _ (List.forall₂_iff_zip.mpr ⟨hlength, ?_⟩)
  intro x y hmem
  exact hrounded (x, y) hmem

lemma sameKey_iff {hash : List Float → UInt32} (hhash : RespectsEquality hash) :
    d.sameKey hash e = true ↔
      d.equals e = true ∧ (¬d.Straddles e ∨ hash d.rounded = hash e.rounded) := by
  unfold sameKey
  rw [Bool.and_eq_true, beq_iff_eq, and_comm]
  refine and_congr_right fun hequals => ⟨.inr, ?_⟩
  rintro (hnot | hcollide)
  · exact hash_rounded_eq hhash hequals hnot
  · exact hcollide

/-- Whole exponents that are close are equal, and nothing separates them. -/
lemma IsWhole.not_straddles (hd : d.IsWhole) (he : e.IsWhole) (h : d.equals e = true) :
    ¬d.Straddles e := by
  rintro ⟨⟨x, y⟩, hmem, hstraddles⟩
  obtain ⟨hx, hy⟩ := List.of_mem_zip hmem
  obtain ⟨m, hm⟩ := hd x hx
  obtain ⟨n, hn⟩ := he y hy
  obtain ⟨p, q, u, hp, hq, hrounds, hu⟩ := exists_of_close ((equals_iff.mp h).2 _ hmem)
  have hnear := hrounds.abs_lt_one hu
  rw [hp.unique hm, hq.unique hn] at hnear
  have hsame := eq_of_abs_sub_lt_one (intCast_mem_whole m) (intCast_mem_whole n) hnear
  rw [← hsame] at hn
  rw [hm.exact_mul_congr hn isNumber_million] at hstraddles
  exact not_straddles_self _ hstraddles

lemma IsWhole.equals_self (hd : d.IsWhole) : d.equals d = true := by
  rw [equals_iff]
  refine ⟨rfl, fun p hp => ?_⟩
  obtain ⟨n, hn⟩ := hd p.1 (List.of_mem_zip hp).1
  have hsame : p.2 = p.1 := by
    rw [List.zip_eq_zipWith, List.zipWith_self] at hp
    obtain ⟨x, -, rfl⟩ := List.mem_map.mp hp
    rfl
  have hzero : InRange ((n : ℚ) - n) := by
    rw [sub_self]
    exact inRange_of_abs_le (by norm_num)
  obtain ⟨v, hv, hrounds⟩ := hn.sub hn hzero
  rw [sub_self] at hrounds
  rw [hrounds.eq isNumber_zero.isRepresentable] at hv
  rw [hsame, (isNumber_scalar_abs hv).le_iff isNumber_tolerance]
  norm_num

end Dimension

namespace Session

/-- **Keys**: of equal dimensions the rounded exponents are the same unless a point half-way between
two whole numbers separates the dimensions in millionths. So two dimensions are the same key if they
are one object, or equal and not so separated, or equal with hashes that collide; and for dimensions
that are composed of whole powers of the primary ones, to be the same key is to be equal. -/
theorem sameOutcome_dimension_iff {hash : List Float → UInt32} (hhash : RespectsEquality hash)
    {r : Registry Float} (s : Store r) (i j : ℕ) :
    ((s.dimension i).equals (s.dimension j) = true →
      ((List.zipWith (fun x y => x == y) (s.dimension i).rounded (s.dimension j).rounded).all id =
        true ↔ ¬(s.dimension i).Straddles (s.dimension j))) ∧
    (sameOutcome hash s (.dimension i) (.dimension j) = true ↔
      i = j ∨ (s.dimension i).equals (s.dimension j) = true ∧
        (¬(s.dimension i).Straddles (s.dimension j) ∨
          hash (s.dimension i).rounded = hash (s.dimension j).rounded)) ∧
    ((s.dimension i).IsWhole → (s.dimension j).IsWhole →
      (sameOutcome hash s (.dimension i) (.dimension j) = true ↔
        (s.dimension i).equals (s.dimension j) = true)) := by
  have hsame : sameOutcome hash s (.dimension i) (.dimension j) = true ↔
      i = j ∨ (s.dimension i).equals (s.dimension j) = true ∧
        (¬(s.dimension i).Straddles (s.dimension j) ∨
          hash (s.dimension i).rounded = hash (s.dimension j).rounded) := by
    rw [sameOutcome, Bool.or_eq_true, beq_iff_eq, Dimension.sameKey_iff hhash]
  refine ⟨Dimension.rounded_iff, hsame, fun hi hj => ?_⟩
  rw [hsame]
  constructor
  · rintro (rfl | ⟨hequals, -⟩)
    · exact hi.equals_self
    · exact hequals
  · exact fun hequals => .inr ⟨hequals, .inl (hi.not_straddles hj hequals)⟩

/-- A half of a millionth of the mass, and a little less of it. -/
def nearHalves : Store Registry.Bundled.primaryRegistry :=
  ⟨[.padded _ [5e-7], .padded _ [4.9999e-7]], [], [], 0, []⟩

/-- A half separates the two, and their hashes are different. -/
theorem sameOutcome_dimension_nearHalves : RespectsEquality listHash ∧
    (nearHalves.dimension 0).equals (nearHalves.dimension 1) = true ∧
    (nearHalves.dimension 0).Straddles (nearHalves.dimension 1) ∧
    ¬sameOutcome listHash nearHalves (.dimension 0) (.dimension 1) = true := by
  obtain ⟨hrounded, hsame, -⟩ :=
    sameOutcome_dimension_iff respectsEquality_listHash nearHalves 0 1
  have hequals : (nearHalves.dimension 0).equals (nearHalves.dimension 1) = true := by
    decide +kernel
  have hstraddles : (nearHalves.dimension 0).Straddles (nearHalves.dimension 1) := by
    by_contra hnot
    exact absurd ((hrounded hequals).mpr hnot) (by decide +kernel)
  refine ⟨respectsEquality_listHash, hequals, hstraddles, fun hkey => ?_⟩
  rcases hsame.mp hkey with hplace | ⟨-, hnot | hcollide⟩
  · exact absurd hplace (by decide)
  · exact hnot hstraddles
  · exact absurd hcollide (by decide +kernel)

/-- Hashes can collide: two dimensions that a half separates, once in the mass and once in the
length, are the same key. -/
example :
    let d := Dimension.padded Registry.Bundled.primaryRegistry [3.349999e-5, 3.149999e-5]
    let e := Dimension.padded Registry.Bundled.primaryRegistry [3.350001e-5, 3.150001e-5]
    (List.zipWith (fun x y => x == y) d.rounded e.rounded).all id = false ∧
      d.sameKey listHash e = true := by
  decide +kernel

/-- Dimensions that are equal need not be the same key. -/
theorem not_sameOutcome_dimension : ¬ ∀ (document : Datum Float) (r : Registry Float),
    Registry.decode document = .ok r → ∀ (s : Store r) (i j : ℕ),
      (s.dimension i).isFinite = true → (s.dimension j).isFinite = true →
      (s.dimension i).equals (s.dimension j) = true →
        sameOutcome listHash s (.dimension i) (.dimension j) = true := by
  intro h
  have hsame := h _ _ Registry.Bundled.decode_primaryData nearHalves 0 1 (by decide +kernel)
    (by decide +kernel) (by decide +kernel)
  exact absurd hsame (by decide +kernel)

end Session

end Metrology
