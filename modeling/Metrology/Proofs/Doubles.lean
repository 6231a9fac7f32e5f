import Mathlib
import Metrology.Scalar.Double
import Metrology.Proofs.Rounding

/-!
Doubles as numbers.

A finite double is a rational number, and the operations on doubles compute the rounded results of
the operations on rational numbers, as long as these are not too large.
-/

namespace Metrology

namespace Double

open Float.Model Float.Model.UnpackedFloat

/-! ### Packing -/

lemma toNat_implicit (v : BitVec 52) : (1#1 ++ v).toNat = 2 ^ 52 + v.toNat := by
  rw [BitVec.toNat_append, ← Nat.shiftLeft_add_eq_or_of_lt v.isLt]
  simp [Nat.shiftLeft_eq]

lemma unpackSign_packComponents {spec : Format} (s : Sign) (e : BitVec spec.exponentBits)
    (m : BitVec spec.mantissaBitsWithoutImplicit) :
    unpackSign (packComponents spec s e m) = s.toBitVec := by
  refine BitVec.eq_of_getLsbD_eq fun i hi => ?_
  obtain rfl : i = 0 := by omega
  simp [unpackSign, packComponents, BitVec.getLsbD_append, BitVec.getElem_append]

lemma ofBitVec_toBitVec (s : Sign) : Sign.ofBitVec s.toBitVec = s := by
  cases s <;> rfl

/-- What a sign and two fields stand for, unless the exponent is the greatest. -/
lemma unpack_packComponents (s : Sign) {e : ℕ} (he : e < 2047) (m : BitVec 52) :
    UnpackedFloat.unpack Format.binary64
        (packComponents Format.binary64 s (BitVec.ofNat _ e) m) =
      if e = 0 then
        if h : m = 0#52 then .zero s
        else .finite s m.toNat (-1074)
          (Nat.pos_of_ne_zero (mt (BitVec.eq_of_toNat_eq (y := 0#52)) h))
      else .finite s (2 ^ 52 + m.toNat) (e - 1075) (by omega) := by
  have hfield : (BitVec.ofNat 11 e).toNat = e := by
    rw [BitVec.toNat_ofNat, Nat.mod_eq_of_lt (by omega)]
  have hmax : BitVec.ofNat 11 e ≠ -1#11 := by
    intro h
    have := congrArg BitVec.toNat h
    rw [hfield] at this
    have hones : (-1#11 : BitVec 11).toNat = 2047 := by decide
    omega
  unfold UnpackedFloat.unpack
  simp only [unpackMantissa_packComponents, unpackExponent_packComponents,
    unpackSign_packComponents, ofBitVec_toBitVec]
  rw [if_neg hmax]
  rcases eq_or_ne e 0 with rfl | hne
  · rw [if_pos rfl, if_pos rfl]
    rfl
  · have hnonzero : BitVec.ofNat 11 e ≠ 0#11 := by
      intro h
      have := congrArg BitVec.toNat h
      rw [hfield] at this
      exact hne this
    rw [if_neg hnonzero, if_neg hne]
    congr 1
    · exact toNat_implicit m
    · rw [show (BitVec.ofNat Format.binary64.exponentBits e).toNat = e from hfield]
      rfl

lemma pack_finite (s : Sign) {m : ℕ} {e : ℤ} (hm : 0 < m) (he : e ≤ 971) :
    UnpackedFloat.pack Format.binary64 (.finite s m e hm) =
      packComponents Format.binary64 s
        (BitVec.ofNat _ (if m.log2 = 52 then (e + 1075).toNat else 0)) (BitVec.ofNat _ m) := by
  have hbiased : (e + Format.exponentBias Format.binary64 + (52 : ℕ)).toNat = (e + 1075).toNat := by
    unfold Format.exponentBias
    norm_num
    congr 1
    ring
  unfold UnpackedFloat.pack
  simp only [hbiased]
  rw [if_neg (by norm_num; omega)]
  have hlog : m.log2 + 1 = Format.binary64.mantissaBits ↔ m.log2 = 52 := by
    unfold Format.mantissaBits
    norm_num
    omega
  simp only [hlog]
  split_ifs <;> rfl

lemma pack_finite_of_lt (s : Sign) {m : ℕ} {e : ℤ} (hm : 0 < m) (he : 971 < e) :
    UnpackedFloat.pack Format.binary64 (.finite s m e hm) =
      UnpackedFloat.pack Format.binary64 (.infinity s) := by
  have hbias : Format.exponentBias Format.binary64 = 1023 := rfl
  unfold UnpackedFloat.pack
  simp only [hbias]
  rw [if_pos (by norm_num; omega)]

/-- A number that is not too large is what unpacking its packed form gives. -/
lemma unpack_pack_finite (s : Sign) {m : ℕ} {e : ℤ} (hm : 0 < m)
    (h : IsCanonical (.finite s m e hm)) (he : e ≤ 971) :
    (Float.Model.pack (.finite s m e hm)).unpack = .finite s m e hm := by
  obtain ⟨hmax, hmin, hlong⟩ := h
  have hlog : m.log2 = 52 ↔ 2 ^ 52 ≤ m := by
    rw [Nat.log2_eq_iff hm.ne']
    exact and_iff_left hmax
  show UnpackedFloat.unpack Format.binary64 (UnpackedFloat.pack Format.binary64 _) = _
  rw [pack_finite s hm he]
  split_ifs with hcase
  · have hm' : (BitVec.ofNat 52 m).toNat = m - 2 ^ 52 := by
      have := hlog.mp hcase
      rw [BitVec.toNat_ofNat]
      omega
    rw [unpack_packComponents s (by omega), if_neg (by omega)]
    congr 1
    · show 2 ^ 52 + (BitVec.ofNat 52 m).toNat = m
      have := hlog.mp hcase
      omega
    · omega
  · have hshort : m < 2 ^ 52 := not_le.mp (mt hlog.mpr hcase)
    have hm' : (BitVec.ofNat 52 m).toNat = m := by
      rw [BitVec.toNat_ofNat, Nat.mod_eq_of_lt hshort]
    rw [unpack_packComponents s (by norm_num), if_pos rfl, dif_neg]
    · congr 1
      exact (hlong.resolve_left (by omega)).symm
    · intro hzero
      have := congrArg BitVec.toNat hzero
      rw [hm'] at this
      exact hm.ne' this

lemma abs_value_finite (s : Sign) {m : ℕ} (e : ℤ) (hm : 0 < m) :
    |value (.finite s m e hm)| = m * 2 ^ e := by
  have hnonneg : (0 : ℚ) ≤ m * 2 ^ e := by positivity
  cases s
  · exact (abs_neg _).trans (abs_of_nonneg hnonneg)
  · exact abs_of_nonneg hnonneg

/-- A number in canonical form is not too large if its exponent is not. -/
lemma exponent_le_iff {s : Sign} {m : ℕ} {e : ℤ} {hm : 0 < m}
    (h : IsCanonical (.finite s m e hm)) :
    e ≤ 971 ↔ |value (.finite s m e hm)| < 2 ^ 1024 := by
  obtain ⟨hmax, -, hlong⟩ := h
  rw [abs_value_finite]
  constructor
  · intro he
    have hmantissa : (m : ℚ) < 2 ^ 53 := by exact_mod_cast hmax
    have hpower : (2 : ℚ) ^ e ≤ 2 ^ (971 : ℤ) := zpow_le_zpow_right₀ (by norm_num) he
    calc (m : ℚ) * 2 ^ e < 2 ^ 53 * 2 ^ e := mul_lt_mul_of_pos_right hmantissa (by positivity)
      _ ≤ 2 ^ 53 * 2 ^ (971 : ℤ) := mul_le_mul_of_nonneg_left hpower (by positivity)
      _ = 2 ^ 1024 := by rw [zpow_ofNat, ← pow_add]
  · intro hsmall
    by_contra hlt
    have hmantissa : (2 : ℚ) ^ 52 ≤ m := by exact_mod_cast hlong.resolve_right (by omega)
    have hpower : (2 : ℚ) ^ (972 : ℤ) ≤ 2 ^ e := zpow_le_zpow_right₀ (by norm_num) (by omega)
    have hlarge : (2 : ℚ) ^ 52 * 2 ^ (972 : ℤ) ≤ m * 2 ^ e :=
      mul_le_mul hmantissa hpower (by positivity) (by positivity)
    rw [zpow_ofNat, ← pow_add] at hlarge
    exact absurd hsmall (not_lt.mpr hlarge)

/-- A number that is not too large is what unpacking its packed form gives. -/
lemma unpack_pack {u : UnpackedFloat} (h : IsCanonical u) (hsmall : |value u| < 2 ^ 1024) :
    (Float.Model.pack u).unpack = u := by
  cases u with
  | infinity _ | notANumber => exact h.elim
  | zero s => cases s <;> rfl
  | finite s m e hm => exact unpack_pack_finite s hm h ((exponent_le_iff h).mpr hsmall)

lemma isCanonical_finite {s : Sign} {m : ℕ} {e : ℤ} {hm : 0 < m} (hmax : m < 2 ^ 53)
    (hmin : -1074 ≤ e) (hlong : 2 ^ 52 ≤ m ∨ e = -1074) (he : e ≤ 971) :
    IsCanonical (.finite s m e hm) ∧ |value (.finite s m e hm)| < 2 ^ 1024 :=
  ⟨⟨hmax, hmin, hlong⟩, (exponent_le_iff ⟨hmax, hmin, hlong⟩).mp he⟩

/-- What is unpacked is in canonical form and not too large, if it is a number. -/
lemma isCanonical_unpack (x : Float.Model) (h : x.isFinite = true) :
    IsCanonical x.unpack ∧ |value x.unpack| < 2 ^ 1024 := by
  have hmantissa : (@unpackMantissa Format.binary64 x.toBits.toBitVec).toNat < 2 ^ 52 :=
    BitVec.isLt _
  have hexponent : (@unpackExponent Format.binary64 x.toBits.toBitVec).toNat < 2 ^ 11 :=
    BitVec.isLt _
  have hbias : Format.binary64.exponentBias = 1023 := rfl
  unfold Float.Model.isFinite at h
  generalize hu : x.unpack = u at h ⊢
  unfold Float.Model.unpack UnpackedFloat.unpack at hu
  simp only [hbias] at hu
  split at hu
  · split at hu <;> subst hu <;> exact absurd h Bool.false_ne_true
  · rename_i hmax
    split at hu
    · rename_i hzero
      have hfield := congrArg BitVec.toNat hzero
      split at hu <;> subst hu
      · refine ⟨trivial, ?_⟩
        show |(0 : ℚ)| < _
        rw [abs_zero]
        positivity
      · rw [BitVec.toNat_zero] at hfield
        exact isCanonical_finite (by omega) (by omega) (.inr (by omega)) (by omega)
    · rename_i hnonzero
      have hpos : (@unpackExponent Format.binary64 x.toBits.toBitVec).toNat ≠ 0 :=
        fun hfield => hnonzero (BitVec.eq_of_toNat_eq hfield)
      have hlt : (@unpackExponent Format.binary64 x.toBits.toBitVec).toNat ≠ 2047 :=
        fun hfield => hmax (BitVec.eq_of_toNat_eq hfield)
      have himplicit := toNat_implicit (@unpackMantissa Format.binary64 x.toBits.toBitVec)
      subst hu
      exact isCanonical_finite (by omega) (by omega) (.inl (by omega)) (by omega)

/-! ### Order -/

/-- Magnitudes in canonical form are compared by their exponents first. -/
lemma compare_magnitudes {m n : ℕ} {e f : ℤ} (hm : 0 < m) (hn : 0 < n)
    (ha : IsCanonical (.finite .positive m e hm)) (hb : IsCanonical (.finite .positive n f hn)) :
    (compare e f).then (compare m n) = compare ((m : ℚ) * 2 ^ e) (n * 2 ^ f) := by
  have hlt {m n : ℕ} {e f : ℤ} (hm : m < 2 ^ 53) (hn : 2 ^ 52 ≤ n) (h : e < f) :
      (m : ℚ) * 2 ^ e < n * 2 ^ f := by
    have hm : (m : ℚ) < 2 ^ 53 := by exact_mod_cast hm
    have hn : (2 : ℚ) ^ 52 ≤ n := by exact_mod_cast hn
    calc (m : ℚ) * 2 ^ e < 2 ^ 53 * 2 ^ e := mul_lt_mul_of_pos_right hm (by positivity)
      _ = 2 ^ 52 * 2 ^ (e + 1) := by rw [zpow_add_one₀ (by norm_num)]; ring
      _ ≤ n * 2 ^ f := mul_le_mul hn (zpow_le_zpow_right₀ (by norm_num) h) (by positivity)
        (by positivity)
  obtain ⟨hm, he, hlongm⟩ := ha
  obtain ⟨hn, hf, hlongn⟩ := hb
  rcases lt_trichotomy e f with h | rfl | h
  · rw [compare_lt_iff_lt.mpr h, compare_lt_iff_lt.mpr (hlt hm (hlongn.resolve_right (by omega)) h)]
    rfl
  · have hpos : (0 : ℚ) < 2 ^ e := by positivity
    rw [compare_eq_iff_eq.mpr rfl]
    show compare m n = _
    rcases lt_trichotomy m n with h | rfl | h
    · rw [compare_lt_iff_lt.mpr h,
        compare_lt_iff_lt.mpr (mul_lt_mul_of_pos_right (Nat.cast_lt.mpr h) hpos)]
    · rw [compare_eq_iff_eq.mpr rfl, compare_eq_iff_eq.mpr rfl]
    · rw [compare_gt_iff_gt.mpr h,
        compare_gt_iff_gt.mpr (mul_lt_mul_of_pos_right (Nat.cast_lt.mpr h) hpos)]
  · rw [compare_gt_iff_gt.mpr h, compare_gt_iff_gt.mpr (hlt hn (hlongm.resolve_right (by omega)) h)]
    rfl

lemma swap_compare_neg (p q : ℚ) : (compare p q).swap = compare (-p) (-q) := by
  rcases lt_trichotomy p q with h | rfl | h
  · rw [compare_lt_iff_lt.mpr h, compare_gt_iff_gt.mpr (neg_lt_neg h)]
    rfl
  · rw [compare_eq_iff_eq.mpr rfl, compare_eq_iff_eq.mpr rfl]
    rfl
  · rw [compare_gt_iff_gt.mpr h, compare_lt_iff_lt.mpr (neg_lt_neg h)]
    rfl

/-- Numbers in canonical form are compared as the numbers that they are. -/
lemma compare_eq {a b : UnpackedFloat} (ha : IsCanonical a) (hb : IsCanonical b) :
    a.compare b = some (compare (value a) (value b)) := by
  have hmagnitude {m : ℕ} {e : ℤ} (hm : 0 < m) : (0 : ℚ) < m * 2 ^ e := by positivity
  cases a with
  | infinity _ | notANumber => exact ha.elim
  | zero s =>
    cases b with
    | infinity _ | notANumber => exact hb.elim
    | zero t => exact congrArg some (compare_eq_iff_eq.mpr rfl).symm
    | finite t n f hn =>
      cases t
      · exact congrArg some (compare_gt_iff_gt.mpr (neg_neg_of_pos (hmagnitude hn))).symm
      · exact congrArg some (compare_lt_iff_lt.mpr (hmagnitude hn)).symm
  | finite s m e hm =>
    cases b with
    | infinity _ | notANumber => exact hb.elim
    | zero t =>
      cases s
      · exact congrArg some (compare_lt_iff_lt.mpr (neg_neg_of_pos (hmagnitude hm))).symm
      · exact congrArg some (compare_gt_iff_gt.mpr (hmagnitude hm)).symm
    | finite t n f hn =>
      have hnegative : -((n : ℚ) * 2 ^ f) < m * 2 ^ e :=
        (neg_neg_of_pos (hmagnitude hn)).trans (hmagnitude hm)
      have hpositive : -((m : ℚ) * 2 ^ e) < n * 2 ^ f :=
        (neg_neg_of_pos (hmagnitude hm)).trans (hmagnitude hn)
      cases s <;> cases t
      · show some ((compare e f).then (compare m n)).swap = _
        rw [compare_magnitudes hm hn ha hb, swap_compare_neg]
        rfl
      · exact congrArg some (compare_lt_iff_lt.mpr hpositive).symm
      · exact congrArg some (compare_gt_iff_gt.mpr hnegative).symm
      · show some ((compare e f).then (compare m n)) = _
        rw [compare_magnitudes hm hn ha hb]
        rfl

/-- Numbers other than 0 have one canonical form. -/
lemma IsCanonical.eq_of_value_eq {a b : UnpackedFloat} (ha : IsCanonical a) (hb : IsCanonical b)
    (h : value a = value b) (hne : value a ≠ 0) : a = b := by
  cases a with
  | infinity _ | notANumber => exact ha.elim
  | zero s => exact absurd rfl hne
  | finite s m e hm =>
    cases b with
    | infinity _ | notANumber => exact hb.elim
    | zero t => exact absurd h hne
    | finite t n f hn =>
      have hcompare := compare_magnitudes hm hn ha hb
      have hpos : (0 : ℚ) < m * 2 ^ e := by positivity
      have hpos' : (0 : ℚ) < n * 2 ^ f := by positivity
      have hvalue : signed s (m * 2 ^ e) = signed t (n * 2 ^ f) := h
      have hsame : s = t ∧ (m : ℚ) * 2 ^ e = n * 2 ^ f := by
        cases s <;> cases t <;> simp only [signed] at hvalue
        · exact ⟨rfl, neg_injective hvalue⟩
        · linarith
        · linarith
        · exact ⟨rfl, hvalue⟩
      obtain ⟨rfl, hmagnitude⟩ := hsame
      rw [compare_eq_iff_eq.mpr hmagnitude, Ordering.then_eq_eq, compare_eq_iff_eq,
        compare_eq_iff_eq] at hcompare
      obtain ⟨rfl, rfl⟩ := hcompare
      rfl

/-! ### Doubles -/

/-- A double that is a number, and which number it is. -/
structure IsNumber (x : Float) (q : ℚ) : Prop where
  canonical : IsCanonical x.toModel.unpack
  value_eq : value x.toModel.unpack = q

lemma exists_isNumber {x : Float} (h : x.isFinite = true) : ∃ q, IsNumber x q :=
  ⟨_, (isCanonical_unpack x.toModel h).1, rfl⟩

lemma isNumber_ofModel {u : UnpackedFloat} (h : IsCanonical u) (hsmall : |value u| < 2 ^ 1024) :
    IsNumber (.ofModel (Float.Model.pack u)) (value u) := by
  have hunpack : (Float.ofModel (Float.Model.pack u)).toModel.unpack = u := unpack_pack h hsmall
  exact ⟨by rwa [hunpack], by rw [hunpack]⟩

/-- A result that is not too large is a number to which the exact result is rounded. -/
lemma exists_isNumber_of_rounds {u : UnpackedFloat} {r : ℚ} (h : IsCanonical u ∧ Rounds r (value u))
    (hr : InRange r) : ∃ q, IsNumber (.ofModel (Float.Model.pack u)) q ∧ Rounds r q :=
  ⟨value u, isNumber_ofModel h.1 (h.2.abs_lt_iff.mpr hr), h.2⟩

/-- A number that is too large is packed as an infinity, of its own sign. -/
lemma unpack_pack_of_large {u : UnpackedFloat} (h : IsCanonical u)
    (hlarge : ¬|value u| < 2 ^ 1024) :
    ∃ s, (Float.Model.pack u).unpack = .infinity s ∧ (0 ≤ value u → s = .positive) := by
  cases u with
  | infinity _ | notANumber => exact h.elim
  | zero s =>
    refine absurd ?_ hlarge
    show |(0 : ℚ)| < _
    rw [abs_zero]
    positivity
  | finite s m e hm =>
    have he : 971 < e := not_le.mp (mt (exponent_le_iff h).mp hlarge)
    have hinfinity : Float.Model.pack (.finite s m e hm) = Float.Model.pack (.infinity s) := by
      unfold Float.Model.pack
      simp only [pack_finite_of_lt s hm he]
    refine ⟨s, ?_, fun hnonneg => ?_⟩
    · rw [hinfinity]
      cases s <;> rfl
    · cases s
      · have hpos : (0 : ℚ) < m * 2 ^ e := by positivity
        exact absurd hnonneg (not_le.mpr (neg_neg_of_pos hpos))
      · rfl

lemma IsCanonical.isFinite {u : UnpackedFloat} (h : IsCanonical u) : u.isFinite = true := by
  cases u with
  | infinity _ | notANumber => exact h.elim
  | zero _ | finite _ _ _ _ => rfl

lemma isFinite_pack_iff {u : UnpackedFloat} (h : IsCanonical u) :
    (Float.Model.pack u).isFinite = true ↔ |value u| < 2 ^ 1024 := by
  constructor
  · intro hfinite
    by_contra hlarge
    obtain ⟨s, hs, -⟩ := unpack_pack_of_large h hlarge
    unfold Float.Model.isFinite at hfinite
    rw [hs] at hfinite
    exact absurd hfinite Bool.false_ne_true
  · intro hsmall
    show (Float.Model.pack u).unpack.isFinite = true
    rw [unpack_pack h hsmall]
    exact h.isFinite

/-- A result is finite if and only if the exact result is not too large. -/
lemma isFinite_ofModel_iff {u : UnpackedFloat} {r : ℚ} (h : IsCanonical u ∧ Rounds r (value u)) :
    (Float.ofModel (Float.Model.pack u)).isFinite = true ↔ InRange r :=
  (isFinite_pack_iff h.1).trans h.2.abs_lt_iff

/-- What a positive double is, is read off its mantissa and its exponent. -/
lemma isNumber_of_unpack_eq {x : Float} {m : ℕ} {e : ℤ} {q : ℚ} (hm : 0 < m)
    (h : x.toModel.unpack = .finite .positive m e hm) (hq : m * 2 ^ e = q) : IsNumber x q := by
  have hfinite : x.toModel.unpack.isFinite = true := congrArg _ h
  exact ⟨(isCanonical_unpack _ hfinite).1, (congrArg value h).trans hq⟩

lemma isNumber_zero : IsNumber 0 0 := ⟨trivial, rfl⟩

lemma isNumber_one : IsNumber 1 1 :=
  isNumber_of_unpack_eq (m := 2 ^ 52) (e := -52) (by norm_num) rfl (by norm_num)

/-- The number that `doubleFloor` shifts by. -/
lemma isNumber_shift : IsNumber 4503599627370496 (2 ^ 52) :=
  isNumber_of_unpack_eq (m := 2 ^ 52) (e := 0) (by norm_num) rfl (by norm_num)

lemma InRange.of_abs_le {p q : ℚ} (h : InRange q) (hle : |p| ≤ |q|) : InRange p := hle.trans_lt h

/-- Exact results up to here are far from being too large. -/
lemma inRange_of_abs_le {r : ℚ} (h : |r| ≤ 2 ^ 64) : InRange r := by
  have hbound : |(2 : ℚ) ^ 64| = 2 ^ 64 := abs_of_pos (by positivity)
  refine ((isRepresentable_two_pow 64).abs_lt_iff.mp ?_).of_abs_le (h.trans_eq hbound.symm)
  rw [hbound]
  exact pow_lt_pow_right₀ one_lt_two (by norm_num)

section

variable {x y : Float}

/-- Doubles are compared by their contents. -/
lemma lt_iff_compare : x < y ↔ x.toModel.unpack.compare y.toModel.unpack = some .lt := by
  show decide ((x.toModel.unpack.compare y.toModel.unpack == some .lt) = true) = true ↔ _
  rw [decide_eq_true_iff, beq_iff_eq]

lemma le_iff_compare :
    x ≤ y ↔ (x.toModel.unpack.compare y.toModel.unpack).any (·.isLE) = true := by
  show decide ((x.toModel.unpack.compare y.toModel.unpack).any (·.isLE) = true) = true ↔ _
  rw [decide_eq_true_iff]

end

namespace IsNumber

variable {x y : Float} {p q : ℚ}

lemma isFinite (h : IsNumber x p) : x.isFinite = true := h.canonical.isFinite

lemma unpack_eq (hx : IsNumber x p) (hy : IsNumber y p) (hp : p ≠ 0) :
    x.toModel.unpack = y.toModel.unpack :=
  hx.canonical.eq_of_value_eq hy.canonical (hx.value_eq.trans hy.value_eq.symm)
    (hx.value_eq.trans_ne hp)

lemma isRepresentable (h : IsNumber x p) : IsRepresentable p :=
  h.value_eq ▸ h.canonical.isRepresentable

lemma abs_lt (h : IsNumber x p) : |p| < 2 ^ 1024 :=
  h.value_eq ▸ (isCanonical_unpack _ h.isFinite).2

/-- The exact value of a double is not too large. -/
lemma inRange (h : IsNumber x p) : InRange p := h.isRepresentable.abs_lt_iff.mp h.abs_lt

lemma neg (h : IsNumber x p) : IsNumber (-x) (-p) := by
  obtain ⟨hcanonical, hvalue⟩ := neg_spec h.canonical
  have hsmall : |value x.toModel.unpack.neg| < 2 ^ 1024 := by
    rw [hvalue, abs_neg, h.value_eq]
    exact h.abs_lt
  have hnumber := isNumber_ofModel hcanonical hsmall
  rwa [hvalue, h.value_eq] at hnumber

lemma abs (h : IsNumber x p) : IsNumber x.abs |p| := by
  have hspec : IsCanonical x.toModel.unpack.abs ∧
      value x.toModel.unpack.abs = |value x.toModel.unpack| := by
    have hcanonical := h.canonical
    generalize x.toModel.unpack = u at hcanonical
    cases u with
    | infinity _ | notANumber => exact hcanonical.elim
    | zero s => exact ⟨trivial, abs_zero.symm⟩
    | finite s m e hm => exact ⟨hcanonical, (abs_value_finite s e hm).symm⟩
  have hsmall : |value x.toModel.unpack.abs| < 2 ^ 1024 := by
    rw [hspec.2, abs_abs, h.value_eq]
    exact h.abs_lt
  have hnumber := isNumber_ofModel hspec.1 hsmall
  rwa [hspec.2, h.value_eq] at hnumber

lemma add (hx : IsNumber x p) (hy : IsNumber y q) (h : InRange (p + q)) :
    ∃ v, IsNumber (x + y) v ∧ Rounds (p + q) v := by
  obtain ⟨hx, rfl⟩ := hx
  obtain ⟨hy, rfl⟩ := hy
  exact exists_isNumber_of_rounds (add_spec hx hy) h

lemma sub (hx : IsNumber x p) (hy : IsNumber y q) (h : InRange (p - q)) :
    ∃ v, IsNumber (x - y) v ∧ Rounds (p - q) v := by
  obtain ⟨hx, rfl⟩ := hx
  obtain ⟨hy, rfl⟩ := hy
  exact exists_isNumber_of_rounds (sub_spec hx hy) h

lemma mul (hx : IsNumber x p) (hy : IsNumber y q) (h : InRange (p * q)) :
    ∃ v, IsNumber (x * y) v ∧ Rounds (p * q) v := by
  obtain ⟨hx, rfl⟩ := hx
  obtain ⟨hy, rfl⟩ := hy
  exact exists_isNumber_of_rounds (mul_spec hx hy) h

lemma div (hx : IsNumber x p) (hy : IsNumber y q) (hne : q ≠ 0) (h : InRange (p / q)) :
    ∃ v, IsNumber (x / y) v ∧ Rounds (p / q) v := by
  obtain ⟨hx, rfl⟩ := hx
  obtain ⟨hy, rfl⟩ := hy
  exact exists_isNumber_of_rounds (div_spec hx hy hne) h

/-- A sum is finite if and only if it is not too large. -/
lemma isFinite_add_iff (hx : IsNumber x p) (hy : IsNumber y q) :
    (x + y).isFinite = true ↔ InRange (p + q) := by
  obtain ⟨hx, rfl⟩ := hx
  obtain ⟨hy, rfl⟩ := hy
  exact isFinite_ofModel_iff (add_spec hx hy)

/-- A difference is finite if and only if it is not too large. -/
lemma isFinite_sub_iff (hx : IsNumber x p) (hy : IsNumber y q) :
    (x - y).isFinite = true ↔ InRange (p - q) := by
  obtain ⟨hx, rfl⟩ := hx
  obtain ⟨hy, rfl⟩ := hy
  exact isFinite_ofModel_iff (sub_spec hx hy)

/-- A product is finite if and only if it is not too large. -/
lemma isFinite_mul_iff (hx : IsNumber x p) (hy : IsNumber y q) :
    (x * y).isFinite = true ↔ InRange (p * q) := by
  obtain ⟨hx, rfl⟩ := hx
  obtain ⟨hy, rfl⟩ := hy
  exact isFinite_ofModel_iff (mul_spec hx hy)

lemma compare_unpack (hx : IsNumber x p) (hy : IsNumber y q) :
    x.toModel.unpack.compare y.toModel.unpack = some (compare p q) := by
  obtain ⟨hx, rfl⟩ := hx
  obtain ⟨hy, rfl⟩ := hy
  exact compare_eq hx hy

lemma lt_iff (hx : IsNumber x p) (hy : IsNumber y q) : x < y ↔ p < q := by
  rw [lt_iff_compare, hx.compare_unpack hy, Option.some_inj, compare_lt_iff_lt]

lemma le_iff (hx : IsNumber x p) (hy : IsNumber y q) : x ≤ y ↔ p ≤ q := by
  rw [le_iff_compare, hx.compare_unpack hy, Option.any_some, ← compare_le_iff_le]
  exact Ordering.ne_gt_iff_isLE.symm

lemma beq_iff (hx : IsNumber x p) (hy : IsNumber y q) : (x == y) = true ↔ p = q := by
  show (x.toModel.unpack.compare y.toModel.unpack == some .eq) = true ↔ _
  rw [beq_iff_eq, hx.compare_unpack hy, Option.some_inj, compare_eq_iff_eq]

end IsNumber

/-! ### Values read off the bits -/

section

variable (b : BitVec Format.binary64.numBits)

lemma toNat_unpackMantissa : (unpackMantissa b).toNat = b.toNat % 2 ^ 52 := by
  unfold unpackMantissa
  rw [BitVec.toNat_cast, BitVec.extractLsb_toNat]
  simp

lemma toNat_unpackExponent : (unpackExponent b).toNat = b.toNat / 2 ^ 52 % 2 ^ 11 := by
  unfold unpackExponent
  rw [BitVec.toNat_cast, BitVec.extractLsb_toNat]
  simp [Nat.shiftRight_eq_div_pow]

lemma toNat_unpackSign : (unpackSign b).toNat = b.toNat / 2 ^ 63 := by
  unfold unpackSign
  rw [BitVec.toNat_cast, BitVec.extractLsb_toNat]
  have hlt : b.toNat < 2 ^ 64 := b.isLt
  simp [Nat.shiftRight_eq_div_pow]
  omega

end

lemma toRat_eq (negative : Bool) (significand : ℕ) (exponent : ℤ) :
    (Binary.mk negative significand exponent).toRat =
      (if negative then -1 else 1) * (significand * 2 ^ exponent) := by
  unfold Binary.toRat Binary.quotient
  rcases le_or_gt 0 exponent with h | h
  · obtain ⟨n, rfl⟩ := Int.eq_ofNat_of_zero_le h
    rw [if_pos h]
    show mkRat (if negative then -((significand * 2 ^ n : ℕ) : ℤ)
      else (significand * 2 ^ n : ℕ)) 1 = _
    rw [Rat.mkRat_eq_div]
    cases negative <;> simp
  · obtain ⟨n, hn⟩ := Int.eq_ofNat_of_zero_le (neg_nonneg.mpr h.le)
    obtain rfl : exponent = -n := by omega
    rw [if_neg (not_le.mpr h)]
    show mkRat (if negative then -(significand : ℤ) else significand) (2 ^ (- -(n : ℤ)).toNat) = _
    rw [Rat.mkRat_eq_div, neg_neg, Int.toNat_natCast]
    cases negative <;> simp [div_eq_mul_inv]

lemma signed_unpackSign (b : BitVec Format.binary64.numBits) (q : ℚ) :
    signed (Sign.ofBitVec (unpackSign b)) q =
      (if decide (2 ^ 63 ≤ b.toNat) then -1 else 1) * q := by
  have hsign := toNat_unpackSign b
  have hlt : b.toNat < 2 ^ 64 := b.isLt
  by_cases h : 2 ^ 63 ≤ b.toNat
  · have hone : unpackSign b = 1#1 := BitVec.eq_of_toNat_eq (by rw [hsign]; show _ = 1; omega)
    rw [hone, decide_eq_true h]
    exact (neg_one_mul q).symm
  · have hzero : unpackSign b = 0#1 := BitVec.eq_of_toNat_eq (by rw [hsign]; show _ = 0; omega)
    rw [hzero, decide_eq_false h]
    exact (one_mul q).symm

/-- What is read off the bits of a double, in terms of the fields that they are unpacked from. -/
lemma ofFloat?_eq {x : Float} {b : BitVec Format.binary64.numBits}
    (hb : x.toModel.toBits.toBitVec = b) :
    Binary.ofFloat? x =
      if unpackExponent b = -1#11 then none
      else if unpackExponent b = 0#11 then
        some ⟨decide (2 ^ 63 ≤ b.toNat), (unpackMantissa b).toNat, -1074⟩
      else some ⟨decide (2 ^ 63 ≤ b.toNat), 2 ^ 52 + (unpackMantissa b).toNat,
        ((unpackExponent b).toNat : ℤ) - 1075⟩ := by
  have hexponent := toNat_unpackExponent b
  have hfield (n : BitVec 11) : b.toNat / 2 ^ 52 % 2 ^ 11 = n.toNat ↔ unpackExponent b = n := by
    rw [← hexponent]
    exact ⟨fun h => BitVec.eq_of_toNat_eq h, fun h => congrArg BitVec.toNat h⟩
  have hmax : b.toNat / 2 ^ 52 % 2 ^ 11 = 2 ^ 11 - 1 ↔ unpackExponent b = -1#11 := hfield (-1#11)
  have hzero : b.toNat / 2 ^ 52 % 2 ^ 11 = 0 ↔ unpackExponent b = 0#11 := hfield 0#11
  rw [hexponent, toNat_unpackMantissa b, ← if_congr hmax rfl (if_congr hzero rfl rfl), ← hb]
  rfl

/-- The value that is read off the bits of a double is the number that it is. -/
lemma IsNumber.toRat? {x : Float} {q : ℚ} (h : IsNumber x q) : Scalar.toRat? x = some q := by
  have hfinite : x.toModel.unpack.isFinite = true := h.isFinite
  rw [← h.value_eq]
  obtain ⟨b, hb⟩ : ∃ b : BitVec Format.binary64.numBits, x.toModel.toBits.toBitVec = b :=
    ⟨_, rfl⟩
  have himplicit := toNat_implicit (unpackMantissa b)
  have hbias : Format.binary64.exponentBias = 1023 := rfl
  show (Binary.ofFloat? x).map Binary.toRat = some (value x.toModel.unpack)
  rw [ofFloat?_eq hb]
  unfold Float.Model.unpack UnpackedFloat.unpack at hfinite ⊢
  simp only [hb, hbias] at hfinite ⊢
  split_ifs at hfinite ⊢ with _ _ hsmall hmantissa
  · exact absurd hfinite Bool.false_ne_true
  · exact absurd hfinite Bool.false_ne_true
  · rw [Option.map_some, toRat_eq, hmantissa]
    simp [value]
  · have hleast : ((unpackExponent b).toNat : ℤ) - (1023 + 52) + 1 = -1074 := by
      rw [hsmall]
      rfl
    rw [Option.map_some, toRat_eq, ← signed_unpackSign, ← hleast]
    rfl
  · rw [Option.map_some, toRat_eq, ← signed_unpackSign, ← himplicit]
    rfl

/-! ### Whole numbers -/

lemma isNumber_toFloat {n : ℕ} (hn : n < 2 ^ 53) : IsNumber n.toUInt64.toFloat n := by
  have hnat : n.toUInt64.toNat = n := Nat.mod_eq_of_lt (by omega)
  have hshort : |(n : ℤ)| ≤ 2 ^ 53 := by rw [Nat.abs_cast]; exact_mod_cast hn.le
  have hsmall : |((n : ℤ) : ℚ)| ≤ 2 ^ 64 := by
    exact_mod_cast hshort.trans (by norm_num : (2 : ℤ) ^ 53 ≤ 2 ^ 64)
  show IsNumber (.ofModel (Float.Model.pack
    (UnpackedFloat.normalize Format.binary64 (n.toUInt64.toNat : ℤ) 0 .positive))) n
  obtain ⟨hcanonical, hrounds⟩ := normalize_spec n 0 .positive
  rw [zpow_zero, mul_one] at hrounds
  have hnumber := isNumber_ofModel hcanonical (hrounds.abs_lt_iff.mpr (inRange_of_abs_le hsmall))
  rw [hrounds.eq (isRepresentable_intCast hshort)] at hnumber
  rw [hnat]
  exact hnumber

/-- **A natural number is rounded to a double.** -/
lemma ofScientific_spec (n : ℕ) : ∃ u,
    Float.ofScientific n false 0 = .ofModel (Float.Model.pack u) ∧
    IsCanonical u ∧ Rounds n (value u) := by
  by_cases hn : n < 2 ^ 53
  · -- a product with the power of ten with exponent 0
    have hone : IsNumber Float.exactlyRepresentablePowersOfTen[0] 1 := isNumber_one
    have hcast := isNumber_toFloat hn
    refine ⟨UnpackedFloat.mul Format.binary64 n.toUInt64.toFloat.toModel.unpack
      Float.exactlyRepresentablePowersOfTen[0].toModel.unpack, ?_, ?_⟩
    · unfold Float.ofScientific
      rw [dif_pos ⟨hn, by norm_num⟩]
      rfl
    · have hspec := mul_spec hcast.canonical hone.canonical
      rwa [hcast.value_eq, hone.value_eq, mul_one] at hspec
  · -- a long significand that is cut down
    have hpos : 0 < n := by omega
    refine ⟨roundWithAccuracy Format.binary64 .positive (n <<< 53 * 1) (-53 + 0) .exact, ?_, ?_⟩
    · unfold Float.ofScientific
      rw [dif_neg (by omega)]
      show Float.ofModel (Float.Model.ofScientific n 0) = _
      unfold Float.Model.ofScientific UnpackedFloat.ofScientific
      rw [dif_neg hpos.ne', if_neg (by decide), if_neg (by norm_num), if_pos le_rfl]
      rfl
    · have hlong : 52 ≤ (n <<< 53 * 1).log2 := by
        rw [mul_one, log2_shiftLeft hpos]
        omega
      have hspec := roundWithAccuracy_spec .positive (approximates_exact (n <<< 53 * 1) (-53 + 0))
        (.inl hlong)
      have hvalue : signed .positive (((n <<< 53 * 1 : ℕ) : ℚ) * 2 ^ (-53 + 0 : ℤ)) = n := by
        rw [mul_one, Nat.shiftLeft_eq]
        show ((n * 2 ^ 53 : ℕ) : ℚ) * 2 ^ (-53 : ℤ) = n
        rw [zpow_neg, zpow_ofNat, Nat.cast_mul, Nat.cast_pow, Nat.cast_ofNat, mul_assoc,
          mul_inv_cancel₀ (by positivity), mul_one]
      rwa [hvalue] at hspec

/-- From `2 ^ 52` on, all that is representable is whole. -/
lemma IsRepresentable.exists_int {q : ℚ} (h : IsRepresentable q) (hfar : 2 ^ 52 ≤ |q|) :
    ∃ n : ℤ, q = n := by
  rcases h.multiple_or_lt 0 with ⟨n, hn⟩ | ⟨-, hlt⟩
  · exact ⟨n, by rw [hn, zpow_zero, mul_one]⟩
  · rw [zpow_zero, mul_one] at hlt
    exact absurd hlt (not_lt.mpr hfar)

/-- A number moved by a whole number to where all is whole comes to one of the two whole numbers
next to it, moved as far. -/
lemma Rounds.exists_int {p v : ℚ} {c : ℤ} (h : Rounds (p + c) v) (hv : IsRepresentable v)
    (hfar : 2 ^ 52 ≤ p + c ∨ p + c ≤ -2 ^ 52) (hbelow : |⌊p⌋ + c| ≤ 2 ^ 53)
    (habove : |⌊p⌋ + 1 + c| ≤ 2 ^ 53) :
    ∃ n : ℤ, v = n + c ∧ ⌊p⌋ ≤ n ∧ n ≤ ⌊p⌋ + 1 := by
  have hpower := isRepresentable_two_pow 52
  have hfar : 2 ^ 52 ≤ |v| := by
    rcases hfar with hfar | hfar
    · exact (h.le_of_le _ hpower hfar).trans (le_abs_self v)
    · exact le_abs.mpr (.inr (le_neg_of_le_neg (h.ge_of_ge _ hpower.neg hfar)))
  obtain ⟨n, rfl⟩ := hv.exists_int hfar
  have hlow := h.le_of_le _ (isRepresentable_intCast hbelow) (by
    push_cast
    linarith [Int.floor_le p])
  have hhigh := h.ge_of_ge _ (isRepresentable_intCast habove) (by
    push_cast
    linarith [Int.lt_floor_add_one p])
  rw [Int.cast_le] at hlow hhigh
  exact ⟨n - c, by push_cast; ring, by omega, by omega⟩

/-- What a number comes to that is moved by a whole number to where all is whole, and back again. -/
lemma exists_int_of_moved (moved back : Float) {p : ℚ} (c : ℤ) (hfloor : |⌊p⌋| ≤ 2 ^ 52)
    (hbelow : |⌊p⌋ + c| ≤ 2 ^ 53) (habove : |⌊p⌋ + 1 + c| ≤ 2 ^ 53)
    (hfar : 2 ^ 52 ≤ p + c ∨ p + c ≤ -2 ^ 52)
    (hmoved : InRange (p + c) → ∃ v, IsNumber moved v ∧ Rounds (p + c) v)
    (hback : ∀ n : ℤ, IsNumber moved (n + c) → InRange n → ∃ v, IsNumber back v ∧ Rounds n v) :
    ∃ n : ℤ, IsNumber back n ∧ ⌊p⌋ ≤ n ∧ n ≤ ⌊p⌋ + 1 := by
  obtain ⟨hlow, hhigh⟩ := abs_le.mp hfloor
  have hsum : |p + c| ≤ 2 ^ 64 := by
    have hmin : ((-2 ^ 53 : ℤ) : ℚ) ≤ (⌊p⌋ + c : ℤ) := Int.cast_le.mpr (abs_le.mp hbelow).1
    have hmax : ((⌊p⌋ + 1 + c : ℤ) : ℚ) ≤ (2 ^ 53 : ℤ) := Int.cast_le.mpr (abs_le.mp habove).2
    push_cast at hmin hmax
    have hp := Int.floor_le p
    have hp' := Int.lt_floor_add_one p
    exact abs_le.mpr ⟨by linarith, by linarith⟩
  obtain ⟨v, hv, hrounds⟩ := hmoved (inRange_of_abs_le hsum)
  obtain ⟨n, rfl, hn⟩ := hrounds.exists_int hv.isRepresentable hfar hbelow habove
  have hsmall : |n| ≤ 2 ^ 53 := abs_le.mpr ⟨by omega, by omega⟩
  obtain ⟨w, hw, hexact⟩ := hback n hv (inRange_of_abs_le (by
    exact_mod_cast hsmall.trans (by norm_num)))
  rw [hexact.eq (isRepresentable_intCast hsmall)] at hw
  exact ⟨n, hw, hn⟩

/-- What adding `2 ^ 52` and taking it away again, on the side of zero that a number is on, makes
of it. -/
lemma exists_nearest {x : Float} {p : ℚ} (h : IsNumber x p) (hsmall : |p| < 2 ^ 52) :
    ∃ n : ℤ, IsNumber (if x < 0 then x - 4503599627370496 + 4503599627370496
      else x + 4503599627370496 - 4503599627370496) n ∧ ⌊p⌋ ≤ n ∧ n ≤ ⌊p⌋ + 1 := by
  have hsmall : -2 ^ 52 < p ∧ p < 2 ^ 52 := abs_lt.mp hsmall
  have hfloor : -2 ^ 52 ≤ ⌊p⌋ ∧ ⌊p⌋ < 2 ^ 52 := by
    refine ⟨Int.le_floor.mpr ?_, Int.floor_lt.mpr ?_⟩ <;> push_cast <;> linarith
  have hmagnitude : |⌊p⌋| ≤ 2 ^ 52 := abs_le.mpr ⟨hfloor.1, hfloor.2.le⟩
  split_ifs with hsign <;> rw [h.lt_iff isNumber_zero] at hsign
  · have hbelow : ⌊p⌋ < 0 := Int.floor_lt.mpr (by exact_mod_cast hsign)
    have hsub (q : ℚ) : q + (-2 ^ 52 : ℤ) = q - 2 ^ 52 := by push_cast; ring
    refine exists_int_of_moved (x - 4503599627370496) _ (-2 ^ 52) hmagnitude
      (abs_le.mpr ⟨by omega, by omega⟩) (abs_le.mpr ⟨by omega, by omega⟩) (.inr ?_) ?_ ?_
    · rw [hsub]
      linarith
    · rw [hsub]
      exact h.sub isNumber_shift
    · intro n hn hrange
      rw [hsub] at hn
      have hsum : (n : ℚ) - 2 ^ 52 + 2 ^ 52 = n := sub_add_cancel _ _
      have hreturn := hn.add isNumber_shift
      rw [hsum] at hreturn
      exact hreturn hrange
  · have habove : 0 ≤ ⌊p⌋ := Int.floor_nonneg.mpr (not_lt.mp hsign)
    have hadd (q : ℚ) : q + (2 ^ 52 : ℤ) = q + 2 ^ 52 := by push_cast; ring
    refine exists_int_of_moved (x + 4503599627370496) _ (2 ^ 52) hmagnitude
      (abs_le.mpr ⟨by omega, by omega⟩) (abs_le.mpr ⟨by omega, by omega⟩) (.inl ?_) ?_ ?_
    · rw [hadd]
      linarith
    · rw [hadd]
      exact h.add isNumber_shift
    · intro n hn hrange
      rw [hadd] at hn
      have hsum : (n : ℚ) + 2 ^ 52 - 2 ^ 52 = n := add_sub_cancel_right _ _
      have hreturn := hn.sub isNumber_shift
      rw [hsum] at hreturn
      exact hreturn hrange

/-- **The floor of a double** is the greatest integral number that is not above it. -/
lemma isNumber_doubleFloor {x : Float} {p : ℚ} (h : IsNumber x p) :
    IsNumber (doubleFloor x) ⌊p⌋ := by
  unfold doubleFloor
  simp only
  rw [if_congr (h.abs.lt_iff isNumber_shift) rfl rfl]
  by_cases hsmall : |p| < 2 ^ 52
  · obtain ⟨n, hnearest, hlow, hhigh⟩ := exists_nearest h hsmall
    rw [if_pos hsmall, if_congr (hnearest.beq_iff h) rfl rfl,
      if_congr (h.lt_iff hnearest) rfl rfl]
    rcases lt_trichotomy (n : ℚ) p with hlt | rfl | hgt
    · rw [if_neg hlt.ne, if_neg hlt.not_gt]
      rwa [le_antisymm hlow (Int.le_floor.mpr hlt.le)]
    · rwa [if_pos rfl, Int.floor_intCast]
    · have hn : n = ⌊p⌋ + 1 := le_antisymm hhigh (Int.floor_lt.mpr hgt)
      have hdifference : (n : ℚ) - 1 = ⌊p⌋ := by rw [hn]; push_cast; ring
      rw [if_neg hgt.ne', if_pos hgt]
      have hfloor : |⌊p⌋| ≤ 2 ^ 52 := by
        obtain ⟨hmin, hmax⟩ := abs_lt.mp hsmall
        refine abs_le.mpr ⟨Int.le_floor.mpr ?_, (Int.floor_lt.mpr ?_).le⟩ <;> push_cast <;> linarith
      have hfloorq : |(⌊p⌋ : ℚ)| ≤ 2 ^ 52 := by exact_mod_cast hfloor
      obtain ⟨v, hv, hrounds⟩ := hnearest.sub isNumber_one (inRange_of_abs_le (by
        rw [hdifference]
        exact hfloorq.trans (by norm_num)))
      rw [hdifference] at hrounds
      rwa [hrounds.eq (isRepresentable_intCast (hfloor.trans (by norm_num)))] at hv
  · obtain ⟨n, rfl⟩ := h.isRepresentable.exists_int (not_lt.mp hsmall)
    rwa [if_neg hsmall, Int.floor_intCast]

end Double

end Metrology
