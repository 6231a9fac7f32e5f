import Mathlib
import Metrology.Numeral.Hash
import Metrology.Proofs.NonFinite

/-!
Equal numbers have one hash.

Two doubles are equal if they are the same, or zeros, which can differ in their signs. No hash of a
number sees the sign of a zero. Numbers that are not equal can have one hash, too.
-/

namespace Metrology

namespace Double

open Float.Model Float.Model.UnpackedFloat

/-! ### Equal doubles -/

lemma toBitVec_ofBitVec (v : BitVec 1) : (Sign.ofBitVec v).toBitVec = v := by
  revert v
  decide

/-- The three fields of a packed double make it up. -/
lemma packComponents_unpack (b : BitVec Format.binary64.numBits) :
    packComponents Format.binary64 (.ofBitVec (unpackSign b)) (unpackExponent b)
      (unpackMantissa b) = b := by
  refine BitVec.eq_of_toNat_eq ?_
  have hexponent := (unpackExponent b).isLt
  have hmantissa := (unpackMantissa b).isLt
  unfold packComponents
  rw [toBitVec_ofBitVec, BitVec.toNat_append, BitVec.toNat_append,
    ← Nat.shiftLeft_add_eq_or_of_lt hmantissa, ← Nat.shiftLeft_add_eq_or_of_lt hexponent,
    Nat.shiftLeft_eq, Nat.shiftLeft_eq, toNat_unpackMantissa, toNat_unpackExponent,
    toNat_unpackSign]
  show (b.toNat / 2 ^ 63 * 2 ^ 11 + b.toNat / 2 ^ 52 % 2 ^ 11) * 2 ^ 52 + b.toNat % 2 ^ 52 = b.toNat
  omega

/-- Packing undoes unpacking. -/
lemma pack_unpack (b : BitVec Format.binary64.numBits)
    (h : UnpackedFloat.unpack Format.binary64 b ≠ .notANumber) :
    UnpackedFloat.pack Format.binary64 (UnpackedFloat.unpack Format.binary64 b) = b := by
  have hfields := packComponents_unpack b
  have himplicit := toNat_implicit (unpackMantissa b)
  have hmantissa : (unpackMantissa b).toNat < 2 ^ 52 := (unpackMantissa b).isLt
  have hexponent : (unpackExponent b).toNat < 2 ^ 11 := (unpackExponent b).isLt
  have hbias : Format.binary64.exponentBias = 1023 := rfl
  unfold UnpackedFloat.unpack at h ⊢
  simp only [hbias] at h ⊢
  split_ifs at h ⊢ with hmax hzero hsmall hzero
  · rwa [hmax, hzero] at hfields
  · exact absurd rfl h
  · rwa [hsmall, hzero] at hfields
  · have hne : (unpackMantissa b).toNat ≠ 0 := mt (BitVec.eq_of_toNat_eq (y := 0#52)) hzero
    have hshort : (unpackMantissa b).toNat.log2 ≠ 52 := fun hlog =>
      absurd ((Nat.log2_eq_iff hne).mp hlog).1 (not_le.mpr hmantissa)
    have hleast : (unpackExponent b).toNat = 0 := congrArg BitVec.toNat hsmall
    rw [pack_finite _ _ (by omega), if_neg hshort, BitVec.ofNat_toNat, BitVec.setWidth_eq]
    rwa [hsmall] at hfields
  · have hbelow : (unpackExponent b).toNat ≠ 2047 := fun hall =>
      hmax (BitVec.eq_of_toNat_eq (y := -1#11) hall)
    have hlong : (1#1 ++ unpackMantissa b).toNat.log2 = 52 := by
      rw [himplicit, Nat.log2_eq_iff (by omega)]
      omega
    have hbiased : ((unpackExponent b).toNat - ((1023 : ℕ) + (52 : ℕ)) + 1075 : ℤ).toNat =
        (unpackExponent b).toNat := by omega
    have hlast : BitVec.ofNat 52 (1#1 ++ unpackMantissa b).toNat = unpackMantissa b :=
      BitVec.eq_of_toNat_eq (by rw [BitVec.toNat_ofNat, himplicit]; omega)
    rw [pack_finite _ _ (by omega), if_pos hlong, hbiased, BitVec.ofNat_toNat, BitVec.setWidth_eq]
    exact (congrArg _ hlast).trans hfields

variable {x y : Float}

/-- A double is the only one that is unpacked as it is, unless it is undefined. -/
lemma eq_of_unpack_eq (h : x.toModel.unpack = y.toModel.unpack)
    (hdefined : x.toModel.unpack ≠ .notANumber) : x = y := by
  have hx : UnpackedFloat.pack Format.binary64 x.toModel.unpack = x.toModel.toBits.toBitVec :=
    pack_unpack _ hdefined
  have hy : UnpackedFloat.pack Format.binary64 y.toModel.unpack = y.toModel.toBits.toBitVec :=
    pack_unpack _ fun hnot => hdefined (h.trans hnot)
  have hbits : x.toModel.toBits = y.toModel.toBits :=
    UInt64.toBitVec_inj.mp (hx.symm.trans ((congrArg _ h).trans hy))
  cases x with
  | ofModel m =>
    cases y with
    | ofModel n =>
      cases m
      cases n
      subst hbits
      rfl

/-- Of what is not finite only an infinity equals something, which is itself. -/
lemma eq_of_compare_eq {a b : UnpackedFloat} (h : a.compare b = some .eq)
    (hfinite : ¬(a.isFinite = true ∧ b.isFinite = true)) : a = b ∧ a ≠ .notANumber := by
  cases a with
  | notANumber => cases h
  | infinity s =>
    cases b with
    | infinity t =>
      cases s <;> cases t <;> first | exact ⟨rfl, by simp⟩ | cases h
    | notANumber | zero _ | finite _ _ _ _ => cases s <;> cases h
  | zero s | finite s m e hm =>
    cases b with
    | infinity t => cases s <;> cases t <;> cases h
    | notANumber => cases h
    | zero _ | finite _ _ _ _ => exact absurd ⟨rfl, rfl⟩ hfinite

/-- **Equal doubles** are the same, or both zero. -/
lemma eq_or_isNumber_zero (h : (x == y) = true) : x = y ∨ IsNumber x 0 ∧ IsNumber y 0 := by
  by_cases hfinite : x.isFinite = true ∧ y.isFinite = true
  · obtain ⟨p, hp⟩ := exists_isNumber hfinite.1
    obtain ⟨q, hq⟩ := exists_isNumber hfinite.2
    obtain rfl := (hp.beq_iff hq).mp h
    by_cases hzero : p = 0
    · subst hzero
      exact .inr ⟨hp, hq⟩
    · refine .inl (eq_of_unpack_eq (hp.unpack_eq hq hzero) fun hnot => ?_)
      have hcanonical := hp.canonical
      rw [hnot] at hcanonical
      exact hcanonical
  · have hcompare : x.toModel.unpack.compare y.toModel.unpack = some .eq := beq_iff_eq.mp h
    obtain ⟨hunpack, hdefined⟩ := eq_of_compare_eq hcompare hfinite
    exact .inl (eq_of_unpack_eq hunpack hdefined)

/-! ### Hashes -/

/-- There are two zeros, which differ in their signs. -/
lemma eq_zero_or_neg_zero (h : IsNumber x 0) : x = 0 ∨ x = -0 := by
  have hcanonical := h.canonical
  have hvalue := h.value_eq
  rcases hx : x.toModel.unpack with _ | s | s | ⟨s, m, e, hm⟩ <;> rw [hx] at hcanonical hvalue
  · exact hcanonical.elim
  · exact hcanonical.elim
  · cases s
    · exact .inr (eq_of_unpack_eq (hx.trans (show _ = (-0 : Float).toModel.unpack from rfl))
        (by simp [hx]))
    · exact .inl (eq_of_unpack_eq (hx.trans (show _ = (0 : Float).toModel.unpack from rfl))
        (by simp [hx]))
  · have hpos : (0 : ℚ) < m * 2 ^ e := mul_pos (by exact_mod_cast hm) (by positivity)
    cases s
    · exact absurd hvalue (neg_ne_zero.mpr hpos.ne')
    · exact absurd hvalue hpos.ne'

/-- No bits are set in the hash of a zero, whatever its sign. -/
lemma numberHash_zero (h : IsNumber x 0) : numberHash x = 0 := by
  rcases eq_zero_or_neg_zero h with rfl | rfl
  · decide +kernel
  · decide +kernel

lemma numberHash_congr (h : (x == y) = true) : numberHash x = numberHash y := by
  rcases eq_or_isNumber_zero h with rfl | ⟨hx, hy⟩
  · rfl
  · rw [numberHash_zero hx, numberHash_zero hy]

end Double

/-- Whether lists of equal doubles have one hash. -/
def RespectsEquality (hash : List Float → UInt32) : Prop :=
  ∀ xs ys, List.Forall₂ (fun x y => (x == y) = true) xs ys → hash xs = hash ys

/-- **Hashes** of lists of equal doubles are the same. -/
lemma respectsEquality_listHash : RespectsEquality listHash := by
  intro xs ys h
  suffices hfold : ∀ word : UInt32, xs.foldl (fun word x => word * 53 ^^^ numberHash x) word =
      ys.foldl (fun word x => word * 53 ^^^ numberHash x) word from congrArg signMoved (hfold _)
  induction h with
  | nil => exact fun _ => rfl
  | cons hxy _ ih =>
    intro word
    rw [List.foldl_cons, List.foldl_cons, Double.numberHash_congr hxy, ih]

end Metrology
