import Mathlib
import Metrology.Proofs.Approximation
import Metrology.Proofs.Printing

/-!
What can be read of an exponent that is not printed exactly.

An exponent that counts is printed as the whole number it is up to the tolerance, or else as a close
fraction. This is within a millionth and has its sign, but two ends are cut off: a number too small
for the largest denominator comes to zero, and a numerator of more than twenty-one digits is written
with a power of ten, which is no raised number.
-/

namespace Metrology

namespace Grammar

/-! ### One raised number -/

/-- Whether a text is a single raised number, from which an exponent is taken. -/
def IsReadAs (s : String) (e : Exponent) : Prop :=
  ∃ numerator denominator offset,
    lexemes .base 0 s.toList = .ok [⟨.superscript numerator denominator, offset⟩] ∧
      takePower [⟨.superscript numerator denominator, offset⟩] = .ok (e, [])

section IsReadAs

variable {s : String} {e e' : Exponent}

/-- What is derived as a raised number is read as one. -/
lemma isReadAs_of_raised {n : Raised} (hs : s.toList = n.text) (he : n.exponent? = some e) :
    IsReadAs s e := by
  have hboundary : Boundary [] := fun c hc => absurd hc (by simp [lookahead])
  obtain ⟨ls, hls, htokens⟩ := (reads_raised n hboundary).lexed (lexed_nil _) 0
  rw [List.append_nil, ← hs] at hls
  obtain ⟨offset, rest, rfl, hrest⟩ := exists_of_map_token htokens
  obtain rfl := List.map_eq_nil_iff.mp hrest
  have hpower : [(⟨n.token, offset⟩ : Lexeme)].map Lexeme.token =
      (Power.raised ⟨[], by simp⟩ n).tokens ++ [] := rfl
  obtain ⟨left, htake, hleft⟩ :=
    takePower_of_exponent? (.raised ⟨[], by simp⟩ n) he (fun t ht => absurd ht (by simp)) hpower
  obtain rfl := List.map_eq_nil_iff.mp hleft
  exact ⟨_, _, offset, hls, htake⟩

lemma IsReadAs.unique (h : IsReadAs s e) (h' : IsReadAs s e') : e = e' := by
  obtain ⟨n, d, offset, hls, htake⟩ := h
  obtain ⟨n', d', offset', hls', htake'⟩ := h'
  rw [Except.ok.inj (hls.symm.trans hls'), htake'] at htake
  exact (congrArg Prod.fst (Except.ok.inj htake)).symm

lemma isWordChar_raised {n : Raised} {c : Char} (hc : c ∈ n.text) : isWordChar c = false := by
  have hdigits {b : Block isSuperscriptDigit} (hc : c ∈ b.chars) : isWordChar c = false := by
    simp [isWordChar, b.all c hc]
  unfold Raised.text at hc
  rcases List.mem_append.mp hc with hc | hc
  · rcases hsign : n.sign with _ | _ | _ <;> rw [hsign] at hc
    · exact absurd hc List.not_mem_nil
    all_goals
      obtain rfl := List.mem_singleton.mp hc
      decide
  rcases List.mem_append.mp hc with hc | hc
  · exact hdigits hc
  · rcases hden : n.denominator with _ | d <;> rw [hden] at hc
    · exact absurd hc List.not_mem_nil
    rcases List.mem_cons.mp hc with rfl | hc
    · decide
    · exact hdigits hc

/-- No character of a raised number can stand in a base. -/
lemma IsReadAs.isWordChar (h : IsReadAs s e) {c : Char} (hc : c ∈ s.toList) :
    isWordChar c = false := by
  have hblank {b : Blanks} (hc : c ∈ b.chars) : Metrology.isWordChar c = false := by
    simp [Metrology.isWordChar, b.all c hc]
  obtain ⟨n, d, offset, hls, -⟩ := h
  obtain ⟨lead, raised, rest, htext, -, hrest⟩ := Scanned.exists_raised ⟨0, hls⟩
  obtain ⟨trail, rfl⟩ := hrest.exists_blanks
  rw [htext] at hc
  rcases List.mem_append.mp hc with hc | hc
  · exact hblank hc
  rcases List.mem_append.mp hc with hc | hc
  · exact isWordChar_raised hc
  · exact hblank hc

end IsReadAs

end Grammar

/-! ### Readings of an exponent -/

/-- Whether an exponent that has been read may stand for a number: it is not 0, has the sign of the
number and is within a millionth of it. -/
structure IsReading (x : ℚ) (e : Exponent) : Prop where
  ne_zero : (e.value : ℚ) ≠ 0
  sign_eq : SignType.sign (e.value : ℚ) = SignType.sign x
  close : |e.value - x| ≤ 1 / 10 ^ 6

/-- Whether an exponent can be read from what is printed of it. -/
def IsLegible (x : ℚ) : Prop := ∃ e, Grammar.IsReadAs (superscript x) e ∧ IsReading x e

/-- The numerator that an exponent is printed with. -/
def printedNumerator (x : ℚ) : ℚ :=
  if |x - round x| ≤ Scalar.tolerance then round x else (closeFraction x maxPrintedDenominator).1

/-- The fraction that an exponent is printed as, without a denominator for a whole number. -/
structure IsPrintedFraction (x : ℚ) (n : ℤ) (d : Option ℕ) : Prop where
  plain : plainExponent x = Grammar.plainFraction n d
  numerator : printedNumerator x = n
  pos : 0 < d.getD 1
  le : d.getD 1 ≤ 10 ^ 6
  nearest : IsNearest x (d.getD 1) 0 (n / d.getD 1)
  close : |x - n / d.getD 1| ≤ Scalar.tolerance ∨
    |x - n / d.getD 1| ≤ 1 / (d.getD 1 * ((10 ^ 6 : ℕ) + 1))

lemma exists_isPrintedFraction (x : ℚ) : ∃ n d, IsPrintedFraction x n d := by
  by_cases hwhole : |x - round x| ≤ Scalar.tolerance
  · refine ⟨round x, none, ?_, by rw [printedNumerator, if_pos hwhole], Nat.one_pos, by norm_num,
      fun a b hb hle => ?_, .inl (by simpa using hwhole)⟩
    · simp only [plainExponent, round_rat, abs_rat, if_pos hwhole]
      rfl
    · obtain rfl : b = 1 := le_antisymm hle hb
      simpa using round_le x a
  · obtain ⟨n, d, heq, hclose⟩ := exists_isClose x (by norm_num : 1 ≤ 10 ^ 6)
    rw [← Grammar.maxPrintedDenominator_rat] at heq
    refine ⟨n, some d, ?_, by rw [printedNumerator, if_neg hwhole, heq], hclose.denominator_pos,
      hclose.denominator_le, hclose.nearest, ?_⟩
    · simp only [plainExponent, round_rat, abs_rat, if_neg hwhole, heq]
      rfl
    · have hsmall : (1 / 10 ^ 12 : ℚ) ≤ Scalar.tolerance := by
        rw [tolerance_rat]
        norm_num
      exact hclose.met_or_enclosed.imp (fun hmet => hmet.le.trans hsmall) And.left

/-- The closest number has the sign of what it is closest to. -/
lemma IsNearest.sign_eq {x y : ℚ} {bound : ℕ} (h : IsNearest x bound 0 y) (hbound : 0 < bound)
    (hy : y ≠ 0) : SignType.sign y = SignType.sign x := by
  have hzero := h 0 bound hbound le_rfl
  rw [Int.cast_zero, zero_div, sub_zero, add_zero] at hzero
  rcases lt_or_gt_of_ne hy with hneg | hpos
  · have hx : x < 0 := by
      by_contra hge
      rw [abs_of_nonneg (not_lt.mp hge), abs_of_pos (by linarith)] at hzero
      linarith
    rw [sign_neg hneg, sign_neg hx]
  · have hx : 0 < x := by
      by_contra hle
      rw [abs_of_nonpos (not_lt.mp hle), abs_of_neg (by linarith)] at hzero
      linarith
    rw [sign_pos hpos, sign_pos hx]

section Printed

variable {x : ℚ} {n : ℤ} {d : Option ℕ}

lemma IsPrintedFraction.one_le (h : IsPrintedFraction x n d) : (1 : ℚ) ≤ d.getD 1 := by
  exact_mod_cast h.pos

lemma IsPrintedFraction.abs_sub_le (h : IsPrintedFraction x n d) :
    |x - n / d.getD 1| ≤ Scalar.tolerance ∨ |x - n / d.getD 1| ≤ 1 / 1000001 := by
  refine h.close.imp id fun hle => hle.trans ?_
  have hone := h.one_le
  push_cast
  exact one_div_le_one_div_of_le (by norm_num) (by linarith)

/-- An exponent that counts is printed as zero if and only if it is too small for the largest
denominator. -/
lemma IsPrintedFraction.eq_zero_iff (h : IsPrintedFraction x n d) (hx : Scalar.tolerance < |x|) :
    n = 0 ↔ |x| ≤ 1 / 1000001 := by
  constructor
  · rintro rfl
    have hle := h.abs_sub_le
    rw [Int.cast_zero, zero_div, sub_zero] at hle
    exact hle.resolve_left (not_le.mpr hx)
  · intro hsmall
    have hround : round x = 0 := by
      obtain ⟨hlow, hhigh⟩ := abs_le.mp hsmall
      rw [round_eq_iff]
      constructor <;> push_cast <;> linarith
    have hzero : closeFraction x maxPrintedDenominator = (0, 1) := by
      rw [Grammar.maxPrintedDenominator_rat]
      refine closeFraction_eq_zero (by norm_num) (hsmall.trans ?_)
      norm_num
    have hn := h.numerator
    rw [printedNumerator, hround, Int.cast_zero, sub_zero, if_neg (not_le.mpr hx), hzero] at hn
    exact Int.cast_eq_zero.mp hn.symm

/-- Every fraction that an exponent is printed as, other than zero, is a reading of it. -/
lemma IsPrintedFraction.isReading (h : IsPrintedFraction x n d) (hn : n ≠ 0) :
    IsReading x ⟨n, d.getD 1, h.pos.ne'⟩ := by
  have hd : (0 : ℚ) < d.getD 1 := by exact_mod_cast h.pos
  have hvalue : ((⟨n, d.getD 1, h.pos.ne'⟩ : Exponent).value : ℚ) = n / d.getD 1 := rfl
  have hne : (n / d.getD 1 : ℚ) ≠ 0 := div_ne_zero (by exact_mod_cast hn) hd.ne'
  refine ⟨hvalue ▸ hne, hvalue ▸ h.nearest.sign_eq h.pos hne, ?_⟩
  rw [hvalue, abs_sub_comm]
  rcases h.abs_sub_le with hle | hle
  · rw [tolerance_rat] at hle
    exact hle.trans (by norm_num)
  · exact hle.trans (by norm_num)

lemma IsPrintedFraction.numerator_lt_iff (h : IsPrintedFraction x n d) :
    |printedNumerator x| < 10 ^ 21 ↔ n.natAbs < 10 ^ 21 := by
  rw [h.numerator, ← Int.cast_abs, Int.abs_eq_natAbs, Int.cast_natCast]
  exact_mod_cast Iff.rfl

/-- The numerators of numbers up to `10 ^ 14` are written in plain digits. -/
lemma IsPrintedFraction.abs_numerator_lt (h : IsPrintedFraction x n d) (hx : |x| ≤ 10 ^ 14) :
    |printedNumerator x| < 10 ^ 21 := by
  have hd : (0 : ℚ) < d.getD 1 := by exact_mod_cast h.pos
  have hle : (d.getD 1 : ℚ) ≤ 10 ^ 6 := by exact_mod_cast h.le
  have hclose : |x - n / d.getD 1| ≤ 1 := by
    have htolerance : (Scalar.tolerance : ℚ) ≤ 1 := tolerance_lt_one.le
    rcases h.abs_sub_le with hclose | hclose
    · exact hclose.trans htolerance
    · exact hclose.trans (by norm_num)
  have hquotient : |(n / d.getD 1 : ℚ)| ≤ 10 ^ 14 + 1 := by
    have htriangle := abs_sub_abs_le_abs_sub (n / d.getD 1 : ℚ) x
    rw [abs_sub_comm] at htriangle
    linarith
  have hproduct : |(n : ℚ)| = |(n / d.getD 1 : ℚ)| * d.getD 1 := by
    rw [abs_div, abs_of_pos hd, div_mul_cancel₀ _ hd.ne']
  rw [h.numerator, hproduct]
  calc |(n / d.getD 1 : ℚ)| * d.getD 1 ≤ (10 ^ 14 + 1) * 10 ^ 6 :=
        mul_le_mul hquotient hle hd.le (by norm_num)
    _ < 10 ^ 21 := by norm_num

open Grammar

/-- A numerator in plain digits makes the text a raised number. -/
lemma IsPrintedFraction.toList_superscript (h : IsPrintedFraction x n d) (hone : x ≠ 1)
    (hn : n.natAbs < 10 ^ 21) : (superscript x).toList = (Raised.ofFraction n d).text := by
  rw [superscript_of_ne_one hone, h.plain,
    map_raise_plainFraction hn (h.le.trans_lt (by norm_num))]

lemma IsPrintedFraction.isReadAs (h : IsPrintedFraction x n d) (hone : x ≠ 1)
    (hn : n.natAbs < 10 ^ 21) : IsReadAs (superscript x) ⟨n, d.getD 1, h.pos.ne'⟩ :=
  isReadAs_of_raised (h.toList_superscript hone hn) (Raised.exponent?_ofFraction h.pos.ne')

/-- A numerator with a power of ten keeps the text from being one. -/
lemma IsPrintedFraction.natAbs_lt (h : IsPrintedFraction x n d) (hone : x ≠ 1) {e : Exponent}
    (hread : IsReadAs (superscript x) e) : n.natAbs < 10 ^ 21 := by
  by_contra hlarge
  have htext := mem_text_intCast (not_lt.mp hlarge)
  have hplain : 'e' ∈ (plainFraction n d).toList := by
    cases d with
    | none => exact htext
    | some d =>
      unfold plainFraction
      rw [String.toList_append, String.toList_append, List.mem_append, List.mem_append]
      exact .inl (.inl htext)
  have hmem : 'e' ∈ (superscript x).toList := by
    rw [superscript_of_ne_one hone, h.plain]
    exact List.mem_map.mpr ⟨'e', hplain, rfl⟩
  exact absurd (hread.isWordChar hmem) (by decide)

end Printed

/-- **Which exponents are legible**: those that are not too small for the largest denominator, and
have a numerator in plain digits. -/
lemma isLegible_iff {x : ℚ} (hx : Scalar.tolerance < |x|) (hone : x ≠ 1) :
    IsLegible x ↔ 1 / 1000001 < |x| ∧ |printedNumerator x| < 10 ^ 21 := by
  obtain ⟨n, d, h⟩ := exists_isPrintedFraction x
  rw [h.numerator_lt_iff]
  constructor
  · rintro ⟨e, hread, hreading⟩
    have hlt := h.natAbs_lt hone hread
    refine ⟨not_le.mp fun hsmall => hreading.ne_zero ?_, hlt⟩
    obtain rfl := hread.unique (h.isReadAs hone hlt)
    show (n / d.getD 1 : ℚ) = 0
    rw [(h.eq_zero_iff hx).mpr hsmall, Int.cast_zero, zero_div]
  · rintro ⟨hlarge, hlt⟩
    exact ⟨_, h.isReadAs hone hlt,
      h.isReading fun hzero => absurd ((h.eq_zero_iff hx).mp hzero) (not_le.mpr hlarge)⟩

namespace Grammar

lemma lt_abs_of_mem_printedFactors {factors : List (String × ℚ)} {f : String × ℚ}
    (hf : f ∈ printedFactors factors) : Scalar.tolerance < |f.2| := by
  have hkept := (List.mem_filter.mp hf).2
  rw [Bool.not_eq_true', isNegligible, decide_eq_false_iff_not, abs_rat] at hkept
  exact not_le.mp hkept

/-- The exponent 1 is read where none is written. -/
lemma isReading_one : IsReading 1 .one := by
  have hone : (Exponent.one.value : ℚ) = 1 := by decide +kernel
  refine ⟨?_, ?_, ?_⟩ <;> rw [hone] <;> norm_num

/-- A factor with a legible exponent is derived as a term with a reading of it. -/
lemma exists_isPrintedAs {f : String × ℚ} (hbase : IsBase f.1) (hx : Scalar.tolerance < |f.2|)
    (hlegible : f.2 = 1 ∨ IsLegible f.2) :
    ∃ t, IsPrintedAs f t ∧ t.base = f.1 ∧ IsReading f.2 t.exponent := by
  by_cases hone : f.2 = 1
  · have htext : (superscript f.2).toList = Power.absent.text := by
      rw [hone]
      decide
    exact ⟨_, isPrintedAs_of_power hbase htext rfl, rfl, hone ▸ isReading_one⟩
  · obtain ⟨hlarge, hlt⟩ := (isLegible_iff hx hone).mp (hlegible.resolve_left hone)
    obtain ⟨n, d, h⟩ := exists_isPrintedFraction f.2
    have hdigits := h.numerator_lt_iff.mp hlt
    refine ⟨_, isPrintedAs_of_power (p := .raised ⟨[], by simp⟩ (Raised.ofFraction n d)) hbase
      (h.toList_superscript hone hdigits) (Raised.exponent?_ofFraction h.pos.ne'), rfl, ?_⟩
    exact h.isReading fun hzero => absurd ((h.eq_zero_iff hx).mp hzero) (not_le.mpr hlarge)

/-- **How much of a printed exponent can be read.** Of an exponent that counts and is not 1, a text
of one raised number is printed from which a number other than 0 is read, of its sign and within a
millionth, if and only if it is above `1 / 1000001` and its numerator below `10 ^ 21`; the latter
holds of all up to `10 ^ 14`. A product whose exponents are all legible is read back with its bases
and readings of its exponents. -/
theorem isLegible_superscript_iff {separator : String} (hseparator : separator ∈ [".", " . "])
    (empty : String) {factors : List (String × ℚ)} (hbase : ∀ f ∈ factors, IsBase f.1) :
    (∀ x : ℚ, 1 / 10 ^ 9 < |x| → x ≠ 1 →
      (IsLegible x ↔ 1 / 1000001 < |x| ∧ |printedNumerator x| < 10 ^ 21) ∧
        (|x| ≤ 10 ^ 14 → |printedNumerator x| < 10 ^ 21)) ∧
    (printedFactors factors ≠ [] → (∀ f ∈ printedFactors factors, f.2 = 1 ∨ IsLegible f.2) →
      ∃ text terms, printProduct separator empty factors = .ok text ∧
        parseTerms text = .ok terms ∧
        List.Forall₂ (fun f t => t.base = f.1 ∧ IsReading f.2 t.exponent)
          (printedFactors factors) terms) := by
  constructor
  · intro x hx hone
    rw [← tolerance_rat] at hx
    obtain ⟨n, d, h⟩ := exists_isPrintedFraction x
    exact ⟨isLegible_iff hx hone, h.abs_numerator_lt⟩
  · intro hne hlegible
    have hbases : ∀ f ∈ printedFactors factors, IsBase f.1 := fun f hf =>
      hbase f (List.mem_filter.mp hf).1
    obtain ⟨terms, hterms⟩ := exists_forall₂ fun f hf =>
      exists_isPrintedAs (hbases f hf) (lt_abs_of_mem_printedFactors hf) (hlegible f hf)
    refine ⟨_, terms, printProduct_of_isBase empty hbases,
      parseTerms_of_isPrintedAs empty (isSeparator_of_mem hseparator)
        (hterms.imp fun _ _ h => h.1) ?_, hterms.imp fun _ _ h => h.2⟩
    rintro rfl
    exact hne (List.forall₂_nil_right_iff.mp hterms)

/-- An exponent that is no fraction with a small denominator, the exponent 1, and one that does not
count. -/
theorem isLegible_superscript_root :
    IsLegible 1.41421356237 ∧
      ∃ text terms,
        printProduct "." "1" [("m", (1.41421356237 : ℚ)), ("s", 1 / 10 ^ 10), ("kg", 1)] =
          .ok text ∧
        parseTerms text = .ok terms ∧
        List.Forall₂ (fun f t => t.base = f.1 ∧ IsReading f.2 t.exponent)
          [("m", (1.41421356237 : ℚ)), ("kg", 1)] terms := by
  obtain ⟨hlegible, hproduct⟩ := isLegible_superscript_iff (show "." ∈ [".", " . "] by decide) "1"
    (show ∀ f ∈ [("m", (1.41421356237 : ℚ)), ("s", 1 / 10 ^ 10), ("kg", 1)], IsBase f.1 by
      decide +kernel)
  have habs : |(1.41421356237 : ℚ)| = 1.41421356237 := abs_of_pos (by norm_num)
  obtain ⟨hiff, hrange⟩ :=
    hlegible 1.41421356237 (by rw [habs]; norm_num) (by norm_num)
  have hroot := hiff.mpr ⟨by rw [habs]; norm_num, hrange (by rw [habs]; norm_num)⟩
  have hkept : printedFactors [("m", (1.41421356237 : ℚ)), ("s", 1 / 10 ^ 10), ("kg", 1)] =
      [("m", 1.41421356237), ("kg", 1)] := by decide +kernel
  rw [hkept] at hproduct
  refine ⟨hroot, hproduct (List.cons_ne_nil _ _) fun f hf => ?_⟩
  rcases List.mem_cons.mp hf with rfl | hf
  · exact .inr hroot
  · obtain rfl := List.mem_singleton.mp hf
    exact .inl rfl

/-- A small exponent comes to zero, and a large one is written with a power of ten. -/
theorem not_isLegible_superscript :
    superscript (9 / 10 ^ 7 : ℚ) = "⁰⁄¹" ∧ ¬IsLegible (9 / 10 ^ 7) ∧
      superscript (10 ^ 21 : ℚ) = "¹e⁺²¹" ∧ ¬IsLegible (10 ^ 21) := by
  refine ⟨by decide +kernel, ?_, by decide +kernel, ?_⟩
  · rw [isLegible_iff (by rw [tolerance_rat]; norm_num) (by norm_num)]
    norm_num
  · rw [isLegible_iff (by rw [tolerance_rat]; norm_num) (by norm_num)]
    have hnumerator : printedNumerator (10 ^ 21) = 10 ^ 21 := by decide +kernel
    rw [hnumerator]
    norm_num

end Grammar

end Metrology
