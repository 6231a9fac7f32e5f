import Mathlib
import Metrology.Expression.Printer
import Metrology.Proofs.Approximation
import Metrology.Proofs.Numeral
import Metrology.Proofs.Parsing
import Metrology.Proofs.Traversal

/-!
A printed product is read back as what was printed.

The text of an exponent is the raised number of the grammar that stands for it in lowest terms, and
a product whose bases are bases of the grammar is the text of a derivation, term by term.
-/

namespace Metrology

/-- An exponent in lowest terms. -/
def Exponent.ofRat (x : ℚ) : Exponent := ⟨x.num, x.den, x.den_ne_zero⟩

lemma Exponent.value_ofRat (x : ℚ) : (Exponent.ofRat x).value = x := Rat.num_div_den x

/-- Exponents that are printed exactly: the denominator is within the bound of what is printed, and
the numerator is written in plain digits. -/
def IsPrintable (x : ℚ) : Prop := x.den ≤ 10 ^ 6 ∧ x.num.natAbs < 10 ^ 21

instance (x : ℚ) : Decidable (IsPrintable x) :=
  inferInstanceAs (Decidable (x.den ≤ 10 ^ 6 ∧ x.num.natAbs < 10 ^ 21))

namespace Grammar

/-! ### Raised digits -/

lemma mem_digits {c : Char} (h : c.isDigit = true) :
    c ∈ ['0', '1', '2', '3', '4', '5', '6', '7', '8', '9'] := by
  simp only [Char.isDigit, Bool.and_eq_true, decide_eq_true_eq, UInt32.le_iff_toNat_le] at h
  change 48 ≤ c.toNat ∧ c.toNat ≤ 57 at h
  obtain ⟨hlow, hhigh⟩ := h
  rw [← Char.ofNat_toNat c]
  interval_cases c.toNat <;> decide

/-- Raising a digit keeps what it stands for. -/
lemma raise_digit {c : Char} (h : c.isDigit = true) :
    isSuperscriptDigit (raise c) = true ∧ raisedDigit (raise c) = plainDigit c := by
  have hmem := mem_digits h
  fin_cases hmem <;> decide

/-- The decimal digits of a number, raised. -/
def raisedDigits (n : ℕ) : Block isSuperscriptDigit where
  chars := (Nat.toDigits 10 n).map raise
  ne_nil := by simp [Nat.toDigits_ne_nil]
  all := by
    intro c hc
    obtain ⟨d, hd, rfl⟩ := List.mem_map.mp hc
    exact (raise_digit (Nat.isDigit_of_mem_toDigits (by norm_num) le_rfl hd)).1

lemma value_raisedDigits (n : ℕ) : (raisedDigits n).value raisedDigit = n := by
  have hdigits : ∀ c ∈ (Nat.toDigits 10 n).reverse, raisedDigit (raise c) = plainDigit c :=
    fun c hc => (raise_digit
      (Nat.isDigit_of_mem_toDigits (by norm_num) le_rfl (List.mem_reverse.mp hc))).2
  calc (raisedDigits n).value raisedDigit
      = Nat.ofDigits 10 ((Nat.toDigits 10 n).reverse.map plainDigit) := by
        unfold Block.value raisedDigits
        rw [← List.map_reverse, List.map_map]
        exact congrArg _ (List.map_congr_left hdigits)
    _ = digitsValue plainDigit (Nat.toDigits 10 n) := (digitsValue_eq _ _).symm
    _ = Nat.ofDigitChars 10 (Nat.toDigits 10 n) 0 := Nat.ofDigitChars_eq_foldl.symm
    _ = n := Nat.ofDigitChars_ten_toDigits

/-! ### Exponents -/

/-- The raised number of a fraction; without a denominator for a whole number. -/
def Raised.ofFraction (n : ℤ) (d : Option ℕ) : Raised where
  sign := if n < 0 then some true else none
  numerator := raisedDigits n.natAbs
  denominator := d.map raisedDigits

lemma Raised.exponent?_ofFraction {n : ℤ} {d : Option ℕ} (hd : d.getD 1 ≠ 0) :
    (Raised.ofFraction n d).exponent? = some ⟨n, d.getD 1, hd⟩ := by
  have hsign : ((Raised.ofFraction n d).sign.getD false) = decide (n < 0) := by
    unfold Raised.ofFraction
    by_cases h : n < 0 <;> simp [h]
  have hdenominator : ((Raised.ofFraction n d).denominator.map
      fun digits => digits.value raisedDigit).getD 1 = d.getD 1 := by
    unfold Raised.ofFraction
    cases d <;> simp [value_raisedDigits]
  have hnumerator : (if decide (n < 0) = true then -((n.natAbs : ℕ) : ℤ) else n.natAbs) = n := by
    simp only [decide_eq_true_eq]
    split_ifs <;> omega
  show Grammar.exponent? _ ((raisedDigits n.natAbs).value raisedDigit) _ = _
  rw [hsign, hdenominator, value_raisedDigits]
  unfold Grammar.exponent?
  rw [dif_neg hd]
  simp only [hnumerator]

/-- The raised number that stands for an exponent in lowest terms. -/
def Raised.ofRat (x : ℚ) : Raised where
  sign := if x.num < 0 then some true else none
  numerator := raisedDigits x.num.natAbs
  denominator := if x.den = 1 then none else some (raisedDigits x.den)

/-- The denominator of a rational in lowest terms, if it is not whole. -/
def denominator? (x : ℚ) : Option ℕ := if x.den = 1 then none else some x.den

lemma getD_denominator? (x : ℚ) : (denominator? x).getD 1 = x.den := by
  unfold denominator?
  split_ifs with h <;> simp [h]

lemma Raised.ofRat_eq (x : ℚ) : Raised.ofRat x = Raised.ofFraction x.num (denominator? x) := by
  unfold Raised.ofRat Raised.ofFraction denominator?
  split_ifs <;> rfl

/-- What is printed behind a base: nothing for the exponent 1. -/
def Power.ofRat (x : ℚ) : Power :=
  if x = 1 then .absent else .raised ⟨[], by simp⟩ (Raised.ofRat x)

lemma Power.exponent?_ofRat (x : ℚ) : (Power.ofRat x).exponent? = some (Exponent.ofRat x) := by
  unfold Power.ofRat
  split_ifs with hone
  · subst hone
    rfl
  · have hden : (denominator? x).getD 1 ≠ 0 := by
      rw [getD_denominator?]
      exact x.den_ne_zero
    show (Raised.ofRat x).exponent? = _
    rw [Raised.ofRat_eq, Raised.exponent?_ofFraction hden]
    simp only [Exponent.ofRat, getD_denominator?]

/-- The numeral of a whole number, raised. -/
lemma map_raise_text {n : ℤ} (h : n.natAbs < 10 ^ 21) :
    (Scalar.text (n : ℚ)).toList.map raise =
      Raised.signText (if n < 0 then some true else none) ++ (raisedDigits n.natAbs).chars := by
  rw [toList_text_intCast h]
  unfold signed
  by_cases hneg : n < 0
  · rw [if_pos (decide_eq_true hneg), if_pos hneg]
    rfl
  · rw [if_neg (by simpa using hneg), if_neg hneg]
    rfl

/-- A fraction in plain characters; without a denominator for a whole number. -/
def plainFraction (n : ℤ) : Option ℕ → String
  | none => Scalar.text (n : ℚ)
  | some d => Scalar.text (n : ℚ) ++ "/" ++ Scalar.text (d : ℚ)

lemma map_raise_plainFraction {n : ℤ} {d : Option ℕ} (hn : n.natAbs < 10 ^ 21)
    (hd : d.getD 1 < 10 ^ 21) :
    (plainFraction n d).toList.map raise = (Raised.ofFraction n d).text := by
  unfold Raised.text Raised.ofFraction
  cases d with
  | none => simp [plainFraction, map_raise_text hn, Raised.denominatorText]
  | some d =>
    have hbelow : (Scalar.text (d : ℚ)).toList.map raise = (raisedDigits d).chars := by
      have htext := map_raise_text (n := d) hd
      rw [if_neg (by omega)] at htext
      exact htext
    unfold plainFraction
    rw [String.toList_append, String.toList_append, List.map_append, List.map_append,
      map_raise_text hn, hbelow]
    simp [Raised.denominatorText, raise]

lemma one_div_den_le_abs {x : ℚ} (h : x ≠ 0) : 1 / (x.den : ℚ) ≤ |x| := by
  have hpos : (0 : ℚ) < x.den := by exact_mod_cast x.den_pos
  have hone : (1 : ℚ) ≤ |(x.num : ℚ)| := by
    exact_mod_cast Int.one_le_abs (Rat.num_ne_zero.mpr h)
  calc 1 / (x.den : ℚ) ≤ |(x.num : ℚ)| / x.den := div_le_div_of_nonneg_right hone hpos.le
    _ = |(x.num : ℚ) / x.den| := by rw [abs_div, abs_of_pos hpos]
    _ = |x| := by rw [Rat.num_div_den]

/-- A number with a small denominator is negligible only if it is 0. -/
lemma abs_le_tolerance_iff {x : ℚ} (h : x.den ≤ 10 ^ 6) : |x| ≤ Scalar.tolerance ↔ x = 0 := by
  constructor
  · intro hsmall
    by_contra hne
    have hpos : (0 : ℚ) < x.den := by exact_mod_cast x.den_pos
    have hbound : (1 : ℚ) / 10 ^ 6 ≤ 1 / x.den :=
      one_div_le_one_div_of_le hpos (by exact_mod_cast h)
    have htolerance : (Scalar.tolerance : ℚ) < 1 / 10 ^ 6 := by
      rw [tolerance_rat]
      norm_num
    have hle := (hbound.trans (one_div_den_le_abs hne)).trans hsmall
    exact absurd hle (not_le.mpr htolerance)
  · rintro rfl
    rw [abs_zero, tolerance_rat]
    norm_num

/-- Such a number is taken for a whole one only if it is one. -/
lemma abs_sub_round_le_iff {x : ℚ} (h : x.den ≤ 10 ^ 6) :
    |x - round x| ≤ Scalar.tolerance ↔ x.den = 1 := by
  have hden : (x - round x).den ≤ 10 ^ 6 := by rw [Rat.sub_intCast_den]; exact h
  rw [abs_le_tolerance_iff hden, sub_eq_zero]
  constructor
  · intro hround
    rw [hround, Rat.den_intCast]
  · intro hone
    rw [← Rat.coe_int_num_of_den_eq_one hone, round_intCast]

lemma isNegligible_iff {x : ℚ} (h : x.den ≤ 10 ^ 6) : isNegligible x = true ↔ x = 0 := by
  unfold isNegligible
  rw [decide_eq_true_iff, abs_rat, abs_le_tolerance_iff h]

lemma maxPrintedDenominator_rat : (maxPrintedDenominator : ℚ) = (10 ^ 6 : ℕ) := by
  unfold maxPrintedDenominator
  norm_num

/-- What is written of an exponent: its numerator, and its denominator unless that is 1. -/
lemma plainExponent_eq {x : ℚ} (h : IsPrintable x) :
    plainExponent x = plainFraction x.num (denominator? x) := by
  unfold plainExponent denominator?
  simp only [round_rat, abs_rat, abs_sub_round_le_iff h.1, maxPrintedDenominator_rat,
    closeFraction_eq h.1 h.1]
  by_cases hden : x.den = 1
  · have hround : ((round x : ℤ) : ℚ) = x.num := by
      conv_lhs => rw [← Rat.coe_int_num_of_den_eq_one hden, round_intCast]
    rw [if_pos hden, if_pos hden, hround]
    rfl
  · rw [if_neg hden, if_neg hden]
    rfl

lemma superscript_of_ne_one {x : ℚ} (h : x ≠ 1) :
    (superscript x).toList = (plainExponent x).toList.map raise := by
  unfold superscript
  rw [if_neg (by simpa using h), String.toList_ofList]

/-- **An exponent is printed as it is derived**: as the raised number that stands for it. -/
lemma toList_superscript {x : ℚ} (h : IsPrintable x) :
    (superscript x).toList = (Power.ofRat x).text := by
  unfold Power.ofRat
  by_cases hone : x = 1
  · simp [hone, superscript, Power.text]
  have hden : (denominator? x).getD 1 < 10 ^ 21 := by
    rw [getD_denominator?]
    exact h.1.trans_lt (by norm_num)
  rw [if_neg hone, superscript_of_ne_one hone, plainExponent_eq h,
    map_raise_plainFraction h.2 hden, ← Raised.ofRat_eq]
  rfl

/-! ### Products -/

/-- Whether a text is a single base. -/
def IsBase (s : String) : Prop := ∃ b : Base, b.text = s.toList

/-- A text is a base if the scan takes all of it for one. -/
lemma isBase_iff {s : String} : IsBase s ↔
    ∃ c cs, s.toList = c :: cs ∧ isWordChar c = true ∧ baseRest cs = cs := by
  constructor
  · rintro ⟨b, hb⟩
    obtain ⟨c, cs, htext, hc, hrest⟩ := b.exists_cons
    have hcs := hrest [] rfl
    rw [List.append_nil] at hcs
    exact ⟨c, cs, hb ▸ htext, hc, hcs⟩
  · rintro ⟨c, cs, hs, hc, hrest⟩
    obtain ⟨b, hb⟩ := exists_base hc cs
    exact ⟨b, by rw [hb, hrest, hs]⟩

instance (s : String) : Decidable (IsBase s) :=
  match h : s.toList with
  | [] => isFalse fun hbase => by
      obtain ⟨c, cs, hs, -⟩ := isBase_iff.mp hbase
      rw [h] at hs
      exact List.cons_ne_nil c cs hs.symm
  | c :: cs =>
    decidable_of_iff (isWordChar c = true ∧ baseRest cs = cs) <| by
      rw [isBase_iff]
      constructor
      · exact fun hc => ⟨c, cs, h, hc⟩
      · rintro ⟨c', cs', hs, hc⟩
        obtain ⟨rfl, rfl⟩ := List.cons.inj (h.symm.trans hs)
        exact hc

/-- No word of a base is a mark between terms. -/
lemma isCompound_of_isBase {s : String} (h : IsBase s) : isCompound s = false := by
  obtain ⟨b, hb⟩ := h
  have hword : ∀ c, isWordChar c = true → (c == '.' || c == '^') = false := by
    intro c hc
    obtain ⟨hdot, hcaret, -⟩ := isWordChar_iff.mp hc
    simp [hdot, hcaret]
  have hgap : ∀ c, isGap c = true → (c == '.' || c == '^') = false := by
    intro c hc
    rcases isGap_iff.mp hc with rfl | rfl <;> decide
  have hwords : ∀ ws : Words, ∀ c ∈ ws.text, (c == '.' || c == '^') = false := by
    intro ws
    induction ws with
    | nil => exact fun c hc => absurd hc List.not_mem_nil
    | cons gw ws ih =>
      intro c hc
      rw [Words.text, List.mem_append, List.mem_append] at hc
      rcases hc with hc | hc | hc
      · exact hgap c (gw.1.all c hc)
      · exact hword c (gw.2.all c hc)
      · exact ih c hc
  unfold isCompound
  rw [List.any_eq_false, ← hb]
  intro c hc
  rw [Bool.not_eq_true]
  rcases List.mem_append.mp hc with hc | hc
  · exact hword c (b.first.all c hc)
  · exact hwords b.more c hc

/-- What is printed between two terms: a dot, possibly between blanks. -/
def IsSeparator (s : String) : Prop :=
  ∃ before after : Blanks, s.toList = before.chars ++ '.' :: after.chars

lemma isSeparator_of_mem {s : String} (h : s ∈ [".", " . "]) : IsSeparator s := by
  simp only [List.mem_cons, List.not_mem_nil, or_false] at h
  have hspace : ∀ c ∈ [' '], isBlank c = true := by
    intro c hc
    obtain rfl := List.mem_singleton.mp hc
    decide
  rcases h with rfl | rfl
  · exact ⟨⟨[], by simp⟩, ⟨[], by simp⟩, rfl⟩
  · exact ⟨⟨[' '], hspace⟩, ⟨[' '], hspace⟩, rfl⟩

/-- The printed factors of a product, each a base with its exponent. -/
def printed (factor : String × ℚ) : String := factor.1 ++ superscript factor.2

/-- A factor of a product as a term. -/
def termOf (factor : String × ℚ) : Term := ⟨factor.1, .ofRat factor.2⟩

/-- Whether the text of a printed factor is derived as a term. -/
def IsPrintedAs (factor : String × ℚ) (t : Term) : Prop :=
  ∃ f : Factor, f.text = (printed factor).toList ∧ f.term? = some t

/-- A base with a power behind it is derived as a term. -/
lemma isPrintedAs_of_power {factor : String × ℚ} (hbase : IsBase factor.1) {p : Power}
    {e : Exponent} (htext : (superscript factor.2).toList = p.text) (he : p.exponent? = some e) :
    IsPrintedAs factor ⟨factor.1, e⟩ := by
  obtain ⟨b, hb⟩ := hbase
  refine ⟨⟨b, p⟩, ?_, ?_⟩
  · unfold Factor.text printed
    rw [String.toList_append, htext, hb]
  · unfold Factor.term?
    rw [he, Option.map_some, hb, String.ofList_toList]

/-- A factor that is printed exactly is derived as the term it stands for. -/
lemma isPrintedAs_termOf {factor : String × ℚ} (hbase : IsBase factor.1)
    (hprintable : IsPrintable factor.2) : IsPrintedAs factor (termOf factor) :=
  isPrintedAs_of_power hbase (toList_superscript hprintable) (Power.exponent?_ofRat _)

/-- The factors behind a first one are derived with the separators before them. -/
lemma exists_factors (before after : Blanks) {factors : List (String × ℚ)} {terms : List Term}
    (h : List.Forall₂ IsPrintedAs factors terms) :
    ∃ fs : Factors, fs.text = factors.flatMap (fun f =>
        (before.chars ++ '.' :: after.chars) ++ (printed f).toList) ∧
      fs.terms? = some terms := by
  induction h with
  | nil => exact ⟨[], rfl, rfl⟩
  | cons hfirst _ ih =>
    obtain ⟨f, hf, ht⟩ := hfirst
    obtain ⟨fs, htext, hterms⟩ := ih
    refine ⟨(before, after, f) :: fs, ?_, ?_⟩
    · simp [Factors.text, htext, hf]
    · simp [Factors.terms?, hterms, ht]

lemma toList_intercalate_cons (separator first : String) (rest : List String) :
    (separator.intercalate (first :: rest)).toList =
      first.toList ++ rest.flatMap fun s => separator.toList ++ s.toList := by
  rw [String.toList_intercalate, List.map_cons]
  induction rest generalizing first with
  | nil => simp
  | cons second rest ih =>
    rw [List.map_cons, List.intercalate_cons_cons, ih, List.flatMap_cons, List.append_assoc,
      List.append_assoc]

lemma printedFactors_eq {factors : List (String × ℚ)}
    (hprintable : ∀ f ∈ factors, IsPrintable f.2) :
    printedFactors factors = factors.filter fun f => f.2 ≠ 0 := by
  unfold printedFactors
  refine List.filter_congr fun f hf => ?_
  rw [Bool.eq_iff_iff, Bool.not_eq_true', decide_eq_true_iff, ← Bool.not_eq_true,
    isNegligible_iff (hprintable f hf).1]

section Product

variable {separator : String} (empty : String) {factors : List (String × ℚ)}

/-- **A printed product is read back** as the terms that its factors are derived as. -/
lemma parseTerms_of_isPrintedAs (hseparator : IsSeparator separator) {terms : List Term}
    (h : List.Forall₂ IsPrintedAs (printedFactors factors) terms) (hne : terms ≠ []) :
    parseTerms (printPlain separator empty factors) = .ok terms := by
  obtain ⟨before, after, hseparator⟩ := hseparator
  unfold printPlain
  generalize printedFactors factors = kept at h ⊢
  cases h with
  | nil => exact absurd rfl hne
  | @cons factor t rest ts hfirst hrest =>
    obtain ⟨f, hf, ht⟩ := hfirst
    obtain ⟨fs, hfs, hts⟩ := exists_factors before after hrest
    refine parseTerms_of_terms? ⟨⟨[], by simp⟩, f, fs, ⟨[], by simp⟩⟩ ?_ ?_
    · simp [Derivation.terms?, ht, hts]
    · show [] ++ (f.text ++ (fs.text ++ [])) = _
      rw [List.nil_append, List.append_nil, hf, hfs]
      show _ = (separator.intercalate (printed factor :: rest.map printed)).toList
      rw [toList_intercalate_cons, List.flatMap_map, hseparator]

/-- No base of the grammar is taken for an expression. -/
lemma printProduct_of_isBase (h : ∀ f ∈ printedFactors factors, IsBase f.1) :
    printProduct separator empty factors = .ok (printPlain separator empty factors) := by
  have hfactor : ∀ f ∈ printedFactors factors, (do
      let base ← printBase ℚ f.1
      return base ++ superscript f.2 : Except (String × ParseProblem) String) =
        .ok (printed f) := by
    intro f hf
    unfold printBase
    rw [isCompound_of_isBase (h f hf)]
    rfl
  unfold printProduct
  rw [mapM_eq_ok hfactor]
  rfl

variable (hprintable : ∀ f ∈ factors, IsPrintable f.2) (hbase : ∀ f ∈ factors, f.2 ≠ 0 → IsBase f.1)

include hprintable hbase in
lemma isBase_of_mem_printedFactors : ∀ f ∈ printedFactors factors, IsBase f.1 := by
  intro f hf
  rw [printedFactors_eq hprintable] at hf
  obtain ⟨hmem, hzero⟩ := List.mem_filter.mp hf
  exact hbase f hmem (of_decide_eq_true hzero)

include hprintable hbase in
/-- A product with exponents that are printed exactly is read back factor by factor, without those
that are 0. -/
lemma parseTerms_printPlain (hseparator : IsSeparator separator)
    (hne : ∃ f ∈ factors, f.2 ≠ 0) : parseTerms (printPlain separator empty factors) =
      .ok ((factors.filter fun f => f.2 ≠ 0).map termOf) := by
  have hbases := isBase_of_mem_printedFactors hprintable hbase
  refine parseTerms_of_isPrintedAs empty hseparator ?_ fun hnil => ?_
  · rw [printedFactors_eq hprintable] at hbases ⊢
    refine List.forall₂_map_right_iff.mpr (List.forall₂_same.mpr fun f hf => ?_)
    exact isPrintedAs_termOf (hbases f hf) (hprintable f (List.mem_filter.mp hf).1)
  · obtain ⟨f, hf, hzero⟩ := hne
    have hmem : f ∈ factors.filter (fun f => f.2 ≠ 0) :=
      List.mem_filter.mpr ⟨hf, decide_eq_true hzero⟩
    rw [List.map_eq_nil_iff.mp hnil] at hmem
    exact absurd hmem List.not_mem_nil

include hprintable hbase in
lemma printProduct_eq_printPlain :
    printProduct separator empty factors = .ok (printPlain separator empty factors) :=
  printProduct_of_isBase empty (isBase_of_mem_printedFactors hprintable hbase)

end Product

/-- **Reading undoes printing**: a product of bases with exponents that are printed exactly, not all
of them 0, is printed alike whether bases may be expressions or not, and is read back as its bases
with the exponents that are not 0, in their order. -/
theorem parseTerms_printProduct {separator : String} (hseparator : separator ∈ [".", " . "])
    (empty : String) {factors : List (String × ℚ)} (hbase : ∀ f ∈ factors, IsBase f.1)
    (hprintable : ∀ f ∈ factors, IsPrintable f.2) (hne : ∃ f ∈ factors, f.2 ≠ 0) :
    printProduct separator empty factors = .ok (printPlain separator empty factors) ∧
      ∃ terms, parseTerms (printPlain separator empty factors) = .ok terms ∧
        terms.map (fun t => (t.base, t.exponent.value)) = factors.filter fun f => f.2 ≠ 0 := by
  have hkept : ∀ f ∈ factors, f.2 ≠ 0 → IsBase f.1 := fun f hf _ => hbase f hf
  refine ⟨printProduct_eq_printPlain empty hprintable hkept, _,
    parseTerms_printPlain empty hprintable hkept (isSeparator_of_mem hseparator) hne, ?_⟩
  rw [List.map_map]
  conv_rhs => rw [← List.map_id (factors.filter fun f => f.2 ≠ 0)]
  refine List.map_congr_left fun f _ => ?_
  exact Prod.ext rfl (Exponent.value_ofRat f.2)

/-- A name of two words, a fraction, a factor that is 0, the exponent 1 and a denominator close to
the bound. -/
theorem parseTerms_printProduct_celsius :
    ∃ terms, parseTerms (printPlain " . " "unitless"
        [("degree Celsius", (-3 / 2 : ℚ)), ("m", 0), ("kg", 1), ("s", 1 / 999983)]) = .ok terms ∧
      terms.map (fun t => (t.base, t.exponent.value)) =
        [("degree Celsius", (-3 / 2 : ℚ)), ("kg", 1), ("s", 1 / 999983)] := by
  obtain ⟨-, terms, hparse, hterms⟩ := parseTerms_printProduct
    (show " . " ∈ [".", " . "] by decide) "unitless"
    (show ∀ f ∈ [("degree Celsius", (-3 / 2 : ℚ)), ("m", 0), ("kg", 1), ("s", 1 / 999983)],
      IsBase f.1 by decide +kernel)
    (by decide +kernel) ⟨("kg", 1), by decide +kernel, by decide⟩
  exact ⟨terms, hparse, hterms.trans (by decide +kernel)⟩

end Grammar

end Metrology
