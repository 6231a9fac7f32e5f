import Mathlib
import Metrology.Proofs.Failures
import Metrology.Proofs.NonFinite

/-!
What becomes of a document: a registry, a problem of its data, or a unit out of range.

Units are generated from data that have been checked. A generated unit has trimmed texts again, so
that it would pass the same checks if and only if its factor is finite and its exponent in range,
and a dimension with such units behind its own passes them too. Rules are expanded one after the
other, prefix by prefix, up to the first fault; if that is a unit out of range, it is no problem of
the data that is reported.
-/

namespace Metrology

variable {α : Type}

/-! ### Generated units are valid -/

lemma isTrimmed_append {s t : String} (hs : isTrimmed s = true) (ht : isTrimmed t = true) :
    isTrimmed (s ++ t) = true := by
  simp only [isTrimmed, Bool.and_eq_true, Option.any_eq_true] at hs ht ⊢
  obtain ⟨⟨first, hfirst, hblank⟩, -⟩ := hs
  obtain ⟨-, last, hlast, hblank'⟩ := ht
  refine ⟨⟨first, ?_, hblank⟩, last, ?_, hblank'⟩
  · rw [String.toList_append, List.head?_append, hfirst, Option.some_or]
  · rw [String.toList_append, List.getLast?_append, hlast, Option.some_or]

section Valid

variable [Scalar α]

/-- Of what a prefix makes of a unit, only the factor and the exponent can be at fault. -/
lemma UnitDefinition.isValid_withPrefix_iff {base : UnitDefinition α} {metric : MetricPrefix}
    (hbase : base.IsValid) (hmetric : metric.IsValid) :
    (base.withPrefix metric).IsValid ↔ (base.withPrefix metric).isSound = true := by
  rw [isSound, Bool.and_eq_true]
  refine ⟨fun h => ⟨h.conversionFactor, h.prefixExponent⟩, fun h => ?_⟩
  exact ⟨isTrimmed_append hmetric.key hbase.key, isTrimmed_append hmetric.name hbase.name,
    isTrimmed_append hmetric.symbol hbase.symbol, h.1, h.2⟩

lemma DimensionDefinition.isValid_extended {d : DimensionDefinition α} (hd : d.IsValid)
    {additions : List (String × List (UnitDefinition α))}
    (h : ∀ addition ∈ additions, ∀ u ∈ addition.2, u.IsValid) : (d.extended additions).IsValid where
  key := hd.key
  name := hd.name
  symbol := hd.symbol
  primaryExponents := hd.primaryExponents
  units := by
    refine List.forall_mem_append.mpr ⟨hd.units, fun u hu => ?_⟩
    obtain ⟨addition, haddition, hmem⟩ := List.mem_flatMap.mp hu
    exact h addition (List.mem_filter.mp haddition).1 u hmem
  complete := ⟨hd.complete.1, List.append_ne_nil_of_left_ne_nil hd.complete.2 _⟩

end Valid

/-! ### The first fault of the rules -/

namespace RegistryData

variable [Scalar α] (data : RegistryData α)

/-- Whether a rule is for a unit: the first of its key, in the first dimension of its key. -/
def IsFor (rule : PrefixRule) (base : UnitDefinition α) : Prop :=
  ∃ d, (data.dimensions.find? fun d => d.key == rule.dimension) = some d ∧
    (d.units.find? fun unit => unit.key == rule.unit) = some base

/-- Whether a prefix is known and makes a unit in range of another. -/
def Fits (base : UnitDefinition α) (key : String) : Prop :=
  ∃ metric, data.prefixByKey? key = some metric ∧ (base.withPrefix metric).isSound = true

/-- Whether a prefix is known and makes a unit out of range of another. -/
def Overreaches (base : UnitDefinition α) (key : String) : Prop :=
  ∃ metric, data.prefixByKey? key = some metric ∧ (base.withPrefix metric).isSound = false

/-- Whether the first fault of the prefix rules is a unit that is out of range: the rules before it
and the prefixes before it, in its own rule, are without fault. -/
def MakesUnsound : Prop :=
  ∃ before rule after, data.prefixedUnits = before ++ rule :: after ∧
    (∀ earlier ∈ before, ∃ base, data.IsFor earlier base ∧
      ∀ key ∈ earlier.prefixes, data.Fits base key) ∧
    ∃ base, data.IsFor rule base ∧ ∃ keys key later, rule.prefixes = keys ++ key :: later ∧
      (∀ earlier ∈ keys, data.Fits base earlier) ∧ data.Overreaches base key

lemma isFor_or_generated (rule : PrefixRule) : (∃ base, data.IsFor rule base) ∨
    ∃ problem, data.generated rule = .error (.invalid problem) := by
  rcases hd : data.dimensions.find? fun d => d.key == rule.dimension with _ | d
  · exact .inr ⟨.ruleDimension rule.dimension, by rw [generated, hd]⟩
  · rcases hbase : d.units.find? fun unit => unit.key == rule.unit with _ | base
    · exact .inr ⟨.ruleUnit rule.unit rule.dimension, by rw [generated, hd]; dsimp only; rw [hbase]⟩
    · exact .inl ⟨base, d, hd, hbase⟩

variable {data} {base : UnitDefinition α} {rule : PrefixRule}

lemma exists_variant_iff {key : String} :
    (∃ unit, data.variant base key = .ok unit) ↔ data.Fits base key := by
  simp [variant_eq_ok_iff, Fits]

lemma variant_eq_generatedUnit_iff {key : String} :
    data.variant base key = .error .generatedUnit ↔ data.Overreaches base key := by
  unfold variant Overreaches
  rcases data.prefixByKey? key with _ | metric
  · simp
  · by_cases h : (base.withPrefix metric).isSound = true <;> simp [h]

lemma generated_of_isFor (h : data.IsFor rule base) :
    data.generated rule = rule.prefixes.mapM (data.variant base) := by
  obtain ⟨d, hd, hbase⟩ := h
  rw [generated, hd, ← variants_eq_mapM]
  dsimp only
  rw [hbase]

lemma generated_eq_ok_iff : (∃ units, data.generated rule = .ok units) ↔
    ∃ base, data.IsFor rule base ∧ ∀ key ∈ rule.prefixes, data.Fits base key := by
  have hfits {base : UnitDefinition α} (hbase : data.IsFor rule base) :
      (∃ units, data.generated rule = .ok units) ↔ ∀ key ∈ rule.prefixes, data.Fits base key := by
    rw [generated_of_isFor hbase, exists_mapM_eq_ok_iff]
    exact forall₂_congr fun _ _ => exists_variant_iff
  constructor
  · intro hok
    rcases data.isFor_or_generated rule with ⟨base, hbase⟩ | ⟨problem, hproblem⟩
    · exact ⟨base, hbase, (hfits hbase).mp hok⟩
    · obtain ⟨units, hunits⟩ := hok
      exact absurd (hunits.symm.trans hproblem) (by simp)
  · rintro ⟨base, hbase, hall⟩
    exact (hfits hbase).mpr hall

lemma generated_eq_generatedUnit_iff : data.generated rule = .error .generatedUnit ↔
    ∃ base, data.IsFor rule base ∧ ∃ keys key later, rule.prefixes = keys ++ key :: later ∧
      (∀ earlier ∈ keys, data.Fits base earlier) ∧ data.Overreaches base key := by
  have hfails {base : UnitDefinition α} (hbase : data.IsFor rule base) :
      data.generated rule = .error .generatedUnit ↔ ∃ keys key later,
        rule.prefixes = keys ++ key :: later ∧
        (∀ earlier ∈ keys, data.Fits base earlier) ∧ data.Overreaches base key := by
    simp only [generated_of_isFor hbase, mapM_eq_error_iff, exists_variant_iff,
      variant_eq_generatedUnit_iff]
  constructor
  · intro herror
    rcases data.isFor_or_generated rule with ⟨base, hbase⟩ | ⟨problem, hproblem⟩
    · exact ⟨base, hbase, (hfails hbase).mp herror⟩
    · exact absurd (herror.symm.trans hproblem) (by simp)
  · rintro ⟨base, hbase, hfault⟩
    exact (hfails hbase).mpr hfault

lemma addition_eq_ok_iff : (∃ units, data.addition rule = .ok units) ↔
    ∃ units, data.generated rule = .ok units := by
  unfold addition
  cases data.generated rule <;> simp [Except.map]

lemma addition_eq_error_iff {e : BuildError} :
    data.addition rule = .error e ↔ data.generated rule = .error e := by
  unfold addition
  cases data.generated rule <;> simp [Except.map]

lemma additions_eq_generatedUnit_iff :
    data.additions data.prefixedUnits = .error .generatedUnit ↔ data.MakesUnsound := by
  simp only [additions_eq_mapM, mapM_eq_error_iff, addition_eq_ok_iff, addition_eq_error_iff,
    generated_eq_ok_iff, generated_eq_generatedUnit_iff, MakesUnsound]

end RegistryData

/-! ### What is built -/

section Decode

variable [Scalar α] {data : RegistryData α} {document : Datum α}

omit [Scalar α] in
lemma RegistryData.mem_of_prefixByKey? {key : String} {metric : MetricPrefix}
    (h : data.prefixByKey? key = some metric) : metric ∈ data.prefixes := by
  rw [prefixByKey?, List.findRev?_eq_find?_reverse] at h
  exact List.mem_reverse.mp (List.mem_of_find?_eq_some h)

lemma RegistryData.isValid_of_isFor (hdata : data.IsValid) {rule : PrefixRule}
    {base : UnitDefinition α} (h : data.IsFor rule base) : base.IsValid := by
  obtain ⟨d, hd, hbase⟩ := h
  exact (hdata.dimensions d (List.mem_of_find?_eq_some hd)).units base
    (List.mem_of_find?_eq_some hbase)

lemma RegistryData.isValid_of_generated (hdata : data.IsValid) {rule : PrefixRule}
    {units : List (UnitDefinition α)} (h : data.generated rule = .ok units) :
    ∀ u ∈ units, u.IsValid := by
  obtain ⟨base, hbase, -⟩ := generated_eq_ok_iff.mp ⟨units, h⟩
  rw [generated_of_isFor hbase] at h
  intro u hu
  obtain ⟨key, -, hkey⟩ := exists_of_forall₂ (forall₂_of_mapM h).flip hu
  obtain ⟨metric, hmetric, hsound, rfl⟩ := variant_eq_ok_iff.mp hkey
  exact (UnitDefinition.isValid_withPrefix_iff (isValid_of_isFor hdata hbase)
    (hdata.prefixes metric (mem_of_prefixByKey? hmetric))).mpr hsound

lemma RegistryData.isValid_of_additions (hdata : data.IsValid) {rules : List PrefixRule}
    {additions : List (String × List (UnitDefinition α))}
    (h : data.additions rules = .ok additions) :
    ∀ addition ∈ additions, ∀ u ∈ addition.2, u.IsValid := by
  rw [additions_eq_mapM] at h
  intro addition haddition
  obtain ⟨rule, -, hrule⟩ := exists_of_forall₂ (forall₂_of_mapM h).flip haddition
  obtain ⟨units, hunits, rfl⟩ := exists_of_map_eq_ok (hrule : (data.generated rule).map _ = _)
  exact isValid_of_generated hdata hunits

namespace Registry

lemma build_eq_generatedUnit_iff : build data = .error .generatedUnit ↔
    RegistryData.primaryProblem? data.primary = none ∧ data.MakesUnsound := by
  rw [← RegistryData.additions_eq_generatedUnit_iff, build]
  rcases RegistryData.primaryProblem? data.primary with _ | problem
  · rcases data.additions data.prefixedUnits with e | additions
    · simp
    · dsimp only
      rcases (ofData data additions).problem? with _ | problem <;> simp
  · simp

/-- **The error that is no problem of the data**: a unit out of range is the first fault of the
prefix rules, and the document and its primary dimensions are without one. -/
lemma decode_eq_generatedUnit_iff : decode document = .error .generatedUnit ↔
    ∃ data, document.registryData? = some data ∧
      RegistryData.primaryProblem? data.primary = none ∧ data.MakesUnsound := by
  rw [decode]
  rcases document.registryData? with _ | data
  · simp
  · simp [build_eq_generatedUnit_iff]

lemma decode_ne_generatedUnit_iff : decode document ≠ .error .generatedUnit ↔
    (∃ r, decode document = .ok r) ∨ ∃ problem, decode document = .error (.invalid problem) := by
  rcases decode document with (problem | _) | r <;> simp

end Registry

end Decode

/-! ### Doubles -/

namespace Double

/-- Safe integers are doubles. -/
lemma isNumber_ofInt {n : ℤ} (hn : |n| ≤ 2 ^ 53) : IsNumber (Scalar.ofInt n) n := by
  have hnatAbs : |(n.natAbs : ℤ)| ≤ 2 ^ 53 := by rwa [Int.natCast_natAbs, abs_abs]
  obtain ⟨u, hu, hcanonical, hrounds⟩ := ofScientific_spec n.natAbs
  have hsmall : |(n.natAbs : ℚ)| ≤ 2 ^ 64 := by
    exact_mod_cast hnatAbs.trans (by norm_num : (2 : ℤ) ^ 53 ≤ 2 ^ 64)
  have hnumber := isNumber_ofModel hcanonical (hrounds.abs_lt_iff.mpr (inRange_of_abs_le hsmall))
  have hrepresentable : IsRepresentable (n.natAbs : ℚ) := by
    simpa using isRepresentable_intCast hnatAbs
  rw [hrounds.eq hrepresentable, ← hu] at hnumber
  show IsNumber (if n < 0 then -Float.ofScientific n.natAbs false 0
    else Float.ofScientific n.natAbs false 0) n
  split_ifs with hsign
  · have hneg := hnumber.neg
    rwa [Nat.cast_natAbs, abs_of_neg hsign, Int.cast_neg, neg_neg] at hneg
  · rwa [Nat.cast_natAbs, abs_of_nonneg (not_lt.mp hsign)] at hnumber

lemma keepsIntegers : Datum.KeepsIntegers Float := by
  intro n hn
  have hbound : |n| ≤ 2 ^ 53 := by
    have hsafe : n.natAbs ≤ 9007199254740991 := of_decide_eq_true hn
    rw [Int.abs_eq_natAbs]
    omega
  have hnumber := isNumber_ofInt hbound
  have hfinite : (Datum.ofInt n : Datum Float).finite? = some (Scalar.ofInt n) :=
    Datum.finite?_number hnumber.isFinite
  have hint : Scalar.toInt? (Scalar.ofInt n : Float) = some n := by
    rw [Scalar.toInt?, hnumber.toRat?]
    simp
  simp [Datum.safeInteger?, hfinite, hint, hn]

end Double

namespace Registry

/-- **What becomes of a document.** A registry is built or a problem of the data is reported, unless
the first fault is a generated unit that is out of range. Nothing else that is made of the data can
fail a check that the data have passed: what a prefix makes of a unit can be read back as a unit if
and only if its factor is finite and its exponent is in range, and a dimension with the units that
the rules add to it can always be read back as a dimension. -/
theorem decode_outcome (document : Datum Float) :
    (((∃ r, decode document = .ok r) ∨ ∃ problem, decode document = .error (.invalid problem)) ↔
      ¬ ∃ data, document.registryData? = some data ∧
        RegistryData.primaryProblem? data.primary = none ∧ data.MakesUnsound) ∧
    ∀ data, document.registryData? = some data →
      (∀ rule base, data.IsFor rule base → ∀ key metric, data.prefixByKey? key = some metric →
        ((base.withPrefix metric).toDatum.unitDefinition? = some (base.withPrefix metric) ↔
          Scalar.isFinite (base.withPrefix metric).conversionFactor = true ∧
            (base.prefixExponent + metric.exponent).natAbs ≤ maxSafeInteger)) ∧
      ∀ additions, data.additions data.prefixedUnits = .ok additions → ∀ d ∈ data.dimensions,
        (d.extended additions).toDatum.dimensionDefinition? = some (d.extended additions) := by
  refine ⟨?_, fun data hdata => ⟨?_, ?_⟩⟩
  · rw [← decode_ne_generatedUnit_iff, Ne, decode_eq_generatedUnit_iff]
  · intro rule base hbase key metric hmetric
    have hvalid := Datum.isValid_of_registryData? hdata
    have hiff := UnitDefinition.isValid_withPrefix_iff
      (RegistryData.isValid_of_isFor hvalid hbase)
      (hvalid.prefixes metric (RegistryData.mem_of_prefixByKey? hmetric))
    rw [UnitDefinition.isSound, Bool.and_eq_true, isSafeInteger, decide_eq_true_iff] at hiff
    exact ⟨fun h => hiff.mp (Datum.isValid_of_unitDefinition? h),
      fun h => Datum.unitDefinition?_toDatum Double.keepsIntegers (hiff.mpr h)⟩
  · intro additions hadditions d hd
    have hvalid := Datum.isValid_of_registryData? hdata
    exact Datum.dimensionDefinition?_toDatum Double.keepsIntegers
      (DimensionDefinition.isValid_extended (hvalid.dimensions d hd)
        (RegistryData.isValid_of_additions hvalid hadditions))

/-- Valid data are read back, so only what is built of them counts. -/
lemma decode_toDatum {data : RegistryData Float} (h : data.IsValid) :
    decode data.toDatum = build data :=
  decode_eq_build (Datum.registryData?_toDatum Double.keepsIntegers h)

namespace Bundled

/-- An are whose exponent is as large as exponents can be. -/
def extremeAre : UnitDefinition Float := ⟨"are", "are", "a", 100, maxSafeInteger⟩

/-- The primary dimensions and an area, with a rule for the are. -/
def extremeData : RegistryData Float :=
  { primaryData with
    derived := [⟨"area", "area", "A", [0, 2, 0, 0, 0, 0, 0], [extremeAre]⟩]
    prefixes := [⟨"deca", "deca", "da", 1⟩]
    prefixedUnits := [⟨"area", "are", ["deca"]⟩] }

lemma isValid_extremeData : extremeData.IsValid where
  primary := isValid_primaryData.primary
  derived := List.forall_mem_singleton.mpr (DimensionDefinition.isValid_of_toDatum (by decide))
  prefixes := List.forall_mem_singleton.mpr ⟨by decide, by decide, by decide, by decide⟩
  prefixedUnits := List.forall_mem_singleton.mpr ⟨by decide, by decide, by decide⟩
  constants := isValid_primaryData.constants

lemma registryData?_extremeData : extremeData.toDatum.registryData? = some extremeData :=
  Datum.registryData?_toDatum Double.keepsIntegers isValid_extremeData

lemma primaryProblem?_extremeData : RegistryData.primaryProblem? extremeData.primary = none :=
  (build_eq_ok_iff.mp build_primaryData).1

lemma makesUnsound_extremeData : extremeData.MakesUnsound := by
  refine ⟨[], ⟨"area", "are", ["deca"]⟩, [], rfl, by simp, extremeAre, ?_, [], "deca", [], rfl,
    by simp, ⟨"deca", "deca", "da", 1⟩, by decide, ?_⟩
  · exact ⟨⟨"area", "area", "A", [0, 2, 0, 0, 0, 0, 0], [extremeAre]⟩, by decide,
      by decide⟩
  · -- whatever its factor is
    exact Bool.and_eq_false_imp.mpr fun _ => by decide

end Bundled

open Bundled

theorem decode_outcome_extreme : ¬((∃ r, decode extremeData.toDatum = .ok r) ∨
    ∃ problem, decode extremeData.toDatum = .error (.invalid problem)) :=
  fun h => (decode_outcome extremeData.toDatum).1.mp h
    ⟨extremeData, registryData?_extremeData, primaryProblem?_extremeData, makesUnsound_extremeData⟩

/-- Not every document makes a registry or has a problem that is reported. -/
theorem not_decode_outcome : ¬ ∀ document : Datum Float, (∃ r, decode document = .ok r) ∨
    ∃ problem, decode document = .error (.invalid problem) := by
  intro h
  exact decode_ne_generatedUnit_iff.mpr (h extremeData.toDatum) (decode_eq_generatedUnit_iff.mpr
    ⟨extremeData, registryData?_extremeData, primaryProblem?_extremeData, makesUnsound_extremeData⟩)

end Registry

end Metrology
