import Mathlib
import Metrology.Proofs.SiArithmetic

/-!
What a prefix rule does to conversion.

A rule multiplies the registered factor of a unit by the power of ten of the prefix. Conversion
reads this factor as an offset for a unit of temperature, and skips it if it is 0; only for the
units that are left does the prefix scale the unit.
-/

namespace Metrology

open ExponentVector

/-! ### Entries -/

namespace Registry

section Entries

variable {α : Type} [Scalar α] {r : Registry α}

/-- A unit of a dimension of the data is an entry of the table, in this dimension. -/
lemma LaidOut.exists_entry {data : RegistryData α} (h : r.LaidOut (definitions data)) {j : ℕ}
    {d : DimensionDefinition α} (hd : data.dimensions[j]? = some d) {u : UnitDefinition α}
    (hu : u ∈ data.unitsWithRules d) : ∃ e ∈ r.units, e.definition = u ∧ e.dimensionIndex = j ∧
      e.isTemperature = (d.key == temperatureKey) := by
  have hdefinition : (definitions data)[j]? = some (d.extended
      (data.prefixedUnits.map fun rule => (rule.dimension, data.unitsOf rule))) := by
    rw [definitions, List.getElem?_map, hd, Option.map_some]
  have hfilter : ((layOut 0 0 (definitions data)).2.filter
      fun u => u.dimensionIndex == 0 + j).map UnitEntry.definition = _ :=
    filter_units_layOut hdefinition
  rw [units_extended, Nat.zero_add] at hfilter
  rw [← hfilter] at hu
  obtain ⟨e, he, rfl⟩ := List.mem_map.mp hu
  obtain ⟨hmem, hdimension⟩ := List.mem_filter.mp he
  have hdimension : e.dimensionIndex = j := beq_iff_eq.mp hdimension
  refine ⟨e, h.units_eq ▸ hmem, rfl, hdimension, ?_⟩
  exact isTemperature_of_mem_layOut hdefinition hmem (by rw [hdimension, Nat.zero_add])

/-- The entries that a rule and one of its prefixes lead to: the unit it names, and that unit with
the prefix. -/
structure PrefixedEntries (data : RegistryData α) (r : Registry α) (rule : PrefixRule)
    (metric : MetricPrefix) (g b : UnitEntry α) : Prop where
  generated_mem : g ∈ r.units
  base_mem : b ∈ r.units
  /-- The base is the first unit with the key in the first dimension with the key. -/
  base : ∃ d, (data.dimensions.find? fun d => d.key == rule.dimension) = some d ∧
    (d.units.find? fun unit => unit.key == rule.unit) = some b.definition
  generated : g.definition = b.definition.withPrefix metric
  same_dimension : g.dimensionIndex = b.dimensionIndex
  generated_isTemperature : g.isTemperature = (rule.dimension == temperatureKey)
  base_isTemperature : b.isTemperature = (rule.dimension == temperatureKey)

/-- Every prefix that a rule lists has its entry. -/
lemma exists_prefixedEntries {document : Datum α} (h : decode document = .ok r)
    {data : RegistryData α} (hdata : document.registryData? = some data) {rule : PrefixRule}
    (hrule : rule ∈ data.prefixedUnits) {key : String} (hkey : key ∈ rule.prefixes) :
    ∃ metric g b, data.prefixByKey? key = some metric ∧ PrefixedEntries data r rule metric g b := by
  obtain ⟨data', hdata', hgenerates, hlaid⟩ := exists_laidOut_of_decode h
  obtain rfl : data' = data := Option.some.inj (hdata'.symm.trans hdata)
  obtain ⟨d, base, hd, hbase, hunits⟩ := hgenerates rule hrule
  obtain ⟨u, hu, metric, hmetric, rfl⟩ := exists_of_forall₂ hunits hkey
  have hdimension : d.key = rule.dimension := by simpa using List.find?_some hd
  obtain ⟨j, hj⟩ := List.mem_iff_getElem?.mp (List.mem_of_find?_eq_some hd)
  have hown : base ∈ data'.unitsWithRules d :=
    List.mem_append_left _ (List.mem_of_find?_eq_some hbase)
  have hadded : base.withPrefix metric ∈ data'.unitsWithRules d := by
    refine List.mem_append_right _ (List.mem_flatMap.mpr ⟨rule, ?_, hu⟩)
    exact List.mem_filter.mpr ⟨hrule, beq_iff_eq.mpr hdimension.symm⟩
  obtain ⟨b, hb, rfl, hbDimension, hbTemperature⟩ := hlaid.exists_entry hj hown
  obtain ⟨g, hg, hgDefinition, hgDimension, hgTemperature⟩ := hlaid.exists_entry hj hadded
  rw [hdimension] at hbTemperature hgTemperature
  exact ⟨metric, g, b, hmetric, hg, hb, ⟨d, hd, hbase⟩, hgDefinition,
    hgDimension.trans hbDimension.symm, hgTemperature, hbTemperature⟩

end Entries

end Registry

/-! ### Single units -/

lemma getD_gather_single {n i : ℕ} (hi : i < n) (x : ℚ) (k : ℕ) :
    (gather n [(i, x)]).getD k 0 = if i = k then x else 0 := by
  rcases lt_or_ge k n with hk | hk
  · rw [getD_gather hk, sumAt_cons, sumAt_nil, add_zero]
  · rw [getD_of_length_le (by simpa using hk), if_neg (by omega)]

namespace Registry

variable {r : Registry ℚ}

/-- No other unit of the table has the index of a unit. -/
lemma IsAccepted.exists_perm (h : r.IsAccepted) {e : UnitEntry ℚ} (he : e ∈ r.units) :
    ∃ others, r.units.Perm (e :: others) ∧ ∀ other ∈ others, e.index ≠ other.index := by
  obtain ⟨definitions, hlaid⟩ := h.exists_laidOut
  obtain ⟨others, hperm⟩ : ∃ others, r.units.Perm (e :: others) := ⟨_, List.perm_cons_erase he⟩
  have hnodup : ((e :: others).map UnitEntry.index).Nodup := by
    rw [← (hperm.map _).nodup_iff, hlaid.map_index_units]
    exact List.nodup_range
  rw [List.map_cons, List.nodup_cons] at hnodup
  exact ⟨others, hperm, fun other hother heq => hnodup.1 (heq ▸ List.mem_map_of_mem hother)⟩

lemma IsAccepted.index_lt (h : r.IsAccepted) {e : UnitEntry ℚ} (he : e ∈ r.units) :
    e.index < r.unitCount := (List.getElem?_eq_some_iff.mp (h.getElem?_index he)).1

end Registry

namespace Unit

variable {r : Registry ℚ}

/-- A unit of the table. -/
def single (r : Registry ℚ) (e : UnitEntry ℚ) : Unit r where
  exponents := ExponentVector.gather r.unitCount [(e.index, 1)]
  length_eq := length_gather _ _
  dimension := r.dimensionOf (ExponentVector.gather r.unitCount [(e.index, 1)])

lemma gather_eq_single (e : UnitEntry ℚ) : Unit.gather r [(e.index, 1)] = .ok (single r e) :=
  ofVector_eq_ok _ _

section Single

variable (hr : r.IsAccepted) {e : UnitEntry ℚ} (he : e ∈ r.units)

include hr he

/-- The coefficients of a single unit that lead to SI units. -/
lemma siCoefficients_single : (single r e).siCoefficients = ⟨e.offset 1, e.scale 1⟩ := by
  obtain ⟨others, hperm, hother⟩ := hr.exists_perm he
  have hexponent : ∀ k, (single r e).exponents.getD k 0 = if e.index = k then 1 else 0 :=
    getD_gather_single (hr.index_lt he) 1
  have hown : (single r e).exponents.getD e.index 0 = 1 := (hexponent _).trans (if_pos rfl)
  have hnone : ∀ other ∈ others, (single r e).exponents.getD other.index 0 = 0 :=
    fun other hmem => (hexponent _).trans (if_neg (hother other hmem))
  have hshift : r.siShift (single r e).exponents = e.offset 1 := by
    have hothers : (others.map fun e' =>
        e'.offset ((single r e).exponents.getD e'.index 0)).sum = 0 := by
      refine List.sum_eq_zero fun x hx => ?_
      obtain ⟨other, hmem, rfl⟩ := List.mem_map.mp hx
      rw [hnone other hmem, UnitEntry.offset_zero]
    rw [Registry.siShift, hr.map_paired (single r e).length_eq UnitEntry.offset,
      (hperm.map _).sum_eq, List.map_cons, List.sum_cons, hothers, add_zero, hown]
  have hfactor : r.siFactor (single r e).exponents = e.scale 1 := by
    have hothers : (others.map fun e' =>
        e'.scale ((single r e).exponents.getD e'.index 0)).prod = 1 := by
      refine List.prod_eq_one fun x hx => ?_
      obtain ⟨other, hmem, rfl⟩ := List.mem_map.mp hx
      rw [hnone other hmem, UnitEntry.scale_zero]
    rw [Registry.siFactor, hr.map_paired (single r e).length_eq UnitEntry.scale,
      (hperm.map _).prod_eq, List.map_cons, List.prod_cons, hothers, mul_one, hown]
  rw [siCoefficients_eq, hshift, hfactor]

/-- A single unit measures the dimension it belongs to. -/
lemma getD_dimension_single {j : ℕ} (hj : j < r.dimensionCount) :
    (single r e).dimension.exponents.getD j 0 = if e.dimensionIndex = j then 1 else 0 := by
  have hplace := hr.getElem?_index he
  have hlt : e.index ∈ Finset.range r.dimensionPlaces.length := by
    rw [Finset.mem_range, Registry.dimensionPlaces, List.length_map]
    exact hr.index_lt he
  show (r.dimensionOf _).exponents.getD j 0 = _
  rw [Registry.exponents_dimensionOf, getD_gather_zip hj, Finset.sum_eq_single_of_mem _ hlt,
    getD_gather_single (hr.index_lt he), if_pos rfl, Registry.getD_dimensionPlaces hplace]
  intro k _ hne
  rw [getD_gather_single (hr.index_lt he), if_neg hne.symm, ite_self]

end Single

/-- Towards another unit of the same dimension, the coefficients are those of the two units. -/
lemma coefficientsTo_single (hr : r.IsAccepted) {g b : UnitEntry ℚ} (hg : g ∈ r.units)
    (hb : b ∈ r.units) (hsame : g.dimensionIndex = b.dimensionIndex) :
    (single r g).coefficientsTo (single r b) =
      .ok ⟨g.offset 1 - b.offset 1, g.scale 1 / b.scale 1⟩ := by
  have hdimension : (single r g).dimension = (single r b).dimension := by
    refine Dimension.exponents_injective (ext_getD ?_ fun j hj => ?_)
    · rw [Dimension.length_eq, Dimension.length_eq]
    · rw [Dimension.length_eq] at hj
      rw [getD_dimension_single hr hg hj, getD_dimension_single hr hb hj, hsame]
  have hconvertible : (single r g).convertibility (single r b) = ⟨true, 0⟩ :=
    convertibility_of_primary_eq (by rw [hdimension])
  rw [coefficientsTo_of_convertible (n := 0) (by rw [hconvertible])
    (by rw [hconvertible, Int.cast_zero]), siCoefficients_single hr hg,
    siCoefficients_single hr hb, neg_zero, zpow_zero, mul_one]

end Unit

/-! ### Prefix rules -/

namespace UnitEntry

variable {e : UnitEntry ℚ}

lemma offset_one_of_temperature (h : e.isTemperature = true) :
    e.offset 1 = e.conversionFactor := by
  rw [offset, if_pos ⟨h, one_pos⟩, one_mul]

lemma offset_of_not_temperature (h : e.isTemperature = false) (x : ℚ) : e.offset x = 0 := by
  rw [offset, h, if_neg fun hboth => Bool.false_ne_true hboth.1]

lemma scale_of_skipped (h : e.isTemperature = true ∨ e.conversionFactor = 0) (x : ℚ) :
    e.scale x = 1 := if_pos h

lemma scale_one (h : e.isTemperature = false) (hne : e.conversionFactor ≠ 0) :
    e.scale 1 = e.conversionFactor := by
  have hskip : ¬(e.isTemperature = true ∨ e.conversionFactor = 0) := by
    rw [h]
    exact not_or.mpr ⟨Bool.false_ne_true, hne⟩
  rw [scale, if_neg hskip]
  simpa using power_intCast e.conversionFactor 1

end UnitEntry

namespace Registry

variable {r : Registry ℚ} {data : RegistryData ℚ} {rule : PrefixRule} {metric : MetricPrefix}
  {g b : UnitEntry ℚ}

lemma PrefixedEntries.isTemperature_eq_true (h : PrefixedEntries data r rule metric g b)
    (htemperature : rule.dimension = temperatureKey) :
    g.isTemperature = true ∧ b.isTemperature = true :=
  ⟨h.generated_isTemperature.trans (beq_iff_eq.mpr htemperature),
    h.base_isTemperature.trans (beq_iff_eq.mpr htemperature)⟩

lemma PrefixedEntries.isTemperature_eq_false (h : PrefixedEntries data r rule metric g b)
    (hplain : rule.dimension ≠ temperatureKey) :
    g.isTemperature = false ∧ b.isTemperature = false :=
  ⟨h.generated_isTemperature.trans (beq_false_of_ne hplain),
    h.base_isTemperature.trans (beq_false_of_ne hplain)⟩

lemma PrefixedEntries.conversionFactor_eq (h : PrefixedEntries data r rule metric g b) :
    g.conversionFactor = b.conversionFactor * 10 ^ metric.exponent := by
  have hfactor := congrArg UnitDefinition.conversionFactor h.generated
  have hpower : Scalar.power (Scalar.ofNat 10) (Scalar.ofInt metric.exponent) =
      (10 : ℚ) ^ metric.exponent := power_intCast 10 metric.exponent
  rw [← hpower]
  exact hfactor

/-- The coefficients between the entries of a rule. -/
lemma PrefixedEntries.coefficientsTo_eq (h : PrefixedEntries data r rule metric g b)
    (hr : r.IsAccepted) : (Unit.single r g).coefficientsTo (Unit.single r b) =
      .ok ⟨g.offset 1 - b.offset 1, g.scale 1 / b.scale 1⟩ :=
  Unit.coefficientsTo_single hr h.generated_mem h.base_mem h.same_dimension

lemma PrefixedEntries.coefficientsTo_of_ne_zero (h : PrefixedEntries data r rule metric g b)
    (hr : r.IsAccepted) (hplain : rule.dimension ≠ temperatureKey) (hne : b.conversionFactor ≠ 0) :
    (Unit.single r g).coefficientsTo (Unit.single r b) = .ok ⟨0, 10 ^ metric.exponent⟩ := by
  obtain ⟨hg, hb⟩ := h.isTemperature_eq_false hplain
  have hfactor := h.conversionFactor_eq
  have hpower : (10 : ℚ) ^ metric.exponent ≠ 0 := zpow_ne_zero _ (by norm_num)
  rw [h.coefficientsTo_eq hr, UnitEntry.offset_of_not_temperature hg,
    UnitEntry.offset_of_not_temperature hb, sub_zero, UnitEntry.scale_one hb hne,
    UnitEntry.scale_one hg (hfactor ▸ mul_ne_zero hne hpower), hfactor,
    mul_div_cancel_left₀ _ hne]

lemma PrefixedEntries.coefficientsTo_of_eq_zero (h : PrefixedEntries data r rule metric g b)
    (hr : r.IsAccepted) (hplain : rule.dimension ≠ temperatureKey)
    (hzero : b.conversionFactor = 0) :
    (Unit.single r g).coefficientsTo (Unit.single r b) = .ok ⟨0, 1⟩ := by
  obtain ⟨hg, hb⟩ := h.isTemperature_eq_false hplain
  have hgzero : g.conversionFactor = 0 := by rw [h.conversionFactor_eq, hzero, zero_mul]
  rw [h.coefficientsTo_eq hr, UnitEntry.offset_of_not_temperature hg,
    UnitEntry.offset_of_not_temperature hb, sub_zero, UnitEntry.scale_of_skipped (Or.inr hzero),
    UnitEntry.scale_of_skipped (Or.inr hgzero), div_one]

lemma PrefixedEntries.coefficientsTo_of_temperature (h : PrefixedEntries data r rule metric g b)
    (hr : r.IsAccepted) (htemperature : rule.dimension = temperatureKey) :
    (Unit.single r g).coefficientsTo (Unit.single r b) =
      .ok ⟨g.conversionFactor - b.conversionFactor, 1⟩ := by
  obtain ⟨hg, hb⟩ := h.isTemperature_eq_true htemperature
  rw [h.coefficientsTo_eq hr, UnitEntry.offset_one_of_temperature hg,
    UnitEntry.offset_one_of_temperature hb, UnitEntry.scale_of_skipped (Or.inl hg),
    UnitEntry.scale_of_skipped (Or.inl hb), div_one]

/-- **What a prefix does to conversion**: the unit that a rule generates converts to the one that it
names, by the power of ten of the prefix, unless the registered factor of the unit is none. If the
factor is 0 nothing is scaled, and in a dimension of temperature factors are offsets, which shift
and do not scale. -/
theorem coefficientsTo_prefixed {document : Datum ℚ} (h : decode document = .ok r)
    (hdata : document.registryData? = some data) (hrule : rule ∈ data.prefixedUnits) {key : String}
    (hkey : key ∈ rule.prefixes) : ∃ metric g b u v, data.prefixByKey? key = some metric ∧
      PrefixedEntries data r rule metric g b ∧ Unit.gather r [(g.index, 1)] = .ok u ∧
      Unit.gather r [(b.index, 1)] = .ok v ∧
      (rule.dimension ≠ temperatureKey → b.conversionFactor ≠ 0 →
        u.coefficientsTo v = .ok ⟨0, 10 ^ metric.exponent⟩) ∧
      (rule.dimension ≠ temperatureKey → b.conversionFactor = 0 →
        u.coefficientsTo v = .ok ⟨0, 1⟩) ∧
      (rule.dimension = temperatureKey →
        u.coefficientsTo v = .ok ⟨g.conversionFactor - b.conversionFactor, 1⟩) := by
  have hr : r.IsAccepted := ⟨document, h⟩
  obtain ⟨metric, g, b, hmetric, hentries⟩ := exists_prefixedEntries h hdata hrule hkey
  exact ⟨metric, g, b, _, _, hmetric, hentries, Unit.gather_eq_single g, Unit.gather_eq_single b,
    hentries.coefficientsTo_of_ne_zero hr, hentries.coefficientsTo_of_eq_zero hr,
    hentries.coefficientsTo_of_temperature hr⟩

/-- A millimetre of the bundled registry is a thousandth of a metre. -/
theorem coefficientsTo_prefixed_millimetre :
    let data : RegistryData ℚ := Bundled.data
    ∃ rule ∈ data.prefixedUnits, "milli" ∈ rule.prefixes ∧ rule.dimension ≠ temperatureKey ∧
      ∃ metric g b u v, data.prefixByKey? "milli" = some metric ∧
        PrefixedEntries data Bundled.registry rule metric g b ∧
        Unit.gather Bundled.registry [(g.index, 1)] = .ok u ∧
        Unit.gather Bundled.registry [(b.index, 1)] = .ok v ∧ b.conversionFactor ≠ 0 ∧
        u.coefficientsTo v = .ok ⟨0, 1 / 1000⟩ := by
  intro data
  let rule : PrefixRule :=
    ⟨"length", "metre", ["centi", "milli", "micro", "nano", "pico", "femto", "atto"]⟩
  have hrule : rule ∈ data.prefixedUnits := List.mem_cons_self
  have hkey : "milli" ∈ rule.prefixes := by decide
  have hplain : rule.dimension ≠ temperatureKey := by decide
  obtain ⟨metric, g, b, u, v, hmetric, hentries, hu, hv, hscaled, -⟩ :=
    coefficientsTo_prefixed Bundled.decode_document Bundled.registryData?_document hrule hkey
  have hfactor : b.conversionFactor ≠ 0 := by
    obtain ⟨d, hd, hbase⟩ := hentries.base
    have hall : ∀ d' ∈ data.dimensions.find? (fun d => d.key == rule.dimension),
        ∀ base ∈ d'.units.find? (fun u => u.key == rule.unit), base.conversionFactor ≠ 0 := by
      decide
    exact hall d hd b.definition hbase
  have hexponent : metric.exponent = -3 := by
    have hall : ∀ metric ∈ data.prefixByKey? "milli", metric.exponent = -3 := by decide
    exact hall metric hmetric
  have hto := hscaled hplain hfactor
  rw [hexponent] at hto
  refine ⟨rule, hrule, hkey, hplain, metric, g, b, u, v, hmetric, hentries, hu, hv, hfactor,
    hto.trans ?_⟩
  norm_num

/-- Primary dimensions and levels, whose unit is registered without a scale, and a prefix for it. -/
def levelData : RegistryData ℚ where
  primary := Bundled.primary
  derived := [⟨"level", "level", "Lv", Bundled.exponents [0, 0, 0, 0, 0, 0, 0],
    [⟨"bel", "bel", "Bel", 0, 0⟩]⟩]
  prefixes := [⟨"milli", "milli", "m", -3⟩]
  prefixedUnits := [⟨"level", "bel", ["milli"]⟩]
  constants := [⟨avogadroKey, "Avogadro constant", "N_A", 6.02214076e23, "mol^-1"⟩]

/-- A unit that scales nothing does not do so with a prefix. -/
theorem not_coefficientsTo_prefixed : ∃ (document : Datum ℚ) (r : Registry ℚ)
    (data : RegistryData ℚ) (rule : PrefixRule) (key : String) (metric : MetricPrefix)
    (g b : UnitEntry ℚ) (u v : Unit r), decode document = .ok r ∧
      document.registryData? = some data ∧ rule ∈ data.prefixedUnits ∧ key ∈ rule.prefixes ∧
      data.prefixByKey? key = some metric ∧ PrefixedEntries data r rule metric g b ∧
      Unit.gather r [(g.index, 1)] = .ok u ∧ Unit.gather r [(b.index, 1)] = .ok v ∧
      u.coefficientsTo v = .ok ⟨0, 1⟩ ∧ u.coefficientsTo v ≠ .ok ⟨0, 10 ^ metric.exponent⟩ := by
  have hdata : levelData.toDatum.registryData? = some levelData := by decide +kernel
  have hrule : ⟨"level", "bel", ["milli"]⟩ ∈ levelData.prefixedUnits := List.mem_singleton_self _
  have hmetric : levelData.prefixByKey? "milli" = some ⟨"milli", "milli", "m", -3⟩ := by
    decide +kernel
  obtain ⟨r, h⟩ : ∃ r, decode levelData.toDatum = .ok r := by
    have hok : (build levelData).isOk = true := by decide +kernel
    rw [decode_eq_build hdata]
    cases h : build levelData with
    | ok r => exact ⟨r, rfl⟩
    | error e =>
      rw [h] at hok
      exact absurd hok Bool.false_ne_true
  obtain ⟨metric, g, b, hmetric', hentries⟩ :=
    exists_prefixedEntries h hdata hrule (List.mem_singleton_self _)
  obtain rfl := Option.some.inj (hmetric.symm.trans hmetric')
  have hzero : b.conversionFactor = 0 := by
    obtain ⟨d, hd, hbase⟩ := hentries.base
    have hall : ∀ d' ∈ levelData.dimensions.find? (fun d => d.key == "level"),
        ∀ base ∈ d'.units.find? (fun u => u.key == "bel"), base.conversionFactor = 0 := by
      decide +kernel
    exact hall d hd b.definition hbase
  have hto := hentries.coefficientsTo_of_eq_zero ⟨_, h⟩ (by decide) hzero
  refine ⟨_, r, _, _, _, _, g, b, _, _, h, hdata, hrule, List.mem_singleton_self _, hmetric,
    hentries, Unit.gather_eq_single g, Unit.gather_eq_single b, hto, fun hscaled => ?_⟩
  have hfactor : (⟨0, 1⟩ : Coefficients ℚ) = ⟨0, 10 ^ (-3 : ℤ)⟩ :=
    Except.ok.inj (hto.symm.trans hscaled)
  exact absurd (congrArg Coefficients.factor hfactor) (by norm_num)

end Registry

end Metrology
