import Mathlib
import Metrology.Proofs.Conversion
import Metrology.Proofs.Relabelling
import Metrology.Quantity

/-!
Conversion to SI units, directly and by way of a target.

The direct conversion looks at nothing but the unit it starts from. The conversion to a target
checks that it can take place and takes the coefficients of the target into account. Where SI units
have the factor 1, or the offset 0, a product of SI units has coefficients that do nothing, and the
two come to the same.
-/

namespace Metrology

open ExponentVector

namespace UnitEntry

variable {e : UnitEntry ℚ} {x : ℚ}
  (h : x ≠ 0 → e.conversionFactor = if e.isTemperature then 0 else 1)

include h

lemma offset_neutral : e.offset x = 0 := by
  unfold offset
  split_ifs with hoccurs
  · rw [h hoccurs.2.ne', if_pos hoccurs.1, mul_zero]
  · rfl

lemma scale_neutral (hx : x ∈ whole) : e.scale x = 1 := by
  obtain ⟨n, rfl⟩ := mem_whole.mp hx
  unfold scale
  split_ifs with hskip
  · rfl
  · rw [power_intCast]
    by_cases hn : n = 0
    · rw [hn, zpow_zero]
    · rw [h (Int.cast_ne_zero.mpr hn), if_neg fun ht => hskip (Or.inl ht), one_zpow]

end UnitEntry

namespace Registry

/-- Whether an SI unit brings neither a factor nor a shift. -/
def HasNeutralSiUnits (r : Registry ℚ) : Prop :=
  ∀ d ∈ r.dimensions, ∀ u ∈ r.units[d.siUnitIndex]?,
    u.conversionFactor = if u.isTemperature then 0 else 1

instance (r : Registry ℚ) : Decidable r.HasNeutralSiUnits :=
  inferInstanceAs (Decidable (∀ d ∈ r.dimensions, ∀ u ∈ r.units[d.siUnitIndex]?, _ = _))

variable {r : Registry ℚ}

/-- A unit of the table with its exponent in a vector. -/
lemma IsAccepted.getD_of_mem_paired (h : r.IsAccepted) {v : ExponentVector ℚ}
    {p : UnitEntry ℚ × ℚ} (hp : p ∈ r.paired v) : p.1 ∈ r.units ∧ v.getD p.1.index 0 = p.2 := by
  obtain ⟨i, hi, rfl⟩ := List.getElem_of_mem hp
  have hlt : i < r.units.length ∧ i < v.length := by simpa [paired] using hi
  have hplace := List.getElem?_eq_getElem hlt.1
  simp only [paired, List.getElem_zip]
  refine ⟨List.getElem_mem hlt.1, ?_⟩
  rw [h.index_eq hplace, List.getD_eq_getElem _ _ hlt.2]

/-- A composition of primary dimensions comes to its own exponents. -/
lemma IsAccepted.primary_padded (h : r.IsAccepted) {v : ExponentVector ℚ}
    (hv : v.length = primaryCount) : (Dimension.padded r v).primary = v := by
  obtain ⟨hcount, hunit⟩ := h.primary_first
  refine ext_getD (by simp [hv]) fun j hj => ?_
  rw [Dimension.length_primary] at hj
  have hpadded : ∀ i < r.dimensionCount,
      (Dimension.padded r v).exponents.getD i 0 = v.getD i 0 := by
    intro i hi
    simp [Dimension.padded, hi]
  have hslot : ∀ i < primaryCount, (r.basis.getD i []).getD j 0 = if i = j then 1 else 0 := by
    intro i hi
    have hentry := congrFun (hunit ⟨i, hi⟩) ⟨j, hj⟩
    simpa only [vector, Pi.single_apply, Fin.ext_iff, eq_comm] using hentry
  rw [Dimension.getD_primary _ hj, Finset.sum_eq_single j]
  · rw [hpadded j (hj.trans_le hcount), hslot j hj, if_pos rfl, mul_one]
  · intro i hi hne
    rcases lt_or_ge i primaryCount with hlt | hge
    · rw [hslot i hlt, if_neg hne, mul_zero]
    · rw [hpadded i (Finset.mem_range.mp hi), getD_of_length_le (hv.trans_le hge), zero_mul]
  · exact fun hnot => absurd (Finset.mem_range.mpr (hj.trans_le hcount)) hnot

end Registry

namespace Unit

variable {r : Registry ℚ}

/-! ### Coefficients that do nothing -/

/-- A product of neutral SI units is in SI units already. -/
lemma siCoefficients_of_siUnitsOf (hr : r.IsAccepted) (hneutral : r.HasNeutralSiUnits) {u : Unit r}
    {w : ExponentVector ℚ} (hu : u.exponents = r.siUnitsOf w) (hwhole : u.exponents.IsWhole) :
    u.siCoefficients = ⟨0, 1⟩ := by
  -- what occurs in the product is the SI unit of some dimension
  have hfactor : ∀ p ∈ r.paired u.exponents, p.2 ≠ 0 →
      p.1.conversionFactor = if p.1.isTemperature then 0 else 1 := by
    intro p hp hne
    obtain ⟨hunit, hexponent⟩ := hr.getD_of_mem_paired hp
    rw [← hexponent, hu] at hne
    obtain ⟨d, hd, hplace⟩ := List.mem_map.mp (mem_of_getD_gather_zip_ne_zero hne)
    exact hneutral d hd p.1 (hplace ▸ hr.getElem?_index hunit)
  have hshift : r.siShift u.exponents = 0 := by
    refine List.sum_eq_zero fun x hx => ?_
    obtain ⟨p, hp, rfl⟩ := List.mem_map.mp hx
    exact UnitEntry.offset_neutral (hfactor p hp)
  have hone : r.siFactor u.exponents = 1 := by
    refine List.prod_eq_one fun x hx => ?_
    obtain ⟨p, hp, rfl⟩ := List.mem_map.mp hx
    exact UnitEntry.scale_neutral (hfactor p hp) (hwhole _ (List.of_mem_zip hp).2)
  rw [siCoefficients_eq, hshift, hone]

/-- Towards a product of neutral SI units that measures the same, the coefficients are those that
lead to SI units. -/
lemma coefficientsTo_siUnits (hr : r.IsAccepted) (hneutral : r.HasNeutralSiUnits) {u v : Unit r}
    {w : ExponentVector ℚ} (hv : v.exponents = r.siUnitsOf w) (hwhole : v.exponents.IsWhole)
    (h : u.dimension.primary = v.dimension.primary) :
    u.convertibility v = ⟨true, 0⟩ ∧ u.coefficientsTo v = .ok u.siCoefficients := by
  have hconvertible := convertibility_of_primary_eq h
  refine ⟨hconvertible, ?_⟩
  rw [coefficientsTo_of_convertible (n := 0) (by rw [hconvertible])
    (by rw [hconvertible]; norm_num), siCoefficients_of_siUnitsOf hr hneutral hv hwhole, sub_zero,
    neg_zero, zpow_zero, mul_one, div_one]

/-! ### Primary SI units -/

lemma toSiPrimary_eq (u : Unit r) : u.toSiPrimary = .ok ⟨r.siUnitsOf u.dimension.primary,
    length_gather _ _, r.dimensionOf (r.siUnitsOf u.dimension.primary)⟩ := by
  have htake : u.dimension.primary.take primaryCount = u.dimension.primary :=
    List.take_of_length_le u.dimension.length_primary.le
  rw [toSiPrimary, ofPrimary, violation?_eq_none _ u.dimension.length_primary]
  refine (ofVector_congr ?_).trans (ofVector_eq_ok _ _)
  rw [htake]

lemma isWhole_siUnitsOf {v : ExponentVector ℚ} (hv : v.IsWhole) : (r.siUnitsOf v).IsWhole :=
  isWhole_gather _ fun _ hp => hv _ (List.of_mem_zip hp).2

/-- **The conversions to SI units agree.** If SI units are neutral, a unit with whole exponents
converts to the SI units it is moved onto, and to the primary SI units of what it measures, without
any amount of substance and by the coefficients that lead to SI units; so the direct conversion of a
unit, and of a quantity in it, is the one that aims at these units. The unit has to carry the
dimension that its exponents measure, as it does when it is made: whether units convert is told from
the dimensions that they carry, and the coefficients from the exponents. -/
theorem conversions_to_si_agree (hr : r.IsAccepted) (hwhole : r.IsWhole)
    (hneutral : r.HasNeutralSiUnits) {u : Unit r} (hu : u.exponents.IsWhole)
    (hconsistent : u.IsConsistent) :
    ∃ si primary, u.toSi = .ok si ∧ u.toSiPrimary = .ok primary ∧
      u.convertibility si = ⟨true, 0⟩ ∧ u.convertibility primary = ⟨true, 0⟩ ∧
      u.coefficientsTo si = .ok u.siCoefficients ∧
      u.coefficientsTo primary = .ok u.siCoefficients ∧
      u.conversionToSi = u.conversionTo si ∧
      u.conversionToSiPrimary = u.conversionTo primary ∧
      ∀ x : ℚ, (Quantity.mk x u).toSi = (Quantity.mk x u).convertTo si ∧
        (Quantity.mk x u).toSiPrimary = (Quantity.mk x u).convertTo primary := by
  rw [isConsistent_iff] at hconsistent
  have hdimension : u.dimension.exponents.IsWhole := by
    rw [hconsistent]
    exact (isWhole_of_ofVector hu (ofVector_eq_ok _ u.length_eq)).dimension
  have hprimaryWhole : u.dimension.primary.IsWhole :=
    isWhole_of_getD fun j => Dimension.getD_primary_mem_whole hwhole hdimension j
  -- both targets are products of SI units that measure what the unit measures
  obtain ⟨si, hsi, hsiExponents, hsiDimension⟩ : ∃ si : Unit r, u.toSi = .ok si ∧
      si.exponents = r.siExponents u.exponents ∧
      si.dimension = r.dimensionOf (r.siExponents u.exponents) := ⟨_, toSi_eq u, rfl, rfl⟩
  obtain ⟨primary, hprimary, hexponents, hprimaryDimension⟩ : ∃ primary : Unit r,
      u.toSiPrimary = .ok primary ∧ primary.exponents = r.siUnitsOf u.dimension.primary ∧
      primary.dimension = r.dimensionOf (r.siUnitsOf u.dimension.primary) :=
    ⟨_, toSiPrimary_eq u, rfl, rfl⟩
  obtain ⟨hconvertible, hcoefficients⟩ := coefficientsTo_siUnits hr hneutral (u := u) (v := si)
    (hsiExponents.trans (hr.siUnitsOf_dimensionOf u.exponents).symm)
    (hsiExponents ▸ r.isWhole_siExponents hu)
    (by rw [hsiDimension, hr.dimensionOf_siExponents, ← hconsistent])
  obtain ⟨hconvertible', hcoefficients'⟩ := coefficientsTo_siUnits hr hneutral (u := u)
    (v := primary) hexponents (hexponents ▸ isWhole_siUnitsOf hprimaryWhole)
    (by rw [hprimaryDimension, hr.dimensionOf_siUnitsOf,
      hr.primary_padded u.dimension.length_primary])
  have hdirect : u.conversionToSi = u.conversionTo si := by
    rw [conversionToSi, conversionTo, hsi, hcoefficients]
    rfl
  have hdirect' : u.conversionToSiPrimary = u.conversionTo primary := by
    rw [conversionToSiPrimary, conversionTo, hprimary, hcoefficients']
    rfl
  refine ⟨si, primary, hsi, hprimary, hconvertible, hconvertible', hcoefficients, hcoefficients',
    hdirect, hdirect', fun x => ⟨?_, ?_⟩⟩
  · rw [Quantity.toSi, Quantity.convertTo, hdirect]
  · rw [Quantity.toSiPrimary, Quantity.convertTo, hdirect']

/-- Kilocalories and degrees Celsius for a centimetre, in joule kelvins for a metre and in primary
units. -/
theorem conversions_to_si_agree_celsius :
    let u := Registry.Bundled.unit "kcal.°C.cm^-1"
    Registry.Bundled.registry.HasNeutralSiUnits ∧ u.exponents.IsWhole ∧ u.IsConsistent ∧
      ∃ si primary c, u.toSi = .ok si ∧ u.toSiPrimary = .ok primary ∧
        u.coefficientsTo si = .ok c ∧ u.coefficientsTo primary = .ok c ∧
        c.shift = 273.15 ∧ c.factor = 418400 := by
  intro u
  have hneutral : Registry.Bundled.registry.HasNeutralSiUnits := by decide +kernel
  have hwhole : u.exponents.IsWhole := by decide +kernel
  have hconsistent : u.IsConsistent := by decide +kernel
  obtain ⟨si, primary, hsi, hprimary, -, -, hto, hto', -⟩ := conversions_to_si_agree
    Registry.Bundled.isAccepted_registry Registry.Bundled.isWhole_registry hneutral hwhole
    hconsistent
  exact ⟨hneutral, hwhole, hconsistent, si, primary, u.siCoefficients, hsi, hprimary, hto, hto',
    by decide +kernel, by decide +kernel⟩

end Unit

end Metrology
