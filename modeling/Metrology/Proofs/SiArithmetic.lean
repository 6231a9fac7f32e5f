import Mathlib
import Metrology.Proofs.SiConversion

/-!
Conversion to SI units and arithmetic.

The coefficients that lead to SI units are a sum over all units and a product over all units. The
sum is 0 where no temperature occurs, and the product is multiplicative: products, quotients and
powers of units are combinations of exponents with whole coefficients, and the factor of a
combination is that combination of the factors. The exponents are moved to SI units by linear maps.
So it makes no difference whether quantities are combined first or converted first.
-/

namespace Metrology

open ExponentVector

/-- The factor of a combination of exponents. -/
lemma UnitEntry.scale_combination (e : UnitEntry ℚ) {x y : ℚ} (hx : x ∈ whole) (hy : y ∈ whole)
    (a b : ℤ) : e.scale (a * x + b * y) = e.scale x ^ a * e.scale y ^ b := by
  obtain ⟨m, rfl⟩ := mem_whole.mp hx
  obtain ⟨n, rfl⟩ := mem_whole.mp hy
  unfold scale
  split_ifs with hskip
  · rw [one_zpow, one_zpow, mul_one]
  · have hne : e.conversionFactor ≠ 0 := fun hzero => hskip (Or.inr hzero)
    have hcast : (a * m + b * n : ℚ) = ((m * a + n * b : ℤ) : ℚ) := by
      push_cast
      ring
    rw [hcast, power_intCast, power_intCast, power_intCast, zpow_add₀ hne, zpow_mul, zpow_mul]

namespace Registry

variable {r : Registry ℚ}

/-- An accepted table has the unit with an index at this index. -/
lemma IsAccepted.map_paired (h : r.IsAccepted) {v : ExponentVector ℚ} (hv : v.length = r.unitCount)
    (f : UnitEntry ℚ → ℚ → ℚ) : (r.paired v).map (fun p => f p.1 p.2) =
      r.units.map fun e => f e (v.getD e.index 0) := by
  have hunits : (r.paired v).map Prod.fst = r.units := List.map_fst_zip hv.ge
  rw [← congrArg (List.map _) hunits, List.map_map]
  refine List.map_congr_left fun p hp => ?_
  rw [Function.comp_apply, (h.getD_of_mem_paired hp).2]

/-- The factor of a combination of products. -/
lemma IsAccepted.siFactor_combination (h : r.IsAccepted) {u v w : Unit r}
    (hv : v.exponents.IsWhole) (hw : w.exponents.IsWhole) {a b : ℤ}
    (hu : ∀ k, u.exponents.getD k 0 = a * v.exponents.getD k 0 + b * w.exponents.getD k 0) :
    r.siFactor u.exponents = r.siFactor v.exponents ^ a * r.siFactor w.exponents ^ b := by
  unfold siFactor
  rw [h.map_paired u.length_eq UnitEntry.scale, h.map_paired v.length_eq UnitEntry.scale,
    h.map_paired w.length_eq UnitEntry.scale, List.prod_zpow, List.prod_zpow, List.map_map,
    List.map_map, ← List.prod_map_mul]
  refine congrArg List.prod (List.map_congr_left fun e _ => ?_)
  rw [hu, e.scale_combination (hv.getD_mem _) (hw.getD_mem _)]
  rfl

/-! ### Moving exponents to SI units -/

lemma isLinear_siExponents : IsLinear r.unitCount r.siExponents := by
  have hmoves : r.siExponents = fun v => gather r.unitCount (r.siPlaces.zip v) :=
    funext r.siExponents_eq
  rw [hmoves]
  exact isLinear_gather_zip

/-- The exponents of the primary dimensions of a product of units. -/
lemma isLinear_primary : IsLinear primaryCount fun v => (r.dimensionOf v).primary where
  length_eq _ := Dimension.length_primary _
  getD_eq {u v w a b} h j := by
    rcases lt_or_ge j primaryCount with hj | hj
    · rw [Dimension.getD_primary _ hj, Dimension.getD_primary _ hj, Dimension.getD_primary _ hj,
        Finset.mul_sum, Finset.mul_sum, ← Finset.sum_add_distrib]
      refine Finset.sum_congr rfl fun i _ => ?_
      rw [exponents_dimensionOf, exponents_dimensionOf, exponents_dimensionOf,
        isLinear_gather_zip.getD_eq h]
      ring
    · have hout : ∀ x : ExponentVector ℚ, (r.dimensionOf x).primary.getD j 0 = 0 := fun x =>
        getD_of_length_le ((Dimension.length_primary _).trans_le hj)
      rw [hout, hout, hout, mul_zero, mul_zero, add_zero]

lemma isLinear_siUnitsOf_primary :
    IsLinear r.unitCount fun v => r.siUnitsOf (r.dimensionOf v).primary :=
  isLinear_primary.comp isLinear_gather_zip

end Registry

namespace Unit

variable {r : Registry ℚ}

/-! ### Units without temperature -/

/-- Whether no unit of temperature occurs in a unit. -/
def IsFreeOfTemperature (u : Unit r) : Prop :=
  ∀ e ∈ r.units, e.isTemperature = true → u.exponents.getD e.index 0 = 0

instance (u : Unit r) : Decidable u.IsFreeOfTemperature :=
  inferInstanceAs (Decidable (∀ e ∈ r.units, _ → _ = _))

lemma IsFreeOfTemperature.siShift_eq_zero (hr : r.IsAccepted) {u : Unit r}
    (h : u.IsFreeOfTemperature) : r.siShift u.exponents = 0 := by
  refine List.sum_eq_zero fun x hx => ?_
  obtain ⟨p, hp, rfl⟩ := List.mem_map.mp hx
  obtain ⟨hunit, hexponent⟩ := hr.getD_of_mem_paired hp
  refine if_neg fun ⟨ht, hpos⟩ => ?_
  rw [← hexponent, h p.1 hunit ht] at hpos
  exact lt_irrefl _ hpos

/-! ### Combinations of units -/

/-- Units that measure what their exponents come to are determined by the exponents. -/
lemma eq_of_exponents {u v : Unit r} (hu : u.IsConsistent) (hv : v.IsConsistent)
    (h : u.exponents = v.exponents) : u = v :=
  Except.ok.inj ((hu.eq_ok h v.length_eq).symm.trans (hv.eq_ok rfl v.length_eq))

/-- The product of two units, each raised to a whole power. -/
def combine (u v : Unit r) (a b : ℤ) : Unit r where
  exponents := List.zipWith (fun x y => a * x + b * y) u.exponents v.exponents
  length_eq := by simp [u.length_eq, v.length_eq]
  dimension := r.dimensionOf (List.zipWith (fun x y => a * x + b * y) u.exponents v.exponents)

section Combine

variable (u v : Unit r) (a b : ℤ)

lemma getD_combine (k : ℕ) : (u.combine v a b).exponents.getD k 0 =
    a * u.exponents.getD k 0 + b * v.exponents.getD k 0 :=
  getD_zipWith (by simp) (u.length_eq.trans v.length_eq.symm) k

lemma isConsistent_combine : (u.combine v a b).IsConsistent := isConsistent_iff.mpr rfl

lemma mul_eq_combine : u.mul v = .ok (u.combine v 1 1) := by
  have hexponents : add u.exponents v.exponents = (u.combine v 1 1).exponents := by
    simp [combine, add]
  exact (ofVector_congr hexponents).trans (ofVector_eq_ok _ _)

lemma div_eq_combine : u.div v = .ok (u.combine v 1 (-1)) := by
  have hexponents : subtract u.exponents v.exponents = (u.combine v 1 (-1)).exponents := by
    simp [combine, subtract, sub_eq_add_neg]
  exact (ofVector_congr hexponents).trans (ofVector_eq_ok _ _)

lemma pow_eq_combine (n : ℤ) : u.pow n = .ok (u.combine u n 0) := by
  have hexponents : ExponentVector.scale u.exponents n = (u.combine u n 0).exponents := by
    simp [combine, ExponentVector.scale, mul_comm]
  exact (ofVector_congr hexponents).trans (ofVector_eq_ok _ _)

variable {u v}

lemma IsFreeOfTemperature.combine (hu : u.IsFreeOfTemperature) (hv : v.IsFreeOfTemperature) :
    (u.combine v a b).IsFreeOfTemperature := by
  intro e he ht
  rw [getD_combine, hu e he ht, hv e he ht, mul_zero, mul_zero, add_zero]

end Combine

end Unit

namespace Quantity

variable {r : Registry ℚ}

/-! ### Combinations of quantities -/

/-- The product of two quantities, each raised to a whole power. -/
def combine (q p : Quantity r) (a b : ℤ) : Quantity r :=
  ⟨q.value ^ a * p.value ^ b, q.unit.combine p.unit a b⟩

section Combine

variable (q p : Quantity r)

lemma mul_eq_combine : q.mul p = .ok (q.combine p 1 1) := by
  rw [mul, Unit.mul_eq_combine, combine, zpow_one, zpow_one]
  rfl

lemma div_eq_combine : q.div p = .ok (q.combine p 1 (-1)) := by
  rw [div, Unit.div_eq_combine, combine, zpow_one, zpow_neg_one, ← div_eq_mul_inv]
  rfl

lemma pow_eq_combine (n : ℤ) : q.pow n = .ok (q.combine q n 0) := by
  rw [pow, Unit.pow_eq_combine, combine, zpow_zero, mul_one, ← power_intCast]
  rfl

end Combine

/-! ### Conversions -/

/-- Whether a quantity is the one that another becomes in SI units: the value multiplied by the
factor that leads there, the exponents moved. -/
structure IsMoved (move : ExponentVector ℚ → ExponentVector ℚ) (q s : Quantity r) : Prop where
  value : s.value = q.value * r.siFactor q.unit.exponents
  exponents : s.unit.exponents = move q.unit.exponents
  consistent : s.unit.IsConsistent

/-- Whether a conversion moves the exponents of a unit, whatever the value. -/
def MovesBy (move : ExponentVector ℚ → ExponentVector ℚ)
    (convert : Quantity r → Except Error (Quantity r)) (u : Unit r) : Prop :=
  ∀ x : ℚ, ∃ s, convert ⟨x, u⟩ = .ok s ∧ IsMoved move ⟨x, u⟩ s

lemma apply_unshifted (q : Quantity r) (factor : ℚ) (u : Unit r) :
    q.apply ⟨⟨0, factor⟩, u⟩ = .ok ⟨q.value * factor, u⟩ := by
  show make ((q.value + 0) * factor) u = _
  rw [add_zero]
  rfl

lemma movesBy_toSi (hr : r.IsAccepted) {u : Unit r} (hu : u.IsFreeOfTemperature) :
    MovesBy r.siExponents toSi u := by
  intro x
  obtain ⟨si, hsi, hexponents, hconsistent⟩ : ∃ si : Unit r, u.toSi = .ok si ∧
      si.exponents = r.siExponents u.exponents ∧ si.IsConsistent :=
    ⟨_, Unit.toSi_eq u, rfl, Unit.isConsistent_of_ofVector (Unit.toSi_eq u)⟩
  refine ⟨⟨x * r.siFactor u.exponents, si⟩, ?_, rfl, hexponents, hconsistent⟩
  rw [toSi, Unit.conversionToSi, hsi, Unit.siCoefficients_eq, hu.siShift_eq_zero hr]
  exact apply_unshifted _ _ _

lemma movesBy_toSiPrimary (hr : r.IsAccepted) {u : Unit r} (hu : u.IsFreeOfTemperature)
    (hconsistent : u.IsConsistent) :
    MovesBy (fun v => r.siUnitsOf (r.dimensionOf v).primary) toSiPrimary u := by
  intro x
  rw [Unit.isConsistent_iff] at hconsistent
  obtain ⟨primary, hprimary, hexponents, hdimension⟩ : ∃ primary : Unit r,
      u.toSiPrimary = .ok primary ∧
      primary.exponents = r.siUnitsOf (r.dimensionOf u.exponents).primary ∧
      primary.dimension = r.dimensionOf primary.exponents :=
    ⟨_, Unit.toSiPrimary_eq u, by rw [hconsistent], rfl⟩
  refine ⟨⟨x * r.siFactor u.exponents, primary⟩, ?_, rfl, hexponents,
    Unit.isConsistent_iff.mpr hdimension⟩
  rw [toSiPrimary, Unit.conversionToSiPrimary, hprimary, Unit.siCoefficients_eq,
    hu.siShift_eq_zero hr]
  exact apply_unshifted _ _ _

section IsMoved

variable {move : ExponentVector ℚ → ExponentVector ℚ} {q p cq cp : Quantity r}

lemma IsMoved.unique {s t : Quantity r} (hs : IsMoved move q s) (ht : IsMoved move q t) :
    s = t := by
  obtain ⟨x, u⟩ := s
  obtain ⟨y, v⟩ := t
  obtain rfl : x = y := hs.value.trans ht.value.symm
  obtain rfl : u = v := Unit.eq_of_exponents hs.consistent ht.consistent
    (hs.exponents.trans ht.exponents.symm)
  rfl

/-- Combinations of what is moved are what combinations are moved to. -/
lemma IsMoved.combine (hr : r.IsAccepted) (hmove : IsLinear r.unitCount move)
    (hq : q.unit.exponents.IsWhole) (hp : p.unit.exponents.IsWhole)
    (hcq : IsMoved move q cq) (hcp : IsMoved move p cp) (a b : ℤ) :
    IsMoved move (q.combine p a b) (cq.combine cp a b) where
  value := by
    have hfactor := hr.siFactor_combination hq hp
      (Unit.getD_combine q.unit p.unit a b)
    calc (cq.combine cp a b).value
        = (q.value * r.siFactor q.unit.exponents) ^ a *
            (p.value * r.siFactor p.unit.exponents) ^ b := by
          rw [Quantity.combine, hcq.value, hcp.value]
      _ = (q.value ^ a * p.value ^ b) *
            (r.siFactor q.unit.exponents ^ a * r.siFactor p.unit.exponents ^ b) := by
          rw [mul_zpow, mul_zpow, mul_mul_mul_comm]
      _ = (q.combine p a b).value * r.siFactor (q.combine p a b).unit.exponents := by
          rw [← hfactor]
          rfl
  exponents := by
    refine ext_getD ?_ fun k _ => ?_
    · rw [Unit.length_eq, hmove.length_eq]
    · have hmoved := hmove.getD_eq (Unit.getD_combine q.unit p.unit a b) k
      rw [← hcq.exponents, ← hcp.exponents] at hmoved
      exact (Unit.getD_combine cq.unit cp.unit a b k).trans hmoved.symm
  consistent := Unit.isConsistent_combine _ _ _ _

/-- Multiples of what is moved are what multiples are moved to. -/
lemma IsMoved.multiple (h : IsMoved move q cq) (x : ℚ) :
    IsMoved move ⟨q.value * x, q.unit⟩ ⟨cq.value * x, cq.unit⟩ :=
  ⟨by rw [h.value, mul_right_comm], h.exponents, h.consistent⟩

lemma IsMoved.value_ne_zero (h : IsMoved move q cq) (hq : q.unit.exponents.IsWhole)
    (hne : q.value ≠ 0) : cq.value ≠ 0 := by
  rw [h.value]
  exact mul_ne_zero hne (Registry.siFactor_ne_zero hq)

end IsMoved

/-! ### Arithmetic -/

/-- Whether the result of an operation is converted to another result. -/
def Converts (convert : Quantity r → Except Error (Quantity r))
    (before after : Except Error (Quantity r)) : Prop :=
  ∃ s t, before = .ok s ∧ after = .ok t ∧ convert s = .ok t

/-- Whether a conversion carries arithmetic over: two quantities that it takes to two others are
combined to what it takes to the combination of those. No divisor becomes 0. -/
structure CarriesOver (convert : Quantity r → Except Error (Quantity r))
    (q p cq cp : Quantity r) : Prop where
  first : convert q = .ok cq
  second : convert p = .ok cp
  mul : Converts convert (q.mul p) (cq.mul cp)
  div : p.value ≠ 0 → cp.value ≠ 0 ∧ Converts convert (q.div p) (cq.div cp)
  pow : ∀ n : ℤ, (n < 0 → q.value ≠ 0) →
    (n < 0 → cq.value ≠ 0) ∧ Converts convert (q.pow n) (cq.pow n)
  times : ∀ x : ℚ, Converts convert (q.times x) (cq.times x)
  dividedBy : ∀ x : ℚ, x ≠ 0 → Converts convert (q.dividedBy x) (cq.dividedBy x)

/-- A conversion that moves exponents linearly carries arithmetic over. -/
lemma exists_carriesOver (hr : r.IsAccepted) {move : ExponentVector ℚ → ExponentVector ℚ}
    {convert : Quantity r → Except Error (Quantity r)} (hmove : IsLinear r.unitCount move)
    {q p : Quantity r} (hq : q.unit.exponents.IsWhole) (hp : p.unit.exponents.IsWhole)
    (hfreeq : q.unit.IsFreeOfTemperature) (hfreep : p.unit.IsFreeOfTemperature)
    (hconvertq : MovesBy move convert q.unit) (hconvertp : MovesBy move convert p.unit)
    (hconvert : ∀ u : Unit r, u.IsFreeOfTemperature → u.IsConsistent → MovesBy move convert u) :
    ∃ cq cp, CarriesOver convert q p cq cp := by
  obtain ⟨cq, hcq, hmovedq⟩ := hconvertq q.value
  obtain ⟨cp, hcp, hmovedp⟩ := hconvertp p.value
  -- products, quotients and powers are combinations, of the quantity with itself for powers
  have hcombine : ∀ {s cs : Quantity r}, s.unit.exponents.IsWhole → s.unit.IsFreeOfTemperature →
      IsMoved move s cs → ∀ a b : ℤ,
        Converts convert (.ok (q.combine s a b)) (.ok (cq.combine cs a b)) := by
    intro s cs hs hfrees hmoveds a b
    obtain ⟨t, ht, hmovedt⟩ := hconvert (q.unit.combine s.unit a b) (hfreeq.combine a b hfrees)
      (Unit.isConsistent_combine _ _ _ _) (q.combine s a b).value
    refine ⟨_, _, rfl, rfl, ht.trans (congrArg _ ?_)⟩
    exact hmovedt.unique (hmovedq.combine hr hmove hq hs hmoveds a b)
  have hmultiple : ∀ x : ℚ,
      Converts convert (.ok ⟨q.value * x, q.unit⟩) (.ok ⟨cq.value * x, cq.unit⟩) := by
    intro x
    obtain ⟨t, ht, hmovedt⟩ := hconvertq (q.value * x)
    exact ⟨_, _, rfl, rfl, ht.trans (congrArg _ (hmovedt.unique (hmovedq.multiple x)))⟩
  refine ⟨cq, cp, hcq, hcp, ?_, fun hne => ⟨hmovedp.value_ne_zero hp hne, ?_⟩,
    fun n hne => ⟨fun hn => hmovedq.value_ne_zero hq (hne hn), ?_⟩, hmultiple, fun x _ => ?_⟩
  · rw [mul_eq_combine, mul_eq_combine]
    exact hcombine hp hfreep hmovedp 1 1
  · rw [div_eq_combine, div_eq_combine]
    exact hcombine hp hfreep hmovedp 1 (-1)
  · rw [pow_eq_combine, pow_eq_combine]
    exact hcombine hq hfreeq hmovedq n 0
  · have hquotient := hmultiple x⁻¹
    rw [← div_eq_mul_inv, ← div_eq_mul_inv] at hquotient
    exact hquotient

/-- **Arithmetic carries over to SI units**: quantities with whole exponents and without temperature
are multiplied, divided, raised to whole powers, and multiplied and divided by numbers, before or
after they are converted to SI units, and the result is the same; so too in primary SI units, if
the units carry the dimensions that they measure. -/
theorem conversions_to_si_carry_over (hr : r.IsAccepted) {q p : Quantity r}
    (hq : q.unit.exponents.IsWhole) (hp : p.unit.exponents.IsWhole)
    (hfreeq : q.unit.IsFreeOfTemperature) (hfreep : p.unit.IsFreeOfTemperature) :
    (∃ cq cp, CarriesOver toSi q p cq cp) ∧
      (q.unit.IsConsistent → p.unit.IsConsistent → ∃ cq cp, CarriesOver toSiPrimary q p cq cp) := by
  refine ⟨?_, fun hconsistentq hconsistentp => ?_⟩
  · exact exists_carriesOver hr Registry.isLinear_siExponents hq hp hfreeq hfreep
      (movesBy_toSi hr hfreeq) (movesBy_toSi hr hfreep) fun _ hfree _ => movesBy_toSi hr hfree
  · exact exists_carriesOver hr Registry.isLinear_siUnitsOf_primary hq hp hfreeq hfreep
      (movesBy_toSiPrimary hr hfreeq hconsistentq) (movesBy_toSiPrimary hr hfreep hconsistentp)
      fun _ => movesBy_toSiPrimary hr

/-- Three halves of a kilocalorie per mole, and two cubic centimetres per millisecond, with the sign
of a loss. -/
theorem conversions_to_si_carry_over_molar :
    let q : Quantity Registry.Bundled.registry := ⟨1.5, Registry.Bundled.unit "kcal.mol⁻¹"⟩
    let p : Quantity Registry.Bundled.registry := ⟨-2, Registry.Bundled.unit "cm³.ms⁻¹"⟩
    q.unit.exponents.IsWhole ∧ p.unit.exponents.IsWhole ∧
      q.unit.IsFreeOfTemperature ∧ p.unit.IsFreeOfTemperature ∧
      q.unit.IsConsistent ∧ p.unit.IsConsistent ∧
      (∃ cq cp, CarriesOver toSi q p cq cp ∧ cq.value = 6276 ∧ cp.value = -1 / 500) ∧
      ∃ cq cp, CarriesOver toSiPrimary q p cq cp ∧ cq.value = 6276 ∧ cp.value = -1 / 500 := by
  intro q p
  have hwhole : q.unit.exponents.IsWhole ∧ p.unit.exponents.IsWhole := by decide +kernel
  have hfree : q.unit.IsFreeOfTemperature ∧ p.unit.IsFreeOfTemperature := by decide +kernel
  have hconsistent : q.unit.IsConsistent ∧ p.unit.IsConsistent := by decide +kernel
  have hq : q.toSi.map value = .ok 6276 ∧ q.toSiPrimary.map value = .ok 6276 := by
    decide +kernel
  have hp : p.toSi.map value = .ok (-1 / 500) ∧ p.toSiPrimary.map value = .ok (-1 / 500) := by
    decide +kernel
  obtain ⟨⟨cq, cp, h⟩, hprimary⟩ := conversions_to_si_carry_over
    Registry.Bundled.isAccepted_registry hwhole.1 hwhole.2 hfree.1 hfree.2
  obtain ⟨cq', cp', h'⟩ := hprimary hconsistent.1 hconsistent.2
  rw [h.first, h'.first] at hq
  rw [h.second, h'.second] at hp
  exact ⟨hwhole.1, hwhole.2, hfree.1, hfree.2, hconsistent.1, hconsistent.2,
    ⟨cq, cp, h, Except.ok.inj hq.1, Except.ok.inj hp.1⟩,
    cq', cp', h', Except.ok.inj hq.2, Except.ok.inj hp.2⟩

end Quantity

end Metrology
