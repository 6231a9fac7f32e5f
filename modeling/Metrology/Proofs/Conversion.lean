import Mathlib
import Metrology.Proofs.Accepted
import Metrology.Unit.Conversion

/-!
Conversion over the rationals, between units with whole exponents.

Such units convert if they agree in all primary dimensions but the amount of substance, and their
coefficients are the quotients of those that lead to SI units. Quotients of this kind form a
cocycle. A value comes through a conversion unharmed as long as no shift meets a factor other
than 1.
-/

namespace Metrology

namespace UnitEntry

/-- What a unit with an exponent adds to the shift that leads to SI units. -/
def offset (e : UnitEntry ℚ) (x : ℚ) : ℚ :=
  if e.isTemperature = true ∧ 0 < x then x * e.conversionFactor else 0

/-- What a unit with an exponent multiplies the factor that leads to SI units by. -/
def scale (e : UnitEntry ℚ) (x : ℚ) : ℚ :=
  if e.isTemperature = true ∨ e.conversionFactor = 0 then 1
  else Scalar.power e.conversionFactor x

lemma offset_zero (e : UnitEntry ℚ) : e.offset 0 = 0 := if_neg fun h => lt_irrefl _ h.2

lemma scale_zero (e : UnitEntry ℚ) : e.scale 0 = 1 := by
  unfold scale
  split_ifs
  · rfl
  · simpa using power_intCast e.conversionFactor 0

lemma scale_ne_zero (e : UnitEntry ℚ) {x : ℚ} (hx : x ∈ whole) : e.scale x ≠ 0 := by
  obtain ⟨n, rfl⟩ := mem_whole.mp hx
  unfold scale
  split_ifs with hskip
  · exact one_ne_zero
  · rw [power_intCast]
    exact zpow_ne_zero n fun hzero => hskip (Or.inr hzero)

end UnitEntry

namespace Registry

variable (r : Registry ℚ)

/-- The shift that leads from a product of units to SI units. -/
def siShift (v : ExponentVector ℚ) : ℚ := ((r.paired v).map fun p => p.1.offset p.2).sum

/-- The factor that leads from a product of units to SI units. -/
def siFactor (v : ExponentVector ℚ) : ℚ := ((r.paired v).map fun p => p.1.scale p.2).prod

variable {r}

lemma siFactor_ne_zero {v : ExponentVector ℚ} (hv : v.IsWhole) : r.siFactor v ≠ 0 := by
  refine List.prod_ne_zero fun hzero => ?_
  obtain ⟨p, hp, hscale⟩ := List.mem_map.mp hzero
  exact p.1.scale_ne_zero (hv _ (List.of_mem_zip hp).2) hscale

end Registry

namespace Unit

variable {r : Registry ℚ}

/-- Whole exponents, of the unit and of the dimension it carries. Units are made with the dimension
that their exponents come to, which is whole if they are. -/
structure IsWhole (u : Unit r) : Prop where
  exponents : u.exponents.IsWhole
  dimension : u.dimension.exponents.IsWhole

instance (u : Unit r) : Decidable u.IsWhole :=
  decidable_of_iff (u.exponents.IsWhole ∧ u.dimension.exponents.IsWhole)
    ⟨fun h => ⟨h.1, h.2⟩, fun h => ⟨h.exponents, h.dimension⟩⟩

/-- A unit that is made of whole exponents is whole. -/
lemma isWhole_of_ofVector {v : ExponentVector ℚ} {h : v.length = r.unitCount} {u : Unit r}
    (hv : v.IsWhole) (hu : ofVector r v h = .ok u) : u.IsWhole := by
  have hdim : (r.dimensionOf v).exponents.IsWhole := by
    refine ExponentVector.isWhole_gather _ fun p hp => ?_
    obtain ⟨q, hq, rfl⟩ := List.mem_map.mp hp
    exact hv _ (List.of_mem_zip hq).2
  rw [ofVector_eq_ok] at hu
  obtain rfl := Except.ok.inj hu
  exact ⟨hv, hdim⟩

/-! ### Convertibility -/

lemma amountExponent_eq (u v : Unit r) : (u.convertibility v).amountExponent =
    v.dimension.primary.getD amountSlot 0 - u.dimension.primary.getD amountSlot 0 :=
  Dimension.getD_primary_div _ _ _

lemma convertible_iff_abs (u v : Unit r) : (u.convertibility v).convertible = true ↔
    ∀ j ≠ amountSlot,
      |v.dimension.primary.getD j 0 - u.dimension.primary.getD j 0| ≤ Scalar.tolerance := by
  show ExponentVector.isZero ((v.dimension / u.dimension).primary.set amountSlot 0) _ = true ↔ _
  rw [ExponentVector.isZero_iff tolerance_pos.le]
  refine forall_congr' fun j => ?_
  rw [ExponentVector.getD_set_zero, Dimension.getD_primary_div]
  by_cases hj : j = amountSlot
  · simp [hj, tolerance_pos.le]
  · simp [hj]

/-- Up to the tolerance means exactly, for whole exponents. -/
lemma convertible_iff (hr : r.IsWhole) {u v : Unit r} (hu : u.IsWhole) (hv : v.IsWhole) :
    (u.convertibility v).convertible = true ↔
      ∀ j ≠ amountSlot, u.dimension.primary.getD j 0 = v.dimension.primary.getD j 0 := by
  rw [convertible_iff_abs]
  refine forall₂_congr fun j _ => ?_
  rw [abs_sub_le_tolerance (Dimension.getD_primary_mem_whole hr hv.dimension j)
    (Dimension.getD_primary_mem_whole hr hu.dimension j)]
  exact eq_comm

lemma convertibility_of_primary_eq {u v : Unit r}
    (h : u.dimension.primary = v.dimension.primary) : u.convertibility v = ⟨true, 0⟩ := by
  have hc : (u.convertibility v).convertible = true := by
    rw [convertible_iff_abs]
    intro j _
    rw [h, sub_self, abs_zero, tolerance_rat]
    norm_num
  have hn : (u.convertibility v).amountExponent = 0 := by rw [amountExponent_eq, h, sub_self]
  rw [← hc, ← hn]

lemma convertibility_self (u : Unit r) : u.convertibility u = ⟨true, 0⟩ :=
  convertibility_of_primary_eq rfl

lemma convertibility_symm (u v : Unit r) : v.convertibility u =
    ⟨(u.convertibility v).convertible, -(u.convertibility v).amountExponent⟩ := by
  have hc : (v.convertibility u).convertible = (u.convertibility v).convertible := by
    rw [Bool.eq_iff_iff, convertible_iff_abs, convertible_iff_abs]
    exact forall₂_congr fun j _ => by rw [abs_sub_comm]
  have hn : (v.convertibility u).amountExponent = -(u.convertibility v).amountExponent := by
    rw [amountExponent_eq, amountExponent_eq, neg_sub]
  rw [← hc, ← hn]

lemma convertibility_trans (hr : r.IsWhole) {u v w : Unit r} (hu : u.IsWhole) (hv : v.IsWhole)
    (hw : w.IsWhole) (huv : (u.convertibility v).convertible = true)
    (hvw : (v.convertibility w).convertible = true) : u.convertibility w =
      ⟨true, (u.convertibility v).amountExponent + (v.convertibility w).amountExponent⟩ := by
  have hc : (u.convertibility w).convertible = true := by
    rw [convertible_iff hr hu hv] at huv
    rw [convertible_iff hr hv hw] at hvw
    rw [convertible_iff hr hu hw]
    exact fun j hj => (huv j hj).trans (hvw j hj)
  have hn : (u.convertibility w).amountExponent =
      (u.convertibility v).amountExponent + (v.convertibility w).amountExponent := by
    rw [amountExponent_eq, amountExponent_eq, amountExponent_eq]
    ring
  rw [← hc, ← hn]

lemma exists_amountExponent (hr : r.IsWhole) {u v : Unit r} (hu : u.IsWhole) (hv : v.IsWhole) :
    ∃ n : ℤ, (u.convertibility v).amountExponent = n := by
  have hmem := sub_mem (Dimension.getD_primary_mem_whole hr hv.dimension amountSlot)
    (Dimension.getD_primary_mem_whole hr hu.dimension amountSlot)
  obtain ⟨n, hn⟩ := mem_whole.mp hmem
  exact ⟨n, by rw [amountExponent_eq, hn]⟩

/-! ### Coefficients -/

lemma accountFor_eq (c : Coefficients ℚ) (e : UnitEntry ℚ) (x : ℚ) :
    accountFor c e x = ⟨c.shift + e.offset x, c.factor * e.scale x⟩ := by
  by_cases hx : x = 0
  · subst hx
    rw [UnitEntry.offset_zero, UnitEntry.scale_zero, add_zero, mul_one]
    simp [accountFor]
  · unfold accountFor UnitEntry.offset UnitEntry.scale
    by_cases ht : e.isTemperature = true
    · simp only [ht, if_true, true_and, true_or, mul_one]
      split_ifs <;> simp
    · by_cases hf : e.conversionFactor = 0
      · simp [ht, hf]
      · simp [ht, hf, hx]

/-- The coefficients that lead to SI units, unit by unit. -/
lemma siCoefficients_eq (u : Unit r) :
    u.siCoefficients = ⟨r.siShift u.exponents, r.siFactor u.exponents⟩ := by
  have hfold : ∀ (l : List (UnitEntry ℚ × ℚ)) (c : Coefficients ℚ),
      l.foldl (fun c p => accountFor c p.1 p.2) c =
        ⟨c.shift + (l.map fun p => p.1.offset p.2).sum,
          c.factor * (l.map fun p => p.1.scale p.2).prod⟩ := by
    intro l
    induction l with
    | nil => intro c; simp
    | cons p l ih =>
      intro c
      rw [List.foldl_cons, ih, accountFor_eq, List.map_cons, List.map_cons, List.sum_cons,
        List.prod_cons, add_assoc, mul_assoc]
  have hcoefficients := hfold (r.paired u.exponents) ⟨0, 1⟩
  rw [zero_add, one_mul] at hcoefficients
  exact hcoefficients

lemma siCoefficients_factor_ne_zero {u : Unit r} (hu : u.exponents.IsWhole) :
    u.siCoefficients.factor ≠ 0 := by
  rw [siCoefficients_eq]
  exact Registry.siFactor_ne_zero hu

lemma coefficientsVia_intCast (u v : Unit r) (n : ℤ) : u.coefficientsVia v n =
    ⟨u.siCoefficients.shift - v.siCoefficients.shift,
      u.siCoefficients.factor * r.avogadro ^ (-n) / v.siCoefficients.factor⟩ := by
  unfold coefficientsVia
  by_cases hn : n = 0
  · subst hn
    simp
  · have hn' : ((n : ℚ) == 0) = false := by simpa using hn
    have hneg : (-(n : ℚ)) = ((-n : ℤ) : ℚ) := by push_cast; rfl
    simp only [hn']
    rw [hneg, power_intCast]
    rfl

lemma coefficientsTo_of_convertible {u v : Unit r}
    (h : (u.convertibility v).convertible = true) {n : ℤ}
    (hn : (u.convertibility v).amountExponent = n) : u.coefficientsTo v = .ok
      ⟨u.siCoefficients.shift - v.siCoefficients.shift,
        u.siCoefficients.factor * r.avogadro ^ (-n) / v.siCoefficients.factor⟩ := by
  unfold coefficientsTo
  rw [if_pos h, hn, coefficientsVia_intCast]

lemma coefficientsTo_self {u : Unit r} (hu : u.IsWhole) : u.coefficientsTo u = .ok ⟨0, 1⟩ := by
  have h := convertibility_self u
  rw [coefficientsTo_of_convertible (n := 0) (by rw [h]) (by rw [h]; norm_num), sub_self,
    neg_zero, zpow_zero, mul_one, div_self (siCoefficients_factor_ne_zero hu.exponents)]

lemma coefficientsTo_trans (hr : r.IsWhole) (hN : r.avogadro ≠ 0) {a b c : Unit r}
    (ha : a.IsWhole) (hb : b.IsWhole) (hc : c.IsWhole)
    (hab : (a.convertibility b).convertible = true)
    (hbc : (b.convertibility c).convertible = true) :
    ∃ x y, a.coefficientsTo b = .ok x ∧ b.coefficientsTo c = .ok y ∧
      a.coefficientsTo c = .ok ⟨x.shift + y.shift, x.factor * y.factor⟩ ∧
      x.factor ≠ 0 ∧ y.factor ≠ 0 := by
  obtain ⟨m, hm⟩ := exists_amountExponent hr ha hb
  obtain ⟨n, hn⟩ := exists_amountExponent hr hb hc
  have hac := convertibility_trans hr ha hb hc hab hbc
  have hmn : (a.convertibility c).amountExponent = ((m + n : ℤ) : ℚ) := by
    rw [hac, hm, hn]; push_cast; rfl
  have fa := siCoefficients_factor_ne_zero ha.exponents
  have fb := siCoefficients_factor_ne_zero hb.exponents
  have fc := siCoefficients_factor_ne_zero hc.exponents
  refine ⟨_, _, coefficientsTo_of_convertible hab hm, coefficientsTo_of_convertible hbc hn, ?_,
    div_ne_zero (mul_ne_zero fa (zpow_ne_zero _ hN)) fb,
    div_ne_zero (mul_ne_zero fb (zpow_ne_zero _ hN)) fc⟩
  rw [coefficientsTo_of_convertible (by rw [hac]) hmn]
  congr 2
  · ring
  · rw [neg_add, zpow_add₀ hN]
    field_simp

/-- **Cocycle**: units with whole exponents convert to themselves by doing nothing, back by the
inverse, and by way of a third unit as they do directly. No factor is ever 0. -/
theorem coefficientsTo_cocycle (hr : r.IsWhole) (hN : r.avogadro ≠ 0) {a b c : Unit r}
    (ha : a.IsWhole) (hb : b.IsWhole) (hc : c.IsWhole) :
    a.convertibility a = ⟨true, 0⟩ ∧
      b.convertibility a =
        ⟨(a.convertibility b).convertible, -(a.convertibility b).amountExponent⟩ ∧
      a.siCoefficients.factor ≠ 0 ∧ a.coefficientsTo a = .ok ⟨0, 1⟩ ∧
      ((a.convertibility b).convertible = true → (b.convertibility c).convertible = true →
        a.convertibility c =
          ⟨true, (a.convertibility b).amountExponent + (b.convertibility c).amountExponent⟩ ∧
        ∃ x y, a.coefficientsTo b = .ok x ∧ b.coefficientsTo c = .ok y ∧
          a.coefficientsTo c = .ok ⟨x.shift + y.shift, x.factor * y.factor⟩ ∧
          x.factor ≠ 0 ∧ y.factor ≠ 0) := by
  refine ⟨convertibility_self a, convertibility_symm a b,
    siCoefficients_factor_ne_zero ha.exponents, coefficientsTo_self ha, fun hab hbc => ?_⟩
  exact ⟨convertibility_trans hr ha hb hc hab hbc, coefficientsTo_trans hr hN ha hb hc hab hbc⟩

/-- A joule for a mole of something is no kilocalorie, but a number of electronvolts. -/
theorem coefficientsTo_cocycle_molar :
    let a := Registry.Bundled.unit "J.mol^-1"
    let b := Registry.Bundled.unit "kcal"
    let c := Registry.Bundled.unit "eV"
    ∃ x y, a.coefficientsTo b = .ok x ∧ b.coefficientsTo c = .ok y ∧
      a.coefficientsTo c = .ok ⟨x.shift + y.shift, x.factor * y.factor⟩ ∧
      x.factor ≠ 0 ∧ y.factor ≠ 0 :=
  ((coefficientsTo_cocycle Registry.Bundled.isWhole_registry (by decide +kernel)
    (by decide +kernel) (by decide +kernel) (by decide +kernel)).2.2.2.2
    (by decide +kernel) (by decide +kernel)).2

/-! ### Values -/

lemma convertValue_of_convertible {u v : Unit r}
    (h : (u.convertibility v).convertible = true) {n : ℤ}
    (hn : (u.convertibility v).amountExponent = n) (x : ℚ) : u.convertValue v x = .ok
      ((x + (u.siCoefficients.shift - v.siCoefficients.shift)) *
        (u.siCoefficients.factor * r.avogadro ^ (-n) / v.siCoefficients.factor)) := by
  unfold convertValue
  rw [coefficientsTo_of_convertible h hn]
  rfl

/-- **What conversion does to a value**: it comes to the same in SI units, up to the amount of
substance, exactly if the target has no shift or the conversion has the factor 1; and it comes
back unchanged exactly if the conversion has no shift or the factor 1. -/
theorem convertValue_preserves_iff (hr : r.IsWhole) (hN : r.avogadro ≠ 0) {a b : Unit r}
    (ha : a.IsWhole) (hb : b.IsWhole) (h : (a.convertibility b).convertible = true) (v : ℚ) :
    ∃ (n : ℤ) (w v' : ℚ), (a.convertibility b).amountExponent = n ∧
      a.convertValue b v = .ok w ∧ b.convertValue a w = .ok v' ∧
      ((w + b.siCoefficients.shift) * b.siCoefficients.factor =
          (v + a.siCoefficients.shift) * a.siCoefficients.factor * r.avogadro ^ (-n) ↔
        b.siCoefficients.shift = 0 ∨
          a.siCoefficients.factor * r.avogadro ^ (-n) = b.siCoefficients.factor) ∧
      (v' = v ↔ a.siCoefficients.shift = b.siCoefficients.shift ∨
        a.siCoefficients.factor * r.avogadro ^ (-n) = b.siCoefficients.factor) := by
  obtain ⟨n, hn⟩ := exists_amountExponent hr ha hb
  have hback := convertibility_symm a b
  have hn' : (b.convertibility a).amountExponent = ((-n : ℤ) : ℚ) := by
    rw [hback, hn]; push_cast; rfl
  refine ⟨n, _, _, hn, convertValue_of_convertible h hn v,
    convertValue_of_convertible (by rw [hback, h]) hn' _, ?_, ?_⟩
  all_goals
    have fa := siCoefficients_factor_ne_zero ha.exponents
    have fb := siCoefficients_factor_ne_zero hb.exponents
    have fN := zpow_ne_zero n hN
    simp only [neg_neg, zpow_neg]
    generalize a.siCoefficients.factor = f at fa ⊢
    generalize b.siCoefficients.factor = g at fb ⊢
    generalize a.siCoefficients.shift = s
    generalize b.siCoefficients.shift = t
    generalize r.avogadro ^ n = N at fN ⊢
  · -- the two sides differ by the shift of the target times the difference of the factors
    have hdiff : ((v + (s - t)) * (f * N⁻¹ / g) + t) * g - (v + s) * f * N⁻¹ =
        t * (g - f * N⁻¹) := by
      field_simp
      ring
    rw [← sub_eq_zero, hdiff, mul_eq_zero, sub_eq_zero, eq_comm (a := g)]
  · -- the value comes back with the shift less the shift over the factor
    have hdiff : ((v + (s - t)) * (f * N⁻¹ / g) + (t - s)) * (g * N / f) - v =
        (s - t) * (1 - g * N / f) := by
      field_simp
      ring
    have hone : 1 - g * N / f = 0 ↔ f * N⁻¹ = g := by
      rw [sub_eq_zero, eq_div_iff fa, one_mul, ← div_eq_mul_inv, div_eq_iff fN]
    rw [← sub_eq_zero, hdiff, mul_eq_zero, sub_eq_zero, hone]

/-- 20 K are as many degrees above absolute zero in °C, and come back as 20 K. -/
theorem convertValue_preserves_kelvin :
    let a := Registry.Bundled.unit "K"
    let b := Registry.Bundled.unit "°C"
    ∃ w v', a.convertValue b 20 = .ok w ∧ b.convertValue a w = .ok v' ∧
      (w + b.siCoefficients.shift) * b.siCoefficients.factor =
        (20 + a.siCoefficients.shift) * a.siCoefficients.factor ∧ v' = 20 := by
  intro a b
  obtain ⟨n, w, v', hn, hw, hv, hsi, hback⟩ := convertValue_preserves_iff
    Registry.Bundled.isWhole_registry (by decide +kernel) (a := a) (b := b)
    (by decide +kernel) (by decide +kernel) (by decide +kernel) 20
  have hzero : (a.convertibility b).amountExponent = 0 := by decide +kernel
  have hn0 : n = 0 := by exact_mod_cast hn.symm.trans hzero
  subst hn0
  have hfactor : a.siCoefficients.factor = b.siCoefficients.factor := by decide +kernel
  simp only [neg_zero, zpow_zero, mul_one] at hsi hback
  exact ⟨w, v', hw, hv, hsi.mpr (Or.inr hfactor), hback.mpr (Or.inr hfactor)⟩

/-- Kilogram kelvins and gram degrees Celsius convert by a shift and the factor 1000, and values do
not come through unharmed. -/
theorem not_convertValue_preserves : ∃ (r : Registry ℚ) (a b : Unit r) (w : ℚ),
    r.IsAccepted ∧ r.IsWhole ∧ r.avogadro ≠ 0 ∧ a.IsWhole ∧ b.IsWhole ∧
      (a.convertibility b).convertible = true ∧ (a.convertibility b).amountExponent = 0 ∧
      a.convertValue b 1 = .ok w ∧
      (w + b.siCoefficients.shift) * b.siCoefficients.factor ≠
        (1 + a.siCoefficients.shift) * a.siCoefficients.factor ∧
      b.convertValue a w ≠ .ok 1 :=
  ⟨Registry.Bundled.registry, Registry.Bundled.unit "kg.K", Registry.Bundled.unit "g.°C",
    -272150, Registry.Bundled.isAccepted_registry, Registry.Bundled.isWhole_registry,
    by decide +kernel, by decide +kernel, by decide +kernel, by decide +kernel,
    by decide +kernel, by decide +kernel, by decide +kernel, by decide +kernel⟩

end Unit

end Metrology
