import Mathlib
import Metrology.Proofs.Comparison
import Metrology.Proofs.Equivalents

/-!
Addition of quantities.

The second quantity is converted to the unit of the first, unless the two units are equal: then its
value is taken as it is. Equal units have the same dimension and close coefficients to SI units, so
that the conversion left out has a factor near 1, and no shift where no temperature occurs. What is
added is near the converted value in both cases, if there is one: where the Avogadro constant of a
registry is 0, no negative power of it is to be relied on.
-/

namespace Metrology

namespace Unit

variable {r : Registry ℚ} {u v : Unit r}

lemma primary_eq_of_equals (hwhole : r.IsWhole) (hu : u.IsWhole) (hv : v.IsWhole)
    (h : u.equals v = true) : u.dimension.primary = v.dimension.primary := by
  obtain ⟨hsame, -⟩ := Bool.and_eq_true_iff.mp h
  obtain ⟨hdimension, -⟩ := Bool.and_eq_true_iff.mp hsame
  exact (ExponentVector.isClose_iff
    (u.dimension.length_primary.trans v.dimension.length_primary.symm)
    (Dimension.isWhole_primary hwhole hu.dimension)
    (Dimension.isWhole_primary hwhole hv.dimension)).mp hdimension

/-- What equal units have in common, apart from their dimension. -/
lemma siCoefficients_of_equals (h : u.equals v = true) :
    |u.siCoefficients.shift - v.siCoefficients.shift| ≤
        1e-8 + 1e-5 * |v.siCoefficients.shift| ∧
      |u.siCoefficients.factor - v.siCoefficients.factor| ≤ 1e-9 * |v.siCoefficients.factor| := by
  obtain ⟨hsame, hfactor⟩ := Bool.and_eq_true_iff.mp h
  obtain ⟨-, hshift⟩ := Bool.and_eq_true_iff.mp hsame
  rw [isCloseTo_iff (by norm_num) (by norm_num)] at hshift hfactor
  rw [zero_add] at hfactor
  exact ⟨hshift, hfactor⟩

/-- Numbers that are close by the second have a quotient near 1. -/
lemma abs_div_sub_one_le {x y bound : ℚ} (hy : y ≠ 0) (h : |x - y| ≤ bound * |y|) :
    |x / y - 1| ≤ bound := by
  have hquotient : x / y - 1 = (x - y) / y := by rw [sub_div, div_self hy]
  rw [hquotient, abs_div]
  exact (div_le_iff₀ (abs_pos.mpr hy)).mpr h

/-- **Equal units** convert with a factor near 1 and a shift near 0. -/
lemma coefficientsTo_of_equals (hwhole : r.IsWhole) (hu : u.IsWhole) (hv : v.IsWhole)
    (h : u.equals v = true) : u.convertibility v = ⟨true, 0⟩ ∧
      ∃ c, u.coefficientsTo v = .ok c ∧ |c.factor - 1| ≤ 1e-9 ∧
        |c.shift| ≤ 1e-8 + 1e-5 * |v.siCoefficients.shift| := by
  have hconvertible := convertibility_of_primary_eq (primary_eq_of_equals hwhole hu hv h)
  obtain ⟨hshift, hfactor⟩ := siCoefficients_of_equals h
  refine ⟨hconvertible, _, coefficientsTo_of_convertible (n := 0) (by rw [hconvertible])
    (by rw [hconvertible, Int.cast_zero]), ?_, hshift⟩
  rw [neg_zero, zpow_zero, mul_one]
  exact abs_div_sub_one_le (siCoefficients_factor_ne_zero hv.exponents) hfactor

end Unit

namespace Quantity

variable {r : Registry ℚ} {q p : Quantity r}

/-- What a quantity contributes to a sum and to a difference. -/
lemma add_and_subtract_of_valueIn {x : ℚ} (h : p.valueIn q.unit = .ok x) :
    q.add p = .ok ⟨q.value + x, q.unit⟩ ∧ q.subtract p = .ok ⟨q.value - x, q.unit⟩ := by
  rw [add, subtract, h]
  exact ⟨rfl, rfl⟩

/-- The value that is taken is near the converted one: it is the same unless the units are equal,
and then the conversion multiplies by a factor near 1. -/
lemma exists_valueIn_near (hr : r.IsAccepted) (hwhole : r.IsWhole) (hq : q.unit.IsWhole)
    (hp : p.unit.IsWhole) (hconvertible : (p.unit.convertibility q.unit).convertible = true)
    (hfreeq : q.unit.IsFreeOfTemperature) (hfreep : p.unit.IsFreeOfTemperature) :
    ∃ x converted, p.valueIn q.unit = .ok x ∧ p.convertTo q.unit = .ok converted ∧
      |x - converted.value| ≤ 1e-9 * |p.value| := by
  obtain ⟨n, hn⟩ := Unit.exists_amountExponent hwhole hp hq
  have hcoefficients :=
    Unit.coefficientsTo_of_isFreeOfTemperature hr hfreep hfreeq hconvertible hn
  have hconverted := convertTo_of_factor hcoefficients
  by_cases hequal : p.unit.equals q.unit = true
  · obtain ⟨-, c, hc, hfactor, -⟩ := Unit.coefficientsTo_of_equals hwhole hp hq hequal
    obtain rfl := Except.ok.inj (hc.symm.trans hcoefficients)
    refine ⟨p.value, _, by rw [valueIn, if_pos hequal], hconverted, ?_⟩
    have hdistance : p.value - p.value * p.unit.sizeIn q.unit n =
        (1 - p.unit.sizeIn q.unit n) * p.value := by ring
    rw [hdistance, abs_mul, abs_sub_comm]
    exact mul_le_mul_of_nonneg_right hfactor (abs_nonneg _)
  · refine ⟨_, _, by rw [valueIn, if_neg hequal, hconverted]; rfl, hconverted, ?_⟩
    rw [sub_self, abs_zero]
    positivity

/-- **What is added** is near the converted value. Where the units are equal, they convert with a
factor near 1 and a shift near 0. Units that convert without temperature contribute a value that
differs from the converted one by a billionth of the value at most, whether it is converted or not.
There are such values, and a sum and a difference with them, unless the units differ by a power of
the amount of substance and the Avogadro constant is 0. -/
theorem valueIn_near_conversion (hr : r.IsAccepted) (hwhole : r.IsWhole) (hq : q.unit.IsWhole)
    (hp : p.unit.IsWhole) :
    (p.unit.equals q.unit = true → p.unit.convertibility q.unit = ⟨true, 0⟩ ∧
      ∃ c, p.unit.coefficientsTo q.unit = .ok c ∧ |c.factor - 1| ≤ 1e-9 ∧
        |c.shift| ≤ 1e-8 + 1e-5 * |q.unit.siCoefficients.shift|) ∧
    ((p.unit.convertibility q.unit).convertible = true → q.unit.IsFreeOfTemperature →
      p.unit.IsFreeOfTemperature →
      (∀ x converted, p.valueIn q.unit = .ok x → p.convertTo q.unit = .ok converted →
        |x - converted.value| ≤ 1e-9 * |p.value|) ∧
      (r.avogadro ≠ 0 ∨ (p.unit.convertibility q.unit).amountExponent = 0 →
        ∃ x converted, p.valueIn q.unit = .ok x ∧ p.convertTo q.unit = .ok converted ∧
          q.add p = .ok ⟨q.value + x, q.unit⟩ ∧ q.subtract p = .ok ⟨q.value - x, q.unit⟩)) := by
  refine ⟨Unit.coefficientsTo_of_equals hwhole hp hq, fun hconvertible hfreeq hfreep => ?_⟩
  obtain ⟨x, converted, hx, hconverted, hnear⟩ :=
    exists_valueIn_near hr hwhole hq hp hconvertible hfreeq hfreep
  refine ⟨fun y converted' hy hconverted' => ?_,
    fun _ => ⟨x, converted, hx, hconverted, add_and_subtract_of_valueIn hx⟩⟩
  obtain rfl := Except.ok.inj (hx.symm.trans hy)
  obtain rfl := Except.ok.inj (hconverted.symm.trans hconverted')
  exact hnear

/-- A newton metre is a joule, and can be added to one as it is; a newton metre for a mole of
something has to be converted. -/
theorem valueIn_near_conversion_joule :
    let q : Quantity Registry.Bundled.registry := ⟨1, Registry.Bundled.unit "J"⟩
    let p : Quantity Registry.Bundled.registry := ⟨2, Registry.Bundled.unit "N.m"⟩
    let p' : Quantity Registry.Bundled.registry := ⟨2, Registry.Bundled.unit "N.m.mol^-1"⟩
    Registry.Bundled.registry.avogadro ≠ 0 ∧
      q.add p = .ok ⟨3, q.unit⟩ ∧ p'.unit.equals q.unit = false ∧
      (∃ c, p.unit.coefficientsTo q.unit = .ok c ∧ |c.factor - 1| ≤ 1e-9) ∧
      ∃ x converted, q.add p' = .ok ⟨1 + x, q.unit⟩ ∧ p'.convertTo q.unit = .ok converted ∧
        |x - converted.value| ≤ 1e-9 * 2 := by
  intro q p p'
  have hr := Registry.Bundled.isAccepted_registry
  have hwhole := Registry.Bundled.isWhole_registry
  have hN : Registry.Bundled.registry.avogadro ≠ 0 := by decide +kernel
  obtain ⟨hequal, hsum⟩ := valueIn_near_conversion (q := q) (p := p) hr hwhole (by decide +kernel)
    (by decide +kernel)
  obtain ⟨-, hsum'⟩ := valueIn_near_conversion (q := q) (p := p') hr hwhole (by decide +kernel)
    (by decide +kernel)
  have hsame : p.unit.equals q.unit = true := by decide +kernel
  obtain ⟨-, c, hc, hfactor, -⟩ := hequal hsame
  obtain ⟨-, hexists⟩ := hsum (by decide +kernel) (by decide +kernel) (by decide +kernel)
  obtain ⟨hnear', hexists'⟩ := hsum' (by decide +kernel) (by decide +kernel) (by decide +kernel)
  obtain ⟨x, converted, hx, hconverted, hadd, -⟩ := hexists (.inl hN)
  obtain ⟨x', converted', hx', hconverted', hadd', -⟩ := hexists' (.inl hN)
  have hclose := hnear' x' converted' hx' hconverted'
  have htwo : x = 2 := by
    rw [valueIn, if_pos hsame] at hx
    exact (Except.ok.inj hx).symm
  refine ⟨hN, ?_, by decide +kernel, ⟨c, hc, hfactor⟩, x', converted', hadd', hconverted', ?_⟩
  · rw [hadd, htwo]
    norm_num [q]
  · simpa [p'] using hclose

end Quantity

end Metrology
