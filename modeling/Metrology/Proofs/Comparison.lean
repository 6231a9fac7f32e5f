import Mathlib
import Metrology.Proofs.SiArithmetic

/-!
Comparison of quantities.

A quantity is compared in its own unit, up to an absolute tolerance and one relative to the quantity
it is compared with. What the comparison allows for depends on both: the absolute tolerance is an
amount of the unit of the first quantity, and grows with it when it is expressed in another unit.
-/

namespace Metrology

/-- Equal numbers are close in any case. -/
lemma isCloseTo_iff {relative absolute : ℚ} (hrelative : 0 ≤ relative) (habsolute : 0 ≤ absolute)
    {x y : ℚ} : isCloseTo x y relative absolute = true ↔ |x - y| ≤ absolute + relative * |y| := by
  unfold isCloseTo
  rw [abs_rat, abs_rat, Bool.or_eq_true, beq_iff_eq, decide_eq_true_iff, or_iff_right_of_imp]
  rintro rfl
  rw [sub_self, abs_zero]
  positivity

namespace Unit

variable {r : Registry ℚ}

/-- The size of a unit in another, from which it differs by a power of the amount of substance. -/
def sizeIn (u v : Unit r) (n : ℤ) : ℚ :=
  r.siFactor u.exponents * r.avogadro ^ (-n) / r.siFactor v.exponents

lemma sizeIn_ne_zero (hN : r.avogadro ≠ 0) {u v : Unit r} (hu : u.exponents.IsWhole)
    (hv : v.exponents.IsWhole) (n : ℤ) : u.sizeIn v n ≠ 0 :=
  div_ne_zero (mul_ne_zero (Registry.siFactor_ne_zero hu) (zpow_ne_zero _ hN))
    (Registry.siFactor_ne_zero hv)

lemma sizeIn_self {u : Unit r} (hu : u.exponents.IsWhole) : u.sizeIn u 0 = 1 := by
  rw [sizeIn, neg_zero, zpow_zero, mul_one, div_self (Registry.siFactor_ne_zero hu)]

/-- Units without temperature convert by their size. -/
lemma coefficientsTo_of_isFreeOfTemperature (hr : r.IsAccepted) {u v : Unit r}
    (hu : u.IsFreeOfTemperature) (hv : v.IsFreeOfTemperature)
    (h : (u.convertibility v).convertible = true) {n : ℤ}
    (hn : (u.convertibility v).amountExponent = n) :
    u.coefficientsTo v = .ok ⟨0, u.sizeIn v n⟩ := by
  rw [coefficientsTo_of_convertible h hn, siCoefficients_eq, siCoefficients_eq,
    hu.siShift_eq_zero hr, hv.siShift_eq_zero hr, sub_zero, sizeIn]

/-- The size of a unit in another is the quotient of their sizes in a third. -/
lemma coefficientsTo_of_common (hr : r.IsAccepted) (hN : r.avogadro ≠ 0) {u v w : Unit r}
    (hw : w.exponents.IsWhole) (hu : u.IsFreeOfTemperature) (hv : v.IsFreeOfTemperature)
    (h : (u.convertibility v).convertible = true) {m n : ℤ}
    (hm : (u.convertibility w).amountExponent = m)
    (hn : (v.convertibility w).amountExponent = n) :
    u.coefficientsTo v = .ok ⟨0, u.sizeIn w m / v.sizeIn w n⟩ := by
  have hamount : (u.convertibility v).amountExponent = ((m - n : ℤ) : ℚ) := by
    push_cast
    rw [← hm, ← hn, amountExponent_eq, amountExponent_eq, amountExponent_eq]
    ring
  have hsize : u.sizeIn v (m - n) = u.sizeIn w m / v.sizeIn w n := by
    have hfactor := Registry.siFactor_ne_zero (r := r) hw
    unfold sizeIn
    rw [neg_sub, sub_eq_neg_add, zpow_add₀ hN, zpow_neg, zpow_neg]
    field_simp
  rw [coefficientsTo_of_isFreeOfTemperature hr hu hv h hamount, hsize]

end Unit

namespace Quantity

variable {r : Registry ℚ}

/-- How far from a value another may be to count as close to it, when the other is measured in a
unit of a given size. -/
def margin (size value : ℚ) : ℚ := 1e-8 * |size| + 1e-5 * |value|

lemma margin_nonneg (size value : ℚ) : 0 ≤ margin size value := by
  unfold margin
  positivity

lemma isCloseTo_eq (x y : ℚ) : isCloseTo x y 1e-5 1e-8 = decide (|x - y| ≤ margin 1 y) := by
  rw [Bool.eq_iff_iff, isCloseTo_iff (by norm_num) (by norm_num), decide_eq_true_iff, margin,
    abs_one, mul_one]

/-- Values expressed in another unit are as close as before, up to the size of the unit. -/
lemma abs_sub_le_margin_iff {size : ℚ} (h : size ≠ 0) (x y : ℚ) :
    |x - y / size| ≤ margin 1 (y / size) ↔ |x * size - y| ≤ margin size y := by
  have hpos : 0 < |size| := abs_pos.mpr h
  have hleft : |x * size - y| = |x - y / size| * |size| := by
    rw [← abs_mul, sub_mul, div_mul_cancel₀ _ h]
  have hright : margin size y = margin 1 (y / size) * |size| := by
    unfold margin
    rw [abs_one, abs_div]
    field_simp
  rw [hleft, hright, mul_le_mul_iff_of_pos_right hpos]

/-- Three tests have the same verdict if all of them pass or none does. -/
lemma same_verdict_iff {a b c : Prop} [Decidable a] [Decidable b] [Decidable c] :
    (∃ v, Except.ok (ε := Error) (decide a) = .ok v ∧ Except.ok (ε := Error) (decide b) = .ok v ∧
      Except.ok (ε := Error) (decide c) = .ok v) ↔ (a ∧ b) ∧ c ∨ (¬a ∧ ¬b) ∧ ¬c := by
  simp only [Except.ok.injEq]
  by_cases ha : a
  · simp [ha]
  · simp [ha]

section Factors

variable {q p : Quantity r} {u : Unit r}

lemma convertTo_of_factor {f : ℚ} (h : q.unit.coefficientsTo u = .ok ⟨0, f⟩) :
    q.convertTo u = .ok ⟨q.value * f, u⟩ := by
  rw [convertTo, Unit.conversionTo, h]
  exact apply_unshifted _ _ _

lemma equals_of_factor {f : ℚ} (hconvertible : (p.unit.convertibility q.unit).convertible = true)
    (h : p.unit.coefficientsTo q.unit = .ok ⟨0, f⟩) :
    q.equals p = .ok (decide (|q.value - p.value * f| ≤ margin 1 (p.value * f))) := by
  rw [equals, if_pos hconvertible, convertTo_of_factor h, ← isCloseTo_eq]
  rfl

/-- A comparison, by what its sides are in a common unit. -/
lemma equals_of_sizes {f g : ℚ} (hf : f ≠ 0)
    (hconvertible : (p.unit.convertibility q.unit).convertible = true)
    (h : p.unit.coefficientsTo q.unit = .ok ⟨0, g / f⟩) : q.equals p =
      .ok (decide (|q.value * f - p.value * g| ≤ margin f (p.value * g))) := by
  rw [equals_of_factor hconvertible h, ← mul_div_assoc]
  exact congrArg _ (decide_eq_decide.mpr (abs_sub_le_margin_iff hf _ _))

end Factors

/-- **When comparisons agree**: two quantities that convert, without temperature, are equal if their
values in a common unit are no further apart than the margin of the first unit around the second
value. So the comparison, the one with the sides exchanged, and the one in the common unit come to
the same if and only if the distance is within all three margins or beyond all three. -/
theorem comparisons_agree_iff (hr : r.IsAccepted) (hN : r.avogadro ≠ 0) {q p : Quantity r}
    {u : Unit r} (hq : q.unit.exponents.IsWhole) (hp : p.unit.exponents.IsWhole)
    (hu : u.exponents.IsWhole) (hfreeq : q.unit.IsFreeOfTemperature)
    (hfreep : p.unit.IsFreeOfTemperature) (hfreeu : u.IsFreeOfTemperature)
    (hqp : (q.unit.convertibility p.unit).convertible = true)
    (hqu : (q.unit.convertibility u).convertible = true)
    (hpu : (p.unit.convertibility u).convertible = true)
    (hm : (q.unit.convertibility u).amountExponent ∈ whole)
    (hn : (p.unit.convertibility u).amountExponent ∈ whole) :
    ∃ f g cq cp, q.unit.coefficientsTo u = .ok ⟨0, f⟩ ∧ p.unit.coefficientsTo u = .ok ⟨0, g⟩ ∧
      f ≠ 0 ∧ g ≠ 0 ∧ q.convertTo u = .ok cq ∧ p.convertTo u = .ok cp ∧
      q.equals p = .ok (decide (|cq.value - cp.value| ≤ margin f cp.value)) ∧
      p.equals q = .ok (decide (|cq.value - cp.value| ≤ margin g cq.value)) ∧
      cq.equals cp = .ok (decide (|cq.value - cp.value| ≤ margin 1 cp.value)) ∧
      ((∃ b, q.equals p = .ok b ∧ p.equals q = .ok b ∧ cq.equals cp = .ok b) ↔
        |cq.value - cp.value| ≤ margin f cp.value ⊓ margin g cq.value ⊓ margin 1 cp.value ∨
        margin f cp.value ⊔ margin g cq.value ⊔ margin 1 cp.value < |cq.value - cp.value|) := by
  obtain ⟨m, hm⟩ := mem_whole.mp hm
  obtain ⟨n, hn⟩ := mem_whole.mp hn
  have hpq : (p.unit.convertibility q.unit).convertible = true := by
    rw [Unit.convertibility_symm q.unit p.unit, hqp]
  have hf := Unit.sizeIn_ne_zero hN hq hu m
  have hg := Unit.sizeIn_ne_zero hN hp hu n
  have hqu' := Unit.coefficientsTo_of_isFreeOfTemperature hr hfreeq hfreeu hqu hm.symm
  have hpu' := Unit.coefficientsTo_of_isFreeOfTemperature hr hfreep hfreeu hpu hn.symm
  have hself : u.coefficientsTo u = .ok ⟨0, 1 / 1⟩ := by
    rw [Unit.coefficientsTo_of_isFreeOfTemperature hr hfreeu hfreeu (n := 0), Unit.sizeIn_self hu,
      div_one]
    · rw [Unit.convertibility_self]
    · rw [Unit.convertibility_self, Int.cast_zero]
  have hforth := equals_of_sizes hf hpq
    (Unit.coefficientsTo_of_common hr hN hu hfreep hfreeq hpq hn.symm hm.symm)
  have hback := equals_of_sizes hg hqp
    (Unit.coefficientsTo_of_common hr hN hu hfreeq hfreep hqp hm.symm hn.symm)
  rw [abs_sub_comm] at hback
  have hcommon := equals_of_sizes (q := ⟨q.value * q.unit.sizeIn u m, u⟩)
    (p := ⟨p.value * p.unit.sizeIn u n, u⟩) one_ne_zero (by rw [Unit.convertibility_self]) hself
  rw [mul_one, mul_one] at hcommon
  refine ⟨_, _, _, _, hqu', hpu', hf, hg, convertTo_of_factor hqu', convertTo_of_factor hpu',
    hforth, hback, hcommon, ?_⟩
  rw [hforth, hback, hcommon, same_verdict_iff, le_inf_iff, le_inf_iff, sup_lt_iff, sup_lt_iff,
    not_le, not_le, not_le]

/-- A kilogram is a thousand grams, also in daltons. -/
theorem comparisons_agree_iff_dalton :
    let q : Quantity Registry.Bundled.registry := ⟨1, Registry.Bundled.unit "kg"⟩
    let p : Quantity Registry.Bundled.registry := ⟨1000, Registry.Bundled.unit "g"⟩
    let u := Registry.Bundled.unit "Da"
    ∃ cq cp, q.convertTo u = .ok cq ∧ p.convertTo u = .ok cp ∧
      ∃ b, q.equals p = .ok b ∧ p.equals q = .ok b ∧ cq.equals cp = .ok b := by
  intro q p u
  have hvalue : (q.convertTo u).map value = (p.convertTo u).map value := by decide +kernel
  obtain ⟨f, g, cq, cp, -, -, -, -, hcq, hcp, -, -, -, hiff⟩ := comparisons_agree_iff
    Registry.Bundled.isAccepted_registry (by decide +kernel) (q := q) (p := p) (u := u)
    (by decide +kernel) (by decide +kernel) (by decide +kernel) (by decide +kernel)
    (by decide +kernel) (by decide +kernel) (by decide +kernel) (by decide +kernel)
    (by decide +kernel) (by decide +kernel) (by decide +kernel)
  rw [hcq, hcp] at hvalue
  have hdistance : |cq.value - cp.value| = 0 := by
    rw [Except.ok.inj hvalue, sub_self, abs_zero]
  refine ⟨cq, cp, hcq, hcp, hiff.mpr (Or.inl ?_)⟩
  rw [hdistance]
  exact le_inf (le_inf (margin_nonneg _ _) (margin_nonneg _ _)) (margin_nonneg _ _)

/-- A billionth of a kilogram passes for two millionths of a gram, but not the other way round, nor
in grams. -/
theorem not_comparisons_agree : ∃ (r : Registry ℚ) (q p cq cp : Quantity r) (u : Unit r),
    r.IsAccepted ∧ r.avogadro ≠ 0 ∧ q.unit.IsWhole ∧ p.unit.IsWhole ∧ u.IsWhole ∧
      q.unit.IsFreeOfTemperature ∧ p.unit.IsFreeOfTemperature ∧ u.IsFreeOfTemperature ∧
      q.unit.convertibility p.unit = ⟨true, 0⟩ ∧ q.unit.convertibility u = ⟨true, 0⟩ ∧
      p.unit.convertibility u = ⟨true, 0⟩ ∧ q.convertTo u = .ok cq ∧ p.convertTo u = .ok cp ∧
      q.equals p = .ok true ∧ p.equals q = .ok false ∧ cq.equals cp = .ok false := by
  have hr := Registry.Bundled.isAccepted_registry
  let kg := Registry.Bundled.unit "kg"
  let g := Registry.Bundled.unit "g"
  have hkg : kg.IsFreeOfTemperature := by decide +kernel
  have hg : g.IsFreeOfTemperature := by decide +kernel
  have hconvertible : kg.convertibility g = ⟨true, 0⟩ :=
    Unit.convertibility_of_primary_eq (by decide +kernel)
  have hself := Unit.convertibility_self g
  have hforth := Unit.coefficientsTo_of_isFreeOfTemperature hr hkg hg (by rw [hconvertible])
    (n := 0) (by rw [hconvertible, Int.cast_zero])
  have hstay := Unit.coefficientsTo_of_isFreeOfTemperature hr hg hg (by rw [hself])
    (n := 0) (by rw [hself, Int.cast_zero])
  exact ⟨_, ⟨1e-9, kg⟩, ⟨2e-6, g⟩, _, _, g, hr, by decide +kernel, by decide +kernel,
    by decide +kernel, by decide +kernel, hkg, hg, hg, hconvertible, hconvertible, hself,
    convertTo_of_factor hforth, convertTo_of_factor hstay, by decide +kernel, by decide +kernel,
    by decide +kernel⟩

end Quantity

end Metrology
