import Mathlib
import Metrology.Quantity
import Metrology.Proofs.FiniteComposition
import Metrology.Proofs.FractionLoop
import Metrology.Proofs.Tables

/-!
Whether the writing of dimensions and units comes to an end.

An exponent that is neither 1 nor close to a whole number is written as a fraction, which has to be
found first. Over the doubles, the writing of an exponent ends if and only if it is finite, and so
does that of a product. A description besides takes the composing of few factors, which always ends.
-/

namespace Metrology

section

variable {α : Type} [Scalar α]

/-- Whether the search for a fraction close to a number ends. -/
def FractionEnds (value maxDenominator : α) : Prop :=
  ∃ steps, (Convergents.start (Scalar.abs value)).EndsWithin maxDenominator (Scalar.abs value) steps

/-- Whether the writing of an exponent ends. -/
def ExponentEnds (exponent : α) : Prop :=
  (exponent == 1) = true ∨ Scalar.abs (exponent - Scalar.round exponent) ≤ Scalar.tolerance ∨
    FractionEnds exponent maxPrintedDenominator

/-- Whether the writing of a product ends whose bases are written as they stand. -/
def PlainEnds (factors : List (String × α)) : Prop :=
  ∀ factor ∈ printedFactors factors, ExponentEnds factor.2

/-- Whether the writing of a base ends, as an expression if it is one. -/
def BaseEnds (α : Type) [Scalar α] (base : String) : Prop :=
  isCompound base = true → ∀ terms, parseTerms base = .ok terms →
    PlainEnds (terms.map fun term => (term.base, (term.exponent.value : α)))

/-- Whether the writing of a product ends, factor by factor, in which bases may be expressions. At a
base that is none, although it looks like one, it ends at once. -/
def ProductEnds : List (String × α) → Prop
  | [] => True
  | (base, exponent) :: factors =>
    BaseEnds α base ∧ ∀ text, printBase α base = .ok text →
      ExponentEnds exponent ∧ ProductEnds factors

/-- The symbols of the dimensions and units of a registry. -/
def Registry.symbols {α : Type} (r : Registry α) : List String :=
  r.dimensions.map DimensionEntry.symbol ++ r.units.map UnitEntry.symbol

/-- Whether a label in a product is a symbol of a registry, or empty. -/
def Registry.IsLabel {α : Type} (r : Registry α) (label : String) : Prop :=
  label ∈ r.symbols ∨ label = ""

lemma productEnds_of_forall {factors : List (String × α)}
    (h : ∀ factor ∈ factors, BaseEnds α factor.1 ∧ ExponentEnds factor.2) :
    ProductEnds factors := by
  induction factors with
  | nil => trivial
  | cons factor factors ih =>
    obtain ⟨hbase, hexponent⟩ := h factor List.mem_cons_self
    exact ⟨hbase, fun _ _ => ⟨hexponent, ih fun f hf => h f (List.mem_cons_of_mem _ hf)⟩⟩

lemma Registry.isLabel_unit {α : Type} (r : Registry α) (i : ℕ) :
    r.IsLabel (((r.units[i]?).map UnitEntry.symbol).getD "") := by
  cases hu : r.units[i]? with
  | none => exact .inr rfl
  | some u =>
    exact .inl (List.mem_append_right _ (List.mem_map_of_mem (List.mem_of_getElem? hu)))

namespace Dimension

variable {r : Registry α}

/-- If what the entries of the table are called is a label, the factors have labels. -/
lemma isLabel_of_mem_factors (d : Dimension r) {label : DimensionEntry α → String}
    (h : ∀ entry ∈ r.dimensions, r.IsLabel (label entry)) :
    ∀ factor ∈ d.factors label, r.IsLabel factor.1 := by
  intro factor hfactor
  obtain ⟨i, -, rfl⟩ := List.mem_map.mp hfactor
  show r.IsLabel (((r.dimensions[i]?).map label).getD "")
  cases hd : r.dimensions[i]? with
  | none => exact .inr rfl
  | some entry => exact h entry (List.mem_of_getElem? hd)

lemma isLabel_of_mem_symbols (d : Dimension r) :
    ∀ factor ∈ d.factors DimensionEntry.symbol, r.IsLabel factor.1 :=
  d.isLabel_of_mem_factors fun _ hentry =>
    .inl (List.mem_append_left _ (List.mem_map_of_mem hentry))

lemma isLabel_of_mem_siUnits (d : Dimension r) : ∀ factor ∈ d.factors fun entry =>
    ((r.units[entry.siUnitIndex]?).map UnitEntry.symbol).getD "", r.IsLabel factor.1 :=
  d.isLabel_of_mem_factors fun entry _ => r.isLabel_unit entry.siUnitIndex

/-- Whether the writing of the name of a dimension ends. -/
def NameEnds (d : Dimension r) : Prop := PlainEnds (d.factors DimensionEntry.name)

/-- Whether the writing of a dimension ends whose factors are labelled. -/
def PrintEnds (d : Dimension r) (label : DimensionEntry α → String) : Prop :=
  ProductEnds (printedFactors (d.factors label))

/-- Whether the writing of the symbol of a dimension ends. -/
def SymbolEnds (d : Dimension r) : Prop := d.PrintEnds DimensionEntry.symbol

/-- Whether the writing of the SI unit of a dimension ends. -/
def SiUnitEnds (d : Dimension r) : Prop :=
  d.PrintEnds fun entry => ((r.units[entry.siUnitIndex]?).map UnitEntry.symbol).getD ""

/-- Whether the description of a dimension ends: the composing of few factors, and the writing part
by part. If the dimension cannot be composed of primary dimensions, nothing is written. -/
def DescriptionEnds (d : Dimension r) : Prop := d.ShortestEnds ∧
  ∀ primary, d.toPrimary = .ok primary →
    ∀ e ∈ [d, d.shortest, primary], e.SymbolEnds ∧ e.NameEnds ∧ e.SiUnitEnds

end Dimension

namespace Unit

variable {r : Registry α}

lemma isLabel_of_mem_symbols (u : Unit r) :
    ∀ factor ∈ u.factors UnitEntry.symbol, r.IsLabel factor.1 := by
  intro factor hfactor
  obtain ⟨i, -, rfl⟩ := List.mem_map.mp hfactor
  exact r.isLabel_unit i

/-- Whether the writing of the name of a unit ends. -/
def NameEnds (u : Unit r) : Prop := PlainEnds (u.factors UnitEntry.name)

/-- Whether the writing of the symbol of a unit ends. -/
def SymbolEnds (u : Unit r) : Prop := ProductEnds (printedFactors (u.factors UnitEntry.symbol))

/-- Whether the description of a unit ends, part by part. -/
def DescriptionEnds (u : Unit r) : Prop :=
  (∀ v, v = u ∨ u.toSi = .ok v ∨ u.toSiPrimary = .ok v → v.SymbolEnds ∧ v.NameEnds) ∧
    u.dimension.DescriptionEnds

end Unit

end

/-! ### Over the doubles -/

open Double

/-- **Fractions**: the search for a close fraction ends for finite numbers, within the steps that
are taken, and for nothing else. -/
lemma fractionEnds_iff {x : Float} : FractionEnds x maxPrintedDenominator ↔ x.isFinite = true := by
  constructor
  · rintro ⟨steps, h⟩
    by_contra hfinite
    have hexcessive := isExcessive_scalar_abs (Bool.eq_false_iff.mpr hfinite)
    exact (Convergents.isStuck_start hexcessive.isFinite).not_endsWithin _ steps h
  · intro h
    obtain ⟨p, hp⟩ := exists_isNumber h
    exact ⟨_, Convergents.endsWithin_start (isNumber_scalar_abs hp).isFinite⟩

/-- **Exponents**: the writing of an exponent ends if and only if it is finite. -/
lemma exponentEnds_iff {x : Float} : ExponentEnds x ↔ x.isFinite = true := by
  constructor
  · intro h
    by_contra hfinite
    have hfinite := Bool.eq_false_iff.mpr hfinite
    have hrest : IsUndefined (Scalar.abs (x - Scalar.round x)) := by
      rw [round_eq_self hfinite]
      exact (isUndefined_sub_self hfinite).scalar_abs
    rcases h with hone | hnear | hfraction
    · exact absurd hone (Bool.eq_false_iff.mp (beq_isNumber hfinite isNumber_one))
    · exact hrest.not_le _ hnear
    · exact absurd (fractionEnds_iff.mp hfraction) (Bool.eq_false_iff.mp hfinite)
  · exact fun h => .inr (.inr (fractionEnds_iff.mpr h))

/-- What is not finite does not count as zero. -/
lemma isNegligible_eq_false {x : Float} (h : x.isFinite = false) : isNegligible x = false :=
  decide_eq_false ((isExcessive_scalar_abs h).not_le isNumber_tolerance)

variable {factors : List (String × Float)}

lemma forall_printedFactors_iff : (∀ factor ∈ printedFactors factors, factor.2.isFinite = true) ↔
    ∀ factor ∈ factors, factor.2.isFinite = true := by
  refine ⟨fun h factor hfactor => ?_,
    fun h factor hfactor => h factor (List.mem_of_mem_filter hfactor)⟩
  by_contra hfinite
  refine hfinite (h factor (List.mem_filter.mpr ⟨hfactor, ?_⟩))
  rw [isNegligible_eq_false (Bool.eq_false_iff.mpr hfinite)]
  rfl

lemma plainEnds_iff : PlainEnds factors ↔ ∀ factor ∈ factors, factor.2.isFinite = true := by
  rw [← forall_printedFactors_iff]
  exact forall₂_congr fun _ _ => exponentEnds_iff

lemma productEnds_of_isFinite (h : ∀ factor ∈ factors, factor.2.isFinite = true)
    (hbases : ∀ factor ∈ factors, BaseEnds Float factor.1) :
    ProductEnds (printedFactors factors) := by
  refine productEnds_of_forall fun factor hfactor => ?_
  have hmem := List.mem_of_mem_filter hfactor
  exact ⟨hbases _ hmem, exponentEnds_iff.mpr (h _ hmem)⟩

lemma baseFinishes_iff {base : String} : baseFinishes Float base = true ↔ BaseEnds Float base := by
  unfold baseFinishes BaseEnds
  cases parseTerms base with
  | error problem => simp
  | ok terms =>
    simp only [Bool.or_eq_true, Bool.not_eq_eq_eq_not, Bool.not_true, List.all_eq_true,
      Except.ok.injEq, forall_eq', plainEnds_iff, List.forall_mem_map]
    rw [← Bool.not_eq_true, ← imp_iff_not_or]
    rfl

/-- **Products**: whether the writing of factors comes to an end is told before the writing. -/
lemma factorsFinish_iff : factorsFinish factors = true ↔ ProductEnds factors := by
  induction factors with
  | nil => exact iff_of_true rfl trivial
  | cons factor factors ih =>
    obtain ⟨base, exponent⟩ := factor
    rw [factorsFinish, ProductEnds, Bool.and_eq_true, baseFinishes_iff]
    refine and_congr_right fun _ => ?_
    cases printBase Float base with
    | error _ => simp
    | ok text =>
      simp only [Except.ok.injEq, forall_eq', exponentEnds_iff, ← ih]
      exact Bool.and_eq_true_iff

/-- Whether the exponents in the symbols of a registry are finite. -/
def Registry.HasFiniteSymbols (r : Registry Float) : Prop :=
  ∀ symbol ∈ r.dimensions.map DimensionEntry.symbol ++ r.units.map UnitEntry.symbol,
    isCompound symbol = true → ∀ terms, parseTerms symbol = .ok terms →
      ∀ term ∈ terms, (term.exponent.value : Float).isFinite = true

lemma Registry.HasFiniteSymbols.baseEnds {r : Registry Float} (h : r.HasFiniteSymbols)
    {label : String} (hlabel : r.IsLabel label) : BaseEnds Float label := by
  intro hcompound terms hterms
  rcases hlabel with hsymbol | rfl
  · rw [plainEnds_iff]
    intro factor hfactor
    obtain ⟨term, hterm, rfl⟩ := List.mem_map.mp hfactor
    exact h label hsymbol hcompound terms hterms term hterm
  · exact absurd hcompound (by decide)

/-- The exponents that are written, one for each place of a table, are finite if and only if those
of the vector are. -/
lemma forall_isFinite_iff {v : ExponentVector Float} {order : List ℕ} {size : ℕ}
    (hv : v.length = size) (horder : order.Perm (List.range size)) (label : ℕ → String) :
    (∀ factor ∈ order.map fun i => (label i, v.getD i 0), factor.2.isFinite = true) ↔
      v.all Scalar.isFinite = true := by
  rw [List.forall_mem_map, List.all_eq_true]
  constructor
  · intro h x hx
    obtain ⟨i, hi, rfl⟩ := List.getElem_of_mem hx
    have hmem : i ∈ order := horder.mem_iff.mpr (List.mem_range.mpr (hi.trans_eq hv))
    have hfinite := h i hmem
    rwa [List.getD_eq_getElem _ _ hi] at hfinite
  · intro h i hi
    have hi : i < v.length := (List.mem_range.mp (horder.mem_iff.mp hi)).trans_eq hv.symm
    show (v.getD i 0).isFinite = true
    rw [List.getD_eq_getElem _ _ hi]
    exact h _ (List.getElem_mem hi)

namespace Dimension

variable {r : Registry Float} {d : Dimension r}

lemma forall_factors_iff (d : Dimension r) (label : DimensionEntry Float → String) :
    (∀ factor ∈ d.factors label, factor.2.isFinite = true) ↔ d.isFinite = true :=
  forall_isFinite_iff d.length_eq (Metrology.displayOrder_perm _ _) _

/-- **Names of dimensions**: the writing ends if and only if all exponents are finite. -/
lemma nameEnds_iff (d : Dimension r) : d.NameEnds ↔ d.isFinite = true :=
  plainEnds_iff.trans (d.forall_factors_iff _)

/-- Symbols of a finite dimension can be written if the bases can. -/
lemma printEnds_of_isFinite (hr : r.HasFiniteSymbols) (h : d.isFinite = true)
    {label : DimensionEntry Float → String} (hlabels : ∀ f ∈ d.factors label, r.IsLabel f.1) :
    d.PrintEnds label :=
  productEnds_of_isFinite ((d.forall_factors_iff label).mpr h) fun f hf =>
    hr.baseEnds (hlabels f hf)

lemma symbolFinishes_iff : d.symbolFinishes = true ↔ d.SymbolEnds := factorsFinish_iff

lemma symbolEnds_of_isFinite (hr : r.HasFiniteSymbols) (h : d.isFinite = true) : d.SymbolEnds :=
  printEnds_of_isFinite hr h d.isLabel_of_mem_symbols

lemma siUnitEnds_of_isFinite (hr : r.HasFiniteSymbols) (h : d.isFinite = true) : d.SiUnitEnds :=
  printEnds_of_isFinite hr h d.isLabel_of_mem_siUnits

/-- The description of a dimension ends: if it can be composed of primary dimensions, it is finite
and so are its compositions. -/
lemma descriptionEnds (hr : r.HasFiniteSymbols) (d : Dimension r) : d.DescriptionEnds := by
  refine ⟨d.shortestEnds, fun primary hprimary e he => ?_⟩
  have hfinite : e.isFinite = true := by
    simp only [List.mem_cons, List.not_mem_nil, or_false] at he
    rcases he with rfl | rfl | rfl
    · exact isFinite_of_primary (all_isFinite_of_toPrimary hprimary)
    · exact isFinite_shortest hprimary
    · exact d.yields_isFinite_toPrimary _ hprimary
  exact ⟨symbolEnds_of_isFinite hr hfinite, e.nameEnds_iff.mpr hfinite,
    siUnitEnds_of_isFinite hr hfinite⟩

end Dimension

namespace Unit

variable {r : Registry Float} {u : Unit r}

lemma forall_factors_iff (u : Unit r) (label : UnitEntry Float → String) :
    (∀ factor ∈ u.factors label, factor.2.isFinite = true) ↔ u.isFinite = true :=
  forall_isFinite_iff u.length_eq (Metrology.displayOrder_perm _ _) _

/-- **Names of units**: the writing ends if and only if all exponents are finite. -/
lemma nameEnds_iff (u : Unit r) : u.NameEnds ↔ u.isFinite = true :=
  plainEnds_iff.trans (u.forall_factors_iff _)

lemma symbolFinishes_iff : u.symbolFinishes = true ↔ u.SymbolEnds := factorsFinish_iff

lemma symbolEnds_of_isFinite (hr : r.HasFiniteSymbols) (h : u.isFinite = true) : u.SymbolEnds :=
  productEnds_of_isFinite ((u.forall_factors_iff _).mpr h) fun f hf =>
    hr.baseEnds (u.isLabel_of_mem_symbols f hf)

lemma symbolFinishes_of_isFinite (hr : r.HasFiniteSymbols) (h : u.isFinite = true) :
    u.symbolFinishes = true := symbolFinishes_iff.mpr (symbolEnds_of_isFinite hr h)

/-- The report that two finite units do not convert is written. -/
lemma mismatchFinishes_of_isFinite (hr : r.HasFiniteSymbols) (hu : u.isFinite = true)
    {target : Unit r} (htarget : target.isFinite = true) : u.mismatchFinishes target = true := by
  have hprimary (d : Dimension r) : Yields (fun e => e.symbolFinishes = true) d.toPrimary :=
    fun e he => Dimension.symbolFinishes_iff.mpr
      (Dimension.symbolEnds_of_isFinite hr (d.yields_isFinite_toPrimary e he))
  simp only [mismatchFinishes, Bool.and_eq_true, Yields.all_toOption_iff]
  exact ⟨symbolFinishes_of_isFinite hr hu, fun _ _ => ⟨symbolFinishes_of_isFinite hr htarget,
    fun _ _ d hd => ⟨hprimary _ d hd, fun _ _ => hprimary _⟩⟩⟩

/-- The description of a finite unit ends. -/
lemma descriptionEnds_of_isFinite (hcomplete : r.IsComplete) (hr : r.HasFiniteSymbols)
    (h : u.isFinite = true) : u.DescriptionEnds := by
  refine ⟨fun v hv => ?_, Dimension.descriptionEnds hr _⟩
  have hfinite : v.isFinite = true := by
    rcases hv with rfl | hsi | hprimary
    · exact h
    · exact (yields_isFinite_toSi hcomplete u v hsi).exponents
    · exact (yields_isFinite_toSiPrimary hcomplete u v hprimary).exponents
  exact ⟨symbolEnds_of_isFinite hr hfinite, v.nameEnds_iff.mpr hfinite⟩

end Unit

namespace Quantity

variable {r : Registry Float} (q : Quantity r)

/-- A conversion gives a quantity the unit that it leads to. -/
lemma yields_isFinite_convertTo {target : Unit r} (h : target.isFinite = true) :
    Yields (fun converted => converted.unit.isFinite = true) (q.convertTo target) := by
  refine .bind (P := fun c => c.unit.isFinite = true) (.mapAny fun _ => h) fun c hc => ?_
  unfold apply make
  split
  · exact .ok hc
  · exact .error _

lemma textsFinish_of_isFinite (hr : r.HasFiniteSymbols) (hq : q.unit.isFinite = true)
    {converted : Quantity r} (h : converted.unit.isFinite = true) :
    q.textsFinish converted = true := by
  refine Bool.and_eq_true_iff.mpr ⟨Unit.symbolFinishes_of_isFinite hr hq, ?_⟩
  exact Yields.all_toOption_iff.mpr fun _ _ => Unit.symbolFinishes_of_isFinite hr h

end Quantity

end Metrology
