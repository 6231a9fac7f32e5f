import Mathlib
import Metrology.Proofs.Accepted
import Metrology.Proofs.Printing
import Metrology.Proofs.Tables

/-!
What is written of a unit or a dimension is read back as it.

Every entry of a table is written at most once, wherever its place in the display order is, and the
label that is read leads back to the entry it was written for. So the exponents that are gathered
are the ones that were written.
-/

namespace Metrology

/-! ### Places that count -/

namespace ExponentVector

/-- The places at which a vector is not 0, in a given order. -/
def support (order : List ℕ) (v : ExponentVector ℚ) : List ℕ :=
  order.filter fun i => v.getD i 0 ≠ 0

lemma mem_support {order : List ℕ} {v : ExponentVector ℚ} {i : ℕ} :
    i ∈ support order v ↔ i ∈ order ∧ v.getD i 0 ≠ 0 := by
  rw [support, List.mem_filter, decide_eq_true_iff]

/-- Numbers that are marked with different indices are found again. -/
lemma sumAt_of_nodup {order : List ℕ} (h : order.Nodup) (f : ℕ → ℚ) (i : ℕ) :
    sumAt i (order.map fun k => (k, f k)) = if i ∈ order then f i else 0 := by
  induction order with
  | nil => rfl
  | cons k order ih =>
    obtain ⟨hk, hrest⟩ := List.nodup_cons.mp h
    rw [List.map_cons, sumAt_cons, ih hrest]
    by_cases hik : k = i
    · subst hik
      rw [if_pos rfl, if_neg hk, if_pos List.mem_cons_self, add_zero]
    · have hmem : i ∈ k :: order ↔ i ∈ order := by
        rw [List.mem_cons, or_iff_right (Ne.symm hik)]
      rw [if_neg hik, zero_add]
      simp only [hmem]

/-- The entries of a vector that are not 0, each with its index, in a given order. -/
def marks (order : List ℕ) (v : ExponentVector ℚ) : List (ℕ × ℚ) :=
  (support order v).map fun i => (i, v.getD i 0)

/-- **A vector is gathered** from its entries that are not 0, in any order. -/
lemma gather_marks {order : List ℕ} {v : ExponentVector ℚ}
    (h : order.Perm (List.range v.length)) : gather v.length (marks order v) = v := by
  have hnodup : (support order v).Nodup := (h.nodup_iff.mpr List.nodup_range).filter _
  refine ext_getD (length_gather _ _) fun i hi => ?_
  rw [length_gather] at hi
  rw [getD_gather hi, marks, sumAt_of_nodup hnodup fun k => v.getD k 0]
  split_ifs with hmem
  · rfl
  · rw [mem_support, not_and_not_right] at hmem
    exact (hmem (h.mem_iff.mpr (List.mem_range.mpr hi))).symm

end ExponentVector

/-! ### Tables that are written -/

namespace Grammar

section Written

variable {β γ : Type} {entries : List β} {index : β → ℕ} {order : List ℕ} {v : ExponentVector ℚ}
  {label : β → String}

/-- The factors that are written for a vector over a table. -/
def written (entries : List β) (label : β → String) (order : List ℕ) (v : ExponentVector ℚ) :
    List (String × ℚ) :=
  order.map fun i => (((entries[i]?).map label).getD "", v.getD i 0)

variable (hindex : entries.map index = List.range entries.length)
  (hlength : v.length = entries.length)

include hindex hlength in
/-- What is written at a place that counts is the label of the entry that stands there. -/
lemma exists_entry {i : ℕ} (hi : v.getD i 0 ≠ 0) :
    ∃ e ∈ entries, index e = i ∧ ((entries[i]?).map label).getD "" = label e := by
  have hlt : i < entries.length := (ExponentVector.lt_length_of_getD_ne_zero hi).trans_eq hlength
  have hget := List.getElem?_eq_getElem hlt
  refine ⟨_, List.getElem_mem hlt, eq_of_map_eq_range hindex hget, ?_⟩
  rw [hget, Option.map_some, Option.getD_some]

include hindex hlength in
lemma isBase_of_mem_written (hbase : ∀ e ∈ entries, v.getD (index e) 0 ≠ 0 → IsBase (label e))
    {f : String × ℚ} (hf : f ∈ written entries label order v) (hzero : f.2 ≠ 0) : IsBase f.1 := by
  obtain ⟨i, -, rfl⟩ := List.mem_map.mp hf
  obtain ⟨e, he, rfl, hlabel⟩ := exists_entry hindex hlength hzero
  dsimp only
  rw [hlabel]
  exact hbase e he hzero

variable (horder : order.Perm (List.range v.length))

include horder in
lemma isPrintable_of_mem_written (hprintable : ∀ x ∈ v, IsPrintable x) {f : String × ℚ}
    (hf : f ∈ written entries label order v) : IsPrintable f.2 := by
  obtain ⟨i, hi, rfl⟩ := List.mem_map.mp hf
  have hlt : i < v.length := List.mem_range.mp (horder.mem_iff.mp hi)
  dsimp only
  rw [List.getD_eq_getElem _ _ hlt]
  exact hprintable _ (List.getElem_mem hlt)

include horder in
lemma exists_mem_written (hne : ∃ x ∈ v, x ≠ 0) :
    ∃ f ∈ written entries label order v, f.2 ≠ 0 := by
  obtain ⟨x, hx, hzero⟩ := hne
  obtain ⟨i, hi, rfl⟩ := List.getElem_of_mem hx
  refine ⟨_, List.mem_map_of_mem (horder.mem_iff.mpr (List.mem_range.mpr hi)), ?_⟩
  dsimp only
  rwa [List.getD_eq_getElem _ _ hi]

include hindex hlength horder in
/-- **A table is written and read**: if what is read of the label of an entry is the index of the
entry, whatever the exponent, the entries that are not 0 are read, each with its exponent. -/
lemma exists_terms {read : Term → Except Error γ} {mark : ℕ × ℚ → γ} {separator : String}
    (hseparator : IsSeparator separator) (empty : String) (hprintable : ∀ x ∈ v, IsPrintable x)
    (hne : ∃ x ∈ v, x ≠ 0) (hbase : ∀ e ∈ entries, v.getD (index e) 0 ≠ 0 → IsBase (label e))
    (hread : ∀ e ∈ entries, v.getD (index e) 0 ≠ 0 → ∀ x : ℚ,
      read (termOf (label e, x)) = .ok (mark (index e, x))) :
    ∃ terms, parseTerms (printPlain separator empty (written entries label order v)) = .ok terms ∧
      terms.mapM read = .ok ((ExponentVector.marks order v).map mark) := by
  refine ⟨_, parseTerms_printPlain empty
    (fun f hf => isPrintable_of_mem_written horder hprintable hf)
    (fun f hf => isBase_of_mem_written hindex hlength hbase hf) hseparator
    (exists_mem_written horder hne), ?_⟩
  rw [written, List.filter_map, List.map_map, List.mapM_map, ExponentVector.marks, List.map_map]
  refine mapM_eq_ok fun i hi => ?_
  have hzero : v.getD i 0 ≠ 0 := (ExponentVector.mem_support.mp hi).2
  obtain ⟨e, he, rfl, hlabel⟩ := exists_entry hindex hlength hzero
  rw [Function.comp_apply, Function.comp_apply, hlabel]
  exact hread e he hzero _

end Written

end Grammar

open Grammar (IsBase IsSeparator termOf written)

/-! ### Reading what is written -/

section Factors

variable {r : Registry ℚ}

lemma Dimension.displayOrder_perm (d : Dimension r) :
    r.dimensionDisplayOrder.Perm (List.range d.exponents.length) := by
  rw [d.length_eq]
  exact Metrology.displayOrder_perm _ _

lemma Unit.displayOrder_perm (u : Unit r) :
    r.unitDisplayOrder.Perm (List.range u.exponents.length) := by
  rw [u.length_eq]
  exact Metrology.displayOrder_perm _ _

lemma Dimension.factors_eq_written (d : Dimension r) (label : DimensionEntry ℚ → String) :
    d.factors label = written r.dimensions label r.dimensionDisplayOrder d.exponents := rfl

lemma Unit.factors_eq_written (u : Unit r) (label : UnitEntry ℚ → String) :
    u.factors label = written r.units label r.unitDisplayOrder u.exponents := rfl

end Factors

section Parse

variable {r : Registry ℚ} {definitions : List (DimensionDefinition ℚ)}
  (h : r.LaidOut definitions) {separator : String} (hseparator : IsSeparator separator)
  (empty : String)

include h hseparator

/-- A unit is read from its labels if they lead to its units. -/
lemma Unit.parse_printPlain {u : Unit r} {label : UnitEntry ℚ → String}
    (hne : ∃ x ∈ u.exponents, x ≠ 0) (hprintable : ∀ x ∈ u.exponents, IsPrintable x)
    (hlabel : ∀ e ∈ r.units, u.exponents.getD e.index 0 ≠ 0 → IsBase (label e) ∧
      label e ≠ unitlessToken ∧ r.findUnit? (label e) = some e) :
    ∃ v, Unit.parse r (printPlain separator empty (u.factors label)) = .ok v ∧
      v.exponents = u.exponents := by
  have hread : ∀ e ∈ r.units, u.exponents.getD e.index 0 ≠ 0 → ∀ x : ℚ,
      factor? r (termOf (label e, x)) = .ok (some (e.index, x)) := by
    intro e he hzero x
    obtain ⟨-, hunitless, hfind⟩ := hlabel e he hzero
    unfold factor? termOf
    simp only [if_neg hunitless, hfind, Exponent.value_ofRat]
  have horder := u.displayOrder_perm
  obtain ⟨terms, hterms, hmarked⟩ := Grammar.exists_terms h.map_index_units u.length_eq horder
    hseparator empty hprintable hne (fun e he hzero => (hlabel e he hzero).1) hread
  have hgather : ExponentVector.gather r.unitCount
      (ExponentVector.marks r.unitDisplayOrder u.exponents) = u.exponents := by
    rw [← u.length_eq]
    exact ExponentVector.gather_marks horder
  have hparse : Unit.parse r (printPlain separator empty (u.factors label)) =
      gather r (ExponentVector.marks r.unitDisplayOrder u.exponents) := by
    unfold Unit.parse
    rw [factors_eq_written]
    simp only [hterms, hmarked, List.filterMap_map, Function.id_comp, List.filterMap_some]
  exact ⟨_, hparse.trans (ofVector_eq_ok _ _), hgather⟩

/-- A dimension is read from its labels if they lead to its dimensions. -/
lemma Dimension.parse_printPlain {d : Dimension r} {label : DimensionEntry ℚ → String}
    (hne : ∃ x ∈ d.exponents, x ≠ 0) (hprintable : ∀ x ∈ d.exponents, IsPrintable x)
    (hlabel : ∀ e ∈ r.dimensions, d.exponents.getD e.index 0 ≠ 0 → IsBase (label e) ∧
      r.findDimension? (label e) = some e) :
    Dimension.parse r (printPlain separator empty (d.factors label)) = .ok d := by
  have hread : ∀ e ∈ r.dimensions, d.exponents.getD e.index 0 ≠ 0 → ∀ x : ℚ,
      factor r (termOf (label e, x)) = .ok (id (e.index, x)) := by
    intro e he hzero x
    unfold factor termOf
    simp only [(hlabel e he hzero).2, Exponent.value_ofRat, id_eq]
  have horder := d.displayOrder_perm
  obtain ⟨terms, hterms, hmarked⟩ := Grammar.exists_terms h.map_index_dimensions d.length_eq horder
    hseparator empty hprintable hne (fun e he hzero => (hlabel e he hzero).1) hread
  have hgather : ExponentVector.gather r.dimensionCount
      (ExponentVector.marks r.dimensionDisplayOrder d.exponents) = d.exponents := by
    rw [← d.length_eq]
    exact ExponentVector.gather_marks horder
  unfold Dimension.parse
  rw [factors_eq_written]
  simp only [hterms, hmarked, List.map_id, gather, hgather]

end Parse

namespace Registry

/-- **What is written is read back.** Over an accepted registry, a unit that is not 1 and whose
exponents are printed exactly is read back from its symbol if the symbols in it are bases, and from
its name if the names in it are bases that stand for nothing else before; so is a dimension from its
name. The base `1` stands for no unit. -/
theorem parse_rendered {r : Registry ℚ} (hr : r.IsAccepted) :
    (∀ u : Unit r, (∃ x ∈ u.exponents, x ≠ 0) → (∀ x ∈ u.exponents, IsPrintable x) →
      ((∀ e ∈ r.units, u.exponents.getD e.index 0 ≠ 0 →
          IsBase e.symbol ∧ e.symbol ≠ unitlessToken) →
        ∃ text v, u.symbol = .ok text ∧ Unit.parse r text = .ok v ∧
          v.exponents = u.exponents) ∧
      ((∀ e ∈ r.units, u.exponents.getD e.index 0 ≠ 0 →
          IsBase e.name ∧ e.name ≠ unitlessToken ∧
          (∀ other ∈ r.units, other.index ≠ e.index → other.symbol ≠ e.name) ∧
          ∀ other ∈ r.units, other.index < e.index → other.name ≠ e.name) →
        ∃ v, Unit.parse r u.name = .ok v ∧ v.exponents = u.exponents)) ∧
    ∀ d : Dimension r, (∃ x ∈ d.exponents, x ≠ 0) → (∀ x ∈ d.exponents, IsPrintable x) →
      (∀ e ∈ r.dimensions, d.exponents.getD e.index 0 ≠ 0 →
        IsBase e.name ∧
        (∀ other ∈ r.dimensions, other.index ≠ e.index → other.symbol ≠ e.name) ∧
        ∀ other ∈ r.dimensions, other.index < e.index → other.name ≠ e.name) →
      ∃ v, Dimension.parse r d.name = .ok v ∧ v.exponents = d.exponents := by
  obtain ⟨definitions, h⟩ := hr.exists_laidOut
  have hdot : IsSeparator "." := Grammar.isSeparator_of_mem (by decide)
  have hspaced : IsSeparator " . " := Grammar.isSeparator_of_mem (by decide)
  refine ⟨fun u hne hprintable => ⟨fun hsymbols => ?_, fun hnames => ?_⟩,
    fun d hne hprintable hnames => ?_⟩
  · have hprinted : u.symbol = .ok (printPlain "." unitlessToken (u.factors UnitEntry.symbol)) := by
      unfold Unit.symbol
      rw [Unit.factors_eq_written, Grammar.printProduct_eq_printPlain unitlessToken
        (fun f hf => Grammar.isPrintable_of_mem_written u.displayOrder_perm hprintable hf)
        fun f hf => Grammar.isBase_of_mem_written h.map_index_units u.length_eq
          (fun e he hzero => (hsymbols e he hzero).1) hf]
    obtain ⟨v, hv, hexponents⟩ := Unit.parse_printPlain h hdot unitlessToken hne hprintable
      fun e he hzero => ⟨(hsymbols e he hzero).1, (hsymbols e he hzero).2,
        find?_symbol h.unit_symbols he⟩
    exact ⟨_, v, hprinted, hv, hexponents⟩
  · refine Unit.parse_printPlain h hspaced "unitless" hne hprintable fun e he hzero => ?_
    obtain ⟨hbase, hunitless, hsymbol, hname⟩ := hnames e he hzero
    exact ⟨hbase, hunitless, find?_name h.map_index_units he hsymbol hname⟩
  · refine ⟨d, Dimension.parse_printPlain h hspaced "dimensionless" hne hprintable
      fun e he hzero => ?_, rfl⟩
    obtain ⟨hbase, hsymbol, hname⟩ := hnames e he hzero
    exact ⟨hbase, find?_name h.map_index_dimensions he hsymbol hname⟩

/-- A fractional exponent, a negative one, and a dimension that is written before the primary
ones. -/
theorem parse_rendered_celsius :
    (∃ text v, (Bundled.unit "kg.m³⁄².°C⁻²").symbol = .ok text ∧
      Unit.parse Bundled.registry text = .ok v ∧
      v.exponents = (Bundled.unit "kg.m³⁄².°C⁻²").exponents) ∧
    (∃ v, Unit.parse Bundled.registry (Bundled.unit "kg.m³⁄².°C⁻²").name = .ok v ∧
      v.exponents = (Bundled.unit "kg.m³⁄².°C⁻²").exponents) ∧
    ∃ v, Dimension.parse Bundled.registry (Bundled.dimension "M.L³⁄².E⁻²").name = .ok v ∧
      v.exponents = (Bundled.dimension "M.L³⁄².E⁻²").exponents := by
  obtain ⟨hunits, hdimensions⟩ := parse_rendered Bundled.isAccepted_registry
  obtain ⟨hsymbol, hname⟩ := hunits (Bundled.unit "kg.m³⁄².°C⁻²") (by decide +kernel)
    (by decide +kernel)
  exact ⟨hsymbol (by decide +kernel), hname (by decide +kernel),
    hdimensions (Bundled.dimension "M.L³⁄².E⁻²") (by decide +kernel) (by decide +kernel)
      (by decide +kernel)⟩

end Registry

end Metrology
