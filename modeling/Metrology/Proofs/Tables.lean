import Mathlib
import Metrology.Proofs.Layout

/-!
The tables of every registry that is built are well formed.

Whatever the document, entries stand at the places they say, the units of a dimension are its own
and then the ones its rules generate, the primary entries come first in both tables, and a token
stands for one entry at most.
-/

namespace Metrology

variable {α : Type}

/-- A token stands for the entry with this symbol or, if there is none, for the first one with this
name. The entries are given by their symbols and names. -/
def StandsFor (labels : List (String × String)) (token : String) (i : ℕ) : Prop :=
  ∃ label, labels[i]? = some label ∧
    (label.1 = token ∨ (∀ other ∈ labels, other.1 ≠ token) ∧ label.2 = token ∧
      ∀ j < i, ∀ earlier, labels[j]? = some earlier → earlier.2 ≠ token)

/-! ### Places -/

lemma eq_of_map_eq_range {β : Type} {index : β → ℕ} {entries : List β}
    (h : entries.map index = List.range entries.length) {i : ℕ} {e : β}
    (he : entries[i]? = some e) : index e = i := by
  obtain ⟨hi, rfl⟩ := List.getElem?_eq_some_iff.mp he
  have hmap : (entries.map index)[i]? = some (index entries[i]) := by simp [hi]
  rw [h, List.getElem?_range hi] at hmap
  exact (Option.some.inj hmap).symm

section Lookup

variable {β : Type} {entries : List β} {label : β → String} {index : β → ℕ}

/-- The first entry with a label, by its place. -/
lemma find?_eq_some_iff_getElem? {token : String} {e : β} :
    (entries.find? fun e => label e == token) = some e ↔ ∃ i : ℕ, entries[i]? = some e ∧
      label e = token ∧ ∀ j < i, ∀ earlier, entries[j]? = some earlier → label earlier ≠ token := by
  rw [List.find?_eq_some_iff_getElem]
  constructor
  · rintro ⟨hlabel, i, hi, rfl, hfirst⟩
    refine ⟨i, List.getElem?_eq_getElem hi, by simpa using hlabel, fun j hj earlier hearlier => ?_⟩
    obtain ⟨_, rfl⟩ := List.getElem?_eq_some_iff.mp hearlier
    simpa using hfirst j hj
  · rintro ⟨i, hi, hlabel, hfirst⟩
    obtain ⟨hlt, rfl⟩ := List.getElem?_eq_some_iff.mp hi
    refine ⟨by simpa using hlabel, i, hlt, rfl, fun j hj => ?_⟩
    simpa using hfirst j hj _ (List.getElem?_eq_getElem (hj.trans hlt))

/-- Labels that differ are found where they stand. -/
lemma find?_of_nodup (hnodup : (entries.map label).Nodup) {i : ℕ} {e : β}
    (he : entries[i]? = some e) : (entries.find? fun e' => label e' == label e) = some e := by
  refine find?_eq_some_iff_getElem?.mpr ⟨i, he, rfl, fun j hj earlier hearlier heq => ?_⟩
  have hi : i < (entries.map label).length := by
    rw [List.length_map]
    exact (List.getElem?_eq_some_iff.mp he).1
  refine List.nodup_iff_getElem?_ne_getElem?.mp hnodup j i hj hi ?_
  rw [List.getElem?_map, List.getElem?_map, he, hearlier, Option.map_some, Option.map_some, heq]

variable {symbol name : β → String} (hindex : entries.map index = List.range entries.length)
  (hnodup : (entries.map symbol).Nodup)

include hnodup in
lemma find?_symbol {e : β} (he : e ∈ entries) :
    ((entries.find? fun e' => symbol e' == symbol e).or
      (entries.find? fun e' => name e' == symbol e)) = some e := by
  obtain ⟨i, hi⟩ := List.mem_iff_getElem?.mp he
  rw [find?_of_nodup hnodup hi, Option.some_or]

include hindex in
/-- An entry is found by its name if no other one has it for a symbol and no earlier one for a
name. -/
lemma find?_name {e : β} (he : e ∈ entries)
    (hsymbol : ∀ e' ∈ entries, index e' ≠ index e → symbol e' ≠ name e)
    (hname : ∀ e' ∈ entries, index e' < index e → name e' ≠ name e) :
    ((entries.find? fun e' => symbol e' == name e).or
      (entries.find? fun e' => name e' == name e)) = some e := by
  obtain ⟨i, hi⟩ := List.mem_iff_getElem?.mp he
  have hplace := eq_of_map_eq_range hindex hi
  rcases hfound : entries.find? fun e' => symbol e' == name e with _ | e'
  · rw [Option.none_or]
    refine find?_eq_some_iff_getElem?.mpr ⟨i, hi, rfl, fun j hj earlier hearlier => ?_⟩
    refine hname earlier (List.mem_of_getElem? hearlier) ?_
    rw [eq_of_map_eq_range hindex hearlier, hplace]
    exact hj
  · obtain ⟨j, hj, hlabel, -⟩ := find?_eq_some_iff_getElem?.mp hfound
    have hsame : index e' = index e := by
      by_contra hother
      exact hsymbol e' (List.mem_of_getElem? hj) hother hlabel
    rw [eq_of_map_eq_range hindex hj, hplace] at hsame
    rw [hsame, hi] at hj
    rw [Option.some_or, ← Option.some.inj hj]

include hindex in
/-- The first entry with a label is found, by its place. -/
lemma map_index_find?_first_iff {token : String} {i : ℕ} :
    (entries.find? fun e => label e == token).map index = some i ↔
      ∃ e, entries[i]? = some e ∧ label e = token ∧
        ∀ j < i, ∀ earlier, entries[j]? = some earlier → label earlier ≠ token := by
  rw [Option.map_eq_some_iff]
  constructor
  · rintro ⟨e, hfound, rfl⟩
    obtain ⟨i, hi, hlabel, hfirst⟩ := find?_eq_some_iff_getElem?.mp hfound
    rw [eq_of_map_eq_range hindex hi]
    exact ⟨e, hi, hlabel, hfirst⟩
  · rintro ⟨e, hi, hlabel, hfirst⟩
    exact ⟨e, find?_eq_some_iff_getElem?.mpr ⟨i, hi, hlabel, hfirst⟩, eq_of_map_eq_range hindex hi⟩

include hindex hnodup in
/-- If no two entries have the same label, the entry with a label is found. -/
lemma map_index_find?_only_iff {token : String} {i : ℕ} :
    (entries.find? fun e => symbol e == token).map index = some i ↔
      ∃ e, entries[i]? = some e ∧ symbol e = token := by
  constructor
  · intro h
    obtain ⟨e, hi, hsymbol, -⟩ := (map_index_find?_first_iff hindex).mp h
    exact ⟨e, hi, hsymbol⟩
  · rintro ⟨e, hi, rfl⟩
    rw [find?_of_nodup hnodup hi, Option.map_some, eq_of_map_eq_range hindex hi]

lemma standsFor_map_iff {token : String} {i : ℕ} :
    StandsFor (entries.map fun e => (symbol e, name e)) token i ↔ ∃ e, entries[i]? = some e ∧
      (symbol e = token ∨ (∀ other ∈ entries, symbol other ≠ token) ∧ name e = token ∧
        ∀ j < i, ∀ earlier, entries[j]? = some earlier → name earlier ≠ token) := by
  simp [StandsFor]

include hindex hnodup in
/-- **A look-up** by symbol or else by name finds what the token stands for. -/
lemma map_index_find?_iff (token : String) (i : ℕ) :
    ((entries.find? fun e => symbol e == token).or
      (entries.find? fun e => name e == token)).map index = some i ↔
        StandsFor (entries.map fun e => (symbol e, name e)) token i := by
  rw [standsFor_map_iff]
  rcases hsymbol : entries.find? fun e => symbol e == token with _ | e
  · have hnone : ∀ e ∈ entries, symbol e ≠ token := by
      intro e he
      simpa using List.find?_eq_none.mp hsymbol e he
    rw [Option.none_or, map_index_find?_first_iff hindex]
    refine exists_congr fun e => and_congr_right fun he => ?_
    exact ⟨fun h => .inr ⟨hnone, h⟩,
      fun h => (h.resolve_left (hnone e (List.mem_of_getElem? he))).2⟩
  · have hfound : symbol e = token := by simpa using List.find?_some hsymbol
    rw [Option.some_or, ← hsymbol, map_index_find?_only_iff hindex hnodup]
    refine exists_congr fun e' => and_congr_right fun _ => ⟨.inl, fun h => ?_⟩
    rcases h with h | ⟨hother, -⟩
    · exact h
    · exact absurd hfound (hother e (List.mem_of_find?_eq_some hsymbol))

end Lookup

/-! ### Primary entries first -/

section Split

variable {β : Type} {entries : List β} {isPrimary : β → Bool}
  (h : entries.Pairwise fun x y => isPrimary y = true → isPrimary x = true)

include h in
/-- What comes first in a list is as much of it as there is of its kind. -/
lemma take_drop_countP : entries.take (entries.countP isPrimary) = entries.filter isPrimary ∧
    entries.drop (entries.countP isPrimary) = entries.filter fun e => !isPrimary e := by
  induction entries with
  | nil => exact ⟨rfl, rfl⟩
  | cons e entries ih =>
    obtain ⟨hfirst, hrest⟩ := List.pairwise_cons.mp h
    obtain ⟨htake, hdrop⟩ := ih hrest
    by_cases he : isPrimary e = true
    · rw [List.countP_cons_of_pos he, List.filter_cons_of_pos he,
        List.filter_cons_of_neg (by simp [he])]
      exact ⟨congrArg (e :: ·) htake, hdrop⟩
    · have hnone : ∀ x ∈ entries, ¬isPrimary x = true := fun x hx hprimary =>
        he (hfirst x hx hprimary)
      have hzero : (e :: entries).countP isPrimary = 0 := by
        rw [List.countP_eq_zero]
        exact List.forall_mem_cons.mpr ⟨he, hnone⟩
      rw [hzero, List.filter_cons_of_neg he, List.filter_eq_nil_iff.mpr hnone]
      refine ⟨rfl, (List.filter_eq_self.mpr fun x hx => ?_).symm⟩
      rcases List.mem_cons.mp hx with rfl | hx
      · simpa using he
      · simpa using hnone x hx

include h in
lemma lt_countP_iff {i : ℕ} {e : β} (he : entries[i]? = some e) :
    i < entries.countP isPrimary ↔ isPrimary e = true := by
  obtain ⟨htake, hdrop⟩ := take_drop_countP h
  constructor
  · intro hlt
    have hmem : e ∈ entries.take (entries.countP isPrimary) :=
      List.mem_of_getElem? ((List.getElem?_take_of_lt hlt).trans he)
    rw [htake] at hmem
    exact (List.mem_filter.mp hmem).2
  · intro hprimary
    by_contra hge
    have hmem : e ∈ entries.drop (entries.countP isPrimary) := by
      obtain ⟨k, rfl⟩ := Nat.exists_eq_add_of_le (not_lt.mp hge)
      exact List.mem_of_getElem? (List.getElem?_drop.trans he)
    rw [hdrop] at hmem
    simpa [hprimary] using (List.mem_filter.mp hmem).2

end Split

lemma displayOrder_perm (size primary : ℕ) :
    (displayOrder size primary).Perm (List.range size) := by
  unfold displayOrder
  refine ((List.reverse_perm _).append_right _).trans (List.perm_append_comm.trans ?_)
  rw [List.take_append_drop]

lemma displayOrder_eq {β : Type} {index : β → ℕ} {entries : List β}
    (h : entries.map index = List.range entries.length) (primary : ℕ) :
    displayOrder entries.length primary =
      ((entries.drop primary).map index).reverse ++ (entries.take primary).map index := by
  rw [displayOrder, ← h, List.map_drop, List.map_take]

/-! ### What the rules generate -/

/-- What is put at a place that is the only one of its kind is there once. -/
lemma flatMap_ite_of_unique {β γ : Type} {p : β → Bool} {items : List β} {out : List γ}
    (hex : ∃ x ∈ items, p x = true)
    (hunique : items.Pairwise fun x y => p x = true → p y = true → out = []) :
    (items.flatMap fun x => if p x then out else []) = out := by
  induction items with
  | nil => simp at hex
  | cons x items ih =>
    obtain ⟨hfirst, hrest⟩ := List.pairwise_cons.mp hunique
    rw [List.flatMap_cons]
    by_cases hx : p x = true
    · have hnone : (items.flatMap fun y => if p y then out else []) = [] := by
        refine List.flatMap_eq_nil_iff.mpr fun y hy => ?_
        by_cases hpy : p y = true
        · rw [if_pos hpy, hfirst y hy hx hpy]
        · rw [if_neg hpy]
      rw [if_pos hx, hnone, List.append_nil]
    · have hlater : ∃ y ∈ items, p y = true := by
        obtain ⟨y, hy, hpy⟩ := hex
        rcases List.mem_cons.mp hy with rfl | hy
        · exact absurd hpy hx
        · exact ⟨y, hy, hpy⟩
      rw [if_neg hx, List.nil_append, ih hlater hrest]

section Rules

variable [Scalar α] {data : RegistryData α}

/-- Rules whose units go to one dimension each have all their units in the table, and once. -/
lemma flatMap_rules_perm {dimensions : List (DimensionDefinition α)} {rules : List PrefixRule}
    (hex : ∀ rule ∈ rules, ∃ d ∈ dimensions, (rule.dimension == d.key) = true)
    (hunique : ∀ rule ∈ rules, dimensions.Pairwise fun d d' =>
      (rule.dimension == d.key) = true → (rule.dimension == d'.key) = true →
        data.unitsOf rule = []) :
    (dimensions.flatMap fun d =>
      (rules.filter fun rule => rule.dimension == d.key).flatMap data.unitsOf).Perm
        (rules.flatMap data.unitsOf) := by
  induction rules with
  | nil => simp
  | cons rule rules ih =>
    obtain ⟨hexRule, hexRest⟩ := List.forall_mem_cons.mp hex
    obtain ⟨huniqueRule, huniqueRest⟩ := List.forall_mem_cons.mp hunique
    have hsplit : (fun d : DimensionDefinition α =>
        ((rule :: rules).filter fun rule => rule.dimension == d.key).flatMap data.unitsOf) =
          fun d => (if rule.dimension == d.key then data.unitsOf rule else []) ++
            (rules.filter fun rule => rule.dimension == d.key).flatMap data.unitsOf := by
      funext d
      by_cases hd : (rule.dimension == d.key) = true
      · simp [hd]
      · simp [hd]
    rw [hsplit, List.flatMap_cons]
    refine (List.flatMap_append_perm _ _ _).symm.trans ?_
    rw [flatMap_ite_of_unique hexRule huniqueRule]
    exact (ih hexRest huniqueRest).append_left _

/-- No two dimensions get the units of one rule: their symbols would be in the table twice. -/
lemma pairwise_of_nodup_symbols {dimensions : List (DimensionDefinition α)}
    (hnodup : ((dimensions.flatMap data.unitsWithRules).map UnitDefinition.symbol).Nodup)
    {rule : PrefixRule} (hrule : rule ∈ data.prefixedUnits) :
    dimensions.Pairwise fun d d' => (rule.dimension == d.key) = true →
      (rule.dimension == d'.key) = true → data.unitsOf rule = [] := by
  have hmem : ∀ d : DimensionDefinition α, (rule.dimension == d.key) = true →
      ∀ u ∈ data.unitsOf rule, u.symbol ∈ (data.unitsWithRules d).map UnitDefinition.symbol := by
    intro d hd u hu
    refine List.mem_map_of_mem (List.mem_append_right _ (List.mem_flatMap.mpr ⟨rule, ?_, hu⟩))
    exact List.mem_filter.mpr ⟨hrule, hd⟩
  rw [List.map_flatMap, List.nodup_flatMap] at hnodup
  refine hnodup.2.imp fun {d d'} hdisjoint hd hd' => List.eq_nil_iff_forall_not_mem.mpr ?_
  intro u hu
  exact hdisjoint (hmem d hd u hu) (hmem d' hd' u hu)

end Rules

/-! ### Well-formed tables -/

namespace Registry

/-- What holds of the tables that are built from some data and the units that its prefix rules
generate. -/
structure WellFormed [Scalar α] (data : RegistryData α)
    (generated : PrefixRule → List (UnitDefinition α)) (r : Registry α) : Prop where
  /-- The primary dimensions come first, in their order. -/
  primary_keys : (r.dimensions.take primaryCount).map DimensionEntry.key = primaryKeys
  primary_vectors : ∀ (i : ℕ) (d : DimensionEntry α), i < primaryCount →
    r.dimensions[i]? = some d → ∀ (j : ℕ) (x : α), d.primaryExponents[j]? = some x →
      (x == if j = i then 1 else 0) = true
  exponents_count : ∀ d ∈ r.dimensions, d.primaryExponents.length = primaryCount
  /-- The dimensions are those of the data. -/
  dimension_keys : r.dimensions.map DimensionEntry.key = data.dimensions.map DimensionDefinition.key
  /-- Entries stand at the places they say. -/
  dimension_index : ∀ (i : ℕ) (d : DimensionEntry α), r.dimensions[i]? = some d → d.index = i
  unit_index : ∀ (i : ℕ) (u : UnitEntry α), r.units[i]? = some u → u.index = i
  dimensionIndex_lt : ∀ u ∈ r.units, u.dimensionIndex < r.dimensionCount
  dimensionIndex_mono : r.units.Pairwise fun u v => u.dimensionIndex ≤ v.dimensionIndex
  /-- Every dimension owns a unit, and the first one is its SI unit. -/
  siUnit_least : ∀ d ∈ r.dimensions,
    IsLeast {i | ∃ u ∈ r.units, u.index = i ∧ u.dimensionIndex = d.index} d.siUnitIndex
  siUnit_shared : ∀ d ∈ r.dimensions, ∀ u ∈ r.units, u.dimensionIndex = d.index →
    u.siUnitIndex = d.siUnitIndex
  /-- A dimension has its own units and then those of the rules for it, in order. -/
  units_of_dimension : ∀ (j : ℕ) (d : DimensionDefinition α), data.dimensions[j]? = some d →
    (r.units.filter fun u => u.dimensionIndex == j).map UnitEntry.definition =
      d.units ++ (data.prefixedUnits.filter fun rule => rule.dimension == d.key).flatMap generated
  /-- All units of the data and of the rules are there, and each of them once. -/
  units_once : (r.units.map UnitEntry.definition).Perm
    (data.dimensions.flatMap DimensionDefinition.units ++ data.prefixedUnits.flatMap generated)
  primary_units : ∀ u ∈ r.units, u.index < r.primaryUnitCount ↔ u.dimensionIndex < primaryCount
  /-- What is not primary is written first and backwards, then what is primary. -/
  dimension_order : r.dimensionDisplayOrder =
    ((r.dimensions.drop primaryCount).map DimensionEntry.index).reverse ++
      (r.dimensions.take primaryCount).map DimensionEntry.index
  dimension_order_perm : r.dimensionDisplayOrder.Perm (List.range r.dimensionCount)
  unit_order : r.unitDisplayOrder =
    ((r.units.filter fun u => !decide (u.dimensionIndex < primaryCount)).map
      UnitEntry.index).reverse ++
        (r.units.filter fun u => decide (u.dimensionIndex < primaryCount)).map UnitEntry.index
  unit_order_perm : r.unitDisplayOrder.Perm (List.range r.unitCount)
  dimension_symbols : (r.dimensions.map DimensionEntry.symbol).Nodup
  unit_symbols : (r.units.map UnitEntry.symbol).Nodup
  /-- A token is looked up among the symbols and then among the names. -/
  findDimension : ∀ (token : String) (i : ℕ),
    (r.findDimension? token).map DimensionEntry.index = some i ↔
      StandsFor (r.dimensions.map fun d => (d.symbol, d.name)) token i
  findUnit : ∀ (token : String) (i : ℕ),
    (r.findUnit? token).map UnitEntry.index = some i ↔
      StandsFor (r.units.map fun u => (u.symbol, u.name)) token i

section Built

variable [Scalar α] {r : Registry α} {definitions : List (DimensionDefinition α)}

lemma LaidOut.pairwise_units (h : r.LaidOut definitions) :
    r.units.Pairwise fun u v => u.dimensionIndex ≤ v.dimensionIndex := by
  rw [h.units_eq]
  exact pairwise_units_layOut

/-- The units of primary dimensions come first. -/
lemma LaidOut.primary_units_first (h : r.LaidOut definitions) : r.units.Pairwise fun u v =>
    decide (v.dimensionIndex < primaryCount) = true →
      decide (u.dimensionIndex < primaryCount) = true :=
  h.pairwise_units.imp fun hle hv => decide_eq_true (hle.trans_lt (of_decide_eq_true hv))

lemma LaidOut.siUnit (h : r.LaidOut definitions) {d : DimensionEntry α} (hd : d ∈ r.dimensions) :
    (∃ u ∈ r.units, u.index = d.siUnitIndex ∧ u.dimensionIndex = d.index) ∧
      ∀ u ∈ r.units, u.dimensionIndex = d.index →
        u.siUnitIndex = d.siUnitIndex ∧ d.siUnitIndex ≤ u.index := by
  rw [h.dimensions_eq] at hd
  rw [h.units_eq]
  exact siUnit_layOut (fun d hd => (h.complete d hd).2) hd

namespace LaidOut

variable (h : r.LaidOut definitions)

include h

lemma getElem?_index {u : UnitEntry α} (hu : u ∈ r.units) : r.units[u.index]? = some u := by
  obtain ⟨i, hi⟩ := List.mem_iff_getElem?.mp hu
  rwa [eq_of_map_eq_range h.map_index_units hi]

/-- The dimension that a unit belongs to. -/
lemma exists_dimension {u : UnitEntry α} (hu : u ∈ r.units) :
    ∃ d, r.dimensions[u.dimensionIndex]? = some d ∧ u.siUnitIndex = d.siUnitIndex := by
  have hlt : u.dimensionIndex < r.dimensions.length := h.dimensionIndex_lt hu
  have hd := List.getElem?_eq_getElem hlt
  have hindex := eq_of_map_eq_range h.map_index_dimensions hd
  exact ⟨_, hd, ((h.siUnit (List.getElem_mem hlt)).2 u hu hindex.symm).1⟩

/-- The SI unit of a dimension is one of its units. -/
lemma exists_siUnit {j : ℕ} {d : DimensionEntry α} (hd : r.dimensions[j]? = some d) :
    ∃ u, r.units[d.siUnitIndex]? = some u ∧ u.dimensionIndex = j := by
  obtain ⟨u, hu, hplace, hdimension⟩ := (h.siUnit (List.mem_of_getElem? hd)).1
  refine ⟨u, hplace ▸ h.getElem?_index hu, ?_⟩
  rw [hdimension, eq_of_map_eq_range h.map_index_dimensions hd]

/-- The place of its SI unit tells what dimension a unit belongs to. -/
lemma siUnitIndex_eq_iff {j : ℕ} {d : DimensionEntry α} (hd : r.dimensions[j]? = some d)
    {u : UnitEntry α} (hu : u ∈ r.units) :
    u.siUnitIndex = d.siUnitIndex ↔ u.dimensionIndex = j := by
  obtain ⟨e, he, hsi⟩ := h.exists_dimension hu
  constructor
  · intro heq
    obtain ⟨s, hs, hdimension⟩ := h.exists_siUnit hd
    obtain ⟨t, ht, hdimension'⟩ := h.exists_siUnit he
    rw [← hsi, heq, hs, Option.some.injEq] at ht
    rw [← hdimension', ← ht, hdimension]
  · rintro rfl
    rw [hsi, Option.some.inj (he.symm.trans hd)]

/-- An SI unit is its own SI unit. -/
lemma siUnitIndex_of_place {j : ℕ} {d : DimensionEntry α} (hd : r.dimensions[j]? = some d)
    {u : UnitEntry α} (hu : r.units[d.siUnitIndex]? = some u) :
    u.siUnitIndex = d.siUnitIndex := by
  obtain ⟨s, hs, hdimension⟩ := h.exists_siUnit hd
  rw [hs, Option.some.injEq] at hu
  exact hu ▸ (h.siUnitIndex_eq_iff hd (List.mem_of_getElem? hs)).mpr hdimension

/-- No two dimensions have one SI unit. -/
lemma eq_of_siUnitIndex {j k : ℕ} {d e : DimensionEntry α} (hd : r.dimensions[j]? = some d)
    (he : r.dimensions[k]? = some e) (heq : d.siUnitIndex = e.siUnitIndex) : j = k := by
  obtain ⟨s, hs, rfl⟩ := h.exists_siUnit hd
  rw [← h.siUnitIndex_eq_iff he (List.mem_of_getElem? hs), ← heq]
  exact h.siUnitIndex_of_place hd hs

end LaidOut

lemma definitions_units (data : RegistryData α) :
    (Registry.definitions data).flatMap DimensionDefinition.units =
      data.dimensions.flatMap data.unitsWithRules := by
  rw [Registry.definitions, List.flatMap_map]
  exact List.flatMap_congr fun d _ => units_extended data d

/-- All units of the data and of the rules are in the table once. -/
lemma LaidOut.units_once {data : RegistryData α} (h : r.LaidOut (Registry.definitions data))
    (hgenerates : ∀ rule ∈ data.prefixedUnits, data.Generates rule (data.unitsOf rule)) :
    (r.units.map UnitEntry.definition).Perm (data.dimensions.flatMap DimensionDefinition.units ++
      data.prefixedUnits.flatMap data.unitsOf) := by
  have hunits : r.units.map UnitEntry.definition = data.dimensions.flatMap data.unitsWithRules := by
    rw [h.units_eq, map_definition_units_layOut, definitions_units]
  have hnodup : ((data.dimensions.flatMap data.unitsWithRules).map
      UnitDefinition.symbol).Nodup := by
    rw [← hunits, List.map_map]
    exact h.unit_symbols
  have hex : ∀ rule ∈ data.prefixedUnits,
      ∃ d ∈ data.dimensions, (rule.dimension == d.key) = true := by
    intro rule hrule
    obtain ⟨d, -, hd, -⟩ := hgenerates rule hrule
    refine ⟨d, List.mem_of_find?_eq_some hd, ?_⟩
    have hkey := List.find?_some hd
    rwa [BEq.comm] at hkey
  rw [hunits]
  refine (List.flatMap_append_perm _ _ _).symm.trans (List.Perm.append_left _ ?_)
  exact flatMap_rules_perm hex fun rule hrule => pairwise_of_nodup_symbols hnodup hrule

/-- **Every registry that is built is well formed**: its tables hold what the data and its prefix
rules ask for, each entry at its own place. -/
theorem wellFormed_of_decode {document : Datum α} (h : decode document = .ok r) :
    ∃ data generated, document.registryData? = some data ∧
      (∀ rule ∈ data.prefixedUnits, data.Generates rule (generated rule)) ∧
      r.WellFormed data generated := by
  obtain ⟨data, hdata, hgenerates, h⟩ := exists_laidOut_of_decode h
  refine ⟨data, data.unitsOf, hdata, hgenerates, ?_⟩
  have hdimensions := h.dimensions_eq
  have hunits := h.units_eq
  constructor
  case primary_keys =>
    rw [List.map_take, hdimensions, map_key_layOut, ← List.map_take]
    exact h.primary_keys
  case primary_vectors => exact fun i d hi hd j x hx => h.beq_of_getElem? hi hd hx
  case exponents_count => exact h.length_primaryExponents
  case dimension_keys =>
    rw [hdimensions, map_key_layOut, Registry.definitions, List.map_map]
    rfl
  case dimension_index => exact fun i d hd => eq_of_map_eq_range h.map_index_dimensions hd
  case unit_index => exact fun i u hu => eq_of_map_eq_range h.map_index_units hu
  case dimensionIndex_lt => exact fun u hu => h.dimensionIndex_lt hu
  case dimensionIndex_mono => exact h.pairwise_units
  case siUnit_least =>
    intro d hd
    obtain ⟨hfirst, hall⟩ := h.siUnit hd
    refine ⟨hfirst, ?_⟩
    rintro i ⟨u, hu, rfl, hdimension⟩
    exact (hall u hu hdimension).2
  case siUnit_shared => exact fun d hd u hu hdimension => ((h.siUnit hd).2 u hu hdimension).1
  case units_of_dimension =>
    intro j d hd
    have hdefinition : (Registry.definitions data)[j]? = some (d.extended
        (data.prefixedUnits.map fun rule => (rule.dimension, data.unitsOf rule))) := by
      rw [Registry.definitions, List.getElem?_map, hd, Option.map_some]
    have hfilter : ((layOut 0 0 (Registry.definitions data)).2.filter
        fun u => u.dimensionIndex == 0 + j).map UnitEntry.definition = _ :=
      filter_units_layOut hdefinition
    rwa [← hunits, Nat.zero_add, units_extended] at hfilter
  case units_once => exact h.units_once hgenerates
  case primary_units =>
    intro u hu
    obtain ⟨i, hi⟩ := List.mem_iff_getElem?.mp hu
    rw [eq_of_map_eq_range h.map_index_units hi]
    exact (lt_countP_iff h.primary_units_first hi).trans decide_eq_true_iff
  case dimension_order => exact displayOrder_eq h.map_index_dimensions primaryCount
  case dimension_order_perm => exact displayOrder_perm _ _
  case unit_order =>
    obtain ⟨htake, hdrop⟩ := take_drop_countP h.primary_units_first
    rw [← htake, ← hdrop]
    exact displayOrder_eq h.map_index_units r.primaryUnitCount
  case unit_order_perm => exact displayOrder_perm _ _
  case dimension_symbols => exact h.dimension_symbols
  case unit_symbols => exact h.unit_symbols
  case findDimension =>
    exact fun token i => map_index_find?_iff h.map_index_dimensions h.dimension_symbols token i
  case findUnit => exact fun token i => map_index_find?_iff h.map_index_units h.unit_symbols token i

theorem wellFormed_of_decode_bundled :
    decode (Bundled.document : Datum ℚ) = .ok Bundled.registry ∧
      ∃ data generated, (Bundled.document : Datum ℚ).registryData? = some data ∧
        (∀ rule ∈ data.prefixedUnits, data.Generates rule (generated rule)) ∧
        Bundled.registry.WellFormed data generated :=
  ⟨Bundled.decode_document, wellFormed_of_decode Bundled.decode_document⟩

end Built

end Registry

end Metrology
