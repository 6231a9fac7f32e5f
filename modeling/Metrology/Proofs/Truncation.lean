import Mathlib
import Metrology.Proofs.Equivalents

/-!
Searches that are cut short.

A budget stops a search after the first systems. What these systems give is a part of what all of
them give, and sorting brings the vectors into an order that does not depend on when they were
found. So a search with a smaller budget returns a part of what one with a larger budget returns, in
the same order.
-/

namespace Metrology

namespace Dimension

open ExponentVector (Simpler)

variable {r : Registry ℚ}

/-- The vectors that the systems within the bounds give, in the order in which they are solved. -/
def solutions (d : Dimension r) (bounds : SearchBounds ℚ) : List (ExponentVector ℚ) :=
  ((systems r bounds.maxCombinations).filterMap (solutionFor d.primary bounds.maxExponent)).map
    (ExponentVector.gather r.dimensionCount)

/-- Every vector that is found has whole entries below the bound. -/
lemma of_mem_solutions {d : Dimension r} {bounds : SearchBounds ℚ} {v : ExponentVector ℚ}
    (h : v ∈ solutions d bounds) :
    v.length = r.dimensionCount ∧ v.IsWhole ∧ ∀ x ∈ v, |x| < bounds.maxExponent := by
  obtain ⟨marked, hmarked, rfl⟩ := List.mem_map.mp h
  obtain ⟨chosen, hchosen, hsolution⟩ := List.mem_filterMap.mp hmarked
  have hall : chosen ∈ systems r none := (isPrefix_systems r le_top).subset hchosen
  obtain ⟨places, hp, hlength, rfl⟩ := mem_systems.mp hall
  obtain ⟨xs, hxs, hwhole, hlt, rfl⟩ := exists_of_solutionFor d.length_primary hsolution
  have hplaces : (places.map fun i => (i, r.basis.getD i [])).map Prod.fst = places := by
    simp [Function.comp_def]
  rw [hplaces]
  obtain ⟨f, rfl⟩ := exists_map_eq (hp.nodup List.nodup_range) (hxs.trans hlength.symm)
  exact ⟨ExponentVector.length_gather _ _,
    ExponentVector.isWhole_gather _ fun p hmem => hwhole _ (List.of_mem_zip hmem).2,
    abs_lt_of_mem_gather hp (List.ne_nil_of_length_eq_add_one hlength)
      fun i hi => hlt _ (List.mem_map_of_mem hi)⟩

/-- The vectors that a search returns. -/
def selected (d : Dimension r) (bounds : SearchBounds ℚ) : List (ExponentVector ℚ) :=
  (sorted (solutions d bounds)).filter fun v =>
    !ExponentVector.isClose v d.exponents Scalar.tolerance
      && decide (ExponentVector.countNonzero v ≤ bounds.maxComposingDimensions)

section Selected

variable (d : Dimension r) (bounds : SearchBounds ℚ)

lemma pairwise_selected : (selected d bounds).Pairwise Simpler := (pairwise_sorted _).filter _

variable {d bounds}

lemma mem_solutions_of_mem_selected {v : ExponentVector ℚ} (h : v ∈ selected d bounds) :
    v ∈ solutions d bounds := mem_sorted.mp (List.mem_of_mem_filter h)

/-- With a larger budget, everything that was found is found, and sorted alike. -/
lemma selected_sublist {m : Option ℕ} (h : budget bounds.maxCombinations ≤ budget m) :
    (selected d bounds).Sublist (selected d { bounds with maxCombinations := m }) := by
  have hsubset : solutions d bounds ⊆ solutions d { bounds with maxCombinations := m } :=
    List.map_subset _ ((isPrefix_systems r h).sublist.filterMap _).subset
  have hnodup : (sorted (solutions d bounds)).Nodup :=
    (pairwise_sorted _).imp fun hvw => hvw.ne
  refine List.Sublist.filter _ (List.sublist_of_subperm_of_pairwise (r := Simpler)
    (List.subperm_of_subset hnodup fun v hv => ?_) (pairwise_sorted _) (pairwise_sorted _))
  exact mem_sorted.mpr (hsubset (mem_sorted.mp hv))

end Selected

/-- **A search that is cut short** says how much it has covered, returns vectors within the bounds
from the simplest to the most complex, each once, and misses nothing that a search with a smaller
budget returns. -/
theorem searchWithin_truncated (d : Dimension r) (bounds : SearchBounds ℚ) :
    (∀ options : SearchOptions ℚ, options.bounds = .ok bounds →
      d.search options = .ok (d.searchWithin bounds)) ∧
    (d.searchWithin bounds).total = (r.dimensionCount.choose primaryCount : ℕ) ∧
    ((d.searchWithin bounds).solved : ℕ∞) =
      min (budget bounds.maxCombinations) (r.dimensionCount.choose primaryCount : ℕ) ∧
    ((d.searchWithin bounds).exhausted = true ↔
      (r.dimensionCount.choose primaryCount : ℕ) ≤ budget bounds.maxCombinations) ∧
    (d.searchWithin bounds).dimensions.Nodup ∧
    (d.searchWithin bounds).dimensions.Pairwise
      (fun e e' => Simpler e.exponents e'.exponents) ∧
    (∀ e ∈ (d.searchWithin bounds).dimensions, (∀ x ∈ e.exponents, |x| < bounds.maxExponent) ∧
      (e.exponents.countP fun x => x ≠ 0) ≤ bounds.maxComposingDimensions) ∧
    ∀ m, budget bounds.maxCombinations ≤ budget m → (d.searchWithin bounds).dimensions.Sublist
      (d.searchWithin { bounds with maxCombinations := m }).dimensions := by
  have htotal : (d.searchWithin bounds).total = (r.dimensionCount.choose primaryCount : ℕ) :=
    binomial_natCast _ _
  have hsolved : ((d.searchWithin bounds).solved : ℕ∞) =
      min (budget bounds.maxCombinations) (r.dimensionCount.choose primaryCount : ℕ) :=
    length_systems r bounds.maxCombinations
  have hexhausted : (d.searchWithin bounds).exhausted = true ↔
      r.dimensionCount.choose primaryCount ≤ (d.searchWithin bounds).solved := by
    show decide ((d.searchWithin bounds).total ≤ ((d.searchWithin bounds).solved : ℚ)) = true ↔ _
    rw [decide_eq_true_iff, htotal, Nat.cast_le]
  have hsorted : (d.searchWithin bounds).dimensions.Pairwise
      fun e e' => Simpler e.exponents e'.exponents := by
    refine List.pairwise_map.mpr ((pairwise_selected d bounds).imp_of_mem fun {v w} hv hw hvw => ?_)
    rwa [exponents_padded (of_mem_solutions (mem_solutions_of_mem_selected hv)).1,
      exponents_padded (of_mem_solutions (mem_solutions_of_mem_selected hw)).1]
  refine ⟨fun options h => ?_, htotal, hsolved, ?_,
    hsorted.imp fun h heq => h.ne (congrArg exponents heq), hsorted, fun e he => ?_,
    fun m h => (selected_sublist h).map _⟩
  · rw [search, h]
  · rw [hexhausted, ← Nat.cast_le (α := ℕ∞), hsolved, le_min_iff, and_iff_left le_rfl]
  · obtain ⟨v, hv, rfl⟩ := List.mem_map.mp he
    obtain ⟨hlength, hwhole, hlt⟩ := of_mem_solutions (mem_solutions_of_mem_selected hv)
    have hcount := (Bool.and_eq_true_iff.mp (List.mem_filter.mp hv).2).2
    rw [exponents_padded hlength, ← countNonzero_eq hwhole]
    exact ⟨hlt, of_decide_eq_true hcount⟩

lemma isSome_parse_energy :
    (Dimension.parse Registry.Bundled.registry "E").toOption.isSome = true := by
  decide +kernel

/-- The first system alone composes an energy of primary dimensions, and whoever solves all 50388
systems finds this composition as well. -/
theorem searchWithin_truncated_energy :
    let d := Registry.Bundled.dimension "E" isSome_parse_energy
    let first : SearchBounds ℚ := ⟨5, 3, some 1⟩
    d.search (.standard (.number 1)) = .ok (d.searchWithin first) ∧
      (d.searchWithin first).solved = 1 ∧ (d.searchWithin first).total = 50388 ∧
      ∃ e ∈ (d.searchWithin { first with maxCombinations := none }).dimensions,
        e.exponents = (Registry.Bundled.dimension "M.L^2.T^-2").exponents := by
  intro d first
  obtain ⟨hsearch, htotal, hsolved, -, -, -, -, hsublist⟩ := searchWithin_truncated d first
  have hcount : Registry.Bundled.registry.dimensionCount.choose primaryCount = 50388 := by
    decide +kernel
  have hfound : ∃ e ∈ (d.searchWithin first).dimensions,
      e.exponents = (Registry.Bundled.dimension "M.L^2.T^-2").exponents := by decide +kernel
  obtain ⟨e, he, hexponents⟩ := hfound
  refine ⟨hsearch _ rfl, ?_, ?_, e, (hsublist none le_top).subset he, hexponents⟩
  · have hbudget : budget first.maxCombinations = (1 : ℕ) := rfl
    rw [hcount, hbudget, min_eq_left (by norm_num)] at hsolved
    exact_mod_cast hsolved
  · rw [htotal, hcount]
    rfl

end Dimension

end Metrology
