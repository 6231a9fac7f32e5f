import Mathlib
import Metrology.Proofs.Accepted
import Metrology.Proofs.Documents

/-!
How the tables of a registry are laid out.

The tables are built dimension by dimension: each has its place, its units follow each other from
its SI unit on, and the units of the next dimension begin where they end. So every statement about
the tables from given places on is an induction on the dimensions. The first dimensions of an
accepted registry are the primary ones, each made of itself alone.
-/

namespace Metrology

variable {α : Type}

/-! ### The units of one dimension -/

/-- What a unit of the table is defined as. -/
def UnitEntry.definition (u : UnitEntry α) : UnitDefinition α :=
  ⟨u.key, u.name, u.symbol, u.conversionFactor, u.prefixExponent⟩

section UnitEntries

variable (dimensionIndex siUnitIndex : ℕ) (isTemperature : Bool) (index : ℕ)
  (units : List (UnitDefinition α))

lemma map_definition_unitEntries :
    (unitEntries dimensionIndex siUnitIndex isTemperature index units).map
      UnitEntry.definition = units := by
  induction units generalizing index with
  | nil => rfl
  | cons u units ih => exact congrArg (u :: ·) (ih _)

lemma map_index_unitEntries :
    (unitEntries dimensionIndex siUnitIndex isTemperature index units).map UnitEntry.index =
      List.range' index units.length := by
  induction units generalizing index with
  | nil => rfl
  | cons u units ih =>
    rw [List.length_cons, List.range'_succ]
    exact congrArg (index :: ·) (ih _)

variable {dimensionIndex siUnitIndex isTemperature index units}

lemma of_mem_unitEntries {u : UnitEntry α}
    (h : u ∈ unitEntries dimensionIndex siUnitIndex isTemperature index units) :
    u.dimensionIndex = dimensionIndex ∧ u.siUnitIndex = siUnitIndex ∧ index ≤ u.index := by
  induction units generalizing index with
  | nil => exact absurd h List.not_mem_nil
  | cons v units ih =>
    rcases List.mem_cons.mp h with rfl | h
    · exact ⟨rfl, rfl, le_rfl⟩
    · obtain ⟨hdimension, hsiUnit, hindex⟩ := ih h
      exact ⟨hdimension, hsiUnit, by omega⟩

lemma isTemperature_of_mem_unitEntries {u : UnitEntry α}
    (h : u ∈ unitEntries dimensionIndex siUnitIndex isTemperature index units) :
    u.isTemperature = isTemperature := by
  induction units generalizing index with
  | nil => exact absurd h List.not_mem_nil
  | cons v units ih =>
    rcases List.mem_cons.mp h with rfl | h
    · rfl
    · exact ih h

variable (dimensionIndex siUnitIndex isTemperature index)

/-- The first unit of a dimension that has one. -/
lemma exists_mem_unitEntries (h : units ≠ []) :
    ∃ u ∈ unitEntries dimensionIndex siUnitIndex isTemperature index units,
      u.index = index ∧ u.dimensionIndex = dimensionIndex := by
  obtain ⟨u, rest, rfl⟩ := List.exists_cons_of_ne_nil h
  exact ⟨_, List.mem_cons_self, rfl, rfl⟩

end UnitEntries

/-! ### Tables -/

section LayOut

variable (index unitIndex : ℕ) (definitions : List (DimensionDefinition α))

lemma map_index_layOut : (layOut index unitIndex definitions).1.map DimensionEntry.index =
    List.range' index definitions.length := by
  induction definitions generalizing index unitIndex with
  | nil => rfl
  | cons d definitions ih =>
    rw [List.length_cons, List.range'_succ]
    exact congrArg (index :: ·) (ih _ _)

lemma map_key_layOut : (layOut index unitIndex definitions).1.map DimensionEntry.key =
    definitions.map DimensionDefinition.key := by
  induction definitions generalizing index unitIndex with
  | nil => rfl
  | cons d definitions ih => exact congrArg (d.key :: ·) (ih _ _)

lemma map_primaryExponents_layOut :
    (layOut index unitIndex definitions).1.map DimensionEntry.primaryExponents =
      definitions.map DimensionDefinition.primaryExponents := by
  induction definitions generalizing index unitIndex with
  | nil => rfl
  | cons d definitions ih => exact congrArg (d.primaryExponents :: ·) (ih _ _)

lemma units_layOut_cons (d : DimensionDefinition α) :
    (layOut index unitIndex (d :: definitions)).2 =
      unitEntries index unitIndex (d.key == temperatureKey) unitIndex d.units ++
        (layOut (index + 1) (unitIndex + d.units.length) definitions).2 := rfl

/-- The units stand at the places they say. -/
lemma map_index_units_layOut : (layOut index unitIndex definitions).2.map UnitEntry.index =
    List.range' unitIndex (layOut index unitIndex definitions).2.length := by
  induction definitions generalizing index unitIndex with
  | nil => rfl
  | cons d definitions ih =>
    have hlength : (unitEntries index unitIndex (d.key == temperatureKey) unitIndex
        d.units).length = d.units.length := by
      simpa using congrArg List.length (map_definition_unitEntries index unitIndex
        (d.key == temperatureKey) unitIndex d.units)
    rw [units_layOut_cons, List.map_append, map_index_unitEntries, ih, List.length_append,
      hlength, List.range'_append_1]

lemma map_definition_units_layOut :
    (layOut index unitIndex definitions).2.map UnitEntry.definition =
      definitions.flatMap DimensionDefinition.units := by
  induction definitions generalizing index unitIndex with
  | nil => rfl
  | cons d definitions ih =>
    rw [units_layOut_cons, List.map_append, map_definition_unitEntries, ih, List.flatMap_cons]

variable {index unitIndex definitions}

lemma le_index_of_mem_layOut {e : DimensionEntry α}
    (h : e ∈ (layOut index unitIndex definitions).1) : index ≤ e.index := by
  have hindex := List.mem_map_of_mem (f := DimensionEntry.index) h
  rw [map_index_layOut] at hindex
  exact (List.mem_range'_1.mp hindex).1

/-- Every unit belongs to one of the dimensions. -/
lemma dimensionIndex_of_mem_layOut {u : UnitEntry α}
    (h : u ∈ (layOut index unitIndex definitions).2) :
    index ≤ u.dimensionIndex ∧ u.dimensionIndex < index + definitions.length := by
  induction definitions generalizing index unitIndex with
  | nil => exact absurd h List.not_mem_nil
  | cons d definitions ih =>
    rw [units_layOut_cons, List.mem_append] at h
    rw [List.length_cons]
    rcases h with h | h
    · have hdimension := (of_mem_unitEntries h).1
      omega
    · have hbounds := ih h
      omega

/-- The units stand dimension by dimension. -/
lemma pairwise_units_layOut : (layOut index unitIndex definitions).2.Pairwise
    fun u v => u.dimensionIndex ≤ v.dimensionIndex := by
  induction definitions generalizing index unitIndex with
  | nil => exact List.Pairwise.nil
  | cons d definitions ih =>
    rw [units_layOut_cons, List.pairwise_append]
    refine ⟨List.pairwise_of_forall_mem_list fun u hu v hv => ?_, ih, fun u hu v hv => ?_⟩
    · exact ((of_mem_unitEntries hu).1.trans (of_mem_unitEntries hv).1.symm).le
    · have hfirst := (of_mem_unitEntries hu).1
      have hrest := (dimensionIndex_of_mem_layOut hv).1
      omega

/-- The units of the dimension at a place are the ones it is defined with. -/
lemma filter_units_layOut {j : ℕ} {d : DimensionDefinition α} (h : definitions[j]? = some d) :
    ((layOut index unitIndex definitions).2.filter
      fun u => u.dimensionIndex == index + j).map UnitEntry.definition = d.units := by
  induction definitions generalizing index unitIndex j with
  | nil => simp at h
  | cons first definitions ih =>
    rw [units_layOut_cons, List.filter_append, List.map_append]
    rcases j with _ | j
    · obtain rfl : first = d := by simpa using h
      have hown : ∀ u ∈ unitEntries index unitIndex (first.key == temperatureKey) unitIndex
          first.units, (u.dimensionIndex == index + 0) = true := by
        intro u hu
        simpa using (of_mem_unitEntries hu).1
      have hother : ∀ u ∈ (layOut (index + 1) (unitIndex + first.units.length) definitions).2,
          ¬(u.dimensionIndex == index + 0) = true := by
        intro u hu
        have hbounds := (dimensionIndex_of_mem_layOut hu).1
        rw [beq_iff_eq]
        omega
      rw [List.filter_eq_self.mpr hown, List.filter_eq_nil_iff.mpr hother,
        map_definition_unitEntries, List.map_nil, List.append_nil]
    · have hfirst : ∀ u ∈ unitEntries index unitIndex (first.key == temperatureKey) unitIndex
          first.units, ¬(u.dimensionIndex == index + (j + 1)) = true := by
        intro u hu
        have hdimension := (of_mem_unitEntries hu).1
        rw [beq_iff_eq]
        omega
      have hrest : ((layOut (index + 1) (unitIndex + first.units.length) definitions).2.filter
          fun u => u.dimensionIndex == index + 1 + j).map UnitEntry.definition = d.units :=
        ih (by simpa using h)
      rw [Nat.add_right_comm, Nat.add_assoc] at hrest
      rw [List.filter_eq_nil_iff.mpr hfirst, List.map_nil, List.nil_append, hrest]

/-- The units of temperature are those of a dimension with this key. -/
lemma isTemperature_of_mem_layOut {j : ℕ} {d : DimensionDefinition α}
    (h : definitions[j]? = some d) {u : UnitEntry α}
    (hu : u ∈ (layOut index unitIndex definitions).2) (hj : u.dimensionIndex = index + j) :
    u.isTemperature = (d.key == temperatureKey) := by
  induction definitions generalizing index unitIndex j with
  | nil => simp at h
  | cons first definitions ih =>
    rw [units_layOut_cons, List.mem_append] at hu
    rcases j with _ | j
    · obtain rfl : first = d := by simpa using h
      rcases hu with hu | hu
      · exact isTemperature_of_mem_unitEntries hu
      · have hbounds := (dimensionIndex_of_mem_layOut hu).1
        omega
    · rcases hu with hu | hu
      · have hdimension := (of_mem_unitEntries hu).1
        omega
      · exact ih (by simpa using h) hu (by omega)

/-- **The SI unit of a dimension** is the first of its units, and all of them refer to it. -/
lemma siUnit_layOut (hunits : ∀ d ∈ definitions, d.units ≠ []) {e : DimensionEntry α}
    (he : e ∈ (layOut index unitIndex definitions).1) :
    (∃ u ∈ (layOut index unitIndex definitions).2,
      u.index = e.siUnitIndex ∧ u.dimensionIndex = e.index) ∧
      ∀ u ∈ (layOut index unitIndex definitions).2, u.dimensionIndex = e.index →
        u.siUnitIndex = e.siUnitIndex ∧ e.siUnitIndex ≤ u.index := by
  induction definitions generalizing index unitIndex with
  | nil => exact absurd he List.not_mem_nil
  | cons d definitions ih =>
    obtain ⟨hown, hunits⟩ := List.forall_mem_cons.mp hunits
    rw [units_layOut_cons]
    rcases List.mem_cons.mp he with rfl | he
    · obtain ⟨first, hfirst, hindex, hdimension⟩ :=
        exists_mem_unitEntries index unitIndex (d.key == temperatureKey) unitIndex hown
      refine ⟨⟨first, List.mem_append_left _ hfirst, hindex, hdimension⟩, fun u hu hsame => ?_⟩
      rcases List.mem_append.mp hu with hu | hu
      · exact (of_mem_unitEntries hu).2
      · have hbounds := (dimensionIndex_of_mem_layOut hu).1
        dsimp only at hsame
        omega
    · have hle := le_index_of_mem_layOut he
      obtain ⟨⟨first, hfirst, hfacts⟩, hall⟩ := ih hunits he
      refine ⟨⟨first, List.mem_append_right _ hfirst, hfacts⟩, fun u hu hsame => ?_⟩
      rcases List.mem_append.mp hu with hu | hu
      · have hdimension := (of_mem_unitEntries hu).1
        omega
      · exact hall u hu hsame

end LayOut

/-! ### Prefix rules -/

namespace RegistryData

variable [Scalar α]

/-- What a prefix rule asks for: the unit it names, with each of its prefixes in their order. The
first dimension and the first unit with the keys count, and the last prefix. -/
def Generates (data : RegistryData α) (rule : PrefixRule) (units : List (UnitDefinition α)) :
    Prop :=
  ∃ d base, (data.dimensions.find? fun d => d.key == rule.dimension) = some d ∧
    (d.units.find? fun unit => unit.key == rule.unit) = some base ∧
    List.Forall₂ (fun key unit => ∃ metric,
      data.prefixByKey? key = some metric ∧ unit = base.withPrefix metric) rule.prefixes units

/-- The units that a rule generates; none if the rule is at fault. -/
def unitsOf (data : RegistryData α) (rule : PrefixRule) : List (UnitDefinition α) :=
  match data.generated rule with
  | .ok units => units
  | .error _ => []

/-- The variant of a unit with one prefix. -/
def variant (data : RegistryData α) (base : UnitDefinition α) (key : String) :
    Except BuildError (UnitDefinition α) :=
  match data.prefixByKey? key with
  | none => .error (.invalid (.rulePrefix key))
  | some metric =>
    if (base.withPrefix metric).isSound then .ok (base.withPrefix metric)
    else .error .generatedUnit

/-- The units of one rule, with the key of its dimension. -/
def addition (data : RegistryData α) (rule : PrefixRule) :
    Except BuildError (String × List (UnitDefinition α)) :=
  (data.generated rule).map fun units => (rule.dimension, units)

variable {data : RegistryData α} {base : UnitDefinition α}

lemma variants_eq_mapM (keys : List String) :
    data.variants base keys = keys.mapM (data.variant base) := by
  induction keys with
  | nil => rfl
  | cons key keys ih =>
    rw [List.mapM_cons, ← ih, variants, variant]
    rcases data.prefixByKey? key with _ | metric
    · rfl
    · dsimp only
      split_ifs
      · cases data.variants base keys <;> rfl
      · rfl

lemma additions_eq_mapM (rules : List PrefixRule) :
    data.additions rules = rules.mapM data.addition := by
  induction rules with
  | nil => rfl
  | cons rule rules ih =>
    rw [List.mapM_cons, ← ih, additions, addition]
    cases data.generated rule with
    | error e => rfl
    | ok units => cases data.additions rules <;> rfl

lemma variant_eq_ok_iff {key : String} {unit : UnitDefinition α} :
    data.variant base key = .ok unit ↔ ∃ metric, data.prefixByKey? key = some metric ∧
      (base.withPrefix metric).isSound = true ∧ base.withPrefix metric = unit := by
  unfold variant
  rcases data.prefixByKey? key with _ | metric
  · simp
  · by_cases h : (base.withPrefix metric).isSound = true <;> simp [h]

lemma generates_of_generated {rule : PrefixRule} {units : List (UnitDefinition α)}
    (h : data.generated rule = .ok units) : data.Generates rule units := by
  unfold generated at h
  split at h
  · exact absurd h (by simp)
  · rename_i d hd
    split at h
    · exact absurd h (by simp)
    · rename_i base hbase
      rw [variants_eq_mapM] at h
      refine ⟨d, base, hd, hbase, (forall₂_of_mapM h).imp fun key unit hunit => ?_⟩
      obtain ⟨metric, hmetric, -, hvariant⟩ := variant_eq_ok_iff.mp hunit
      exact ⟨metric, hmetric, hvariant.symm⟩

lemma additions_eq_map {rules : List PrefixRule}
    {additions : List (String × List (UnitDefinition α))}
    (h : data.additions rules = .ok additions) :
    (∀ rule ∈ rules, data.Generates rule (data.unitsOf rule)) ∧
      additions = rules.map fun rule => (rule.dimension, data.unitsOf rule) := by
  rw [additions_eq_mapM] at h
  have hgenerated : ∀ rule ∈ rules, data.generated rule = .ok (data.unitsOf rule) := by
    intro rule hrule
    obtain ⟨_, haddition⟩ := exists_mapM_eq_ok_iff.mp ⟨_, h⟩ rule hrule
    rw [addition] at haddition
    rcases hunits : data.generated rule with e | units
    · rw [hunits] at haddition
      cases haddition
    · rw [unitsOf, hunits]
  have hall : rules.mapM data.addition =
      .ok (rules.map fun rule => (rule.dimension, data.unitsOf rule)) := by
    refine mapM_eq_ok fun rule hrule => ?_
    rw [addition, hgenerated rule hrule]
    rfl
  exact ⟨fun rule hrule => generates_of_generated (hgenerated rule hrule),
    Except.ok.inj (h.symm.trans hall)⟩

end RegistryData

/-- The units of a dimension with those that the rules for it generate behind its own. -/
def RegistryData.unitsWithRules [Scalar α] (data : RegistryData α) (d : DimensionDefinition α) :
    List (UnitDefinition α) :=
  d.units ++ (data.prefixedUnits.filter fun rule => rule.dimension == d.key).flatMap data.unitsOf

lemma units_extended [Scalar α] (data : RegistryData α) (d : DimensionDefinition α) :
    (d.extended (data.prefixedUnits.map fun rule => (rule.dimension, data.unitsOf rule))).units =
      data.unitsWithRules d := by
  unfold DimensionDefinition.extended RegistryData.unitsWithRules
  simp only [List.filter_map, List.flatMap_map]
  rfl

/-! ### Checks -/

lemma firstRepeated?_eq_none_iff {seen symbols : List String} :
    firstRepeated? seen symbols = none ↔ symbols.Nodup ∧ ∀ s ∈ symbols, s ∉ seen := by
  induction symbols generalizing seen with
  | nil => simp [firstRepeated?]
  | cons s rest ih =>
    unfold firstRepeated?
    by_cases hs : s ∈ seen
    · simp [hs]
    · rw [if_neg (by simpa using hs), ih, List.nodup_cons, List.forall_mem_cons]
      constructor
      · rintro ⟨hnodup, hrest⟩
        refine ⟨⟨fun hmem => hrest s hmem List.mem_cons_self, hnodup⟩, hs, fun s' hs' hseen => ?_⟩
        exact hrest s' hs' (List.mem_cons_of_mem _ hseen)
      · rintro ⟨⟨hnot, hnodup⟩, -, hrest⟩
        refine ⟨hnodup, fun s' hs' hseen => ?_⟩
        rcases List.mem_cons.mp hseen with rfl | hseen
        · exact hnot hs'
        · exact hrest s' hs' hseen

lemma nodup_of_symbolProblem? {table : Table} {symbols : List String}
    (h : symbolProblem? table symbols = none) : symbols.Nodup :=
  (firstRepeated?_eq_none_iff.mp (Option.map_eq_none_iff.mp h)).1

namespace RegistryData

variable [Scalar α]

lemma of_primaryProblemFrom? {slot : ℕ} {dimensions : List (DimensionDefinition α)}
    (h : primaryProblemFrom? slot dimensions = none) (j : ℕ) (hj : j < dimensions.length) :
    dimensions[j].key = primaryKeys.getD (slot + j) "" ∧
      isUnitVector (slot + j) dimensions[j].primaryExponents = true := by
  induction dimensions generalizing slot j with
  | nil => simp at hj
  | cons d dimensions ih =>
    unfold primaryProblemFrom? at h
    dsimp only at h
    split_ifs at h with hkey hvector
    rcases j with _ | j
    · exact ⟨not_not.mp hkey, hvector⟩
    · have hnext := ih h j (by simpa using hj)
      rwa [Nat.add_right_comm] at hnext

/-- The primary dimensions of the data are the right ones. -/
lemma of_primaryProblem? {primary : List (DimensionDefinition α)}
    (h : primaryProblem? primary = none) : primary.map DimensionDefinition.key = primaryKeys ∧
      ∀ j (hj : j < primary.length), isUnitVector j primary[j].primaryExponents = true := by
  unfold primaryProblem? at h
  split_ifs at h with hcount
  have hall := of_primaryProblemFrom? h
  refine ⟨List.ext_getElem ((List.length_map _).trans hcount) fun j hj hj' => ?_, fun j hj => ?_⟩
  · have hkey := (hall j (by simpa using hj)).1
    rw [Nat.zero_add, List.getD_eq_getElem _ _ hj'] at hkey
    simpa using hkey
  · have hvector := (hall j hj).2
    rwa [Nat.zero_add] at hvector

lemma beq_of_isUnitVector {slot : ℕ} {v : List α} (h : isUnitVector slot v = true) {j : ℕ}
    (hj : j < v.length) : (v[j] == if j = slot then 1 else 0) = true :=
  List.all_eq_true.mp h (v[j], j) (by simp [List.mem_zipIdx_iff_getElem?, hj])

end RegistryData

/-! ### Registries that are built -/

namespace Registry

/-- How a registry is laid out from the definitions of its dimensions, the primary ones first, and
what has been checked of it. -/
structure LaidOut (definitions : List (DimensionDefinition α)) [Scalar α] (r : Registry α) :
    Prop where
  complete : ∀ d ∈ definitions, d.IsComplete
  primary_keys : (definitions.take primaryCount).map DimensionDefinition.key = primaryKeys
  primary_vectors : ∀ i (h : i < definitions.length), i < primaryCount →
    RegistryData.isUnitVector i definitions[i].primaryExponents = true
  dimensions_eq : r.dimensions = (layOut 0 0 definitions).1
  units_eq : r.units = (layOut 0 0 definitions).2
  dimension_symbols : (r.dimensions.map DimensionEntry.symbol).Nodup
  unit_symbols : (r.units.map UnitEntry.symbol).Nodup

lemma nodup_of_problem? {r : Registry α} (h : r.problem? = none) :
    (r.dimensions.map DimensionEntry.symbol).Nodup ∧ (r.units.map UnitEntry.symbol).Nodup := by
  unfold problem? at h
  rcases hdimension : symbolProblem? .dimension (r.dimensions.map DimensionEntry.symbol) with _ | p
  · rcases hunit : symbolProblem? .unit (r.units.map UnitEntry.symbol) with _ | p
    · exact ⟨nodup_of_symbolProblem? hdimension, nodup_of_symbolProblem? hunit⟩
    · rw [hdimension, hunit] at h
      exact absurd h (Option.some_ne_none p)
  · rw [hdimension] at h
    exact absurd h (Option.some_ne_none p)

section Built

variable [Scalar α] {r : Registry α}

lemma build_eq_ok_iff {data : RegistryData α} : build data = .ok r ↔
    RegistryData.primaryProblem? data.primary = none ∧ r.problem? = none ∧
      ∃ additions, data.additions data.prefixedUnits = .ok additions ∧
        r = ofData data additions := by
  constructor
  · intro h
    unfold build at h
    split at h
    · exact absurd h (by simp)
    rename_i hprimary
    split at h
    · exact absurd h (by simp)
    rename_i additions hadditions
    dsimp only at h
    split at h
    · exact absurd h (by simp)
    rename_i hproblem
    obtain rfl := Except.ok.inj h
    exact ⟨hprimary, hproblem, additions, hadditions, rfl⟩
  · rintro ⟨hprimary, hproblem, additions, hadditions, rfl⟩
    simp only [build, hprimary, hadditions, hproblem]

/-- The definitions of all dimensions, with the units that the rules add. -/
def definitions (data : RegistryData α) : List (DimensionDefinition α) :=
  data.dimensions.map (.extended (data.prefixedUnits.map fun rule =>
    (rule.dimension, data.unitsOf rule)))

/-- **Decoding lays the tables out**: from the definitions of the document and the units that its
prefix rules generate, none of which is at fault. -/
lemma exists_laidOut_of_decode {document : Datum α} (h : decode document = .ok r) :
    ∃ data, document.registryData? = some data ∧
      (∀ rule ∈ data.prefixedUnits, data.Generates rule (data.unitsOf rule)) ∧
      r.LaidOut (definitions data) := by
  unfold decode at h
  split at h
  swap
  · exact absurd h (by simp)
  rename_i data hdata
  obtain ⟨hprimary, hproblem, additions, hadditions, hr⟩ := build_eq_ok_iff.mp h
  obtain ⟨hgenerates, rfl⟩ := RegistryData.additions_eq_map hadditions
  obtain ⟨hkeys, hvectors⟩ := RegistryData.of_primaryProblem? hprimary
  have hcount : data.primary.length = primaryCount := by
    have hlength := congrArg List.length hkeys
    rwa [List.length_map] at hlength
  have hvalid := (Datum.isValid_of_registryData? hdata).dimensions
  refine ⟨data, hdata, hgenerates, ?_⟩
  constructor
  case complete =>
    intro d hd
    obtain ⟨own, hown, rfl⟩ := List.mem_map.mp hd
    obtain ⟨hlength, hunits⟩ := (hvalid own hown).complete
    exact ⟨hlength, List.append_ne_nil_of_left_ne_nil hunits _⟩
  case primary_keys =>
    have htake : data.dimensions.take primaryCount = data.primary := by
      rw [RegistryData.dimensions, ← hcount, List.take_left]
    rw [definitions, ← List.map_take, htake, List.map_map]
    exact hkeys
  case primary_vectors =>
    intro i hi hlt
    have hi' : i < data.primary.length := hcount ▸ hlt
    have hentry : (definitions data)[i].primaryExponents = data.primary[i].primaryExponents := by
      simp [definitions, DimensionDefinition.extended, RegistryData.dimensions,
        List.getElem_append_left, hi']
    rw [hentry]
    exact hvectors i hi'
  case dimensions_eq => rw [hr]; rfl
  case units_eq => rw [hr]; rfl
  case dimension_symbols => exact (nodup_of_problem? hproblem).1
  case unit_symbols => exact (nodup_of_problem? hproblem).2

end Built

namespace LaidOut

variable [Scalar α] {r : Registry α} {definitions : List (DimensionDefinition α)}
  (h : r.LaidOut definitions)

include h

lemma primaryCount_le : primaryCount ≤ definitions.length := by
  have hlength := congrArg List.length h.primary_keys
  rw [List.length_map, List.length_take] at hlength
  exact min_eq_left_iff.mp hlength

lemma length_primaryExponents : ∀ e ∈ r.dimensions, e.primaryExponents.length = primaryCount := by
  intro e he
  have hmem := List.mem_map_of_mem (f := DimensionEntry.primaryExponents) he
  rw [h.dimensions_eq, map_primaryExponents_layOut] at hmem
  obtain ⟨d, hd, heq⟩ := List.mem_map.mp hmem
  rw [← heq]
  exact (h.complete d hd).1

lemma dimensionCount_eq : r.dimensionCount = definitions.length := by
  have hlength := congrArg List.length (map_index_layOut 0 0 definitions)
  rwa [← h.dimensions_eq, List.length_map, List.length_range'] at hlength

lemma map_index_dimensions :
    r.dimensions.map DimensionEntry.index = List.range r.dimensionCount := by
  rw [h.dimensionCount_eq, h.dimensions_eq, map_index_layOut, List.range_eq_range']

/-- The primary dimensions are made of themselves alone. -/
lemma beq_of_getElem? {i j : ℕ} {e : DimensionEntry α} {x : α} (hi : i < primaryCount)
    (he : r.dimensions[i]? = some e) (hx : e.primaryExponents[j]? = some x) :
    (x == if j = i then 1 else 0) = true := by
  have hlt : i < definitions.length := hi.trans_le h.primaryCount_le
  have hentry : definitions[i].primaryExponents = e.primaryExponents := by
    have hmap : (r.dimensions.map DimensionEntry.primaryExponents)[i]? =
        (definitions.map DimensionDefinition.primaryExponents)[i]? := by
      rw [h.dimensions_eq, map_primaryExponents_layOut]
    simpa [he, hlt] using hmap.symm
  have hvector := h.primary_vectors i hlt hi
  rw [hentry] at hvector
  obtain ⟨hj, rfl⟩ := List.getElem?_eq_some_iff.mp hx
  exact RegistryData.beq_of_isUnitVector hvector hj

lemma map_index_units : r.units.map UnitEntry.index = List.range r.unitCount := by
  rw [unitCount, h.units_eq, map_index_units_layOut, List.range_eq_range']

/-- Every unit belongs to a dimension of the registry. -/
lemma dimensionIndex_lt {u : UnitEntry α} (hu : u ∈ r.units) :
    u.dimensionIndex < r.dimensionCount := by
  rw [h.units_eq] at hu
  have hbound := (dimensionIndex_of_mem_layOut hu).2
  rw [h.dimensionCount_eq]
  omega

end LaidOut

/-! ### Registries over the rationals -/

/-- The exponents of the dimension at a place over the primary dimensions. -/
def vector (r : Registry ℚ) (i : ℕ) : Fin primaryCount → ℚ :=
  fun j => (r.basis.getD i []).getD j 0

variable {r : Registry ℚ}

lemma IsAccepted.exists_laidOut (h : r.IsAccepted) : ∃ definitions, r.LaidOut definitions := by
  obtain ⟨document, h⟩ := h
  obtain ⟨data, -, -, hlaidOut⟩ := exists_laidOut_of_decode h
  exact ⟨definitions data, hlaidOut⟩

/-- The primary dimensions come first. -/
lemma IsAccepted.primary_first (h : r.IsAccepted) :
    primaryCount ≤ r.dimensionCount ∧ ∀ i : Fin primaryCount, r.vector i = Pi.single i 1 := by
  obtain ⟨definitions, h⟩ := h.exists_laidOut
  have hcount : primaryCount ≤ r.dimensionCount :=
    h.primaryCount_le.trans_eq h.dimensionCount_eq.symm
  refine ⟨hcount, fun i => funext fun j => ?_⟩
  have hi : (i : ℕ) < r.dimensions.length := i.isLt.trans_le hcount
  have hj : (j : ℕ) < r.dimensions[(i : ℕ)].primaryExponents.length :=
    j.isLt.trans_eq (h.length_primaryExponents _ (List.getElem_mem hi)).symm
  have hentry := beq_iff_eq.mp
    (h.beq_of_getElem? i.isLt (List.getElem?_eq_getElem hi) (List.getElem?_eq_getElem hj))
  simp only [vector, basis, List.getD_eq_getElem?_getD, List.getElem?_map,
    List.getElem?_eq_getElem hi, Option.map_some, Option.getD_some, List.getElem?_eq_getElem hj,
    hentry, Pi.single_apply, Fin.ext_iff]

end Registry

end Metrology
