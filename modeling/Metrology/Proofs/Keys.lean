import Mathlib
import Metrology.Catalogue
import Metrology.Proofs.Constants
import Metrology.Proofs.Failures
import Metrology.Proofs.FiniteMoves

/-!
Dimensions and units by their keys.

A key stands for the first entry of its table that has it. Symbols are unique in a table, but
nothing keeps a later entry from having the key of an earlier one, whether it is defined or made by
a prefix rule. So the key of an entry leads back to it if and only if no entry before it has this
key, and the keys of all entries do if and only if all keys of the definitions, with those that the
prefix rules put together, are different.
-/

namespace Metrology

/-! ### First places -/

section FirstPlace

variable {labels : List String} {token : String} {i : ℕ}

/-- The first entry with a label stands where the label stands first. -/
lemma find?_eq_getElem?_idxOf {β : Type} {entries : List β} {label : β → String} :
    (entries.find? fun e => label e == token) = entries[(entries.map label).idxOf token]? := by
  induction entries with
  | nil => rfl
  | cons e entries ih =>
    rw [List.find?_cons, List.map_cons, List.idxOf_cons]
    cases label e == token with
    | true => rfl
    | false => exact ih

/-- A label stands first where no label before it is the same. -/
lemma idxOf_eq_iff (h : labels[i]? = some token) :
    labels.idxOf token = i ↔ token ∉ labels.take i := by
  have hmem : token ∈ labels := List.mem_of_getElem? h
  have hle : labels.idxOf token < i + 1 := by
    refine (List.mem_take_iff_idxOf_lt hmem).mp (List.mem_of_getElem? (i := i) ?_)
    rw [List.getElem?_take_of_lt (Nat.lt_succ_self i), h]
  rw [List.mem_take_iff_idxOf_lt hmem]
  omega

/-- All labels stand first where they stand if and only if none is repeated. -/
lemma nodup_iff_idxOf :
    labels.Nodup ↔ ∀ i token, labels[i]? = some token → labels.idxOf token = i := by
  constructor
  · intro hnodup i token h
    obtain ⟨hi, rfl⟩ := List.getElem?_eq_some_iff.mp h
    exact hnodup.idxOf_getElem i hi
  · intro h
    rw [List.nodup_iff_injective_getElem]
    intro i j hij
    have hi := h i _ (List.getElem?_eq_getElem i.isLt)
    have hj := h j _ (List.getElem?_eq_getElem j.isLt)
    dsimp only at hij
    rw [hij] at hi
    exact Fin.ext (hi.symm.trans hj)

end FirstPlace

/-! ### Single entries -/

namespace ExponentVector

open Double

/-- The exponents of one entry of a table: 1 at its place and 0 elsewhere. -/
def single (length place : ℕ) : ExponentVector Float :=
  (List.range length).map fun i => if i = place then 1 else 0

variable {n i j : ℕ}

@[simp] lemma length_single : (single n i).length = n := by simp [single]

lemma getElem?_single {x : Float} :
    (single n i)[j]? = some x ↔ j < n ∧ (if j = i then 1 else 0) = x :=
  getElem?_map_range

lemma single_inj (hi : i < n) (h : single n i = single n j) : i = j := by
  have hone : (single n i)[i]? = some 1 := getElem?_single.mpr ⟨hi, if_pos rfl⟩
  rw [h, getElem?_single] at hone
  by_contra hne
  rw [if_neg hne] at hone
  have hvalue := isNumber_zero.value_eq
  rw [hone.2, isNumber_one.value_eq] at hvalue
  exact absurd hvalue one_ne_zero

lemma isNumber_of_single {x : Float} (h : (single n i)[j]? = some x) (hne : j ≠ i) :
    IsNumber x 0 := by
  obtain ⟨-, rfl⟩ := getElem?_single.mp h
  rw [if_neg hne]
  exact isNumber_zero

lemma all_isFinite_single : (single n i).all Scalar.isFinite = true := by
  refine List.all_eq_true.mpr fun x hx => ?_
  obtain ⟨j, -, rfl⟩ := List.mem_map.mp hx
  split_ifs
  · exact isNumber_one.isFinite
  · exact isNumber_zero.isFinite

/-- The zeros of a unit vector bear no sign. -/
lemma map_normalized_single : (single n i).map Scalar.normalized = single n i := by
  unfold single
  rw [List.map_map]
  refine List.map_congr_left fun j _ => ?_
  show Scalar.normalized (if j = i then 1 else 0) = _
  split_ifs
  · exact if_neg fun hzero => one_ne_zero ((isNumber_one.beq_iff isNumber_zero).mp hzero)
  · exact if_pos ((isNumber_zero.beq_iff isNumber_zero).mpr rfl)

/-- Finite numbers are taken as they are, but for the signs of zeros. -/
lemma ofEntries_map_number (role : VectorRole) {v : ExponentVector Float}
    (hv : v.all Scalar.isFinite = true) (index : ℕ) :
    ofEntries role index (v.map Datum.number) = .ok (v.map Scalar.normalized) := by
  induction v generalizing index with
  | nil => rfl
  | cons x v ih =>
    obtain ⟨hx, hv⟩ := Bool.and_eq_true_iff.mp hv
    simp only [List.map_cons, ofEntries, Datum.finite?_number hx, ih hv]

lemma ofData_unitVector (role : VectorRole) (n i : ℕ) :
    ofData role n (Catalogue.unitVector n i) = .ok (single n i) := by
  have hentries : Catalogue.unitVector n i = (single n i).map Datum.number := by
    simp [Catalogue.unitVector, single]
  rw [ofData, if_neg (by simp [hentries]), hentries, ofEntries_map_number _ all_isFinite_single,
    map_normalized_single]

end ExponentVector

open ExponentVector

lemma Dimension.ofData_eq_ok {r : Registry Float} {entries : List (Datum Float)}
    {v : ExponentVector Float}
    (h : ExponentVector.ofData .dimension r.dimensionCount entries = .ok v) :
    ofData r entries = .ok ⟨v, length_of_ofData h⟩ := by
  unfold ofData
  split
  · rename_i hv
    exact absurd (hv.symm.trans h) (by simp)
  · rename_i hv
    obtain rfl := Except.ok.inj (hv.symm.trans h)
    rfl

lemma Unit.ofData_eq_ofVector {r : Registry Float} {entries : List (Datum Float)}
    {v : ExponentVector Float} (h : ExponentVector.ofData .unit r.unitCount entries = .ok v) :
    ofData r entries = ofVector r v (length_of_ofData h) := by
  unfold ofData
  split
  · rename_i hv
    exact absurd (hv.symm.trans h) (by simp)
  · rename_i hv
    obtain rfl := Except.ok.inj (hv.symm.trans h)
    rfl

/-- A single unit counts once for its dimension, and for no other. -/
lemma Registry.isFinite_dimensionOf_single {r : Registry Float} {i : ℕ} (hi : i < r.unitCount) :
    (r.dimensionOf (single r.unitCount i)).isFinite = true := by
  refine List.all_eq_true.mpr fun x hx => ?_
  obtain ⟨j, -, rfl⟩ := List.mem_map.mp hx
  have hi : i < r.units.length := hi
  by_cases hj : r.units[i].dimensionIndex = j
  · have hown := (getElem?_paired UnitEntry.dimensionIndex).mpr
      ⟨_, List.getElem?_eq_getElem hi, getElem?_single.mpr ⟨hi, if_pos rfl⟩, hj⟩
    refine (isFinite_sumAt_iff hown fun k y hk hy => ?_).mpr Double.isNumber_one.isFinite
    obtain ⟨-, -, hsingle, -⟩ := (getElem?_paired UnitEntry.dimensionIndex).mp hy
    exact isNumber_of_single hsingle hk
  · refine (isNumber_foldl_of_zeros Double.isNumber_zero fun p hp hpj => ?_).isFinite
    obtain ⟨j', y⟩ := p
    obtain rfl : j' = j := hpj
    obtain ⟨k, hk⟩ := List.mem_iff_getElem?.mp hp
    obtain ⟨u, hu, hsingle, hkey⟩ := (getElem?_paired UnitEntry.dimensionIndex).mp hk
    refine isNumber_of_single hsingle ?_
    rintro rfl
    rw [List.getElem?_eq_getElem hi, Option.some.injEq] at hu
    exact hj (hu ▸ hkey)

/-! ### Look-ups -/

namespace Catalogue

section LookUp

variable {β : Type} {keys : List String} {lookUp : String → Except Error β}
  {exponents : β → ExponentVector Float} {j : ℕ}

/-- Whether every key of a table stands for the entry at its first place, taken once and alone. -/
def FindsFirst (keys : List String) (lookUp : String → Except Error β)
    (exponents : β → ExponentVector Float) : Prop :=
  ∀ key ∈ keys, ∃ x, lookUp key = .ok x ∧ exponents x = single keys.length (keys.idxOf key)

/-- Whether the key of the entry at a place of a table leads back to it, taken once and alone. -/
def LeadsBack (keys : List String) (lookUp : String → Except Error β)
    (exponents : β → ExponentVector Float) (j : ℕ) : Prop :=
  ∃ key x, keys[j]? = some key ∧ lookUp key = .ok x ∧ exponents x = single keys.length j

lemma FindsFirst.leadsBack_iff_idxOf (h : FindsFirst keys lookUp exponents) {key : String}
    (hkey : keys[j]? = some key) : LeadsBack keys lookUp exponents j ↔ keys.idxOf key = j := by
  have hmem : key ∈ keys := List.mem_of_getElem? hkey
  obtain ⟨x, hx, hexponents⟩ := h key hmem
  constructor
  · rintro ⟨key', x', hkey', hx', hexponents'⟩
    obtain rfl := Option.some.inj (hkey.symm.trans hkey')
    obtain rfl := Except.ok.inj (hx.symm.trans hx')
    exact single_inj (List.idxOf_lt_length_iff.mpr hmem) (hexponents.symm.trans hexponents')
  · intro hplace
    exact ⟨key, x, hkey, hx, hplace ▸ hexponents⟩

/-- The key of an entry leads back to it if no entry before it has this key. -/
lemma FindsFirst.leadsBack_iff (h : FindsFirst keys lookUp exponents) :
    LeadsBack keys lookUp exponents j ↔ ∃ key, keys[j]? = some key ∧ key ∉ keys.take j := by
  constructor
  · intro hback
    obtain ⟨key, -, hkey, -⟩ := id hback
    exact ⟨key, hkey, (idxOf_eq_iff hkey).mp ((h.leadsBack_iff_idxOf hkey).mp hback)⟩
  · rintro ⟨key, hkey, hfirst⟩
    exact (h.leadsBack_iff_idxOf hkey).mpr ((idxOf_eq_iff hkey).mpr hfirst)

lemma FindsFirst.forall_leadsBack_iff (h : FindsFirst keys lookUp exponents) :
    (∀ j < keys.length, LeadsBack keys lookUp exponents j) ↔ keys.Nodup := by
  rw [nodup_iff_idxOf]
  constructor
  · intro hall j key hkey
    exact (h.leadsBack_iff_idxOf hkey).mp (hall j (List.getElem?_eq_some_iff.mp hkey).1)
  · intro hall j hj
    have hkey := List.getElem?_eq_getElem hj
    exact (h.leadsBack_iff_idxOf hkey).mpr (hall j _ hkey)

end LookUp

variable {r : Registry Float} {definitions : List (DimensionDefinition Float)}

lemma length_dimensionKeys : (dimensionKeys r).length = r.dimensionCount := List.length_map _

lemma length_unitKeys : (unitKeys r).length = r.unitCount := List.length_map _

lemma findsFirst_dimension (hr : r.LaidOut definitions) :
    FindsFirst (dimensionKeys r) (dimension r) Dimension.exponents := by
  intro key hkey
  have hlt : (dimensionKeys r).idxOf key < r.dimensions.length :=
    (List.idxOf_lt_length_iff.mpr hkey).trans_eq length_dimensionKeys
  have hget := List.getElem?_eq_getElem hlt
  have hfind : r.dimensionByKey? key = some _ := find?_eq_getElem?_idxOf.trans hget
  refine ⟨⟨single r.dimensionCount ((dimensionKeys r).idxOf key), length_single⟩, ?_,
    by rw [length_dimensionKeys]⟩
  rw [dimension, hfind]
  dsimp only
  rw [eq_of_map_eq_range hr.map_index_dimensions hget,
    Dimension.ofData_eq_ok (ofData_unitVector _ _ _)]

lemma findsFirst_unit (hr : r.LaidOut definitions) :
    FindsFirst (unitKeys r) (unit r) Unit.exponents := by
  intro key hkey
  have hlt : (unitKeys r).idxOf key < r.units.length :=
    (List.idxOf_lt_length_iff.mpr hkey).trans_eq length_unitKeys
  have hget := List.getElem?_eq_getElem hlt
  have hfind : r.unitByKey? key = some _ := find?_eq_getElem?_idxOf.trans hget
  have hfinite := Registry.isFinite_dimensionOf_single hlt
  obtain ⟨x, hmade, hx⟩ : ∃ x, Unit.ofVector r (single r.unitCount ((unitKeys r).idxOf key))
      length_single = .ok x ∧ x.exponents = single r.unitCount ((unitKeys r).idxOf key) :=
    ⟨_, ((Unit.ofVector_cases _ _).resolve_right fun h => by simp [hfinite] at h).2, rfl⟩
  refine ⟨x, ?_, by rw [hx, length_unitKeys]⟩
  rw [unit, hfind]
  dsimp only
  rw [eq_of_map_eq_range hr.map_index_units hget,
    Unit.ofData_eq_ofVector (ofData_unitVector _ _ _), hmade]

/-- The primary dimensions come first, and their keys are different. -/
lemma leadsBack_primary (hr : r.LaidOut definitions)
    (hkeys : (dimensionKeys r).take primaryCount = primaryKeys) {j : ℕ} (hj : j < primaryCount) :
    LeadsBack (dimensionKeys r) (dimension r) Dimension.exponents j := by
  have hkey : primaryKeys[j]? = some primaryKeys[j] := List.getElem?_eq_getElem hj
  have hfirst : primaryKeys[j] ∉ primaryKeys.take j :=
    (idxOf_eq_iff hkey).mp (nodup_iff_idxOf.mp (by decide) j _ hkey)
  have htake : (dimensionKeys r).take j = primaryKeys.take j := by
    rw [← hkeys, List.take_take, min_eq_left hj.le]
  refine (findsFirst_dimension hr).leadsBack_iff.mpr ⟨primaryKeys[j], ?_, htake ▸ hfirst⟩
  rw [← List.getElem?_take_of_lt hj, hkeys, hkey]

/-- **Keys stand for first entries.** In every registry that is accepted, a key of the table of
dimensions or of units stands for the first entry that has it, with the exponent 1 and 0 for all
others; so an entry can be looked up with its key if and only if no entry before it has the key. The
primary dimensions always can. All dimensions can if and only if the keys of their definitions are
different, and all units if and only if the keys of the units that are defined and of those that the
prefix rules make are. -/
theorem leadsBack_of_decode {document : Datum Float} (h : Registry.decode document = .ok r) :
    ∃ data generated, document.registryData? = some data ∧
      (∀ rule ∈ data.prefixedUnits, data.Generates rule (generated rule)) ∧
      FindsFirst (dimensionKeys r) (dimension r) Dimension.exponents ∧
      FindsFirst (unitKeys r) (unit r) Unit.exponents ∧
      (∀ j, LeadsBack (dimensionKeys r) (dimension r) Dimension.exponents j ↔
        ∃ key, (dimensionKeys r)[j]? = some key ∧ key ∉ (dimensionKeys r).take j) ∧
      (∀ i, LeadsBack (unitKeys r) (unit r) Unit.exponents i ↔
        ∃ key, (unitKeys r)[i]? = some key ∧ key ∉ (unitKeys r).take i) ∧
      (∀ j < primaryCount, LeadsBack (dimensionKeys r) (dimension r) Dimension.exponents j) ∧
      ((∀ j < r.dimensionCount, LeadsBack (dimensionKeys r) (dimension r) Dimension.exponents j) ↔
        (data.dimensions.map DimensionDefinition.key).Nodup) ∧
      ((∀ i < r.unitCount, LeadsBack (unitKeys r) (unit r) Unit.exponents i) ↔
        ((data.dimensions.flatMap DimensionDefinition.units ++
          data.prefixedUnits.flatMap generated).map UnitDefinition.key).Nodup) := by
  obtain ⟨data, hdata, hgenerates, hr⟩ := Registry.exists_laidOut_of_decode h
  have hdimensions := findsFirst_dimension hr
  have hunits := findsFirst_unit hr
  have hdimensionKeys :
      dimensionKeys r = (Registry.definitions data).map DimensionDefinition.key := by
    rw [dimensionKeys, hr.dimensions_eq, map_key_layOut]
  have hunitKeys : unitKeys r = (r.units.map UnitEntry.definition).map UnitDefinition.key := by
    rw [List.map_map]
    rfl
  refine ⟨data, data.unitsOf, hdata, hgenerates, hdimensions, hunits,
    fun j => hdimensions.leadsBack_iff, fun i => hunits.leadsBack_iff,
    fun j hj => leadsBack_primary hr ?_ hj, ?_, ?_⟩
  · rw [hdimensionKeys, ← List.map_take]
    exact hr.primary_keys
  · rw [← length_dimensionKeys, hdimensions.forall_leadsBack_iff, hdimensionKeys,
      Registry.definitions, List.map_map]
    rfl
  · rw [← length_unitKeys, hunits.forall_leadsBack_iff, hunitKeys]
    exact ((hr.units_once hgenerates).map _).nodup_iff

open Registry.Bundled in
/-- In a registry with the primary dimensions and their units only, all keys are different. -/
theorem leadsBack_primaryRegistry :
    Registry.decode primaryData.toDatum = .ok primaryRegistry ∧
      (∀ j < primaryRegistry.dimensionCount,
        LeadsBack (dimensionKeys primaryRegistry) (dimension primaryRegistry)
          Dimension.exponents j) ∧
      ∀ i < primaryRegistry.unitCount,
        LeadsBack (unitKeys primaryRegistry) (unit primaryRegistry) Unit.exponents i := by
  obtain ⟨-, -, -, -, hdimensions, hunits, -⟩ := leadsBack_of_decode decode_primaryData
  exact ⟨decode_primaryData, hdimensions.forall_leadsBack_iff.mpr (by decide),
    hunits.forall_leadsBack_iff.mpr (by decide)⟩

end Catalogue

namespace Registry.Bundled

/-- The bundled definitions of the primary dimensions, with a second mass of its own unit, which has
the key of the gram. -/
def stoneData : RegistryData Float :=
  { primaryData with
    derived := [⟨"mass", "stone mass", "St", [1, 0, 0, 0, 0, 0, 0],
      [⟨"gram", "stone gram", "sg", 2, 0⟩]⟩] }

def stoneRegistry : Registry Float := ofData stoneData []

lemma decode_stoneData : decode stoneData.toDatum = .ok stoneRegistry := by
  have hvalid : stoneData.IsValid :=
    { isValid_primaryData with
      derived := List.forall_mem_singleton.mpr
        (DimensionDefinition.isValid_of_toDatum (by decide +kernel)) }
  rw [decode_toDatum hvalid]
  decide +kernel

end Registry.Bundled

namespace Catalogue

open Registry.Bundled

/-- Symbols alone do not tell entries apart: a second dimension with the key of the mass, and its
unit with the key of the gram, are accepted, and their keys lead to the first ones. -/
theorem not_leadsBack_of_decode :
    (¬ ∀ (document : Datum Float) (r : Registry Float), Registry.decode document = .ok r →
        ∀ j < r.dimensionCount, LeadsBack (dimensionKeys r) (dimension r) Dimension.exponents j) ∧
      ¬ ∀ (document : Datum Float) (r : Registry Float), Registry.decode document = .ok r →
        ∀ i < r.unitCount, LeadsBack (unitKeys r) (unit r) Unit.exponents i := by
  obtain ⟨_, -, -, hr⟩ := Registry.exists_laidOut_of_decode decode_stoneData
  constructor <;> intro h
  · have hnodup := (findsFirst_dimension hr).forall_leadsBack_iff.mp
      fun j hj => h _ _ decode_stoneData j (hj.trans_eq length_dimensionKeys)
    exact absurd hnodup (by decide)
  · have hnodup := (findsFirst_unit hr).forall_leadsBack_iff.mp
      fun i hi => h _ _ decode_stoneData i (hi.trans_eq length_unitKeys)
    exact absurd hnodup (by decide)

end Catalogue

end Metrology
