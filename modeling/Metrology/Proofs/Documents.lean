import Mathlib
import Metrology.Registry.Build
import Metrology.Proofs.Traversal

/-!
What a document has to hold to describe a registry.

A document is read part by part, and each part lays down what it demands: texts that are trimmed,
numbers that are finite, exponents that are safe integers. Whatever is read is valid in this sense,
and whatever is valid is read back from the document that it is written as.
-/

namespace Metrology

variable {α : Type}

/-! ### Valid definitions -/

/-- A dimension has an exponent for each primary dimension, and a unit. -/
def DimensionDefinition.IsComplete (d : DimensionDefinition α) : Prop :=
  d.primaryExponents.length = primaryCount ∧ d.units ≠ []

section Valid

variable [Scalar α]

structure UnitDefinition.IsValid (u : UnitDefinition α) : Prop where
  key : isTrimmed u.key = true
  name : isTrimmed u.name = true
  symbol : isTrimmed u.symbol = true
  conversionFactor : Scalar.isFinite u.conversionFactor = true
  prefixExponent : isSafeInteger u.prefixExponent = true

structure DimensionDefinition.IsValid (d : DimensionDefinition α) : Prop where
  key : isTrimmed d.key = true
  name : isTrimmed d.name = true
  symbol : isTrimmed d.symbol = true
  primaryExponents : ∀ x ∈ d.primaryExponents, Scalar.isFinite x = true
  units : ∀ u ∈ d.units, u.IsValid
  complete : d.IsComplete

structure MetricPrefix.IsValid (p : MetricPrefix) : Prop where
  key : isTrimmed p.key = true
  name : isTrimmed p.name = true
  symbol : isTrimmed p.symbol = true
  exponent : isSafeInteger p.exponent = true

structure PrefixRule.IsValid (rule : PrefixRule) : Prop where
  dimension : isTrimmed rule.dimension = true
  unit : isTrimmed rule.unit = true
  prefixes : ∀ key ∈ rule.prefixes, isTrimmed key = true

structure Constant.IsValid (c : Constant α) : Prop where
  key : isTrimmed c.key = true
  name : isTrimmed c.name = true
  symbol : isTrimmed c.symbol = true
  value : Scalar.isFinite c.value = true
  unit : isTrimmed c.unit = true

structure RegistryData.IsValid (data : RegistryData α) : Prop where
  primary : ∀ d ∈ data.primary, d.IsValid
  derived : ∀ d ∈ data.derived, d.IsValid
  prefixes : ∀ p ∈ data.prefixes, p.IsValid
  prefixedUnits : ∀ rule ∈ data.prefixedUnits, rule.IsValid
  constants : ∀ c ∈ data.constants, c.IsValid

end Valid

/-! ### Texts and lists -/

namespace Datum

section Parts

variable {β : Type} {read : Datum α → Option β} {d : Datum α}

lemma label?_eq_some_iff {s : String} :
    d.label? = some s ↔ d.text? = some s ∧ isTrimmed s = true := by
  unfold label?
  rcases htext : d.text? with _ | text
  · simp
  · by_cases h : isTrimmed text = true
    · simp only [Option.bind_eq_bind, Option.bind_some, h, if_true, Option.some.injEq]
      exact ⟨fun heq => ⟨heq, heq ▸ h⟩, And.left⟩
    · simp only [Option.bind_eq_bind, Option.bind_some, h, if_false, Option.some.injEq,
        reduceCtorEq, Bool.false_eq_true, false_iff]
      rintro ⟨rfl, hs⟩
      exact h hs

lemma isTrimmed_of_label? {s : String} (h : d.label? = some s) : isTrimmed s = true :=
  (label?_eq_some_iff.mp h).2

lemma label?_text {s : String} (hs : isTrimmed s = true) : (text s : Datum α).label? = some s :=
  label?_eq_some_iff.mpr ⟨rfl, hs⟩

lemma forall_of_listOf? {P : β → Prop} (hread : ∀ item b, read item = some b → P b) {bs : List β}
    (h : d.listOf? read = some bs) : ∀ b ∈ bs, P b := by
  obtain ⟨items, _, hitems⟩ := Option.bind_eq_some_iff.mp h
  intro b hb
  obtain ⟨item, _, hitem⟩ := exists_of_mapM hitems hb
  exact hread item b hitem

lemma forall_of_optionalListOf? {P : β → Prop}
    (hread : ∀ item b, read item = some b → P b) {d : Option (Datum α)} {bs : List β}
    (h : optionalListOf? read d = some bs) : ∀ b ∈ bs, P b := by
  rcases d with _ | d
  · obtain rfl : [] = bs := Option.some.inj h
    exact fun b hb => absurd hb List.not_mem_nil
  · exact forall_of_listOf? hread h

lemma listOf?_list_map {write : β → Datum α} {bs : List β}
    (hbs : ∀ b ∈ bs, read (write b) = some b) :
    (list (bs.map write)).listOf? read = some bs := by
  show (bs.map write).mapM read = some bs
  induction bs with
  | nil => rfl
  | cons b bs ih =>
    rw [List.map_cons, List.mapM_cons, hbs b List.mem_cons_self,
      ih fun c hc => hbs c (List.mem_cons_of_mem b hc)]
    rfl

end Parts

/-! ### What is read -/

section Read

variable [Scalar α] {d : Datum α}

lemma isFinite_of_finite? {x : α} (h : d.finite? = some x) : Scalar.isFinite x = true := by
  unfold finite? at h
  split at h
  · split_ifs at h with hfinite
    exact Option.some.inj h ▸ hfinite
  · exact absurd h (by simp)

lemma isSafeInteger_of_safeInteger? {n : ℤ} (h : d.safeInteger? = some n) :
    isSafeInteger n = true := by
  simp only [safeInteger?, Option.bind_eq_bind, Option.bind_eq_some_iff] at h
  obtain ⟨_, _, m, _, h⟩ := h
  split_ifs at h with hsafe
  exact Option.some.inj h ▸ hsafe

lemma isValid_of_unitDefinition? {u : UnitDefinition α} (h : d.unitDefinition? = some u) :
    u.IsValid := by
  simp only [unitDefinition?, Option.bind_eq_bind, Option.bind_eq_some_iff] at h
  obtain ⟨_, _, _, hkey, _, _, _, hname, _, _, _, hsymbol, _, _, _, hfactor, _, _, _, hexponent,
    h⟩ := h
  obtain rfl := Option.some.inj h
  exact ⟨isTrimmed_of_label? hkey, isTrimmed_of_label? hname, isTrimmed_of_label? hsymbol,
    isFinite_of_finite? hfactor, isSafeInteger_of_safeInteger? hexponent⟩

lemma isValid_of_dimensionDefinition? {definition : DimensionDefinition α}
    (h : d.dimensionDefinition? = some definition) : definition.IsValid := by
  simp only [dimensionDefinition?, Option.bind_eq_bind, Option.bind_eq_some_iff] at h
  obtain ⟨_, _, _, hkey, _, _, _, hname, _, _, _, hsymbol, _, _, _, hexponents, _, _, _, hunits,
    h⟩ := h
  split_ifs at h with hcomplete
  obtain rfl := Option.some.inj h
  exact ⟨isTrimmed_of_label? hkey, isTrimmed_of_label? hname, isTrimmed_of_label? hsymbol,
    forall_of_listOf? (fun _ _ => isFinite_of_finite?) hexponents,
    forall_of_listOf? (fun _ _ => isValid_of_unitDefinition?) hunits, hcomplete⟩

lemma isValid_of_metricPrefix? {p : MetricPrefix} (h : d.metricPrefix? = some p) : p.IsValid := by
  simp only [metricPrefix?, Option.bind_eq_bind, Option.bind_eq_some_iff] at h
  obtain ⟨_, _, _, hkey, _, _, _, hname, _, _, _, hsymbol, _, _, _, hexponent, h⟩ := h
  obtain rfl := Option.some.inj h
  exact ⟨isTrimmed_of_label? hkey, isTrimmed_of_label? hname, isTrimmed_of_label? hsymbol,
    isSafeInteger_of_safeInteger? hexponent⟩

omit [Scalar α] in
lemma isValid_of_prefixRule? {rule : PrefixRule} (h : d.prefixRule? = some rule) :
    rule.IsValid := by
  simp only [prefixRule?, Option.bind_eq_bind, Option.bind_eq_some_iff] at h
  obtain ⟨_, _, _, hdimension, _, _, _, hunit, _, _, _, hprefixes, h⟩ := h
  obtain rfl := Option.some.inj h
  exact ⟨isTrimmed_of_label? hdimension, isTrimmed_of_label? hunit,
    forall_of_listOf? (fun _ _ => isTrimmed_of_label?) hprefixes⟩

lemma isValid_of_constant? {c : Constant α} (h : d.constant? = some c) : c.IsValid := by
  simp only [constant?, Option.bind_eq_bind, Option.bind_eq_some_iff] at h
  obtain ⟨_, _, _, hkey, _, _, _, hname, _, _, _, hsymbol, _, _, _, hvalue, _, _, _, hunit,
    h⟩ := h
  obtain rfl := Option.some.inj h
  exact ⟨isTrimmed_of_label? hkey, isTrimmed_of_label? hname, isTrimmed_of_label? hsymbol,
    isFinite_of_finite? hvalue, isTrimmed_of_label? hunit⟩

/-- **Reading is checking**: what a document describes is valid. -/
lemma isValid_of_registryData? {data : RegistryData α} (h : d.registryData? = some data) :
    data.IsValid := by
  simp only [registryData?, Option.bind_eq_bind, Option.bind_eq_some_iff] at h
  obtain ⟨_, _, _, hprimary, _, _, _, hderived, _, hprefixes, _, hrules, _, _, _, hconstants,
    h⟩ := h
  obtain rfl := Option.some.inj h
  exact ⟨forall_of_listOf? (fun _ _ => isValid_of_dimensionDefinition?) hprimary,
    forall_of_listOf? (fun _ _ => isValid_of_dimensionDefinition?) hderived,
    forall_of_optionalListOf? (fun _ _ => isValid_of_metricPrefix?) hprefixes,
    forall_of_optionalListOf? (fun _ _ => isValid_of_prefixRule?) hrules,
    forall_of_listOf? (fun _ _ => isValid_of_constant?) hconstants⟩

end Read

end Datum

lemma RegistryData.IsValid.dimensions [Scalar α] {data : RegistryData α} (h : data.IsValid) :
    ∀ d ∈ data.dimensions, d.IsValid :=
  List.forall_mem_append.mpr ⟨h.primary, h.derived⟩

/-- A definition is valid if it is read back. -/
lemma DimensionDefinition.isValid_of_toDatum [Scalar α] {d : DimensionDefinition α}
    (h : d.toDatum.dimensionDefinition? = some d) : d.IsValid :=
  Datum.isValid_of_dimensionDefinition? h

/-! ### What is written -/

namespace Datum

/-- Whether safe integers are written as numbers that they are read back from. -/
def KeepsIntegers (α : Type) [Scalar α] : Prop :=
  ∀ n : ℤ, isSafeInteger n = true → (ofInt n : Datum α).safeInteger? = some n

section Write

variable [Scalar α] (h : KeepsIntegers α)

lemma finite?_number {x : α} (hx : Scalar.isFinite x = true) : (number x).finite? = some x :=
  if_pos hx

include h

lemma unitDefinition?_toDatum {u : UnitDefinition α} (hu : u.IsValid) :
    u.toDatum.unitDefinition? = some u := by
  simp [unitDefinition?, UnitDefinition.toDatum, field?, label?_text, finite?_number, h _ hu.5,
    hu.key, hu.name, hu.symbol, hu.conversionFactor]

lemma dimensionDefinition?_toDatum {d : DimensionDefinition α} (hd : d.IsValid) :
    d.toDatum.dimensionDefinition? = some d := by
  have hexponents : (list (d.primaryExponents.map number)).listOf? finite?
      = some d.primaryExponents := listOf?_list_map fun x hx => finite?_number (hd.4 x hx)
  have hunits : (list (d.units.map UnitDefinition.toDatum)).listOf? unitDefinition?
      = some d.units := listOf?_list_map fun u hu => unitDefinition?_toDatum h (hd.units u hu)
  simp [dimensionDefinition?, DimensionDefinition.toDatum, field?, label?_text, hexponents, hunits,
    hd.key, hd.name, hd.symbol, hd.complete.1, hd.complete.2]

lemma metricPrefix?_toDatum {p : MetricPrefix} (hp : p.IsValid) :
    (p.toDatum : Datum α).metricPrefix? = some p := by
  simp [metricPrefix?, MetricPrefix.toDatum, field?, label?_text, h _ hp.exponent, hp.key,
    hp.name, hp.symbol]

omit [Scalar α] h in
lemma prefixRule?_toDatum {rule : PrefixRule} (hrule : rule.IsValid) :
    (rule.toDatum : Datum α).prefixRule? = some rule := by
  have hprefixes : (list (rule.prefixes.map text) : Datum α).listOf? label?
      = some rule.prefixes := listOf?_list_map fun key hkey => label?_text (hrule.3 key hkey)
  simp [prefixRule?, PrefixRule.toDatum, field?, label?_text, hprefixes, hrule.dimension,
    hrule.unit]

omit h in
lemma constant?_toDatum {c : Constant α} (hc : c.IsValid) : c.toDatum.constant? = some c := by
  simp [constant?, Constant.toDatum, field?, label?_text, finite?_number, hc.key, hc.name,
    hc.symbol, hc.value, hc.unit]

/-- **What is valid is read back.** -/
lemma registryData?_toDatum {data : RegistryData α} (hdata : data.IsValid) :
    data.toDatum.registryData? = some data := by
  have hdimensions {ds : List (DimensionDefinition α)} (hds : ∀ d ∈ ds, d.IsValid) :
      (list (ds.map DimensionDefinition.toDatum)).listOf? dimensionDefinition? = some ds :=
    listOf?_list_map fun d hd => dimensionDefinition?_toDatum h (hds d hd)
  have hprefixes : (list (data.prefixes.map MetricPrefix.toDatum) : Datum α).listOf? metricPrefix?
      = some data.prefixes :=
    listOf?_list_map fun p hp => metricPrefix?_toDatum h (hdata.prefixes p hp)
  have hrules : (list (data.prefixedUnits.map PrefixRule.toDatum) : Datum α).listOf? prefixRule?
      = some data.prefixedUnits :=
    listOf?_list_map fun rule hrule => prefixRule?_toDatum (hdata.prefixedUnits rule hrule)
  have hconstants : (list (data.constants.map Constant.toDatum)).listOf? constant?
      = some data.constants :=
    listOf?_list_map fun c hc => constant?_toDatum (hdata.constants c hc)
  simp [registryData?, RegistryData.toDatum, field?, optionalListOf?, hprefixes, hrules,
    hconstants, hdimensions hdata.primary, hdimensions hdata.derived]

end Write

end Datum

end Metrology
