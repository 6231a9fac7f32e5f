import Mathlib
import Metrology.Proofs.Finiteness
import Metrology.Proofs.Generation

/-!
The constants of a registry, whose units are checked as they are read later.

To check the unit of a constant, its terms are looked up one by one; to read it, their exponents are
collected and the dimension that they come to is checked besides. So the check reports what reading
would raise, but for a dimension that is not finite.
-/

namespace Metrology

variable {α : Type} [Scalar α]

/-! ### Reading a unit -/

namespace Registry

variable (r : Registry α)

/-- The exponents that terms give to the units of a registry, for each unit summed up in their
order. -/
def accumulated (terms : List Term) : ExponentVector α :=
  ExponentVector.gather r.unitCount (terms.filterMap r.mark?)

lemma length_accumulated (terms : List Term) : (r.accumulated terms).length = r.unitCount :=
  ExponentVector.length_gather _ _

end Registry

section Reading

variable {r : Registry α}

namespace Unit

/-- Of a unit that is made only the dimension can be refused, for an exponent that is not finite. -/
lemma ofVector_cases (v : ExponentVector α) (h : v.length = r.unitCount) :
    (r.dimensionOf v).isFinite = true ∧ ofVector r v h = .ok ⟨v, h, r.dimensionOf v⟩ ∨
      (r.dimensionOf v).isFinite = false ∧ ∃ (i : ℕ) (x : α), Scalar.isFinite x = false ∧
        ofVector r v h = .error (.invalid (.vectorEntry .dimension i (Scalar.text x))) := by
  have hlength := (r.dimensionOf v).length_eq
  rcases ExponentVector.violation?_cases .dimension hlength with
    ⟨hfinite, hnone⟩ | ⟨hfinite, i, x, hx, hviolation⟩
  · refine .inl ⟨hfinite, ?_⟩
    rw [ofVector, Dimension.ofVector, hnone]
    simp only [dif_pos hlength]
  · refine .inr ⟨Bool.eq_false_iff.mpr hfinite, i, x, hx, ?_⟩
    rw [ofVector, Dimension.ofVector, hviolation]

end Unit

/-- The problem that is made of an error that reading the unit of a constant raises; none unless the
error is about its text or a unit that it names. -/
def Error.constantProblem? (constant : String) : Error → Option RegistryProblem
  | parse text problem => some (.constantText constant text problem)
  | unknown _ token => some (.constantUnit constant token)
  | invalid _ | inconvertible _ => none

/-- **The check of a constant reports what is raised when its unit is read.** -/
lemma Registry.constantProblem?_eq (r : Registry α) (c : Constant α) :
    r.constantProblem? c =
      (raised? (Unit.parse r c.unit)).bind (Error.constantProblem? c.key) := by
  rw [constantProblem?, Unit.parse_eq]
  rcases parseTerms c.unit with problem | terms
  · rfl
  · dsimp only
    show (terms.find? r.isUnknown).map _ = _
    rcases terms.find? r.isUnknown with _ | t
    · show none = (raised? (Unit.ofVector r (r.accumulated terms)
        (r.length_accumulated terms))).bind _
      rcases Unit.ofVector_cases (r.accumulated terms) (r.length_accumulated terms) with
        ⟨-, hread⟩ | ⟨-, i, x, -, hread⟩ <;> rw [hread] <;> rfl
    · rfl

/-- A constant in the unit that its terms come to, where that measures a finite dimension. -/
lemma Catalogue.constant_cases {key : String} {c : Constant α} {terms : List Term}
    (hc : r.constantByKey? key = some c) (hvalue : Scalar.isFinite c.value = true)
    (hterms : parseTerms c.unit = .ok terms) (hknown : terms.find? r.isUnknown = none) :
    (r.dimensionOf (r.accumulated terms)).isFinite = true ∧
        (∃ u : Unit r, u.exponents = r.accumulated terms ∧ Unit.parse r c.unit = .ok u ∧
          constant r key = .ok ⟨c.value, u⟩) ∨
      (r.dimensionOf (r.accumulated terms)).isFinite = false ∧
        ∃ (i : ℕ) (x : α), Scalar.isFinite x = false ∧
          constant r key = .error (.invalid (.vectorEntry .dimension i (Scalar.text x))) := by
  have hread : Unit.parse r c.unit =
      Unit.ofVector r (r.accumulated terms) (r.length_accumulated terms) := by
    rw [Unit.parse_eq, hterms]
    dsimp only
    rw [hknown]
    rfl
  rcases Unit.ofVector_cases (r.accumulated terms) (r.length_accumulated terms) with
    ⟨hfinite, hok⟩ | ⟨hfinite, i, x, hx, herror⟩
  · refine .inl ⟨hfinite, ⟨_, r.length_accumulated terms, _⟩, rfl, hread.trans hok, ?_⟩
    rw [constant, hc]
    dsimp only
    rw [hread, hok]
    exact if_pos hvalue
  · refine .inr ⟨hfinite, i, x, hx, ?_⟩
    rw [constant, hc]
    dsimp only
    rw [hread, herror]
    rfl

end Reading

/-! ### Registries that are built -/

/-- Validity is a matter of each constant by itself. -/
lemma RegistryData.IsValid.append_constant {data : RegistryData α} {c : Constant α}
    (h : data.IsValid) (hc : c.IsValid) :
    ({ data with constants := data.constants ++ [c] } : RegistryData α).IsValid :=
  { h with
    constants := List.forall_mem_append.mpr ⟨h.constants, List.forall_mem_singleton.mpr hc⟩ }

/-- Constants do not count for the units that rules add. -/
lemma RegistryData.additions_constants (data : RegistryData α) (constants : List (Constant α))
    (rules : List PrefixRule) :
    ({ data with constants } : RegistryData α).additions rules = data.additions rules := by
  have hgenerated (rule : PrefixRule) :
      ({ data with constants } : RegistryData α).generated rule = data.generated rule := by
    unfold generated
    simp only [variants_eq_mapM]
    rfl
  induction rules with
  | nil => rfl
  | cons rule rules ih => rw [additions, additions, hgenerated, ih]

namespace Registry

variable {r : Registry α} {document : Datum α} {data : RegistryData α}

lemma decode_eq_ok_iff : decode document = .ok r ↔
    ∃ data, document.registryData? = some data ∧ build data = .ok r := by
  rw [decode]
  rcases document.registryData? with _ | data <;> simp

lemma isValid_of_mem_constants (h : decode document = .ok r) {c : Constant α}
    (hc : c ∈ r.constants) : c.IsValid := by
  obtain ⟨data, hdata, hbuild⟩ := decode_eq_ok_iff.mp h
  obtain ⟨-, -, additions, -, rfl⟩ := build_eq_ok_iff.mp hbuild
  exact (Datum.isValid_of_registryData? hdata).constants c hc

/-- What reading the unit of a constant of an accepted registry raises is found to be invalid. -/
lemma kind_of_parse_constant (h : decode document = .ok r) {c : Constant α}
    (hc : c ∈ r.constants) {e : Error} (he : Unit.parse r c.unit = .error e) :
    e.kind ≠ .parse ∧ e.kind ≠ .unknown := by
  have hnone := (r.constantProblem?_eq c).symm.trans (constantProblem?_eq_none h hc)
  rw [he] at hnone
  cases e <;> simp_all [raised?, Error.constantProblem?]

omit [Scalar α] in
/-- One constant more is no problem if the registry knows the units that it names. -/
lemma problem?_append_constant {c : Constant α} (h : r.problem? = none)
    (hc : r.constantProblem? c = none) :
    ({ r with constants := r.constants ++ [c] } : Registry α).problem? = none := by
  simp only [problem?, Option.orElse_eq_orElse, Option.orElse_eq_or, Option.or_eq_none_iff] at h ⊢
  obtain ⟨hdimensions, hunits, havogadro, hconstants⟩ := h
  refine ⟨hdimensions, hunits, ?_, ?_⟩
  · rw [ite_eq_right_iff] at havogadro ⊢
    intro hnone
    refine havogadro ?_
    rw [constantByKey?, List.find?_append, Option.isNone_iff_eq_none,
      Option.or_eq_none_iff] at hnone
    exact Option.isNone_iff_eq_none.mpr hnone.1
  · exact List.findSome?_eq_none_iff.mpr (List.forall_mem_append.mpr
      ⟨List.findSome?_eq_none_iff.mp hconstants, List.forall_mem_singleton.mpr hc⟩)

lemma build_append_constant {c : Constant α} (h : build data = .ok r)
    (hc : r.constantProblem? c = none) :
    build { data with constants := data.constants ++ [c] } =
      .ok { r with constants := r.constants ++ [c] } := by
  obtain ⟨hprimary, hproblem, additions, hadditions, rfl⟩ := build_eq_ok_iff.mp h
  exact build_eq_ok_iff.mpr ⟨hprimary, problem?_append_constant hproblem hc, additions,
    (data.additions_constants _ _).trans hadditions, rfl⟩

/-- A constant whose unit is no expression, or names what is not there, is a problem. -/
lemma exists_decode_of_parse_constant
    {additions : List (String × List (UnitDefinition α))}
    (hdata : document.registryData? = some data)
    (hadditions : data.additions data.prefixedUnits = .ok additions) {c : Constant α}
    (hc : c ∈ data.constants) {e : Error}
    (he : Unit.parse (ofData data additions) c.unit = .error e)
    (hkind : e.kind = .parse ∨ e.kind = .unknown) :
    ∃ problem, decode document = .error (.invalid problem) := by
  have hne : decode document ≠ .error .generatedUnit := by
    rw [Ne, decode_eq_generatedUnit_iff]
    rintro ⟨data', hdata', -, hunsound⟩
    obtain rfl := Option.some.inj (hdata.symm.trans hdata')
    have herror := RegistryData.additions_eq_generatedUnit_iff.mpr hunsound
    exact absurd (hadditions.symm.trans herror) (by simp)
  refine (decode_ne_generatedUnit_iff.mp hne).resolve_left ?_
  rintro ⟨r, hr⟩
  obtain ⟨data', hdata', hbuild⟩ := decode_eq_ok_iff.mp hr
  obtain rfl := Option.some.inj (hdata.symm.trans hdata')
  obtain ⟨-, -, additions', hadditions', rfl⟩ := build_eq_ok_iff.mp hbuild
  obtain rfl := Except.ok.inj (hadditions.symm.trans hadditions')
  have hnot := kind_of_parse_constant hr hc he
  rcases hkind with hkind | hkind
  · exact hnot.1 hkind
  · exact hnot.2 hkind

end Registry

omit [Scalar α] in
/-- A key stands for the first constant that has it. -/
lemma Catalogue.exists_of_mem_constantKeys {r : Registry α} {key : String}
    (h : key ∈ constantKeys r) : ∃ before c after, r.constants = before ++ c :: after ∧
      (∀ other ∈ before, other.key ≠ key) ∧ c.key = key ∧ r.constantByKey? key = some c := by
  obtain ⟨c', hc', hkey'⟩ := List.mem_map.mp h
  obtain ⟨c, hfind⟩ : ∃ c, r.constantByKey? key = some c :=
    Option.isSome_iff_exists.mp (List.find?_isSome.mpr ⟨c', hc', by simpa using hkey'⟩)
  obtain ⟨hkey, before, after, hsplit, hbefore⟩ := List.find?_eq_some_iff_append.mp hfind
  exact ⟨before, c, after, hsplit, fun other hother => by simpa using hbefore other hother,
    by simpa using hkey, hfind⟩

/-- **Constants can be read from every registry that is accepted.** Their units raise no error for
their texts or for what they name; and of the other data a registry with such a constant is not
accepted. Each key stands for the first constant that has it, with the value and the unit that are
registered, if the exponents that the unit has been given come to finite sums for all dimensions; if
not, one of the sums that are not finite is refused. -/
theorem Catalogue.constant_checked :
    (∀ (document : Datum α) (r : Registry α), Registry.decode document = .ok r →
      (∀ c ∈ r.constants, ∀ e, Unit.parse r c.unit = .error e →
        e.kind ≠ .parse ∧ e.kind ≠ .unknown) ∧
      ∀ key ∈ constantKeys r, ∃ before c after terms, r.constants = before ++ c :: after ∧
        (∀ other ∈ before, other.key ≠ key) ∧ c.key = key ∧ parseTerms c.unit = .ok terms ∧
        ((r.dimensionOf (r.accumulated terms)).isFinite = true →
          ∃ u : Unit r, u.exponents = r.accumulated terms ∧ Unit.parse r c.unit = .ok u ∧
            constant r key = .ok ⟨c.value, u⟩) ∧
        ((r.dimensionOf (r.accumulated terms)).isFinite = false →
          ∃ (i : ℕ) (x : α), Scalar.isFinite x = false ∧
            constant r key = .error (.invalid (.vectorEntry .dimension i (Scalar.text x))))) ∧
    ∀ (document : Datum α) (data : RegistryData α)
      (additions : List (String × List (UnitDefinition α))),
      document.registryData? = some data → data.additions data.prefixedUnits = .ok additions →
      ∀ c ∈ data.constants, ∀ e, Unit.parse (Registry.ofData data additions) c.unit = .error e →
        e.kind = .parse ∨ e.kind = .unknown →
          ∃ problem, Registry.decode document = .error (.invalid problem) := by
  refine ⟨fun document r hr => ⟨fun c hc e he => Registry.kind_of_parse_constant hr hc he, ?_⟩,
    fun document data additions hdata hadditions c hc e he hkind =>
      Registry.exists_decode_of_parse_constant hdata hadditions hc he hkind⟩
  intro key hkey
  obtain ⟨before, c, after, hsplit, hbefore, hckey, hfind⟩ := exists_of_mem_constantKeys hkey
  have hc : c ∈ r.constants := List.mem_of_find?_eq_some hfind
  obtain ⟨terms, hterms, hknown⟩ :=
    Registry.exists_of_constantProblem? (Registry.constantProblem?_eq_none hr hc)
  have hcases := constant_cases hfind (Registry.isValid_of_mem_constants hr hc).value hterms hknown
  refine ⟨before, c, after, terms, hsplit, hbefore, hckey, hterms, fun hfinite => ?_,
    fun hinfinite => ?_⟩
  · exact (hcases.resolve_right fun h => by simp [hfinite] at h).2
  · exact (hcases.resolve_left fun h => by simp [hinfinite] at h).2

namespace Registry.Bundled

def furlong : Constant Float := ⟨"furlong", "furlong", "fur", 1, "furlong"⟩

/-- The bundled primary dimensions, with a constant whose unit they do not have. -/
def furlongData : RegistryData Float :=
  { primaryData with constants := primaryData.constants ++ [furlong] }

lemma isValid_furlong : furlong.IsValid :=
  Datum.isValid_of_constant? (d := furlong.toDatum) (by decide)

end Registry.Bundled

namespace Catalogue

open Registry.Bundled

theorem constant_checked_bundled :
    (∃ c ∈ registry.constants, c.key = "avogadro" ∧
      ∃ u : Unit registry, constant registry "avogadro" = .ok ⟨c.value, u⟩) ∧
    ∃ problem, Registry.decode furlongData.toDatum = .error (.invalid problem) := by
  constructor
  · obtain ⟨before, c, after, terms, hsplit, -, hkey, -, hread, -⟩ :=
      (constant_checked.1 _ _ decode_document).2 "avogadro" (by decide)
    obtain ⟨u, -, -, hu⟩ := hread (List.all_eq_true.mpr fun _ _ => rfl)
    exact ⟨c, hsplit ▸ List.mem_append_right _ List.mem_cons_self, hkey, u, hu⟩
  · exact constant_checked.2 furlongData.toDatum furlongData []
      (Datum.registryData?_toDatum Double.keepsIntegers
        (isValid_primaryData.append_constant isValid_furlong))
      rfl furlong (by simp [furlongData]) (.unknown .unit "furlong")
      (eq_error_of_raised? (by decide +kernel)) (.inr rfl)

end Catalogue

namespace Registry.Bundled

/-- The product of a kilogram and a gram with exponents of 309 digits: each is a double, but not
their sum. -/
def hugeProduct : String :=
  String.ofList ('k' :: 'g' :: '^' :: '1' :: List.replicate 308 '0' ++
    '.' :: 'g' :: '^' :: '1' :: List.replicate 308 '0')

def hugeConstant : Constant Float := ⟨"huge", "huge", "H", 1, hugeProduct⟩

/-- The bundled primary dimensions, with one constant more. -/
def hugeData : RegistryData Float :=
  { primaryData with constants := primaryData.constants ++ [hugeConstant] }

def hugeRegistry : Registry Float := ofData hugeData []

def hugeTerms : List Term :=
  [⟨"kg", 10 ^ 308, 1, Nat.one_ne_zero⟩, ⟨"g", 10 ^ 308, 1, Nat.one_ne_zero⟩]

lemma parseTerms_hugeProduct : parseTerms hugeProduct = .ok hugeTerms := by
  unfold parseTerms hugeProduct
  rw [String.toList_ofList]
  decide +kernel

lemma isValid_hugeConstant : hugeConstant.IsValid where
  key := by decide
  name := by decide
  symbol := by decide
  value := by decide
  unit := by
    show isTrimmed hugeProduct = true
    unfold isTrimmed hugeProduct
    rw [String.toList_ofList]
    decide +kernel

lemma find?_isUnknown_hugeTerms : hugeTerms.find? hugeRegistry.isUnknown = none := by
  decide

lemma constantProblem?_hugeConstant : primaryRegistry.constantProblem? hugeConstant = none := by
  rw [constantProblem?, show parseTerms hugeConstant.unit = _ from parseTerms_hugeProduct]
  exact congrArg (Option.map _) find?_isUnknown_hugeTerms

lemma decode_hugeData : decode hugeData.toDatum = .ok hugeRegistry := by
  have hvalid : hugeData.IsValid := isValid_primaryData.append_constant isValid_hugeConstant
  rw [decode_toDatum hvalid]
  exact build_append_constant build_primaryData constantProblem?_hugeConstant

end Registry.Bundled

namespace Catalogue

open Registry.Bundled

/-- Exponents that are finite for each unit are not enough: their sum for a dimension need not be
finite. -/
theorem not_constant_checked : ¬ ∀ (document : Datum Float) (r : Registry Float),
    Registry.decode document = .ok r → ∀ key ∈ constantKeys r, ∀ c terms,
      r.constantByKey? key = some c → parseTerms c.unit = .ok terms →
      (r.accumulated terms).all Scalar.isFinite = true → ∃ q, constant r key = .ok q := by
  intro h
  have hkey : hugeRegistry.constantByKey? "huge" = some hugeConstant := by rfl
  obtain ⟨q, hq⟩ := h _ _ decode_hugeData "huge" (by decide +kernel) hugeConstant hugeTerms hkey
    parseTerms_hugeProduct (by decide +kernel)
  rcases constant_cases hkey isValid_hugeConstant.value parseTerms_hugeProduct
    find?_isUnknown_hugeTerms with ⟨hfinite, -⟩ | ⟨-, i, x, -, herror⟩
  · exact absurd hfinite (by decide +kernel)
  · exact absurd (hq.symm.trans herror) (by simp)

end Catalogue

end Metrology
