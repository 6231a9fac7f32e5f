import Mathlib
import Metrology.Proofs.Failures
import Metrology.Proofs.FiniteMoves
import Metrology.Proofs.Generation
import Metrology.Proofs.Writing

/-!
What is written of dimensions and units over a registry that is accepted.

Symbols and names are always written, up to one exception that a registry is not checked for: a
symbol with a dot or a caret in it that is no expression. What has to be recomposed first, of SI
units or of primary dimensions, is written if and only if the composition is finite, and else the
first exponent is refused that is not. The same holds of the report that two units do not convert.
-/

namespace Metrology

namespace Registry

variable {α β γ : Type}

/-- Whether an error is about a symbol of a registry that looks like an expression and is none. -/
def IsUnreadable (r : Registry α) (e : Error) : Prop :=
  ∃ symbol ∈ r.symbols, isCompound symbol = true ∧
    ∃ problem, parseTerms symbol = .error problem ∧ e = .parse symbol problem

/-- Whether the symbols of a registry that look like expressions are expressions. -/
def HasReadableSymbols (r : Registry α) : Prop :=
  ∀ symbol ∈ r.symbols, isCompound symbol = true → ∃ terms, parseTerms symbol = .ok terms

lemma HasReadableSymbols.not_isUnreadable {r : Registry α} (h : r.HasReadableSymbols)
    (e : Error) : ¬r.IsUnreadable e := by
  rintro ⟨symbol, hsymbol, hcompound, problem, hproblem, -⟩
  obtain ⟨terms, hterms⟩ := h symbol hsymbol hcompound
  rw [hterms] at hproblem
  cases hproblem

/-- The first number that is refused, where vectors are checked one after another. -/
def firstViolation? [Scalar α] (checks : List (VectorRole × ExponentVector α)) :
    Option Violation :=
  checks.findSome? fun (role, v) => ExponentVector.violation? role v.length v

/-- What a computation over a registry comes to: a result if some numbers are finite, the refusal of
the first one in the vectors that are checked if they are not, or in either case, before that, an
error about a symbol that cannot be read. -/
inductive Renders (r : Registry α) [Scalar α] (finite : Prop)
    (checks : List (VectorRole × ExponentVector α)) : Except Error β → Prop
  | result (h : finite) (hchecks : firstViolation? checks = none) (a : β) :
    Renders r finite checks (.ok a)
  | refused (h : ¬finite) {violation : Violation}
    (hfirst : firstViolation? checks = some violation) :
    Renders r finite checks (.error (.invalid violation))
  | unreadable {e : Error} (he : r.IsUnreadable e) : Renders r finite checks (.error e)

namespace Renders

variable [Scalar α] {r : Registry α} {p q : Prop} {x : Except Error β}
  {checks further : List (VectorRole × ExponentVector α)}

lemma congr (hx : r.Renders p checks x) (h : p ↔ q) : r.Renders q checks x := by
  rwa [← h]

lemma ok (a : β) : r.Renders True [] (.ok a) := .result trivial rfl a

/-- Where the numbers are finite, nothing is refused. -/
lemma passes (hx : r.Renders p checks x) (hp : p) : r.Renders True [] x := by
  cases hx with
  | result _ _ a => exact .ok a
  | refused hnot _ => exact absurd hp hnot
  | unreadable he => exact .unreadable he

lemma of_eq_ok {a : β} (hx : r.Renders p checks x) (h : x = .ok a) : p := by
  subst h
  cases hx with
  | result hp => exact hp

lemma firstViolation?_append : firstViolation? (checks ++ further) =
    (firstViolation? checks).or (firstViolation? further) := List.findSome?_append

/-- One computation after another: the numbers have to be finite in both. -/
lemma bind {f : β → Except Error γ} (hx : r.Renders p checks x)
    (hf : ∀ a, x = .ok a → r.Renders q further (f a)) :
    r.Renders (p ∧ q) (checks ++ further) (x >>= f) := by
  cases hx with
  | result hp hchecks a =>
    have hfirst : firstViolation? (checks ++ further) = firstViolation? further := by
      rw [firstViolation?_append, hchecks, Option.none_or]
    show r.Renders (p ∧ q) (checks ++ further) (f a)
    have hnext := hf a rfl
    generalize f a = y at hnext ⊢
    cases hnext with
    | result hq hfurther b => exact .result ⟨hp, hq⟩ (hfirst.trans hfurther) b
    | refused hnot hfurther => exact .refused (fun h => hnot h.2) (hfirst.trans hfurther)
    | unreadable he => exact .unreadable he
  | refused hnot hchecks =>
    refine .refused (fun h => hnot h.1) ?_
    rw [firstViolation?_append, hchecks, Option.some_or]
  | unreadable he => exact .unreadable he

lemma map {f : β → γ} (hx : r.Renders p checks x) : r.Renders p checks (x.map f) := by
  cases hx with
  | result hp hchecks a => exact .result hp hchecks (f a)
  | refused hnot hchecks => exact .refused hnot hchecks
  | unreadable he => exact .unreadable he

/-- Then a computation that refuses nothing. -/
lemma andThen {f : β → Except Error γ} (hx : r.Renders p checks x)
    (hf : ∀ a, x = .ok a → r.Renders True [] (f a)) : r.Renders p checks (x >>= f) := by
  have hboth := (hx.bind hf).congr (and_iff_left trivial)
  rwa [List.append_nil] at hboth

lemma mapM {f : β → Except Error γ} {items : List β}
    (hf : ∀ a ∈ items, r.Renders True [] (f a)) : r.Renders True [] (items.mapM f) := by
  induction items with
  | nil => exact .ok []
  | cons a items ih =>
    rw [List.mapM_cons]
    refine andThen (hf a List.mem_cons_self) fun b _ => ?_
    exact andThen (ih fun c hc => hf c (List.mem_cons_of_mem a hc)) fun _ _ => .ok _

/-- A computation that checks a vector before it does anything else. -/
lemma of_violation? (role : VectorRole) {n : ℕ} {v : ExponentVector α} (hv : v.length = n)
    (hsome : ∀ violation, ExponentVector.violation? role n v = some violation →
      x = .error (.invalid violation))
    (hnone : ExponentVector.violation? role n v = none → v.all Scalar.isFinite = true →
      r.Renders True [] x) :
    r.Renders (v.all Scalar.isFinite = true) [(role, v)] x := by
  have hfirst : firstViolation? [(role, v)] = ExponentVector.violation? role n v := by
    rw [← hv]
    exact List.findSome?_singleton
  rcases ExponentVector.violation?_cases role hv with ⟨hfinite, h⟩ | ⟨hfinite, i, y, -, h⟩
  · cases hnone h hfinite with
    | result _ _ a => exact .result hfinite (hfirst.trans h) a
    | refused hnot _ => exact absurd trivial hnot
    | unreadable he => exact .unreadable he
  · rw [hsome _ h]
    exact .refused hfinite (hfirst.trans h)

lemma exists_ok (hx : r.Renders p checks x) (hr : r.HasReadableSymbols) (hp : p) :
    ∃ a, x = .ok a := by
  cases hx with
  | result _ _ a => exact ⟨a, rfl⟩
  | refused hnot _ => exact absurd hp hnot
  | unreadable he => exact absurd he (hr.not_isUnreadable _)

lemma eq_error {violation : Violation} (hx : r.Renders p checks x) (hr : r.HasReadableSymbols)
    (hfirst : firstViolation? checks = some violation) : x = .error (.invalid violation) := by
  cases hx with
  | result _ hchecks => exact absurd (hchecks.symm.trans hfirst) (by simp)
  | refused _ hrefused => rw [Option.some.inj (hrefused.symm.trans hfirst)]
  | unreadable he => exact absurd he (hr.not_isUnreadable _)

end Renders

end Registry

/-! ### Printing -/

section

variable {α : Type} [Scalar α] {base : String} {problem : ParseProblem}

lemma of_printBase_eq_error {b : String} (h : printBase α b = .error (base, problem)) :
    b = base ∧ isCompound base = true ∧ parseTerms base = .error problem := by
  unfold printBase at h
  split at h
  · rename_i hcompound
    split at h
    · rename_i problem' hproblem
      cases h
      exact ⟨rfl, hcompound, hproblem⟩
    · cases h
  · cases h

/-- A product fails to be written only for a base that looks like an expression and is none. -/
lemma of_printProduct_eq_error {separator empty : String} {factors : List (String × α)}
    (h : printProduct separator empty factors = .error (base, problem)) :
    base ∈ factors.map Prod.fst ∧ isCompound base = true ∧ parseTerms base = .error problem := by
  have hprinted := eq_error_of_bind (fun _ => ⟨_, rfl⟩) h
  obtain ⟨⟨b, exponent⟩, hmem, hb⟩ := exists_of_mapM_eq_error hprinted
  have hbase := eq_error_of_bind (fun _ => ⟨_, rfl⟩) hb
  obtain ⟨rfl, hcompound, hproblem⟩ := of_printBase_eq_error hbase
  exact ⟨List.mem_map_of_mem (List.mem_of_mem_filter hmem), hcompound, hproblem⟩

end

section

variable {α : Type} [Scalar α] {r : Registry α}

/-- A base that cannot be written is a symbol that cannot be read. -/
lemma Registry.isUnreadable_of_printProduct {separator empty base : String}
    {problem : ParseProblem} {factors : List (String × α)}
    (hlabels : ∀ factor ∈ factors, r.IsLabel factor.1)
    (h : printProduct separator empty factors = .error (base, problem)) :
    r.IsUnreadable (.parse base problem) := by
  obtain ⟨hmem, hcompound, hproblem⟩ := of_printProduct_eq_error h
  obtain ⟨factor, hfactor, rfl⟩ := List.mem_map.mp hmem
  rcases hlabels factor hfactor with hsymbol | hempty
  · exact ⟨_, hsymbol, hcompound, problem, hproblem, rfl⟩
  · rw [hempty] at hcompound
    exact absurd hcompound (by decide)

/-! ### Dimensions -/

namespace Dimension

lemma renders_print {d : Dimension r} {separator : String} {label : DimensionEntry α → String}
    (hlabels : ∀ factor ∈ d.factors label, r.IsLabel factor.1) :
    r.Renders True [] (d.print separator label) := by
  unfold print
  split
  · rename_i hprint
    exact .unreadable (Registry.isUnreadable_of_printProduct hlabels hprint)
  · exact .ok _

lemma renders_symbol (d : Dimension r) : r.Renders True [] d.symbol :=
  renders_print d.isLabel_of_mem_symbols

lemma renders_siUnit (d : Dimension r) : r.Renders True [] d.siUnit :=
  renders_print d.isLabel_of_mem_siUnits

lemma renders_ofVector {v : ExponentVector α} (h : v.length = r.dimensionCount) :
    r.Renders (v.all Scalar.isFinite = true) [(.dimension, v)] (ofVector r v) := by
  unfold ofVector
  refine .of_violation? .dimension h (fun _ hsome => by simp only [hsome]) fun hnone _ => ?_
  simp only [hnone]
  rw [dif_pos h]
  exact .ok _

lemma renders_toPrimary (d : Dimension r) :
    r.Renders (d.primary.all Scalar.isFinite = true) [(.primary, d.primary)] d.toPrimary := by
  unfold toPrimary ofPrimary
  refine .of_violation? .primary d.length_primary (fun _ hsome => by simp only [hsome])
    fun hnone _ => ?_
  simp only [hnone]
  exact .ok _

/-- **Descriptions of dimensions** are written if the dimension can be composed of primary ones. -/
lemma renders_description (d : Dimension r) :
    r.Renders (d.primary.all Scalar.isFinite = true) [(.primary, d.primary)] d.description := by
  unfold description
  refine d.renders_toPrimary.andThen fun primary _ => ?_
  refine (Registry.Renders.mapM fun (title, e) _ => ?_).andThen fun _ _ => .ok _
  exact e.renders_symbol.andThen fun _ _ => e.renders_siUnit.andThen fun _ _ => .ok _

end Dimension

/-! ### Units -/

namespace Unit

lemma renders_symbol (u : Unit r) : r.Renders True [] u.symbol := by
  unfold symbol
  split
  · rename_i hprint
    exact .unreadable (Registry.isUnreadable_of_printProduct u.isLabel_of_mem_symbols hprint)
  · exact .ok _

/-- Of a unit that is made, the dimension is checked. -/
lemma renders_ofVector {v : ExponentVector α} (h : v.length = r.unitCount) :
    r.Renders ((r.dimensionOf v).isFinite = true) [(.dimension, (r.dimensionOf v).exponents)]
      (ofVector r v h) := by
  have hdimension := Dimension.renders_ofVector (r.dimensionOf v).length_eq
  unfold ofVector
  cases hd : Dimension.ofVector r (r.dimensionOf v).exponents with
  | error e =>
    rw [hd] at hdimension
    cases hdimension with
    | refused hnot hfirst => exact .refused hnot hfirst
    | unreadable he => exact .unreadable he
  | ok dimension =>
    rw [hd] at hdimension
    cases hdimension with
    | result hfinite hchecks => exact .result hfinite hchecks _

/-- What is said of two units that do not convert. -/
lemma renders_mismatch (u target : Unit r) :
    r.Renders (u.dimension.primary.all Scalar.isFinite = true ∧
      target.dimension.primary.all Scalar.isFinite = true)
      [(.primary, u.dimension.primary), (.primary, target.dimension.primary)]
      (u.mismatch target) := by
  have hmismatch := u.renders_symbol.bind fun source _ => target.renders_symbol.bind fun goal _ =>
    u.dimension.renders_toPrimary.bind fun d _ => d.renders_symbol.bind fun sourceDimension _ =>
    target.dimension.renders_toPrimary.bind fun e _ => e.renders_symbol.bind fun goalDimension _ =>
    .ok (Mismatch.mk source goal sourceDimension goalDimension)
  exact hmismatch.congr (by simp only [true_and, and_true])

end Unit

end

/-! ### Over the doubles -/

/-- What is written of a dimension, and that the writing ends. -/
structure Dimension.IsWritten {r : Registry Float} (d : Dimension r) : Prop where
  name : d.NameEnds
  symbol : r.Renders True [] d.symbol
  siUnit : r.Renders True [] d.siUnit
  description : r.Renders (d.primary.all Scalar.isFinite = true) [(.primary, d.primary)]
    d.description
  ends : r.HasFiniteSymbols → d.SymbolEnds ∧ d.SiUnitEnds ∧ d.DescriptionEnds

/-- What is written of a unit, as it is composed, of SI units and of the SI units of the primary
dimensions, and that the writing ends. -/
structure Unit.IsWritten {r : Registry Float} (u : Unit r) : Prop where
  name : u.NameEnds
  symbol : r.Renders True [] u.symbol
  si : r.Renders ((r.dimensionOf u.exponents).isFinite = true)
    [(.dimension, (r.dimensionOf (r.siExponents u.exponents)).exponents)] (u.toSi >>= Unit.symbol)
  siPrimary : r.Renders (u.dimension.primary.all Scalar.isFinite = true)
    [(.primaryUnit, u.dimension.primary)] (u.toSiPrimary >>= Unit.symbol)
  description : r.Renders ((r.dimensionOf u.exponents).isFinite = true ∧
    u.dimension.primary.all Scalar.isFinite = true)
    [(.dimension, (r.dimensionOf (r.siExponents u.exponents)).exponents),
      (.primaryUnit, u.dimension.primary), (.primary, u.dimension.primary)] u.description
  ends : r.HasFiniteSymbols → u.SymbolEnds ∧ u.DescriptionEnds

/-- The report of a mismatch, if an error is one. -/
def Error.report : Error → Except Error Mismatch
  | .inconvertible mismatch => .ok mismatch
  | e => .error e

section

variable {r : Registry Float} {definitions : List (DimensionDefinition Float)}
  (h : r.LaidOut definitions) (hr : r.IsComplete)

lemma Dimension.isWritten {d : Dimension r} (hd : d.isFinite = true) : d.IsWritten where
  name := d.nameEnds_iff.mpr hd
  symbol := d.renders_symbol
  siUnit := d.renders_siUnit
  description := d.renders_description
  ends hsymbols := ⟨symbolEnds_of_isFinite hsymbols hd, siUnitEnds_of_isFinite hsymbols hd,
    descriptionEnds hsymbols d⟩

namespace Unit

include h hr

lemma renders_toSi (u : Unit r) :
    r.Renders ((r.dimensionOf u.exponents).isFinite = true)
      [(.dimension, (r.dimensionOf (r.siExponents u.exponents)).exponents)] u.toSi :=
  (renders_ofVector _).congr ((h.isFinite_dimensionOf_iff hr (ExponentVector.length_gather _ _)
    (h.siExponents_onSiUnits _)).trans h.all_isFinite_siExponents_iff)

lemma renders_toSiPrimary (u : Unit r) :
    r.Renders (u.dimension.primary.all Scalar.isFinite = true)
      [(.primaryUnit, u.dimension.primary)] u.toSiPrimary := by
  unfold toSiPrimary ofPrimary
  refine .of_violation? .primaryUnit u.dimension.length_primary
    (fun _ hsome => by simp only [hsome]) fun hnone hv => ?_
  have htake : (u.dimension.primary.take primaryCount).all Scalar.isFinite = true := by
    rwa [List.take_of_length_le u.dimension.length_primary.le]
  have hfinite := (h.isFinite_dimensionOf_iff hr (ExponentVector.length_gather _ _)
    (h.siUnitsOf_onSiUnits _)).mpr (h.all_isFinite_siUnitsOf htake)
  simp only [hnone]
  exact (renders_ofVector _).passes hfinite

/-- **Descriptions of units** are written if the unit and its dimension can be recomposed. -/
lemma renders_description (u : Unit r) :
    r.Renders ((r.dimensionOf u.exponents).isFinite = true ∧
      u.dimension.primary.all Scalar.isFinite = true)
      [(.dimension, (r.dimensionOf (r.siExponents u.exponents)).exponents),
        (.primaryUnit, u.dimension.primary), (.primary, u.dimension.primary)] u.description := by
  -- what a name takes has been checked for the symbol before it
  have hline {p : Prop} {checks : List (VectorRole × ExponentVector Float)}
      {symbol name : Except Error String} (title : String) (hsymbol : r.Renders p checks symbol)
      (hname : r.Renders p checks name) :
      r.Renders p checks (symbol >>= fun symbol => name >>= fun name =>
        .ok (title ++ symbol ++ " = " ++ name)) :=
    hsymbol.andThen fun _ hs => (hname.passes (hsymbol.of_eq_ok hs)).andThen fun _ _ => .ok _
  have hsi := u.renders_toSi h hr
  have hprimary := u.renders_toSiPrimary h hr
  have hdescription : r.Renders (True ∧ (r.dimensionOf u.exponents).isFinite = true ∧
      u.dimension.primary.all Scalar.isFinite = true ∧
      u.dimension.primary.all Scalar.isFinite = true) _ u.description :=
    (hline _ u.renders_symbol (.ok u.name)).bind fun _ _ =>
      (hline _ (hsi.andThen fun v _ => v.renders_symbol) hsi.map).bind fun _ _ =>
      (hline _ (hprimary.andThen fun v _ => v.renders_symbol) hprimary.map).bind fun _ _ =>
      u.dimension.renders_description.andThen fun _ _ => .ok _
  exact hdescription.congr (by simp only [true_and, and_self])

lemma isWritten {u : Unit r} (hu : u.isFinite = true) : u.IsWritten where
  name := u.nameEnds_iff.mpr hu
  symbol := u.renders_symbol
  si := (u.renders_toSi h hr).andThen fun v _ => v.renders_symbol
  siPrimary := (u.renders_toSiPrimary h hr).andThen fun v _ => v.renders_symbol
  description := u.renders_description h hr
  ends hsymbols := ⟨symbolEnds_of_isFinite hsymbols hu,
    descriptionEnds_of_isFinite hr hsymbols hu⟩

end Unit

end

/-- Two units that do not convert: the report is written if both dimensions can be composed of
primary ones. -/
lemma Unit.exists_report {r : Registry Float} {u target : Unit r}
    (h : (u.convertibility target).convertible = false) :
    ∃ e, u.coefficientsTo target = .error e ∧
      r.Renders (u.dimension.primary.all Scalar.isFinite = true ∧
        target.dimension.primary.all Scalar.isFinite = true)
        [(.primary, u.dimension.primary), (.primary, target.dimension.primary)] e.report := by
  have hmismatch := u.renders_mismatch target
  unfold coefficientsTo
  dsimp only
  rw [h, if_neg Bool.false_ne_true]
  cases hcase : u.mismatch target with
  | ok mismatch =>
    rw [hcase] at hmismatch
    exact ⟨_, rfl, hmismatch⟩
  | error e =>
    rw [hcase] at hmismatch
    refine ⟨e, rfl, ?_⟩
    cases hmismatch with
    | refused hnot hfirst => exact .refused hnot hfirst
    | unreadable he =>
      obtain ⟨_, -, -, _, -, rfl⟩ := id he
      exact .unreadable he

/-- A unit that has been made measures a finite dimension. -/
lemma Unit.isFinite_dimensionOf {r : Registry Float} {v : ExponentVector Float}
    {hv : v.length = r.unitCount} {u : Unit r} (h : ofVector r v hv = .ok u) :
    (r.dimensionOf u.exponents).isFinite = true := by
  unfold ofVector at h
  split at h
  · cases h
  · rename_i dimension hdimension
    obtain rfl := Except.ok.inj h
    obtain ⟨hfinite, heq⟩ := Dimension.isFinite_of_ofVector hdimension
    rwa [Dimension.isFinite, heq] at hfinite

namespace Registry

/-- **Everything is written** of dimensions and units with finite exponents over a registry that is
accepted, as far as the compositions that it takes are finite, and so is the report of two units
that do not convert. A unit that has been made can always be composed of SI units. The only other
error is that of a symbol that looks like an expression and is none. -/
theorem isWritten_of_decode {document : Datum Float} {r : Registry Float}
    (h : decode document = .ok r) :
    (∀ d : Dimension r, d.isFinite = true → d.IsWritten) ∧
      (∀ u : Unit r, u.isFinite = true → u.IsWritten) ∧
      (∀ (v : ExponentVector Float) (hv : v.length = r.unitCount) (u : Unit r),
        Unit.ofVector r v hv = .ok u → (r.dimensionOf u.exponents).isFinite = true) ∧
      ∀ u v : Unit r, u.isFinite = true → v.isFinite = true →
        (u.convertibility v).convertible = false → ∃ e, u.coefficientsTo v = .error e ∧
          r.Renders (u.dimension.primary.all Scalar.isFinite = true ∧
            v.dimension.primary.all Scalar.isFinite = true)
            [(.primary, u.dimension.primary), (.primary, v.dimension.primary)] e.report := by
  have hr := isComplete_of_decode h
  obtain ⟨data, -, -, hlaid⟩ := exists_laidOut_of_decode h
  exact ⟨fun d hd => Dimension.isWritten hd, fun u hu => Unit.isWritten hlaid hr hu,
    fun v hv u hu => Unit.isFinite_dimensionOf hu, fun u v _ _ hnot => Unit.exists_report hnot⟩

/-! ### Areas -/

/-- The primary dimensions and that of areas, with a given symbol. -/
def areaData (symbol : String) : RegistryData Float :=
  { Bundled.primaryData with
    derived := [⟨"area", "area", symbol, [0, 2, 0, 0, 0, 0, 0], [⟨"are", "are", "a", 100, 0⟩]⟩] }

/-- The units of the primary dimensions and one of areas. -/
def areaRegistry (symbol : String) : Registry Float := ofData (areaData symbol) []

lemma isValid_areaData {symbol : String} (h : isTrimmed symbol = true) :
    (areaData symbol).IsValid := by
  have harea := DimensionDefinition.isValid_of_toDatum (α := Float)
    (d := ⟨"area", "area", "A", [0, 2, 0, 0, 0, 0, 0], [⟨"are", "are", "a", 100, 0⟩]⟩)
    (by decide +kernel)
  exact { Bundled.isValid_primaryData with
    derived := List.forall_mem_singleton.mpr { harea with symbol := h } }

lemma decode_areaData : decode (areaData "A").toDatum = .ok (areaRegistry "A") := by
  rw [decode_toDatum (isValid_areaData (by decide))]
  decide +kernel

lemma decode_areaData_unreadable : decode (areaData "A.").toDatum = .ok (areaRegistry "A.") := by
  rw [decode_toDatum (isValid_areaData (by decide))]
  decide +kernel

lemma hasReadableSymbols_areaRegistry : (areaRegistry "A").HasReadableSymbols := by
  have hplain : ∀ symbol ∈ (areaRegistry "A").symbols, isCompound symbol = false := by
    decide
  exact fun symbol hsymbol hcompound => absurd hcompound (by simp [hplain symbol hsymbol])

/-- A power of the unit at a place. -/
def unitPower (r : Registry Float) (place : ℕ) (x : Float) : Unit r where
  exponents := ExponentVector.gather r.unitCount [(place, x)]
  length_eq := ExponentVector.length_gather _ _
  dimension := r.dimensionOf (ExponentVector.gather r.unitCount [(place, x)])

/-- A power of the are, which is the last unit. -/
def arePower (x : Float) : Unit (areaRegistry "A") :=
  unitPower _ ((areaRegistry "A").unitCount - 1) x

/-- The exponent of a power of the are can be too large for the power of the metre. The power is
written itself, and so is the report that an are is no kilogram. -/
theorem isWritten_of_decode_area :
    (∃ text, (arePower 1e308).symbol = .ok text) ∧
      (∃ text, (arePower 1e308).dimension.siUnit = .ok text) ∧
      (arePower 1e308).toSiPrimary >>= Unit.symbol =
        .error (.invalid (.vectorEntry .primaryUnit 1 "Infinity")) ∧
      ∃ e mismatch, (arePower 1).coefficientsTo (unitPower _ 0 1) = .error e ∧
        e.report = .ok mismatch := by
  obtain ⟨hdimensions, hunits, -, hconversions⟩ := isWritten_of_decode decode_areaData
  have hreadable := hasReadableSymbols_areaRegistry
  have hpower := hunits (arePower 1e308) (by decide +kernel)
  have harea := hdimensions (arePower 1e308).dimension (by decide +kernel)
  obtain ⟨e, he, hreport⟩ := hconversions (arePower 1) (unitPower _ 0 1) (by decide +kernel)
    (by decide +kernel) (by decide +kernel)
  obtain ⟨mismatch, hmismatch⟩ := hreport.exists_ok hreadable (by decide +kernel)
  exact ⟨hpower.symbol.exists_ok hreadable trivial, harea.siUnit.exists_ok hreadable trivial,
    hpower.siPrimary.eq_error hreadable (by decide +kernel), e, mismatch, he, hmismatch⟩

/-- Not everything is written of whole powers: one can be too large to be composed of primary
dimensions, and a symbol need not be readable. -/
theorem not_isWritten_of_decode :
    (¬ ∀ (document : Datum Float) (r : Registry Float), decode document = .ok r →
      r.HasReadableSymbols → ∀ u : Unit r, u.exponents.all Scalar.isIntegral = true →
        u.dimension = r.dimensionOf u.exponents →
          ∃ text, u.toSiPrimary >>= Unit.symbol = .ok text) ∧
      ¬ ∀ (document : Datum Float) (r : Registry Float), decode document = .ok r →
        ∀ d : Dimension r, d.exponents.all Scalar.isIntegral = true →
          d.primary.all Scalar.isFinite = true → ∃ text, d.symbol = .ok text := by
  constructor
  · intro h
    obtain ⟨text, htext⟩ := h _ _ decode_areaData hasReadableSymbols_areaRegistry (arePower 1e308)
      (by decide +kernel) rfl
    have hfails : ((arePower 1e308).toSiPrimary >>= Unit.symbol).toOption = none := by
      decide +kernel
    rw [htext] at hfails
    cases hfails
  · intro h
    obtain ⟨text, htext⟩ := h _ _ decode_areaData_unreadable
      (.padded _ [0, 0, 0, 0, 0, 0, 0, 1]) (by decide +kernel) (by decide +kernel)
    have hfails : (Dimension.padded (areaRegistry "A.") [0, 0, 0, 0, 0, 0, 0, 1]).symbol.toOption =
        none := by decide +kernel
    rw [htext] at hfails
    cases hfails

end Registry

end Metrology
