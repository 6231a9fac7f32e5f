import Mathlib
import Metrology.Service
import Metrology.Proofs.Layout

/-!
The kinds of errors that the computations over a registry raise.

Texts are refused where they are no expressions or name what is not there, conversions where the
dimensions differ, and exponents and values where they are not finite, which over the rationals
does not happen. The units of constants have been checked when their registry was built.
-/

namespace Metrology

variable {α β γ : Type}

/-- Whether a computation raises errors of the given kinds only. -/
def Raises (kinds : List ErrorKind) (x : Except Error β) : Prop :=
  ∀ e, x = .error e → e.kind ∈ kinds

attribute [simp] Error.kind

/-- The error that a computation raises. -/
def raised? : Except Error β → Option Error
  | .ok _ => none
  | .error e => some e

lemma eq_error_of_raised? {x : Except Error β} {e : Error} (h : raised? x = some e) :
    x = .error e := by
  cases x with
  | ok a => exact absurd h (by simp [raised?])
  | error e' => rw [Option.some.inj h]

lemma eq_error_of_map {x : Except Error β} {f : β → γ} {e : Error} (h : x.map f = .error e) :
    x = .error e := by
  cases x with
  | ok a => exact absurd h (by simp [Except.map])
  | error e' => rw [Except.error.inj h]

lemma exists_of_map_eq_ok {ε : Type} {x : Except ε β} {f : β → γ} {c : γ}
    (h : x.map f = .ok c) : ∃ a, x = .ok a ∧ f a = c := by
  cases x with
  | ok a => exact ⟨a, rfl, Except.ok.inj h⟩
  | error e => exact absurd h (by simp [Except.map])

lemma eq_error_of_bind {ε : Type} {x : Except ε β} {f : β → Except ε γ} {e : ε}
    (hf : ∀ a, ∃ c, f a = .ok c) (h : x >>= f = .error e) : x = .error e := by
  cases x with
  | error e' => exact congrArg _ (Except.error.inj h)
  | ok a =>
    obtain ⟨c, hc⟩ := hf a
    cases hc.symm.trans h

namespace Raises

variable {kinds : List ErrorKind}

lemma ok (a : β) : Raises kinds (.ok a) := fun _ h => absurd h (by simp)

lemma error {e : Error} (h : e.kind ∈ kinds) : Raises kinds (.error e : Except Error β) := by
  intro e' he
  obtain rfl := Except.error.inj he
  exact h

lemma mono {kinds' : List ErrorKind} {x : Except Error β} (h : Raises kinds x)
    (hsub : kinds ⊆ kinds') : Raises kinds' x := fun e he => hsub (h e he)

lemma append_mono {front front' : List ErrorKind} {x : Except Error β}
    (h : Raises (front ++ kinds) x) (hsub : front ⊆ front') : Raises (front' ++ kinds) x :=
  h.mono (List.append_subset.mpr ⟨fun _ hk => List.mem_append_left kinds (hsub hk),
    List.subset_append_right _ _⟩)

lemma bind {x : Except Error β} {f : β → Except Error γ} (hx : Raises kinds x)
    (hf : ∀ a, x = .ok a → Raises kinds (f a)) : Raises kinds (x >>= f) := by
  cases x with
  | error e => exact error (hx e rfl)
  | ok a => exact hf a rfl

lemma map {x : Except Error β} (f : β → γ) (hx : Raises kinds x) : Raises kinds (x.map f) := by
  cases x with
  | error e => exact error (hx e rfl)
  | ok a => exact ok (f a)

lemma mapM {f : β → Except Error γ} {l : List β} (hf : ∀ a ∈ l, Raises kinds (f a)) :
    Raises kinds (l.mapM f) := by
  intro e he
  obtain ⟨a, ha, hae⟩ := exists_of_mapM_eq_error he
  exact hf a ha e hae

end Raises

/-! ### Reading a unit -/

section Reading

namespace Registry

/-- Whether a term names no unit of a registry. -/
def isUnknown (r : Registry α) (t : Term) : Bool :=
  t.base != unitlessToken && (r.findUnit? t.base).isNone

/-- The place of the unit that a term names, with the exponent of the term. The base that stands for
the product of nothing names none. -/
def mark? [Scalar α] (r : Registry α) (t : Term) : Option (ℕ × α) :=
  if t.base = unitlessToken then none
  else (r.findUnit? t.base).map fun entry => (entry.index, t.exponent.value)

lemma exists_of_constantProblem? {r : Registry α} {c : Constant α}
    (h : r.constantProblem? c = none) :
    ∃ terms, parseTerms c.unit = .ok terms ∧ terms.find? r.isUnknown = none := by
  rw [constantProblem?] at h
  rcases hterms : parseTerms c.unit with problem | terms
  · rw [hterms] at h
    exact absurd h (by simp)
  · rw [hterms] at h
    exact ⟨terms, rfl, Option.map_eq_none_iff.mp h⟩

end Registry

namespace Unit

variable [Scalar α] {r : Registry α}

lemma factor?_of_isUnknown {t : Term} (h : r.isUnknown t = true) :
    factor? r t = .error (.unknown .unit t.base) := by
  simp only [Registry.isUnknown, Bool.and_eq_true, bne_iff_ne, Option.isNone_iff_eq_none] at h
  rw [factor?, if_neg h.1, h.2]

lemma factor?_of_not_isUnknown {t : Term} (h : ¬r.isUnknown t = true) :
    factor? r t = .ok (r.mark? t) := by
  rw [factor?, Registry.mark?]
  split_ifs with hbase
  · rfl
  · rcases hentry : r.findUnit? t.base with _ | entry
    · exact absurd (by simp [Registry.isUnknown, hbase, hentry]) h
    · rfl

lemma parse_of_parseTerms {text : String} {terms : List Term} (h : parseTerms text = .ok terms) :
    parse r text = terms.mapM (factor? r) >>= fun marked => gather r (marked.filterMap id) := by
  simp only [parse, h]
  cases terms.mapM (factor? r) <;> rfl

/-- A text is read as its terms say, unless one of them names no unit; the first of these is
reported. -/
lemma parse_eq (text : String) : parse r text =
    match parseTerms text with
    | .error problem => .error (.parse text problem)
    | .ok terms =>
      match terms.find? r.isUnknown with
      | some t => .error (.unknown .unit t.base)
      | none => gather r (terms.filterMap r.mark?) := by
  rcases hterms : parseTerms text with problem | terms
  · rw [parse, hterms]
  · rw [parse_of_parseTerms hterms]
    dsimp only
    rcases hfind : terms.find? r.isUnknown with _ | t
    · have hknown := List.find?_eq_none.mp hfind
      rw [mapM_eq_ok fun t ht => factor?_of_not_isUnknown (hknown t ht)]
      show gather r ((terms.map r.mark?).filterMap id) = _
      rw [List.filterMap_map, Function.id_comp]
    · obtain ⟨ht, before, after, rfl, hbefore⟩ := List.find?_eq_some_iff_append.mp hfind
      have hfails : (before ++ t :: after).mapM (factor? r) = .error (.unknown .unit t.base) := by
        refine mapM_eq_error_iff.mpr ⟨before, t, after, rfl, fun t' ht' => ?_,
          factor?_of_isUnknown ht⟩
        exact ⟨_, factor?_of_not_isUnknown (by simpa using hbefore t' ht')⟩
      rw [hfails]
      rfl

end Unit

end Reading

/-! ### What the engine raises -/

section Engine

variable [Scalar α] {r : Registry α} {kinds : List ErrorKind}

/-- Whether exponents and values are refused with errors of the given kinds only. -/
structure Registry.Refuses (r : Registry α) (kinds : List ErrorKind) : Prop where
  gather : ∀ marked, Raises kinds (Unit.gather r marked)
  toPrimary : ∀ d : Dimension r, Raises kinds d.toPrimary
  make : ∀ (value : α) (unit : Unit r), Raises kinds (Quantity.make value unit)

namespace Dimension

lemma raises_ofVector (v : ExponentVector α) : Raises [.invalid] (ofVector r v) := by
  unfold ofVector
  split
  · exact .error (by simp)
  · split
    · exact .ok _
    · exact .error (by simp)

lemma raises_ofPrimary (v : ExponentVector α) : Raises [.invalid] (ofPrimary r v) := by
  unfold ofPrimary
  split
  · exact .error (by simp)
  · exact .ok _

lemma raises_factor (t : Term) : Raises [.unknown] (factor r t) := by
  unfold factor
  split
  · exact .ok _
  · exact .error (by simp)

/-- A dimension is read without a look at its exponents, which need not be finite. -/
lemma raises_parse (text : String) : Raises [.parse, .unknown] (parse r text) := by
  unfold parse
  split
  · exact .error (by simp)
  · split
    · rename_i e he
      exact .error (Raises.mapM (fun t _ => (raises_factor t).mono (by simp)) e he)
    · exact .ok _

lemma raises_symbol (d : Dimension r) : Raises [.parse] d.symbol := by
  unfold symbol print
  split
  · exact .error (by simp)
  · exact .ok _

lemma raises_search (d : Dimension r) (options : SearchOptions α) :
    Raises [.invalid] (d.search options) := by
  unfold search
  split
  · exact .error (by simp)
  · exact .ok _

end Dimension

namespace Unit

lemma raises_ofVector (v : ExponentVector α) (h : v.length = r.unitCount) :
    Raises [.invalid] (ofVector r v h) := by
  unfold ofVector
  split
  · rename_i e he
    exact .error (Dimension.raises_ofVector _ e he)
  · exact .ok _

lemma raises_parse (h : r.Refuses kinds) (text : String) :
    Raises ([.parse, .unknown] ++ kinds) (parse r text) := by
  rw [parse_eq]
  split
  · exact .error (by simp)
  · split
    · exact .error (by simp)
    · exact (h.gather _).mono (by simp)

lemma raises_symbol (u : Unit r) : Raises [.parse] u.symbol := by
  unfold symbol
  split
  · exact .error (by simp)
  · exact .ok _

/-- To say why two units do not convert, their symbols and those of their dimensions are written. -/
lemma raises_mismatch (h : r.Refuses kinds) (u target : Unit r) :
    Raises ([.parse] ++ kinds) (u.mismatch target) := by
  have hunit (v : Unit r) : Raises ([.parse] ++ kinds) v.symbol := v.raises_symbol.mono (by simp)
  have hsymbol (d : Dimension r) : Raises ([.parse] ++ kinds) d.symbol :=
    d.raises_symbol.mono (by simp)
  have hprimary (d : Dimension r) : Raises ([.parse] ++ kinds) d.toPrimary :=
    (h.toPrimary d).mono (by simp)
  unfold mismatch
  exact (hunit u).bind fun _ _ => (hunit target).bind fun _ _ =>
    (hprimary u.dimension).bind fun d _ => (hsymbol d).bind fun _ _ =>
    (hprimary target.dimension).bind fun e _ => (hsymbol e).bind fun _ _ => .ok _

lemma raises_coefficientsTo (h : r.Refuses kinds) (u target : Unit r) :
    Raises ([.parse, .inconvertible] ++ kinds) (u.coefficientsTo target) := by
  unfold coefficientsTo
  dsimp only
  split
  · exact .ok _
  · split
    · rename_i e he
      exact .error (((raises_mismatch h u target).mono (by simp)) e he)
    · exact .error (by simp)

end Unit

namespace Quantity

lemma raises_make (value : α) (unit : Unit r) : Raises [.invalid] (make value unit) := by
  unfold make
  split
  · exact .ok _
  · exact .error (by simp)

lemma raises_convertTo (h : r.Refuses kinds) (q : Quantity r) (target : Unit r) :
    Raises ([.parse, .inconvertible] ++ kinds) (q.convertTo target) :=
  ((Unit.raises_coefficientsTo h q.unit target).map _).bind fun c _ =>
    (h.make _ c.unit).mono (by simp)

lemma raises_text (q : Quantity r) : Raises [.parse] q.text := q.unit.raises_symbol.map _

end Quantity

namespace Registry

/-- What is refused is invalid. -/
lemma refuses_invalid (r : Registry α) : r.Refuses [.invalid] where
  gather _ := Unit.raises_ofVector _ _
  toPrimary _ := Dimension.raises_ofPrimary _
  make := Quantity.raises_make

/-- Nothing is refused where every number is finite. -/
lemma refuses_nothing (r : Registry ℚ) : r.Refuses [] where
  gather marked := by
    rw [Unit.gather, Unit.ofVector_eq_ok]
    exact .ok _
  toPrimary d := by
    rw [Dimension.toPrimary, Dimension.ofPrimary,
      ExponentVector.violation?_eq_none _ d.length_primary]
    exact .ok _
  make value unit := .ok (⟨value, unit⟩ : Quantity r)

end Registry

/-! ### Constants -/

/-- The unit of a constant that has passed the check of its registry is read. -/
lemma Unit.raises_parse_of_constantProblem? (h : r.Refuses kinds) {c : Constant α}
    (hc : r.constantProblem? c = none) : Raises kinds (parse r c.unit) := by
  obtain ⟨terms, hterms, hknown⟩ := Registry.exists_of_constantProblem? hc
  rw [parse_eq, hterms]
  dsimp only
  rw [hknown]
  exact h.gather _

lemma Registry.constantProblem?_eq_none {document : Datum α} (h : decode document = .ok r)
    {c : Constant α} (hc : c ∈ r.constants) : r.constantProblem? c = none := by
  unfold decode at h
  split at h
  swap
  · exact absurd h (by simp)
  obtain ⟨-, hproblem, -⟩ := build_eq_ok_iff.mp h
  unfold problem? at hproblem
  simp only [Option.orElse_eq_orElse, Option.orElse_eq_or, Option.or_eq_none_iff,
    List.findSome?_eq_none_iff] at hproblem
  exact hproblem.2.2.2 c hc

lemma Catalogue.raises_constant (h : r.Refuses kinds) {document : Datum α}
    (hr : Registry.decode document = .ok r) (key : String) :
    Raises ([.unknown] ++ kinds) (constant r key) := by
  unfold constant
  split
  · exact .error (by simp)
  · rename_i c hc
    have hproblem := Registry.constantProblem?_eq_none hr (List.mem_of_find?_eq_some hc)
    exact ((Unit.raises_parse_of_constantProblem? h hproblem).bind fun u _ => h.make _ u).mono
      (by simp)

end Engine

end Metrology
