import Mathlib
import Metrology.Scalar.Double
import Metrology.Proofs.Accepted
import Metrology.Proofs.Errors
import Metrology.Proofs.Writing

/-!
Which errors reach the callers of a service.

A call of a service fails with the errors that its callers expect, and dies of the others. Over an
accepted registry the only errors that no call expects, but some may raise, are invalid exponents
and values: those that are not finite. A call that has to write an exponent that is not finite, for
an error or for its log, does not come to an end.
-/

namespace Metrology

variable {α β γ : Type}

/-! ### Replies -/

namespace Reply

variable {x : Except Error β} {expected : List ErrorKind}

lemma verdict_attempt_ok {a : β} (h : x = .ok a) : (attempt expected x).verdict = .answered a := by
  rw [h]
  rfl

lemma verdict_attempt_error {e : Error} (h : x = .error e) : (attempt expected x).verdict =
    if e.kind ∈ expected then .failed e else .died e := by
  rw [h]
  rfl

lemma verdict_andThen (reply : Reply β) (next : β → Reply γ) : (reply.andThen next).verdict =
    match reply.verdict with
    | .answered a => (next a).verdict
    | .failed e => .failed e
    | .died e => .died e := by
  unfold andThen
  cases reply.verdict <;> rfl

lemma verdict_andThen_of_answered {reply : Reply β} {a : β} (h : reply.verdict = .answered a)
    (next : β → Reply γ) : (reply.andThen next).verdict = (next a).verdict := by
  rw [verdict_andThen, h]

lemma verdict_andThen_of_error {reply : Reply β} {e : Error}
    (h : reply.verdict = if e.kind ∈ expected then .failed e else .died e) (next : β → Reply γ) :
    (reply.andThen next).verdict = if e.kind ∈ expected then .failed e else .died e := by
  rw [verdict_andThen, h]
  split_ifs <;> rfl

/-- Two attempts that between them expect whatever is raised. -/
lemma verdict_attempts_error {y : β → Except Error γ} {expected' : List ErrorKind} {e : Error}
    (hx : Raises expected x) (hy : ∀ a, Raises expected' (y a)) (h : x >>= y = .error e)
    {δ : Type} (next : γ → Reply δ) : ((attempt expected x).andThen fun a =>
      (attempt expected' (y a)).andThen next).verdict = .failed e := by
  cases hcase : x with
  | error e' =>
    rw [hcase] at h
    obtain rfl := Except.error.inj h
    rw [verdict_andThen_of_error (verdict_attempt_error rfl), if_pos (hx e' hcase)]
  | ok a =>
    have h : y a = .error e := by rwa [hcase] at h
    rw [verdict_andThen_of_answered rfl, verdict_andThen_of_error (verdict_attempt_error h),
      if_pos (hy a e h)]

lemma verdict_attempts_ok {y : β → Except Error γ} {expected' : List ErrorKind} {c : γ}
    (h : x >>= y = .ok c) {δ : Type} (next : γ → Reply δ) : ((attempt expected x).andThen fun a =>
      (attempt expected' (y a)).andThen next).verdict = (next c).verdict := by
  cases hcase : x with
  | error e' =>
    rw [hcase] at h
    cases h
  | ok a =>
    have h : y a = .ok c := by rwa [hcase] at h
    rw [verdict_andThen_of_answered rfl, verdict_andThen_of_answered (verdict_attempt_ok h)]

lemma finishes_andThen (reply : Reply β) (next : β → Reply γ) : (reply.andThen next).finishes =
    match reply.verdict with
    | .answered a => reply.finishes && (next a).finishes
    | .failed _ => reply.finishes
    | .died _ => reply.finishes := by
  unfold andThen
  cases reply.verdict <;> rfl

lemma finishes_andThen_of_forall {reply : Reply β} {next : β → Reply γ}
    (h : reply.finishes = true) (hnext : ∀ a, (next a).finishes = true) :
    (reply.andThen next).finishes = true := by
  rw [finishes_andThen, h]
  cases reply.verdict with
  | answered a => exact hnext a
  | failed e => rfl
  | died e => rfl

lemma finishes_attempt (expected : List ErrorKind) (x : Except Error β) :
    (attempt expected x).finishes = true := by
  cases x <;> rfl

/-- An attempt whose computation ends, followed by a call that does, comes to an end. -/
lemma finishes_attempt_andThen (finishes : Bool) (x : Except Error β) (next : β → Reply γ) :
    (((attempt expected x).provided finishes).andThen next).finishes =
      (finishes && x.toOption.all fun a => (next a).finishes) := by
  have hfinishes : ((attempt expected x).provided finishes).finishes = finishes := by
    show (finishes && (attempt expected x).finishes) = finishes
    rw [finishes_attempt, Bool.and_true]
  have hverdict : ((attempt expected x).provided finishes).verdict =
    (attempt expected x).verdict := rfl
  rw [finishes_andThen, hfinishes, hverdict]
  cases x with
  | ok a => rfl
  | error e =>
    rw [verdict_attempt_error rfl]
    split_ifs <;> exact (Bool.and_true _).symm

end Reply

/-! ### Requests to a service -/

namespace Service

/-- What can be asked of a service. -/
inductive Request (s : Service α) where
  | dimension (expression : String)
  | unit (expression : String)
  | quantity (value : Datum α) (expression : String)
  | constant (key : String)
  | conversionCoefficients (source target : String)
  | convertValue (value : Datum α) (source target : String)
  /-- A quantity brings the registry over which it is converted. -/
  | convertQuantity (r : Registry α) (q : Quantity r) (target : String)
  | simplify (expression : String)
  | equivalents (expression : String) (options : PartialOptions α)

namespace Request

variable {s : Service α}

/-- What a request is answered with. -/
def Answer : s.Request → Type
  | dimension _ | simplify _ => Dimension s.registry
  | unit _ => Unit s.registry
  | quantity _ _ | constant _ => Quantity s.registry
  | convertQuantity r _ _ => Quantity r
  | conversionCoefficients _ _ => Coefficients α
  | convertValue _ _ _ => α
  | equivalents _ _ => List (Dimension s.registry)

/-- The kinds of errors that the callers of a request expect. -/
def expected : s.Request → List ErrorKind
  | dimension _ | unit _ | simplify _ => [.parse, .unknown]
  | quantity _ _ | equivalents _ _ => [.parse, .unknown, .invalid]
  | constant _ => [.unknown]
  | conversionCoefficients _ _ | convertValue _ _ _ | convertQuantity _ _ _ =>
    [.parse, .unknown, .inconvertible]

variable [Scalar α]

/-- What the service replies. -/
def reply : (q : s.Request) → Reply q.Answer
  | dimension expression => s.dimension expression
  | unit expression => s.unit expression
  | quantity value expression => s.quantity value expression
  | constant key => s.constant key
  | conversionCoefficients source target => s.conversionCoefficients source target
  | convertValue value source target => s.convertValue value source target
  | convertQuantity r q target => (Service.mk r s.defaults).convertQuantity q target
  | simplify expression => s.simplify expression
  | equivalents expression options => s.equivalents expression options

/-- The coefficients between the units of two expressions. -/
def coefficients (s : Service α) (source target : String) : Except Error (Coefficients α) := do
  let u ← Unit.parse s.registry source
  let v ← Unit.parse s.registry target
  u.coefficientsTo v

/-- What the engine makes of a request. -/
def computed : (q : s.Request) → Except Error q.Answer
  | dimension expression => Dimension.parse s.registry expression
  | unit expression => Unit.parse s.registry expression
  | quantity value expression => do
    let unit ← Unit.parse s.registry expression
    match value.finite .value with
    | .ok value => Quantity.make value unit
    | .error violation => .error (.invalid violation)
  | constant key => Catalogue.constant s.registry key
  | conversionCoefficients source target => coefficients s source target
  | convertValue value source target =>
    (coefficients s source target).map fun c => c.applyTo value
  | convertQuantity r q target => do
    let unit ← Unit.parse r target
    q.convertTo unit
  | simplify expression => (Dimension.parse s.registry expression).map Dimension.shortest
  | equivalents expression options =>
    (do
      let d ← Dimension.parse s.registry expression
      d.search (options.over s.defaults)).map Search.dimensions

/-- Whether the computation comes to an end. -/
def computes : s.Request → Bool
  | conversionCoefficients source target | convertValue _ source target =>
    s.coefficientsFinish source target
  | convertQuantity r q target => (Service.mk r s.defaults).conversionFinishes q target
  | _ => true

/-- What the engine makes of a request, if the computation comes to an end. -/
def computed? (q : s.Request) : Option (Except Error q.Answer) :=
  if q.computes then some q.computed else none

/-- The texts of quantities that are logged with an answer: of one that is converted, before and
after. -/
def rendered : (q : s.Request) → q.Answer → Except Error (List String)
  | convertQuantity _ q _, converted => do return [← q.text, ← Quantity.text converted]
  | _, _ => .ok []

/-- Whether the writing of these texts comes to an end. -/
def renders : (q : s.Request) → q.Answer → Bool
  | convertQuantity _ q _, converted => q.textsFinish converted
  | _, _ => true

/-- The texts that are logged with an answer, if the writing comes to an end. -/
def rendered? (q : s.Request) (a : q.Answer) : Option (Except Error (List String)) :=
  if q.renders a then some (q.rendered a) else none

/-- **What the engine raises**: what the callers expect, and besides what numbers are refused
with. -/
lemma raises_computed {kinds : List ErrorKind} (h : ∀ r : Registry α, r.Refuses kinds)
    {document : Datum α} (hr : Registry.decode document = .ok s.registry) (q : s.Request) :
    Raises (q.expected ++ kinds) q.computed := by
  have hunit (text : String) := Unit.raises_parse (h s.registry) text
  have hcoefficients (source target : String) :
      Raises ([.parse, .unknown, .inconvertible] ++ kinds) (coefficients s source target) :=
    ((hunit source).append_mono (by decide)).bind fun u _ =>
      ((hunit target).append_mono (by decide)).bind fun v _ =>
        (Unit.raises_coefficientsTo (h _) u v).append_mono (by decide)
  cases q with
  | dimension expression => exact (Dimension.raises_parse expression).mono (by simp [expected])
  | unit expression => exact hunit expression
  | quantity value expression =>
    refine ((hunit expression).append_mono (by simp [expected])).bind fun u _ => ?_
    split
    · exact (Quantity.raises_make _ u).mono (by simp [expected])
    · exact .error (by simp [expected])
  | constant key => exact Catalogue.raises_constant (h _) hr key
  | conversionCoefficients source target => exact hcoefficients source target
  | convertValue value source target => exact (hcoefficients source target).map _
  | convertQuantity r q target =>
    refine ((Unit.raises_parse (h r) target).append_mono (by simp [expected])).bind fun v _ => ?_
    exact (Quantity.raises_convertTo (h r) q v).append_mono (by simp [expected])
  | simplify expression =>
    exact ((Dimension.raises_parse expression).map _).mono (by simp [expected])
  | equivalents expression options =>
    have hparse := Dimension.raises_parse (r := s.registry) expression
    refine .map _ (.bind (hparse.mono (by simp [expected])) fun d _ => ?_)
    exact (d.raises_search _).mono (by simp [expected])

lemma raises_rendered (q : s.Request) (a : q.Answer) : Raises [.parse] (q.rendered a) := by
  cases q with
  | convertQuantity r q target =>
    exact q.raises_text.bind fun _ _ => (Quantity.raises_text _).bind fun _ _ => .ok _
  | _ => exact .ok _

/-! ### How requests end -/

lemma verdict_conversionCoefficients_error {source target : String} {e : Error}
    (h : coefficients s source target = .error e) :
    (s.conversionCoefficients source target).verdict =
      if e.kind ∈ [.parse, .unknown, .inconvertible] then .failed e else .died e := by
  refine Reply.verdict_andThen_of_error ?_ _
  exact Reply.verdict_attempt_error h

lemma verdict_conversionCoefficients_ok {source target : String} {c : Coefficients α}
    (h : coefficients s source target = .ok c) :
    (s.conversionCoefficients source target).verdict = .answered c := by
  refine Reply.verdict_andThen_of_answered ?_ _
  exact Reply.verdict_attempt_ok h

/-- **Errors**: a request fails with those that its callers expect, and dies of the others. -/
lemma verdict_of_error {q : s.Request} {e : Error} (h : q.computed = .error e) :
    q.reply.verdict = if e.kind ∈ q.expected then .failed e else .died e := by
  cases q with
  | dimension _ | unit _ | quantity _ _ | constant _ | simplify _ =>
    exact Reply.verdict_attempt_error h
  | conversionCoefficients source target => exact verdict_conversionCoefficients_error h
  | convertQuantity r q target =>
    refine Reply.verdict_andThen_of_error ?_ _
    exact Reply.verdict_attempt_error h
  | convertValue value source target =>
    refine (Reply.verdict_andThen _ _).trans ?_
    rw [verdict_conversionCoefficients_error (eq_error_of_map h)]
    show _ = if e.kind ∈ [.parse, .unknown, .inconvertible] then _ else _
    split_ifs <;> rfl
  | equivalents expression options =>
    -- between them, the two attempts expect whatever is raised
    have hparse := Dimension.raises_parse (r := s.registry) expression
    have hsearch (d : Dimension s.registry) := d.raises_search (options.over s.defaults)
    have hfound := eq_error_of_map h
    have hkind : e.kind ∈ [.parse, .unknown, .invalid] :=
      (hparse.mono (by simp)).bind (fun d _ => (hsearch d).mono (by simp)) e hfound
    exact (Reply.verdict_attempts_error hparse hsearch hfound _).trans (if_pos hkind).symm

/-- **Answers**: a request is answered with what is computed, unless what is to be logged cannot be
written. -/
lemma verdict_of_ok {q : s.Request} {a : q.Answer} (h : q.computed = .ok a) :
    q.reply.verdict =
      match q.rendered a with
      | .ok _ => .answered a
      | .error e => .died e := by
  cases q with
  | dimension _ | unit _ | quantity _ _ | constant _ | simplify _ =>
    exact Reply.verdict_attempt_ok h
  | conversionCoefficients source target => exact verdict_conversionCoefficients_ok h
  | convertValue value source target =>
    obtain ⟨c, hc, rfl⟩ := exists_of_map_eq_ok h
    refine (Reply.verdict_andThen _ _).trans ?_
    rw [verdict_conversionCoefficients_ok hc]
    rfl
  | convertQuantity r q target =>
    refine (Reply.verdict_andThen_of_answered (a := a) ?_ _).trans ?_
    · exact Reply.verdict_attempt_ok h
    show _ = match (do return [← q.text, ← Quantity.text a] : Except Error (List String)) with
      | .ok _ => Verdict.answered a
      | .error e => Verdict.died e
    cases q.text with
    | error e => rfl
    | ok before => cases Quantity.text a <;> rfl
  | equivalents expression options =>
    obtain ⟨found, hfound, rfl⟩ := exists_of_map_eq_ok h
    refine (Reply.verdict_attempts_ok hfound _).trans ?_
    split <;> rfl

lemma finishes_conversionCoefficients (source target : String) :
    (s.conversionCoefficients source target).finishes = s.coefficientsFinish source target := by
  refine (Reply.finishes_attempt_andThen _ (coefficients s source target) _).trans ?_
  cases coefficients s source target <;> exact Bool.and_true _

/-- A request comes to an end if its computation does, and the writing of what is logged with its
answer. -/
lemma finishes_reply (q : s.Request) :
    q.reply.finishes = (q.computes && q.computed.toOption.all q.renders) := by
  have hall {β : Type} (x : Option β) : (x.all fun _ => true) = true := by cases x <;> rfl
  cases q with
  | dimension _ | unit _ | quantity _ _ | constant _ | simplify _ =>
    exact (Reply.finishes_attempt _ _).trans (hall _).symm
  | conversionCoefficients source target =>
    refine (finishes_conversionCoefficients source target).trans ?_
    exact ((Bool.and_true _).symm).trans (congrArg _ (hall _).symm)
  | convertValue value source target =>
    refine Eq.trans ?_ (((Bool.and_true _).symm).trans (congrArg _ (hall _).symm))
    refine (Reply.finishes_andThen _ _).trans ?_
    rw [finishes_conversionCoefficients]
    cases (s.conversionCoefficients source target).verdict with
    | answered c => exact Bool.and_true _
    | failed e => rfl
    | died e => rfl
  | convertQuantity r q target =>
    refine (Reply.finishes_attempt_andThen _ _ _).trans (congrArg _ ?_)
    refine congrArg (fun f => Option.all f _) (funext fun converted => ?_)
    refine (Reply.finishes_attempt_andThen _ _ _).trans ?_
    exact (congrArg _ (hall _)).trans (Bool.and_true _)
  | equivalents expression options =>
    refine Eq.trans ?_ (hall _).symm
    refine Reply.finishes_andThen_of_forall (Reply.finishes_attempt _ _) fun d => ?_
    refine Reply.finishes_andThen_of_forall (Reply.finishes_attempt _ _) fun search => ?_
    split_ifs <;> rfl

lemma computes_and_computed {q : s.Request} {x : Except Error q.Answer}
    (h : q.computed? = some x) : q.computes = true ∧ q.computed = x := by
  obtain ⟨hcomputes, hx⟩ := Option.ite_none_right_eq_some.mp h
  exact ⟨hcomputes, Option.some.inj hx⟩

lemma verdict?_of_none {q : s.Request} (h : q.computed? = none) : q.reply.verdict? = none := by
  unfold computed? at h
  split_ifs at h with hcomputes
  rw [Reply.verdict?, finishes_reply, Bool.eq_false_iff.mpr hcomputes]
  rfl

lemma verdict?_of_error {q : s.Request} {e : Error} (h : q.computed? = some (.error e)) :
    q.reply.verdict? = some (if e.kind ∈ q.expected then .failed e else .died e) := by
  obtain ⟨hcomputes, hcomputed⟩ := computes_and_computed h
  rw [Reply.verdict?, finishes_reply, hcomputes, hcomputed, verdict_of_error hcomputed]
  rfl

lemma verdict?_of_ok {q : s.Request} {a : q.Answer} (h : q.computed? = some (.ok a)) :
    q.reply.verdict? = (q.rendered? a).map fun texts =>
      match texts with
      | .ok _ => .answered a
      | .error e => .died e := by
  obtain ⟨hcomputes, hcomputed⟩ := computes_and_computed h
  have hfinishes : q.reply.finishes = q.renders a := by
    rw [finishes_reply, hcomputes, hcomputed]
    rfl
  rw [Reply.verdict?, hfinishes, verdict_of_ok hcomputed, rendered?]
  split_ifs <;> rfl

end Request

/-! ### Requests that come to an end -/

namespace Request

/-- Whether a request is about finite exponents only: those in the symbols of the registry, and
those of a quantity that it brings. -/
def IsFinite {s : Service Float} : s.Request → Prop
  | convertQuantity r q _ => r.IsComplete ∧ r.HasFiniteSymbols ∧ q.unit.isFinite = true
  | _ => s.registry.IsComplete ∧ s.registry.HasFiniteSymbols

/-- **Requests come to an end** over the doubles, if they are about finite exponents. -/
lemma finishes_of_isFinite {s : Service Float} {q : s.Request} (h : q.IsFinite) :
    q.reply.finishes = true := by
  have hcoefficients {r : Registry Float} (hsymbols : r.HasFiniteSymbols) {u v : Unit r}
      (hu : u.isFinite = true) (hv : v.isFinite = true) : u.coefficientsFinish v = true :=
    Bool.or_eq_true_iff.mpr (.inr (Unit.mismatchFinishes_of_isFinite hsymbols hu hv))
  rw [finishes_reply, Bool.and_eq_true, Yields.all_toOption_iff]
  cases q with
  | dimension _ | unit _ | quantity _ _ | constant _ | simplify _ | equivalents _ _ =>
    exact ⟨rfl, fun _ _ => rfl⟩
  | conversionCoefficients source target | convertValue _ source target =>
    obtain ⟨hr, hsymbols⟩ := h
    refine ⟨Yields.all_toOption_iff.mpr fun u hu => Yields.all_toOption_iff.mpr fun v hv => ?_,
      fun _ _ => rfl⟩
    exact hcoefficients hsymbols (Unit.yields_isFinite_parse hr source u hu).exponents
      (Unit.yields_isFinite_parse hr target v hv).exponents
  | convertQuantity r q target =>
    obtain ⟨hr, hsymbols, hq⟩ := h
    refine ⟨Yields.all_toOption_iff.mpr fun u hu => ?_, fun a ha => ?_⟩
    · exact hcoefficients hsymbols hq (Unit.yields_isFinite_parse hr target u hu).exponents
    · have hconverted : Yields (fun c => c.unit.isFinite = true)
          (convertQuantity r q target : s.Request).computed :=
        (Unit.yields_isFinite_parse hr target).bind fun u hu =>
          q.yields_isFinite_convertTo hu.exponents
      exact q.textsFinish_of_isFinite hsymbols hq (hconverted a ha)

end Request

/-- **How a request ends**, over an accepted registry: with what is computed, unless a quantity
that is to be logged cannot be written; with the error that is raised, unless it is one of
invalid exponents or values that the callers of the request do not expect. If the computation, or
the writing of such a quantity, does not come to an end, neither does the request. -/
theorem verdict_of_request {s : Service α} [Scalar α] {document : Datum α}
    (hr : Registry.decode document = .ok s.registry) (q : s.Request) :
    (q.computed? = none → q.reply.verdict? = none) ∧
    (∀ a, q.computed? = some (.ok a) →
      (q.rendered? a = none → q.reply.verdict? = none) ∧
      (∀ texts, q.rendered? a = some (.ok texts) → q.reply.verdict? = some (.answered a)) ∧
      (∀ e, q.rendered? a = some (.error e) →
        e.kind = .parse ∧ q.reply.verdict? = some (.died e))) ∧
    (∀ e, q.computed? = some (.error e) →
      (e.kind ≠ .invalid ∨ .invalid ∈ q.expected → q.reply.verdict? = some (.failed e)) ∧
      (e.kind = .invalid → .invalid ∉ q.expected → q.reply.verdict? = some (.died e))) := by
  refine ⟨Request.verdict?_of_none, fun a ha => ⟨fun hnone => ?_, fun texts ht => ?_,
    fun e he => ⟨?_, ?_⟩⟩, fun e he => ⟨fun h => ?_, fun hk hnot => ?_⟩⟩
  · rw [Request.verdict?_of_ok ha, hnone]
    rfl
  · rw [Request.verdict?_of_ok ha, ht]
    rfl
  · obtain ⟨-, hrendered⟩ := Option.ite_none_right_eq_some.mp he
    exact List.mem_singleton.mp (Request.raises_rendered q a e (Option.some.inj hrendered))
  · rw [Request.verdict?_of_ok ha, he]
    rfl
  · have hraised := Request.raises_computed Registry.refuses_invalid hr q e
      (Request.computes_and_computed he).2
    have hexpected : e.kind ∈ q.expected := by
      rcases List.mem_append.mp hraised with hk | hk
      · exact hk
      · obtain hk := List.mem_singleton.mp hk
        exact hk ▸ h.resolve_left fun hne => hne hk
    rw [Request.verdict?_of_error he, if_pos hexpected]
  · rw [Request.verdict?_of_error he, if_neg (hk ▸ hnot)]

end Service

namespace Registry.Bundled

/-- The bundled definitions of the primary dimensions and of the Avogadro constant, over the
doubles. -/
def primaryData : RegistryData Float := ⟨primary, [], [], [], constants.take 1⟩

/-- The bundled units of the primary dimensions, over the doubles. -/
def primaryRegistry : Registry Float := ofData primaryData []

lemma registryData?_primaryData : primaryData.toDatum.registryData? = some primaryData := by
  decide +kernel

lemma isValid_primaryData : primaryData.IsValid :=
  Datum.isValid_of_registryData? registryData?_primaryData

lemma build_primaryData : build primaryData = .ok primaryRegistry := by decide +kernel

lemma decode_primaryData : decode primaryData.toDatum = .ok primaryRegistry := by
  rw [decode_eq_build registryData?_primaryData, build_primaryData]

/-- A service over the bundled registry. -/
def service : Service ℚ := ⟨registry, .standard (.number 100000)⟩

/-- A service over the bundled units of the primary dimensions. -/
def primaryService : Service Float := ⟨primaryRegistry, .standard (.number 100000)⟩

/-- A power of the metre with an exponent of 310 digits, above all doubles. -/
def hugePower : String := String.ofList ('m' :: '^' :: List.replicate 310 '9')

lemma parse_hugePower : Unit.parse primaryRegistry hugePower =
    .error (.invalid (.vectorEntry .dimension 1 "Infinity")) := by
  have hterms : parseTerms hugePower = .ok [⟨"m", 10 ^ 310 - 1, 1, Nat.one_ne_zero⟩] := by
    unfold parseTerms hugePower
    rw [String.toList_ofList]
    decide +kernel
  rw [Unit.parse_of_parseTerms hterms]
  exact eq_error_of_raised? (by decide +kernel)

end Registry.Bundled

namespace Service

open Registry.Bundled

lemma computed_kg_m : (.convertValue (.number 1) "kg" "m" : service.Request).computed? =
    some (.error (.inconvertible ⟨"kg", "m", "M", "L"⟩)) :=
  (if_pos (by decide +kernel)).trans (congrArg some (eq_error_of_raised? (by decide +kernel)))

lemma computed_hugePower : (.unit hugePower : primaryService.Request).computed? =
    some (.error (.invalid (.vectorEntry .dimension 1 "Infinity"))) :=
  congrArg some parse_hugePower

/-- Metres are no kilograms, which the callers of a conversion expect to be told; of an infinite
exponent the reading of a unit dies. -/
theorem verdict_of_request_bundled :
    (.convertValue (.number 1) "kg" "m" : service.Request).reply.verdict? =
        some (.failed (.inconvertible ⟨"kg", "m", "M", "L"⟩)) ∧
      (.unit hugePower : primaryService.Request).reply.verdict? =
        some (.died (.invalid (.vectorEntry .dimension 1 "Infinity"))) := by
  constructor
  · obtain ⟨-, -, herror⟩ := verdict_of_request (s := service) decode_document
      (.convertValue (.number 1) "kg" "m")
    exact (herror _ computed_kg_m).1 (.inl (by simp))
  · obtain ⟨-, -, herror⟩ := verdict_of_request (s := primaryService) decode_primaryData
      (.unit hugePower)
    exact (herror _ computed_hugePower).2 rfl (by simp [Request.expected])

/-- Of kilograms whose exponent has become infinite in place, no call can write the symbol. -/
example : (do
    let u ← Unit.parse primaryRegistry "kg"
    let u ← u.powDirect 1e308
    let u ← u.powDirect 10
    return (.convertQuantity primaryRegistry ⟨1, u⟩ "m" : primaryService.Request).reply.finishes
      : Except Error Bool).toOption = some false := by
  decide +kernel

/-- Not every error that the engine raises is one that a service fails with. -/
theorem not_verdict_of_error : ¬ ∀ (document : Datum Float) (s : Service Float),
    Registry.decode document = .ok s.registry → ∀ (q : s.Request) (e : Error),
      q.computed? = some (.error e) → q.reply.verdict? = some (.failed e) := by
  intro h
  have hfailed := h _ primaryService decode_primaryData (.unit hugePower) _ computed_hugePower
  have hdied := Request.verdict?_of_error computed_hugePower
  rw [if_neg (by simp [Request.expected])] at hdied
  exact absurd (hdied.symm.trans hfailed) (by simp)

/-- **Exact numbers**: where every number is finite, no request dies of an error that the engine
raises. -/
theorem verdict_of_error_of_exact {s : Service ℚ} {document : Datum ℚ}
    (hr : Registry.decode document = .ok s.registry) {q : s.Request} {e : Error}
    (he : q.computed? = some (.error e)) : q.reply.verdict? = some (.failed e) := by
  have hraised := Request.raises_computed Registry.refuses_nothing hr q e
    (Request.computes_and_computed he).2
  rw [List.append_nil] at hraised
  rw [Request.verdict?_of_error he, if_pos hraised]

end Service

end Metrology
