import Mathlib
import Metrology.Session
import Metrology.Proofs.Relabelling

/-!
What calls do to the units of a store.

Whatever makes a unit, or changes one in place, gives it the dimension that its exponents measure,
provided that the units it is computed from carry theirs. A dimension makes no units, but can be
changed in place itself.
-/

namespace Metrology

/-- Whether what a computation comes to, if anything, has a property. -/
def Yields {β : Type} (P : β → Prop) (x : Except Error β) : Prop := ∀ a, x = .ok a → P a

namespace Yields

variable {β γ : Type} {P : β → Prop} {Q : γ → Prop}

lemma ok {a : β} (h : P a) : Yields P (.ok a) := by
  intro b hb
  obtain rfl := Except.ok.inj hb
  exact h

lemma error (e : Error) : Yields P (.error e) := fun _ h => absurd h (by simp)

lemma bind {x : Except Error β} {f : β → Except Error γ} (hx : Yields P x)
    (hf : ∀ a, P a → Yields Q (f a)) : Yields Q (x >>= f) := by
  cases x with
  | error e => exact error e
  | ok a => exact hf a (hx a rfl)

/-- What follows has a property, however the first computation ends. -/
lemma andThen {x : Except Error β} {f : β → Except Error γ} (hf : ∀ a, Yields Q (f a)) :
    Yields Q (x >>= f) := bind (P := fun _ => True) (fun _ _ => trivial) fun a _ => hf a

lemma map {x : Except Error β} {f : β → γ} (hx : Yields P x) (hf : ∀ a, P a → Q (f a)) :
    Yields Q (x.map f) := by
  cases x with
  | error e => exact error e
  | ok a => exact ok (hf a (hx a rfl))

lemma mapAny {x : Except Error β} {f : β → γ} (hf : ∀ a, Q (f a)) : Yields Q (x.map f) :=
  map (P := fun _ => True) (fun _ _ => trivial) fun a _ => hf a

lemma all_toOption_iff {p : β → Bool} {x : Except Error β} :
    x.toOption.all p = true ↔ Yields (fun a => p a = true) x := by
  cases x with
  | error e => exact iff_of_true rfl (error e)
  | ok a => exact ⟨fun h => ok (P := fun b => p b = true) h, fun h => h a rfl⟩

end Yields

variable {r : Registry ℚ}

/-! ### Units and quantities that are made -/

namespace Unit

lemma yields_ofVector (v : ExponentVector ℚ) (h : v.length = r.unitCount) :
    Yields IsConsistent (ofVector r v h) := fun _ => isConsistent_of_ofVector

lemma yields_ofData (entries : List (Datum ℚ)) : Yields IsConsistent (ofData r entries) := by
  unfold ofData
  split
  · exact .error _
  · exact yields_ofVector _ _

lemma yields_ofPrimary (v : ExponentVector ℚ) : Yields IsConsistent (ofPrimary r v) := by
  unfold ofPrimary
  split
  · exact .error _
  · exact yields_ofVector _ _

lemma yields_ofPrimaryData (entries : List (Datum ℚ)) :
    Yields IsConsistent (ofPrimaryData r entries) := by
  unfold ofPrimaryData
  split
  · exact .error _
  · exact yields_ofVector _ _

lemma yields_parse (text : String) : Yields IsConsistent (parse r text) := by
  unfold parse
  split
  · exact .error _
  · split
    · exact .error _
    · exact yields_ofVector _ _

lemma yields_pow (u : Unit r) (power : ℚ) : Yields IsConsistent (u.pow power) := by
  unfold pow
  split
  · exact yields_ofVector _ _
  · exact .error _

lemma yields_conversionToSi (u : Unit r) :
    Yields (fun c => c.unit.IsConsistent) u.conversionToSi :=
  (yields_ofVector _ _).map fun _ h => h

lemma yields_conversionToSiPrimary (u : Unit r) :
    Yields (fun c => c.unit.IsConsistent) u.conversionToSiPrimary :=
  (yields_ofPrimary _).map fun _ h => h

/-! ### Units that are changed in place -/

lemma isConsistent_iff_gather {u : Unit r} : u.IsConsistent ↔ u.dimension.exponents =
    ExponentVector.gather r.dimensionCount (r.dimensionPlaces.zip u.exponents) := by
  rw [isConsistent_iff, ← Registry.exponents_dimensionOf]
  exact Dimension.exponents_injective.eq_iff.symm

lemma isConsistent_mulDirect {u v : Unit r} (hu : u.IsConsistent) (hv : v.IsConsistent) :
    (u.mulDirect v).IsConsistent := by
  rw [isConsistent_iff_gather] at hu hv ⊢
  show ExponentVector.add u.dimension.exponents v.dimension.exponents = _
  rw [hu, hv]
  exact (ExponentVector.isLinear_gather_zip.map_add (u.length_eq.trans v.length_eq.symm)).symm

lemma isConsistent_divDirect {u v : Unit r} (hu : u.IsConsistent) (hv : v.IsConsistent) :
    (u.divDirect v).IsConsistent := by
  rw [isConsistent_iff_gather] at hu hv ⊢
  show ExponentVector.subtract u.dimension.exponents v.dimension.exponents = _
  rw [hu, hv]
  exact (ExponentVector.isLinear_gather_zip.map_subtract (u.length_eq.trans v.length_eq.symm)).symm

lemma yields_powDirect {u : Unit r} (hu : u.IsConsistent) (power : ℚ) :
    Yields IsConsistent (u.powDirect power) := by
  have hpow : u.dimension.pow power = .ok (u.dimension.scale power) := rfl
  rw [powDirect, hpow]
  refine .ok ?_
  rw [isConsistent_iff_gather] at hu ⊢
  show ExponentVector.scale u.dimension.exponents power = _
  rw [hu]
  exact (ExponentVector.isLinear_gather_zip.map_scale u.exponents power).symm

/-- The product of nothing measures nothing. -/
lemma isConsistent_one : IsConsistent (r := r)
    ⟨ExponentVector.zeros r.unitCount, ExponentVector.length_zeros _, .one r⟩ := by
  have hzeros : ExponentVector.scale (ExponentVector.zeros r.unitCount) (0 : ℚ) =
      ExponentVector.zeros r.unitCount := by simp [ExponentVector.scale, ExponentVector.zeros]
  rw [isConsistent_iff_gather]
  show ExponentVector.zeros r.dimensionCount =
    ExponentVector.gather _ (r.dimensionPlaces.zip (ExponentVector.zeros r.unitCount))
  rw [← hzeros, ExponentVector.isLinear_gather_zip.map_scale]
  refine ExponentVector.ext_getD (by simp) fun j _ => ?_
  rw [ExponentVector.getD_scale, mul_zero, ExponentVector.getD_zeros]

end Unit

namespace Quantity

/-- Whether the unit of a quantity carries the dimension that its exponents measure. -/
def IsConsistent (q : Quantity r) : Prop := q.unit.IsConsistent

lemma yields_make {value : ℚ} {unit : Unit r} (h : unit.IsConsistent) :
    Yields IsConsistent (make value unit) := .ok h

lemma yields_apply (q : Quantity r) {c : Conversion r} (h : c.unit.IsConsistent) :
    Yields IsConsistent (q.apply c) := yields_make h

lemma yields_toSi (q : Quantity r) : Yields IsConsistent q.toSi :=
  q.unit.yields_conversionToSi.bind fun _ h => q.yields_apply h

lemma yields_toSiPrimary (q : Quantity r) : Yields IsConsistent q.toSiPrimary :=
  q.unit.yields_conversionToSiPrimary.bind fun _ h => q.yields_apply h

lemma yields_mul (q p : Quantity r) : Yields IsConsistent (q.mul p) :=
  .bind (Unit.yields_ofVector _ _) fun _ h => yields_make h

lemma yields_div (q p : Quantity r) : Yields IsConsistent (q.div p) :=
  .bind (Unit.yields_ofVector _ _) fun _ h => yields_make h

lemma yields_pow (q : Quantity r) (power : ℚ) : Yields IsConsistent (q.pow power) :=
  .bind (Unit.yields_pow _ _) fun _ h => yields_make h

end Quantity

namespace Catalogue

lemma yields_unit (key : String) : Yields Unit.IsConsistent (unit r key) := by
  unfold unit
  split
  · exact .error _
  · exact Unit.yields_ofData _

lemma yields_constant (key : String) : Yields Quantity.IsConsistent (constant r key) := by
  unfold constant
  split
  · exact .error _
  · exact (Unit.yields_parse _).bind fun _ h => Quantity.yields_make h

end Catalogue

/-! ### Effects -/

/-- Whether a unit that is yet to be held carries the dimension that its exponents measure. -/
def Target.IsConsistent : Target r → Prop
  | .held _ => True
  | .fresh u => u.IsConsistent

/-- Whether an effect changes no dimension in place, and gives a unit that it puts into a store the
dimension that its exponents measure. -/
def Effect.IsHarmless : Effect r → Prop
  | .holdUnit u | .changeUnit _ u => u.IsConsistent
  | .holdQuantity _ unit | .holdConversion _ unit => unit.IsConsistent
  | .changeDimension _ _ => False
  | _ => True

/-- Whether a call changes the dimension in place. -/
def DimensionCall.isInPlace : DimensionCall ℚ → Bool
  | mulInPlace _ | divInPlace _ | powInPlace _ => true
  | _ => false

namespace Store

variable {s : Store r}

/-- Whether the units at all places carry the dimensions that their exponents measure. -/
def InStep (s : Store r) : Prop := ∀ place < s.units.length, (s.unit place).IsConsistent

lemma InStep.isConsistent (h : s.InStep) (place : ℕ) : (s.unit place).IsConsistent := by
  rcases lt_or_ge place s.units.length with hlt | hge
  · exact h place hlt
  · have hnone : s.units[place]? = none := List.getElem?_eq_none hge
    simp only [unit, hnone]
    exact Unit.isConsistent_one

lemma yields_answer (outcome : Outcome ℚ) :
    Yields Effect.IsHarmless (answer outcome : Except Error (Effect r)) := .ok trivial

lemma yields_composed (parts : Compound ℚ) :
    Yields Effect.IsHarmless (composed parts : Except Error (Effect r)) := .ok trivial

lemma yields_printed (finite : Bool) (text : Except Error String) :
    Yields Effect.IsHarmless (printed finite text : Except Error (Effect r)) := by
  unfold printed
  split
  · exact .mapAny fun _ => trivial
  · exact .ok trivial

lemma yields_quantityUnit (a : Argument ℚ) :
    Yields Target.IsConsistent (quantityUnit a : Except Error (Target r)) := by
  unfold quantityUnit
  split
  · exact .ok trivial
  · exact .error _

lemma yields_parsedQuantityUnit (a : Argument ℚ) :
    Yields Target.IsConsistent (parsedQuantityUnit a : Except Error (Target r)) := by
  unfold parsedQuantityUnit
  split
  · exact (Unit.yields_parse _).map fun _ h => h
  · exact yields_quantityUnit _

lemma yields_conversionTarget (s : Store r) (a : Argument ℚ) :
    Yields (fun target => target.1.IsConsistent) (s.conversionTarget a) := by
  unfold conversionTarget
  split
  · exact .ok trivial
  · exact (Unit.yields_parse _).map fun _ h => h
  · exact .error _
  · exact .error _

lemma yields_unitOperand (h : s.InStep) (operation : Operation) (a : Argument ℚ) :
    Yields Unit.IsConsistent (s.unitOperand operation a) := by
  unfold unitOperand
  split
  · exact .ok (h.isConsistent _)
  · exact .error _
  · exact .error _

lemma yields_named {β : Type} {P : β → Prop} (s : Store r) (table : Table)
    {find : String → Except Error β} (hfind : ∀ key, Yields P (find key)) (a : Argument ℚ) :
    Yields P (s.named table find a) := by
  unfold named
  split
  · exact hfind _
  · unfold refused
    split
    · exact .error _
    · exact .error _

/-! ### Calls -/

lemma yields_create (s : Store r) (creation : Creation ℚ) :
    Yields Effect.IsHarmless (s.create creation) := by
  cases creation with
  | parseDimension _ | dimension _ | primaryDimension _ =>
    exact .andThen fun _ => .mapAny fun _ => trivial
  | dimensionless => exact .ok trivial
  | namedDimension _ => exact .mapAny fun _ => trivial
  | parseUnit text => exact .andThen fun _ => (Unit.yields_parse _).map fun _ h => h
  | unit exponents => exact .andThen fun _ => (Unit.yields_ofData _).map fun _ h => h
  | primaryUnit exponents => exact .andThen fun _ => (Unit.yields_ofPrimaryData _).map fun _ h => h
  | unitless => exact (Unit.yields_ofVector _ _).map fun _ h => h
  | unitOfDimension d =>
    cases d with
    | dimension place => exact (Unit.yields_ofVector _ _).map fun _ h => h
    | _ => exact .error _
  | quantity value unit =>
    exact (yields_quantityUnit unit).bind fun _ h => .andThen fun _ => .ok h
  | parseQuantity value unit =>
    exact (yields_parsedQuantityUnit unit).bind fun _ h => .andThen fun _ => .ok h
  | namedUnit key => exact (s.yields_named .unit Catalogue.yields_unit key).map fun _ h => h
  | namedConstant key =>
    exact (s.yields_named .constant Catalogue.yields_constant key).map fun _ h => h

/-- A dimension makes no units, and changes nothing but itself. -/
lemma yields_callDimension (s : Store r) (place : ℕ) (call : DimensionCall ℚ) :
    Yields (fun e => e.IsHarmless ∨ call.isInPlace = true ∧ ∃ d, e = .changeDimension place d)
      (s.callDimension place call) := by
  have hharmless {x : Except Error (Effect r)} (hx : Yields Effect.IsHarmless x) :
      Yields (fun e => e.IsHarmless ∨ call.isInPlace = true ∧ ∃ d, e = .changeDimension place d)
        x := fun e he => .inl (hx e he)
  cases call with
  | exponents | isPrimary | isDimensionless => exact hharmless (yields_answer _)
  | primary => exact hharmless (yields_composed _)
  | name | symbol | siUnit | shortestName | shortestSymbol | shortestSiUnit | description =>
    exact hharmless (yields_printed _ _)
  | primaryName | primarySymbol | primarySiUnit =>
    exact .andThen fun _ => hharmless (yields_printed _ _)
  | shortest => exact hharmless (.ok trivial)
  | toPrimary | equivalents _ | search _ => exact hharmless (.mapAny fun _ => trivial)
  | equals _ => exact .andThen fun _ => hharmless (yields_answer _)
  | mul _ | div _ => exact .andThen fun _ => hharmless (.ok trivial)
  | pow _ => exact .andThen fun _ => hharmless (.mapAny fun _ => trivial)
  | mulInPlace _ | divInPlace _ => exact .andThen fun _ => .ok (.inr ⟨rfl, _, rfl⟩)
  | powInPlace _ => exact .andThen fun _ => .mapAny fun d => .inr ⟨rfl, d, rfl⟩

/-- The units that a unit makes, and what it becomes itself. -/
lemma yields_callUnit (h : s.InStep) (place : ℕ) (call : UnitCall ℚ) :
    Yields Effect.IsHarmless (s.callUnit place call) := by
  cases call with
  | exponents | dimension => exact yields_answer _
  | name | symbol | siName | siSymbol | siPrimaryName | siPrimarySymbol | description =>
    exact yields_printed _ _
  | siCoefficients => exact yields_composed _
  | isSi | equals _ | hasSameDimension _ => exact .andThen fun _ => yields_answer _
  | convertibility _ => exact .andThen fun _ => yields_composed _
  | isConvertibleTo _ => exact .andThen fun _ => yields_answer _
  | coefficientsTo _ => exact .andThen fun _ => .andThen fun _ => yields_composed _
  | convertValue _ _ =>
    exact .andThen fun _ => .andThen fun _ => .andThen fun _ => yields_answer _
  | toSi => exact (Unit.yields_ofVector _ _).map fun _ h => h
  | toSiPrimary => exact (Unit.yields_ofPrimary _).map fun _ h => h
  | convertToSi => exact (Unit.yields_conversionToSi _).map fun _ h => h
  | convertToSiPrimary => exact (Unit.yields_conversionToSiPrimary _).map fun _ h => h
  | convertTo target =>
    exact (s.yields_conversionTarget target).bind fun _ h => .andThen fun _ => .ok h
  | mul _ | div _ => exact .andThen fun _ => (Unit.yields_ofVector _ _).map fun _ h => h
  | pow _ => exact .andThen fun _ => (Unit.yields_pow _ _).map fun _ h => h
  | mulInPlace other =>
    exact (yields_unitOperand h _ other).bind fun _ hother =>
      .ok (Unit.isConsistent_mulDirect (h.isConsistent place) hother)
  | divInPlace other =>
    exact (yields_unitOperand h _ other).bind fun _ hother =>
      .ok (Unit.isConsistent_divDirect (h.isConsistent place) hother)
  | powInPlace power =>
    exact .andThen fun _ => (Unit.yields_powDirect (h.isConsistent place) _).map fun _ h => h

/-- Sums, differences and multiples keep the unit of a quantity; other results get a new one. -/
lemma yields_callQuantity (s : Store r) (place : ℕ) (call : QuantityCall ℚ) :
    Yields Effect.IsHarmless (s.callQuantity place call) := by
  have hfresh (x : Except Error (Quantity r)) (hx : Yields Quantity.IsConsistent x) :
      Yields Effect.IsHarmless (x.map freshQuantity) := hx.map fun _ h => h
  have hoperand {f : Quantity r → Except Error (Quantity r)}
      (hf : ∀ p, Yields Quantity.IsConsistent (f p)) (operand : Except Error (Quantity r)) :
      Yields Effect.IsHarmless (operand >>= fun p => (f p).map freshQuantity) :=
    .andThen fun p => hfresh _ (hf p)
  cases call with
  | value | unit | dimension => exact yields_answer _
  | isSi => exact .andThen fun _ => yields_answer _
  | text => exact yields_printed _ _
  | toSi => exact hfresh _ (Quantity.yields_toSi _)
  | toSiPrimary => exact hfresh _ (Quantity.yields_toSiPrimary _)
  | convertTo target =>
    exact (s.yields_conversionTarget target).bind fun _ h => .andThen fun _ => .ok h
  | equals other =>
    cases other with
    | quantity _ => exact .andThen fun _ => yields_answer _
    | foreign kind _ => cases kind <;> exact .error _
    | _ => exact .error _
  | add _ | subtract _ => exact .andThen fun _ => .andThen fun _ => .ok trivial
  | mul other =>
    cases other with
    | datum d =>
      cases d with
      | number x => exact .andThen fun _ => .ok trivial
      | _ => exact hoperand (Quantity.yields_mul _) _
    | _ => exact hoperand (Quantity.yields_mul _) _
  | div other =>
    cases other with
    | datum d =>
      cases d with
      | number x => exact .andThen fun _ => .ok trivial
      | _ => exact hoperand (Quantity.yields_div _) _
    | _ => exact hoperand (Quantity.yields_div _) _
  | pow power => exact .andThen fun _ => hfresh _ (Quantity.yields_pow _ _)

/-- **What calls do**: no harm, unless they change a dimension in place. -/
lemma yields_effectOf (h : s.InStep) (call : Call ℚ) :
    Yields (fun e => e.IsHarmless ∨ ∃ place c, call = .dimension place c ∧ c.isInPlace = true ∧
      ∃ d, e = .changeDimension place d) (s.effectOf call) := by
  cases call with
  | create creation => exact fun e he => .inl (s.yields_create creation e he)
  | dimension place call =>
    exact fun e he => (s.yields_callDimension place call e he).imp_right fun hchange =>
      ⟨place, call, rfl, hchange⟩
  | unit place call => exact fun e he => .inl (yields_callUnit h place call e he)
  | quantity place call => exact fun e he => .inl (s.yields_callQuantity place call e he)
  | _ => exact .ok (.inl trivial)

end Store

end Metrology
