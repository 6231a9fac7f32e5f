import Mathlib
import Metrology.Proofs.Aliasing

/-!
Changes in place, field by field.

A unit that is changed in place gets its exponents first and its dimension after that, each computed
from what is in the store by then; the operand may be the unit itself. No step fails once something
has been written, and what comes about is what the same operation makes as a new object, where the
dimension is derived from the exponents and not carried along.
-/

namespace Metrology

variable {α : Type}

/-! ### Changes -/

/-- What an object is changed by: another object or a power. -/
inductive Change (α : Type) where
  | mul (other : Argument α)
  | div (other : Argument α)
  | pow (power : Argument α)

namespace Change

/-- The object that a change is made with. -/
def other? : Change α → Option (Argument α)
  | mul other | div other => some other
  | pow _ => none

/-- Whether a change of an object is made with an object of its kind, or with a finite power. -/
def Fits [Scalar α] : Owner → Change α → Prop
  | .dimension _, mul other | .dimension _, div other => ∃ place, other = .dimension place
  | .unit _, mul other | .unit _, div other => ∃ place, other = .unit place
  | _, pow power => ∃ x, power = .datum (.number x) ∧ Scalar.isFinite x = true

/-- The call that leaves an object as it is and makes the result a new one. -/
def fresh : Owner → Change α → Call α
  | .dimension place, mul other => .dimension place (.mul other)
  | .dimension place, div other => .dimension place (.div other)
  | .dimension place, pow power => .dimension place (.pow power)
  | .unit place, mul other => .unit place (.mul other)
  | .unit place, div other => .unit place (.div other)
  | .unit place, pow power => .unit place (.pow power)

/-- The call that changes an object. -/
def inPlace : Owner → Change α → Call α
  | .dimension place, mul other => .dimension place (.mulInPlace other)
  | .dimension place, div other => .dimension place (.divInPlace other)
  | .dimension place, pow power => .dimension place (.powInPlace power)
  | .unit place, mul other => .unit place (.mulInPlace other)
  | .unit place, div other => .unit place (.divInPlace other)
  | .unit place, pow power => .unit place (.powInPlace power)

end Change

namespace Store

variable {r : Registry α}

/-- Writes the exponents of a unit at a place and leaves the dimension there as it is. -/
def writeExponents (s : Store r) (place : ℕ) (u : Unit r) : Store r :=
  { s with
    units := s.units.modify place fun held => ⟨u.exponents, u.length_eq, held.dimension⟩
    changes := .unit place :: s.changes }

/-- Writes a dimension at a place of a unit: a new object, and the exponents stay as they are. -/
def writeDimension (s : Store r) (place : ℕ) (d : Dimension r) : Store r :=
  { s with
    dimensions := s.dimensions ++ [d]
    units := s.units.modify place fun held => { held with dimension := s.dimensions.length } }

/-- Reads from a store what may not be there. -/
def consult {β : Type} (f : Store r → Except Error β) : EStateM Error (Store r) β := fun s =>
  match f s with
  | .error e => .error e s
  | .ok x => .ok x s

variable [Scalar α]

/-- Changes the unit at a place, one field after the other. The operand is read for each. -/
def changeUnitByField {β : Type} (place : ℕ) (operand : Store r → Except Error β)
    (result : Unit r → β → Unit r) : EStateM Error (Store r) PUnit := do
  let x ← consult operand
  modify fun s => s.writeExponents place (result (s.unit place) x)
  let y ← consult operand
  modify fun s => s.writeDimension place (result (s.unit place) y).dimension

/-- Changes the dimension at a place, which has one field only. -/
def changeDimensionByField {β : Type} (place : ℕ) (operand : Store r → Except Error β)
    (result : Dimension r → β → Dimension r) : EStateM Error (Store r) PUnit := do
  let x ← consult operand
  modify fun s => s.changeDimension place (result (s.dimension place) x)

end Store

lemma Unit.length_scale [Scalar α] {r : Registry α} (u : Unit r) (factor : α) :
    (ExponentVector.scale u.exponents factor).length = r.unitCount := by
  rw [ExponentVector.length_scale, u.length_eq]

/-- A unit with every exponent times a factor, and its dimension as well. -/
def Unit.scaleDirect [Scalar α] {r : Registry α} (u : Unit r) (factor : α) : Unit r where
  exponents := ExponentVector.scale u.exponents factor
  length_eq := u.length_scale factor
  dimension := u.dimension.scale factor

/-- Carries out a change, field by field. What has been written stays if a later step fails. -/
def Change.perform [Scalar α] {r : Registry α} :
    Owner → Change α → EStateM Error (Store r) PUnit
  | .dimension place, mul other =>
    Store.changeDimensionByField place (·.dimensionOperand .multiplication other) (· * ·)
  | .dimension place, div other =>
    Store.changeDimensionByField place (·.dimensionOperand .division other) (· / ·)
  | .dimension place, pow power =>
    Store.changeDimensionByField place (·.finite .power power) Dimension.scale
  | .unit place, mul other =>
    Store.changeUnitByField place (·.unitOperand .multiplication other) Unit.mulDirect
  | .unit place, div other =>
    Store.changeUnitByField place (·.unitOperand .division other) Unit.divDirect
  | .unit place, pow power =>
    Store.changeUnitByField place (·.finite .power power) Unit.scaleDirect

/-! ### No step fails once something has been written -/

namespace Store

variable {r : Registry α} {s : Store r}

/-- Both fields together are another unit at the place. -/
lemma writeDimension_writeExponents (s : Store r) (place : ℕ) (u : Unit r) (d : Dimension r) :
    (s.writeExponents place u).writeDimension place d =
      s.changeUnit place ⟨u.exponents, u.length_eq, d⟩ := by
  simp only [writeExponents, writeDimension, changeUnit, holdDimension, List.modify_modify_eq,
    List.set_eq_modify]
  rfl

variable [Scalar α]

/-- While the exponents have been written and the dimension has not, every unit shows the dimension
that it has had. -/
lemma dimension_unit_writeExponents (s : Store r) (place : ℕ) (u : Unit r) (other : ℕ) :
    ((s.writeExponents place u).unit other).dimension = (s.unit other).dimension := by
  simp only [unit, writeExponents, List.getElem?_modify]
  cases s.units[other]? with
  | none => rfl
  | some held =>
    by_cases h : place = other
    · simp only [Option.map_eq_map, Option.map_some, if_pos h]
      rfl
    · simp only [Option.map_eq_map, Option.map_some, if_neg h]
      rfl

/-- A call that changes a store at once or not at all. -/
def atOnce (s : Store r) (call : Call α) : EStateM.Result Error (Store r) PUnit :=
  match s.run call with
  | .error e => .error e s
  | .ok (_, s') => .ok ⟨⟩ s'

lemma bind_eq_map {β γ : Type} {x : Except Error β} {f : β → Except Error γ} {g : β → γ}
    (h : ∀ a, x = .ok a → f a = .ok (g a)) : x >>= f = x.map g := by
  cases x with
  | error e => rfl
  | ok a => exact h a rfl

section Fields

variable {β : Type} {place : ℕ} {operand : Store r → Except Error β}

/-- What a change comes to that fails only with its operand. -/
def changed (s : Store r) (x : Except Error β) (change : β → Store r) :
    EStateM.Result Error (Store r) PUnit :=
  match x with
  | .error e => .error e s
  | .ok a => .ok ⟨⟩ (change a)

lemma atOnce_of_effectOf {call : Call α} {x : Except Error β} (effect : β → Effect r)
    (h : s.effectOf call = x.map effect) :
    s.atOnce call = s.changed x fun a => (s.apply (effect a)).2 := by
  rw [atOnce, run, h]
  cases x <;> rfl

/-- A change of two fields, of which the second one depends on dimensions only. -/
lemma changeUnitByField_eq {result : Unit r → β → Unit r}
    (hagain : ∀ x, operand s = .ok x → ∀ u, ∃ y, operand (s.writeExponents place u) = .ok y ∧
      ∀ v w, v.dimension = w.dimension → (result v y).dimension = (result w x).dimension) :
    changeUnitByField place operand result s =
      s.changed (operand s) fun x => s.changeUnit place (result (s.unit place) x) := by
  cases hx : operand s with
  | error e => simp only [changeUnitByField, bind, EStateM.bind, consult, hx, changed]
  | ok x =>
    obtain ⟨y, hy, hdimension⟩ := hagain x hx (result (s.unit place) x)
    have hsame := hdimension _ _
      (s.dimension_unit_writeExponents place (result (s.unit place) x) place)
    simp only [changeUnitByField, bind, EStateM.bind, consult, hx, modify, modifyGet,
      MonadStateOf.modifyGet, EStateM.modifyGet, hy, writeDimension_writeExponents, hsame, changed]

lemma changeDimensionByField_eq {result : Dimension r → β → Dimension r} :
    changeDimensionByField place operand result s =
      s.changed (operand s) fun x => s.changeDimension place (result (s.dimension place) x) := by
  cases hx : operand s with
  | error e => simp only [changeDimensionByField, bind, EStateM.bind, consult, hx, changed]
  | ok x =>
    simp only [changeDimensionByField, bind, EStateM.bind, consult, hx, modify, modifyGet,
      MonadStateOf.modifyGet, EStateM.modifyGet, changed]

end Fields

/-- A unit that an operation has been handed is there again, with its dimension. -/
lemma unitOperand_writeExponents {operation : Operation} {a : Argument α} {v : Unit r}
    (h : s.unitOperand operation a = .ok v) (place : ℕ) (u : Unit r) :
    ∃ w, (s.writeExponents place u).unitOperand operation a = .ok w ∧
      w.dimension = v.dimension := by
  unfold unitOperand at h
  split at h
  · rename_i other
    obtain rfl := Except.ok.inj h
    exact ⟨_, rfl, s.dimension_unit_writeExponents place u other⟩
  · exact absurd h (by simp)
  · exact absurd h (by simp)

/-- Only a finite number is taken for one, whatever the store holds. -/
lemma eq_of_finite {role : NumberRole} {a : Argument α} {x : α} (h : s.finite role a = .ok x) :
    a = .datum (.number x) ∧ Scalar.isFinite x = true := by
  unfold finite at h
  split at h
  · split at h
    · rename_i hfinite
      obtain rfl := Except.ok.inj h
      exact ⟨rfl, hfinite⟩
    · exact absurd h (by simp)
  · unfold refused at h
    split at h <;> exact absurd h (by simp)

lemma finite_of_isFinite {role : NumberRole} {x : α} (h : Scalar.isFinite x = true) :
    s.finite role (.datum (.number x)) = .ok x := if_pos h

lemma pow_eq_scale {role : NumberRole} {a : Argument α} {x : α} (h : s.finite role a = .ok x)
    (d : Dimension r) : d.pow x = .ok (d.scale x) :=
  if_pos (eq_of_finite h).2

lemma effectOf_powInPlace_dimension (place : ℕ) (power : Argument α) :
    s.effectOf (Change.inPlace (.dimension place) (.pow power)) =
      (s.finite .power power).map fun x => .changeDimension place ((s.dimension place).scale x) :=
  bind_eq_map fun x hx => by rw [pow_eq_scale hx]; rfl

lemma effectOf_powInPlace_unit (place : ℕ) (power : Argument α) :
    s.effectOf (Change.inPlace (.unit place) (.pow power)) =
      (s.finite .power power).map fun x => .changeUnit place ((s.unit place).scaleDirect x) :=
  bind_eq_map fun x hx => by rw [Unit.powDirect, pow_eq_scale hx]; rfl

end Store

section Perform

variable [Scalar α] {r : Registry α}

open Store

/-- **Field by field** comes to the same as at once: a change that fails has written nothing. -/
lemma Change.perform_eq_atOnce (s : Store r) (owner : Owner) (change : Change α) :
    change.perform owner s = s.atOnce (change.inPlace owner) := by
  cases owner with
  | dimension place =>
    cases change with
    | mul other =>
      exact changeDimensionByField_eq.trans
        (atOnce_of_effectOf (fun d => .changeDimension place (s.dimension place * d)) rfl).symm
    | div other =>
      exact changeDimensionByField_eq.trans
        (atOnce_of_effectOf (fun d => .changeDimension place (s.dimension place / d)) rfl).symm
    | pow power =>
      exact changeDimensionByField_eq.trans
        (atOnce_of_effectOf _ (effectOf_powInPlace_dimension place power)).symm
  | unit place =>
    cases change with
    | mul other =>
      refine (changeUnitByField_eq fun x hx u => ?_).trans
        (atOnce_of_effectOf (fun v => .changeUnit place ((s.unit place).mulDirect v)) rfl).symm
      obtain ⟨y, hy, hdimension⟩ := unitOperand_writeExponents hx place u
      exact ⟨y, hy, fun v w hvw => congrArg₂ (· * ·) hvw hdimension⟩
    | div other =>
      refine (changeUnitByField_eq fun x hx u => ?_).trans
        (atOnce_of_effectOf (fun v => .changeUnit place ((s.unit place).divDirect v)) rfl).symm
      obtain ⟨y, hy, hdimension⟩ := unitOperand_writeExponents hx place u
      exact ⟨y, hy, fun v w hvw => congrArg₂ (· / ·) hvw hdimension⟩
    | pow power =>
      refine (changeUnitByField_eq fun x hx u => ?_).trans
        (atOnce_of_effectOf _ (effectOf_powInPlace_unit place power)).symm
      obtain ⟨rfl, hfinite⟩ := eq_of_finite hx
      exact ⟨x, finite_of_isFinite hfinite, fun v w hvw => congrArg (·.scale x) hvw⟩

end Perform

/-! ### Objects are there -/

/-- What a call that leads to an object answers. -/
def Owner.outcome : Owner → Outcome α
  | dimension place => .dimension place
  | unit place => .unit place

namespace Store

section Placed

variable {r : Registry α} {s : Store r}

/-- Whether there is an object at a place. -/
def Has (s : Store r) : Owner → Prop
  | .dimension place => place < s.dimensions.length
  | .unit place => place < s.units.length

/-- Whether every unit refers to a dimension that is there. -/
def IsPlaced (s : Store r) : Prop := ∀ held ∈ s.units, held.dimension < s.dimensions.length

lemma isPlaced_empty : (empty : Store r).IsPlaced := fun _ h => absurd h List.not_mem_nil

lemma IsPlaced.of_length_le (h : s.IsPlaced) {s' : Store r}
    (hlength : s.dimensions.length ≤ s'.dimensions.length)
    (hunits : ∀ held ∈ s'.units, held ∈ s.units ∨ held.dimension < s'.dimensions.length) :
    s'.IsPlaced := by
  intro held hheld
  rcases hunits held hheld with hold | hnew
  · exact (h held hold).trans_le hlength
  · exact hnew

lemma IsPlaced.holdUnit (h : s.IsPlaced) (u : Unit r) : (s.holdUnit u).2.IsPlaced := by
  refine h.of_length_le (by simp [Store.holdUnit, holdDimension]) fun held hheld => ?_
  rcases List.mem_append.mp hheld with hold | hnew
  · exact .inl hold
  · obtain rfl := List.mem_singleton.mp hnew
    exact .inr (by simp [Store.holdUnit, holdDimension])

lemma IsPlaced.holdTarget (h : s.IsPlaced) (target : Target r) :
    (s.holdTarget target).2.IsPlaced := by
  cases target with
  | held place => exact h
  | fresh u => exact h.holdUnit u

/-- Whatever happens to a store, the dimensions of its units are there. -/
lemma IsPlaced.apply (h : s.IsPlaced) (e : Effect r) : (s.apply e).2.IsPlaced := by
  have happend (ds : List (Dimension r)) :
      s.dimensions.length ≤ (s.dimensions ++ ds).length := by simp
  cases e with
  | holdDimension d => exact h.of_length_le (happend [d]) fun _ => .inl
  | holdDimensions ds => exact h.of_length_le (happend ds) fun _ => .inl
  | holdSearch search => exact h.of_length_le (happend search.dimensions) fun _ => .inl
  | holdUnit u => exact h.holdUnit u
  | holdQuantity _ unit | holdConversion _ unit =>
    exact (h.holdTarget unit).of_length_le le_rfl fun _ => .inl
  | changeDimension place d =>
    exact h.of_length_le (by simp [Store.apply, changeDimension]) fun _ => .inl
  | changeUnit place u =>
    refine h.of_length_le (happend [u.dimension]) fun held hheld => ?_
    rcases List.mem_or_eq_of_mem_set hheld with hold | rfl
    · exact .inl hold
    · exact .inr (by simp [Store.apply, changeUnit, holdDimension])
  | compose _ | nothing _ => exact h

end Placed

end Store

lemma Session.isPlaced_of_steps {registries : List (Registry ℚ)} {s : Session ℚ}
    (h : Relation.ReflTransGen (Step fun _ _ _ => True) (start registries) s) :
    ∀ room ∈ s.rooms, room.store.IsPlaced := by
  induction h with
  | refl =>
    intro room hroom
    obtain ⟨registry, -, rfl⟩ := List.mem_map.mp hroom
    exact Store.isPlaced_empty
  | tail _ hstep ih =>
    cases hstep with
    | run _ hrun =>
      obtain ⟨r, e, hr, -, hrooms⟩ := exists_of_run hrun
      intro other hother
      rw [hrooms] at hother
      rcases List.mem_or_eq_of_mem_set hother with hold | rfl
      · exact ih other hold
      · exact (ih r (List.mem_of_getElem? hr)).apply e
    | compare x y register =>
      intro room hroom
      rw [Session.compare, rooms_assign?] at hroom
      exact ih room hroom

/-! ### Changed objects and new ones -/

namespace Store

variable {r : Registry ℚ} {s : Store r}

/-- The object at a place: a dimension or a unit. -/
def object (s : Store r) : Owner → Dimension r ⊕ Unit r
  | .dimension place => .inl (s.dimension place)
  | .unit place => .inr (s.unit place)

/-- Whether the object at a place, if it is a unit, has the dimension that its exponents
measure. -/
def IsInStep (s : Store r) : Owner → Prop
  | .dimension _ => True
  | .unit place => (s.unit place).IsConsistent

/-- Whether everything but one object is as it was. A unit that hands out a dimension shows what
happens to it, but keeps its exponents. -/
structure Frames (s : Store r) (owner : Owner) (s' : Store r) : Prop where
  dimension : ∀ place < s.dimensions.length, owner ≠ .dimension place →
    s'.dimension place = s.dimension place
  unit : ∀ place < s.units.length, owner ≠ .unit place →
    owner ≠ .dimension (s.dimensionPlace place) → s'.unit place = s.unit place
  exponents : ∀ place < s.units.length, owner ≠ .unit place →
    (s'.unit place).exponents = (s.unit place).exponents
  quantities : s'.quantities = s.quantities

/-- A unit that is held as its exponents and the place of its dimension. -/
lemma unit_eq_of_held {place k : ℕ} {u : Unit r}
    (hget : s.units[place]? = some ⟨u.exponents, u.length_eq, k⟩)
    (hdimension : s.dimension k = u.dimension) : s.unit place = u := by
  rw [unit_eq hget]
  simp only [hdimension]

lemma unit_holdUnit (s : Store r) (u : Unit r) : (s.holdUnit u).2.unit s.units.length = u :=
  unit_eq_of_held (k := s.dimensions.length) (by simp [holdUnit, holdDimension])
    (by simp [holdUnit, holdDimension, Store.dimension])

lemma dimension_holdDimension (s : Store r) (d : Dimension r) :
    (s.holdDimension d).2.dimension s.dimensions.length = d := by
  simp [holdDimension, Store.dimension]

lemma unit_changeUnit {place : ℕ} (hplace : place < s.units.length) (u : Unit r) :
    (s.changeUnit place u).unit place = u :=
  unit_eq_of_held (k := s.dimensions.length)
    (by simp [changeUnit, holdDimension, hplace])
    (by simp [changeUnit, holdDimension, Store.dimension])

lemma dimensionPlace_eq {place : ℕ} {held : HeldUnit r} (h : s.units[place]? = some held) :
    s.dimensionPlace place = held.dimension := by
  simp only [dimensionPlace, h, Option.map_some, Option.getD_some]

lemma IsPlaced.frames_changeUnit (h : s.IsPlaced) (place : ℕ) (u : Unit r) :
    s.Frames (.unit place) (s.changeUnit place u) := by
  have hprefix : s.dimensions <+: (s.changeUnit place u).dimensions := List.prefix_append _ _
  have hunit : ∀ other < s.units.length, Owner.unit place ≠ .unit other →
      (s.changeUnit place u).unit other = s.unit other := by
    intro other hother hne
    have hne : place ≠ other := fun heq => hne (congrArg Owner.unit heq)
    have hget : s.units[other]? = some s.units[other] := List.getElem?_eq_getElem hother
    have hget' : (s.changeUnit place u).units[other]? = some s.units[other] :=
      (List.getElem?_set_ne hne).trans hget
    rw [unit_eq hget, unit_eq hget',
      dimension_of_isPrefix hprefix (h _ (List.getElem_mem hother))]
  exact ⟨fun _ hlt _ => dimension_of_isPrefix hprefix hlt, fun other hother hne _ =>
    hunit other hother hne, fun other hother hne => congrArg _ (hunit other hother hne), rfl⟩

lemma frames_changeDimension (s : Store r) (place : ℕ) (d : Dimension r) :
    s.Frames (.dimension place) (s.changeDimension place d) := by
  have hget {other : ℕ} (hother : other < s.units.length) :
      s.units[other]? = some s.units[other] := List.getElem?_eq_getElem hother
  have hget' {other : ℕ} (hother : other < s.units.length) :
      (s.changeDimension place d).units[other]? = some s.units[other] := hget hother
  refine ⟨fun other _ hne => ?_, fun other hother _ hne => ?_, fun other hother _ => ?_, rfl⟩
  · exact dimension_changeDimension_of_ne (fun heq => hne (congrArg _ heq.symm)) d
  · rw [dimensionPlace_eq (hget hother)] at hne
    rw [unit_eq (hget hother), unit_eq (hget' hother),
      dimension_changeDimension_of_ne (fun heq => hne (congrArg _ heq.symm)) d]
  · rw [unit_eq (hget hother), unit_eq (hget' hother)]

end Store

namespace Unit

variable {r : Registry ℚ} {u v : Unit r}

lemma mul_eq_mulDirect (hu : u.IsConsistent) (hv : v.IsConsistent) :
    u.mul v = .ok (u.mulDirect v) := (isConsistent_mulDirect hu hv).eq_ok rfl _

lemma div_eq_divDirect (hu : u.IsConsistent) (hv : v.IsConsistent) :
    u.div v = .ok (u.divDirect v) := (isConsistent_divDirect hu hv).eq_ok rfl _

lemma powDirect_eq (u : Unit r) (power : ℚ) : u.powDirect power = .ok (u.scaleDirect power) := rfl

lemma pow_eq_scaleDirect (hu : u.IsConsistent) (power : ℚ) :
    u.pow power = .ok (u.scaleDirect power) :=
  (yields_powDirect hu power _ (u.powDirect_eq power)).eq_ok rfl _

end Unit

namespace Store

variable {r : Registry ℚ} {s : Store r}

/-- Whether a call that changes an object comes to what another call makes as a new one, and both
fail alike. -/
structure Agrees (s : Store r) (owner : Owner) (fresh inPlace : Call ℚ) : Prop where
  error : ∀ e, s.run fresh = .error e → s.run inPlace = .error e
  ok : ∀ outcome made, s.run fresh = .ok (outcome, made) → ∃ result changed,
    outcome = result.outcome ∧ s.run inPlace = .ok (owner.outcome, changed) ∧
    changed.object owner = made.object result ∧ s.Frames owner changed

/-- What an effect that makes an object and one that changes one have to come to. -/
lemma agrees_of_effectOf {β : Type} {owner : Owner} {fresh inPlace : Call ℚ}
    {operand : Except Error β} {make change : β → Effect r}
    (hfresh : s.effectOf fresh = operand.map make)
    (hinPlace : s.effectOf inPlace = operand.map change)
    (hsame : ∀ x, ∃ result, (s.apply (make x)).1 = result.outcome ∧
      (s.apply (change x)).1 = owner.outcome ∧
      (s.apply (change x)).2.object owner = (s.apply (make x)).2.object result ∧
      s.Frames owner (s.apply (change x)).2) : s.Agrees owner fresh inPlace := by
  have hrun : s.run fresh = (operand.map make).map s.apply := congrArg _ hfresh
  have hrun' : s.run inPlace = (operand.map change).map s.apply := congrArg _ hinPlace
  cases operand with
  | error e =>
    exact ⟨fun _ h => hrun'.trans (hrun.symm.trans h),
      fun _ _ h => absurd (hrun.symm.trans h) (by simp [Except.map])⟩
  | ok x =>
    obtain ⟨result, hmade, hchanged, hobject, hframes⟩ := hsame x
    refine ⟨fun _ h => absurd (hrun.symm.trans h) (by simp [Except.map]), fun _ _ h => ?_⟩
    obtain ⟨rfl, rfl⟩ := Prod.mk.inj (Except.ok.inj (hrun.symm.trans h))
    exact ⟨result, (s.apply (change x)).2, hmade,
      hrun'.trans (congrArg Except.ok (Prod.ext hchanged rfl)), hobject, hframes⟩

lemma IsPlaced.same_unit (h : s.IsPlaced) {place : ℕ} (hplace : s.Has (.unit place))
    (u : Unit r) : ∃ result : Owner, (s.apply (.holdUnit u)).1 = result.outcome ∧
      (s.apply (.changeUnit place u)).1 = (Owner.unit place).outcome ∧
      (s.apply (.changeUnit place u)).2.object (.unit place) =
        (s.apply (.holdUnit u)).2.object result ∧
      s.Frames (.unit place) (s.apply (.changeUnit place u)).2 :=
  ⟨.unit s.units.length, rfl, rfl,
    congrArg Sum.inr ((unit_changeUnit hplace u).trans (s.unit_holdUnit u).symm),
    h.frames_changeUnit place u⟩

lemma same_dimension {place : ℕ} (hplace : s.Has (.dimension place)) (d : Dimension r) :
    ∃ result : Owner, (s.apply (.holdDimension d)).1 = result.outcome ∧
      (s.apply (.changeDimension place d)).1 = (Owner.dimension place).outcome ∧
      (s.apply (.changeDimension place d)).2.object (.dimension place) =
        (s.apply (.holdDimension d)).2.object result ∧
      s.Frames (.dimension place) (s.apply (.changeDimension place d)).2 :=
  ⟨.dimension s.dimensions.length, rfl, rfl,
    congrArg Sum.inl ((dimension_changeDimension hplace d).trans
      (s.dimension_holdDimension d).symm), s.frames_changeDimension place d⟩

lemma isConsistent_of_unitOperand {operation : Operation} {other : Argument ℚ}
    (hother : ∀ place, other = .unit place → (s.unit place).IsConsistent) {v : Unit r}
    (h : s.unitOperand operation other = .ok v) : v.IsConsistent := by
  unfold unitOperand at h
  split at h
  · obtain rfl := Except.ok.inj h
    exact hother _ rfl
  · exact absurd h (by simp)
  · exact absurd h (by simp)

/-- **In place or as a new object**: the derived dimension of a new unit is the one that a unit
carries along. -/
lemma IsPlaced.agrees (h : s.IsPlaced) {owner : Owner} (howner : s.Has owner)
    (hstep : s.IsInStep owner) {change : Change ℚ}
    (hother : ∀ place, change.other? = some (.unit place) → (s.unit place).IsConsistent) :
    s.Agrees owner (change.fresh owner) (change.inPlace owner) := by
  cases owner with
  | dimension place =>
    cases change with
    | mul other | div other | pow power =>
      exact agrees_of_effectOf rfl rfl fun d => same_dimension howner _
  | unit place =>
    have hoperand {operation : Operation} {other : Argument ℚ}
        (hchange : change.other? = some other) {v : Unit r}
        (hv : s.unitOperand operation other = .ok v) : v.IsConsistent :=
      isConsistent_of_unitOperand (fun b hb => hother b (hchange.trans (congrArg some hb))) hv
    cases change with
    | mul other =>
      have hfresh : s.effectOf (Change.fresh (.unit place) (.mul other)) =
          (s.unitOperand .multiplication other).map fun v =>
            .holdUnit ((s.unit place).mulDirect v) :=
        bind_eq_map fun v hv => by rw [Unit.mul_eq_mulDirect hstep (hoperand rfl hv)]; rfl
      exact agrees_of_effectOf hfresh rfl fun v => h.same_unit howner _
    | div other =>
      have hfresh : s.effectOf (Change.fresh (.unit place) (.div other)) =
          (s.unitOperand .division other).map fun v =>
            .holdUnit ((s.unit place).divDirect v) :=
        bind_eq_map fun v hv => by rw [Unit.div_eq_divDirect hstep (hoperand rfl hv)]; rfl
      exact agrees_of_effectOf hfresh rfl fun v => h.same_unit howner _
    | pow power =>
      have hfresh : s.effectOf (Change.fresh (.unit place) (.pow power)) =
          (s.finite .power power).map fun x => .holdUnit ((s.unit place).scaleDirect x) :=
        bind_eq_map fun x _ => by rw [Unit.pow_eq_scaleDirect hstep]; rfl
      exact agrees_of_effectOf hfresh rfl fun x => h.same_unit howner _

end Store

/-! ### Which changes are made -/

section Fits

variable [Scalar α] {r : Registry α} {s : Store r}

namespace Store

lemma exists_unitOperand_iff {operation : Operation} {other : Argument α} :
    (∃ v, s.unitOperand operation other = .ok v) ↔ ∃ place, other = .unit place := by
  unfold unitOperand
  split <;> simp_all

lemma exists_dimensionOperand_iff {operation : Operation} {other : Argument α} :
    (∃ d, s.dimensionOperand operation other = .ok d) ↔ ∃ place, other = .dimension place := by
  unfold dimensionOperand
  split <;> simp_all

lemma exists_finite_iff {role : NumberRole} {a : Argument α} :
    (∃ x, s.finite role a = .ok x) ↔ ∃ x, a = .datum (.number x) ∧ Scalar.isFinite x = true := by
  constructor
  · rintro ⟨x, hx⟩
    exact ⟨x, eq_of_finite hx⟩
  · rintro ⟨x, rfl, hx⟩
    exact ⟨x, finite_of_isFinite hx⟩

/-- A call succeeds if its operand can be had. -/
lemma exists_run_iff {β : Type} {call : Call α} {operand : Except Error β} {change : β → Effect r}
    (h : s.effectOf call = operand.map change) :
    (∃ x, s.run call = .ok x) ↔ ∃ x, operand = .ok x := by
  rw [run, h]
  cases operand <;> simp [Except.map]

end Store

/-- A change fails for its operand only. -/
lemma Change.exists_run_iff (s : Store r) (owner : Owner) (change : Change α) :
    (∃ x, s.run (change.inPlace owner) = .ok x) ↔ change.Fits owner := by
  cases owner with
  | dimension place =>
    cases change with
    | mul other | div other =>
      exact (Store.exists_run_iff rfl).trans Store.exists_dimensionOperand_iff
    | pow power =>
      exact (Store.exists_run_iff (Store.effectOf_powInPlace_dimension place power)).trans
        Store.exists_finite_iff
  | unit place =>
    cases change with
    | mul other | div other =>
      exact (Store.exists_run_iff rfl).trans Store.exists_unitOperand_iff
    | pow power =>
      exact (Store.exists_run_iff (Store.effectOf_powInPlace_unit place power)).trans
        Store.exists_finite_iff

end Fits

namespace Session

/-- **In place**: an object of a session that is multiplied, divided or raised to a power in place
becomes what the same operation makes as a new object, and no other object changes; the operand can
be the object itself. Its fields are written one after the other, and yet a change that fails leaves
everything as it was. It fails if the operand is no object of that kind over the same registry, or
no finite number. -/
theorem agrees_inPlace {registries : List (Registry ℚ)} {s : Session ℚ}
    (hs : Relation.ReflTransGen (Step fun _ _ _ => True) (start registries) s) {room : Room ℚ}
    (hroom : room ∈ s.rooms) {owner : Owner} (howner : room.store.Has owner)
    (hstep : room.store.IsInStep owner) {change : Change ℚ}
    (hother : ∀ place, change.other? = some (.unit place) →
      (room.store.unit place).IsConsistent) :
    room.store.Agrees owner (change.fresh owner) (change.inPlace owner) ∧
      ∀ (α : Type) [Scalar α] (r : Registry α) (t : Store r) (o : Owner) (c : Change α),
        ((∃ x, t.run (c.inPlace o) = .ok x) ↔ c.Fits o) ∧
          c.perform o t = t.atOnce (c.inPlace o) :=
  ⟨(isPlaced_of_steps hs room hroom).agrees howner hstep hother,
    fun _ _ _ t o c => ⟨c.exists_run_iff t o, c.perform_eq_atOnce t o⟩⟩

/-- The session in which a unit and the inverse of another one have been read, and the dimension of
the first one has been asked for. -/
def pair : Session ℚ :=
  (((start [Registry.Bundled.registry]).after 0 (.create (.parseUnit (.datum (.text "m"))))
    (some "u")).after 0 (.create (.parseUnit (.datum (.text "s^-1")))) (some "v")).after 0
      (.unit 0 .dimension) (some "d")

/-- A unit is multiplied by another one and divided by itself, and its dimension is squared. -/
theorem agrees_inPlace_pair : ∃ room ∈ pair.rooms,
    (∃ x, room.store.run (.unit 0 (.mulInPlace (.unit 1))) = .ok x) ∧
      room.store.Agrees (.unit 0) (.unit 0 (.mul (.unit 1))) (.unit 0 (.mulInPlace (.unit 1))) ∧
      room.store.Agrees (.unit 0) (.unit 0 (.div (.unit 0))) (.unit 0 (.divInPlace (.unit 0))) ∧
      room.store.Agrees (.dimension 0) (.dimension 0 (.pow (.datum (.number 2))))
        (.dimension 0 (.powInPlace (.datum (.number 2)))) := by
  have hsteps : Relation.ReflTransGen (Step fun _ _ _ => True)
      (start [Registry.Bundled.registry]) pair :=
    steps_after (steps_after (steps_after .refl trivial _) trivial _) trivial _
  have hne : pair.rooms ≠ [] := by decide +kernel
  have hpair : ∀ room ∈ pair.rooms, 0 < room.store.dimensions.length ∧
      0 < room.store.units.length ∧ (room.store.unit 0).IsConsistent ∧
      (room.store.unit 1).IsConsistent := by decide +kernel
  have hroom := List.head_mem hne
  obtain ⟨hdimension, hunit, hfirst, hsecond⟩ := hpair _ hroom
  obtain ⟨hmul, hrun⟩ := @agrees_inPlace _ _ hsteps _ hroom (.unit 0) hunit hfirst
    (.mul (.unit 1)) fun place h => by
      obtain rfl : 1 = place := by simpa [Change.other?] using h
      exact hsecond
  refine ⟨_, hroom, (hrun ℚ _ _ (.unit 0) (.mul (.unit 1))).1.mpr ⟨1, rfl⟩, hmul, ?_, ?_⟩
  · exact (@agrees_inPlace _ _ hsteps _ hroom (.unit 0) hunit hfirst (.div (.unit 0))
      fun place h => by
        obtain rfl : 0 = place := by simpa [Change.other?] using h
        exact hfirst).1
  · exact (@agrees_inPlace _ _ hsteps _ hroom (.dimension 0) hdimension trivial
      (.pow (.datum (.number 2))) fun place h => absurd h (by simp [Change.other?])).1

end Session

end Metrology
