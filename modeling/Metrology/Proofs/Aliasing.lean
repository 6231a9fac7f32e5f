import Mathlib
import Metrology.Proofs.Effects

/-!
Units that stay in step with their dimensions, throughout a session.

The dimension of a unit is an object of its own that the unit hands out: who changes it in place
leaves the unit behind. No other call puts a unit out of step.
-/

namespace Metrology

variable {r : Registry ℚ}

namespace Store

variable {s : Store r}

/-! ### What an effect leaves in step -/

/-- A unit that refers to a dimension which is there, and which is what its exponents measure. -/
structure Carries (s : Store r) (held : HeldUnit r) : Prop where
  lt_length : held.dimension < s.dimensions.length
  dimension_eq : s.dimension held.dimension = r.dimensionOf held.exponents

/-- Whether all units carry their dimensions. -/
def IsSound (s : Store r) : Prop := ∀ held ∈ s.units, s.Carries held

/-- Whether an effect changes no dimension that a unit carries. -/
def SparedBy (s : Store r) (e : Effect r) : Prop := ∀ place d, e = .changeDimension place d →
  ∀ held ∈ s.units, held.dimension = place → d = s.dimension place

lemma unit_eq {place : ℕ} {held : HeldUnit r} (h : s.units[place]? = some held) :
    s.unit place = ⟨held.exponents, held.length_eq, s.dimension held.dimension⟩ := by
  simp only [unit, h]

lemma dimension_of_isPrefix {s' : Store r} (hd : s.dimensions <+: s'.dimensions) {place : ℕ}
    (hlt : place < s.dimensions.length) : s'.dimension place = s.dimension place := by
  obtain ⟨ds, hds⟩ := hd
  rw [dimension, dimension, ← hds, List.getD_append _ _ _ _ hlt]

lemma IsSound.inStep (h : s.IsSound) : s.InStep := by
  intro place hplace
  rw [unit_eq (List.getElem?_eq_getElem hplace), Unit.isConsistent_iff]
  exact (h _ (List.getElem_mem hplace)).dimension_eq

lemma isSound_empty : (empty : Store r).IsSound := fun _ h => absurd h List.not_mem_nil

/-- Dimensions at new places leave the others as they are. -/
lemma IsSound.of_isPrefix (h : s.IsSound) {s' : Store r} (hd : s.dimensions <+: s'.dimensions)
    (hu : ∀ held ∈ s'.units, held ∈ s.units ∨ s'.Carries held) : s'.IsSound := by
  intro held hheld
  rcases hu held hheld with hold | hnew
  · obtain ⟨hlt, heq⟩ := h held hold
    exact ⟨hlt.trans_le hd.length_le, (dimension_of_isPrefix hd hlt).trans heq⟩
  · exact hnew

/-- A unit at a new place carries the dimension that is put at the next place. -/
lemma carries_new {u : Unit r} (hu : u.IsConsistent) {s' : Store r}
    (hd : s'.dimensions = s.dimensions ++ [u.dimension]) :
    s'.Carries ⟨u.exponents, u.length_eq, s.dimensions.length⟩ := by
  constructor
  · simp [hd]
  · show s'.dimension s.dimensions.length = _
    rw [dimension, hd, List.getD_append_right _ _ _ _ le_rfl, Nat.sub_self]
    exact Unit.isConsistent_iff.mp hu

lemma IsSound.holdUnit (h : s.IsSound) {u : Unit r} (hu : u.IsConsistent) :
    (s.holdUnit u).2.IsSound := by
  refine h.of_isPrefix (List.prefix_append _ _) fun held hheld => ?_
  rcases List.mem_append.mp hheld with hold | hnew
  · exact .inl hold
  · obtain rfl := List.mem_singleton.mp hnew
    exact .inr (carries_new hu rfl)

lemma IsSound.holdTarget (h : s.IsSound) {unit : Target r} (hu : unit.IsConsistent) :
    (s.holdTarget unit).2.IsSound := by
  cases unit with
  | held place => exact h
  | fresh u => exact h.holdUnit hu

lemma IsSound.changeUnit (h : s.IsSound) (place : ℕ) {u : Unit r} (hu : u.IsConsistent) :
    (s.changeUnit place u).IsSound := by
  refine h.of_isPrefix (List.prefix_append _ _) fun held hheld => ?_
  rcases List.mem_or_eq_of_mem_set hheld with hold | rfl
  · exact .inl hold
  · exact .inr (carries_new hu rfl)

lemma dimension_changeDimension {place : ℕ} (hlt : place < s.dimensions.length)
    (d : Dimension r) : (s.changeDimension place d).dimension place = d := by
  show (s.dimensions.set place d).getD place _ = d
  simp [hlt]

lemma dimension_changeDimension_of_ne {place other : ℕ} (h : other ≠ place) (d : Dimension r) :
    (s.changeDimension place d).dimension other = s.dimension other := by
  show (s.dimensions.set place d).getD other _ = s.dimensions.getD other _
  simp [List.getElem?_set_ne h.symm]

lemma IsSound.changeDimension (h : s.IsSound) {place : ℕ} {d : Dimension r}
    (hs : s.SparedBy (.changeDimension place d)) : (s.changeDimension place d).IsSound := by
  intro held hheld
  obtain ⟨hlt, heq⟩ := h held hheld
  refine ⟨by simpa [Store.changeDimension] using hlt, ?_⟩
  rw [← heq]
  by_cases hplace : held.dimension = place
  · subst hplace
    rw [dimension_changeDimension hlt, hs _ d rfl held hheld rfl]
  · exact dimension_changeDimension_of_ne hplace d

lemma IsSound.apply (h : s.IsSound) {e : Effect r} (he : e.IsHarmless) :
    (s.apply e).2.IsSound := by
  have happend : ∀ ds, s.dimensions <+: s.dimensions ++ ds := List.prefix_append _
  cases e with
  | holdDimension d => exact h.of_isPrefix (happend [d]) fun _ => .inl
  | holdDimensions ds => exact h.of_isPrefix (happend ds) fun _ => .inl
  | holdSearch search => exact h.of_isPrefix (happend search.dimensions) fun _ => .inl
  | holdUnit u => exact h.holdUnit he
  | holdQuantity _ _ | holdConversion _ _ =>
    exact (h.holdTarget he).of_isPrefix List.prefix_rfl fun _ => .inl
  | changeDimension place d => exact he.elim
  | changeUnit place u => exact h.changeUnit place he
  | compose _ | nothing _ => exact h.of_isPrefix List.prefix_rfl fun _ => .inl

/-- **One call** keeps all units in step if it changes no dimension that a unit carries. -/
lemma IsSound.apply_of_effectOf (h : s.IsSound) {call : Call ℚ} {e : Effect r}
    (he : s.effectOf call = .ok e) (hs : s.SparedBy e) : (s.apply e).2.IsSound := by
  rcases yields_effectOf h.inStep call e he with hharmless | ⟨place, -, -, -, d, rfl⟩
  · exact h.apply hharmless
  · exact h.changeDimension hs

/-- A change of a dimension that a unit carries leaves the unit behind. -/
lemma IsSound.sparedBy (h : s.IsSound) {e : Effect r} (h' : (s.apply e).2.InStep) :
    s.SparedBy e := by
  rintro place d rfl held hheld rfl
  obtain ⟨hlt, heq⟩ := h held hheld
  obtain ⟨i, hi, hget⟩ := List.getElem_of_mem hheld
  have hunit : (s.changeDimension held.dimension d).units[i]? = some held :=
    List.getElem?_eq_some_iff.mpr ⟨hi, hget⟩
  have hconsistent := h' i hi
  rw [show (s.apply (.changeDimension held.dimension d)).2 =
      s.changeDimension held.dimension d from rfl, unit_eq hunit, Unit.isConsistent_iff,
    dimension_changeDimension hlt] at hconsistent
  exact hconsistent.trans heq.symm

end Store

/-! ### Sessions -/

namespace Session

/-- Whether the units in all rooms carry the dimensions that their exponents measure. -/
def InStep (s : Session ℚ) : Prop := ∀ room ∈ s.rooms, room.store.InStep

/-- Whether a call in a room changes no dimension that a unit carries. -/
def Spares (s : Session ℚ) (room : ℕ) (call : Call ℚ) : Prop :=
  ∀ r, s.rooms[room]? = some r → ∀ e, r.store.effectOf call = .ok e → r.store.SparedBy e

/-- Whether a unit carries the dimension at a place in a room. -/
def IsCarried (s : Session ℚ) (room place : ℕ) : Prop :=
  ∃ r, s.rooms[room]? = some r ∧ ∃ held ∈ r.store.units, held.dimension = place

/-- A step of a session: a call that is admitted and succeeds, or a comparison. A call that fails
leaves the session as it was. -/
inductive Step (admits : Session ℚ → ℕ → Call ℚ → Prop) (s : Session ℚ) : Session ℚ → Prop
  | run {room : ℕ} {call : Call ℚ} {register : Option String} {held : Held ℚ} {s' : Session ℚ}
      (hadmits : admits s room call) (h : s.run room call register = some (.ok (held, s'))) :
      Step admits s s'
  | compare (x y : Input ℚ) (register : Option String) : Step admits s (s.compare x y register).2

variable {s s' : Session ℚ}

lemma rooms_assign? (s : Session ℚ) (name : Option String) (held : Held ℚ) :
    (s.assign? name held).rooms = s.rooms := by
  cases name with
  | none => rfl
  | some name =>
    simp only [assign?, assign]
    split <;> rfl

/-- What a call that succeeds does to the rooms. -/
lemma exists_of_run {room : ℕ} {call : Call ℚ} {register : Option String} {held : Held ℚ}
    (h : s.run room call register = some (.ok (held, s'))) : ∃ r e, s.rooms[room]? = some r ∧
      r.store.effectOf call = .ok e ∧
      s'.rooms = s.rooms.set room ⟨r.registry, (r.store.apply e).2⟩ := by
  unfold run at h
  split at h
  · exact absurd h (by simp)
  · rename_i r hr
    unfold Store.run at h
    cases he : r.store.effectOf call with
    | error e => simp [he, Except.map] at h
    | ok e =>
      simp only [he, Except.map, Option.some.injEq, Except.ok.injEq, Prod.mk.injEq] at h
      refine ⟨r, e, hr, he, ?_⟩
      rw [← h.2, rooms_assign?]

/-- Whether all units in all rooms carry their dimensions. -/
def IsSound (s : Session ℚ) : Prop := ∀ room ∈ s.rooms, room.store.IsSound

lemma IsSound.inStep (h : s.IsSound) : s.InStep := fun room hroom => (h room hroom).inStep

lemma isSound_start (registries : List (Registry ℚ)) : (start registries).IsSound := by
  intro room hroom
  obtain ⟨registry, -, rfl⟩ := List.mem_map.mp hroom
  exact Store.isSound_empty

lemma IsSound.run (h : s.IsSound) {room : ℕ} {call : Call ℚ} {register : Option String}
    {held : Held ℚ} (hrun : s.run room call register = some (.ok (held, s')))
    (hspares : s.Spares room call) : s'.IsSound := by
  obtain ⟨r, e, hr, he, hrooms⟩ := exists_of_run hrun
  intro other hother
  rw [hrooms] at hother
  rcases List.mem_or_eq_of_mem_set hother with hold | rfl
  · exact h other hold
  · exact (h r (List.mem_of_getElem? hr)).apply_of_effectOf he (hspares r hr e he)

lemma IsSound.step (h : s.IsSound) (hstep : Step Spares s s') : s'.IsSound := by
  cases hstep with
  | run hspares hrun => exact h.run hrun hspares
  | compare x y register =>
    intro room hroom
    rw [Session.compare, rooms_assign?] at hroom
    exact h room hroom

lemma IsSound.steps (h : s.IsSound) (hsteps : Relation.ReflTransGen (Step Spares) s s') :
    s'.IsSound := by
  induction hsteps with
  | refl => exact h
  | tail _ hstep ih => exact ih.step hstep

lemma IsSound.spares (h : s.IsSound) {room : ℕ} {call : Call ℚ} {register : Option String}
    {held : Held ℚ} (hrun : s.run room call register = some (.ok (held, s')))
    (h' : s'.InStep) : s.Spares room call := by
  obtain ⟨r, e, hr, he, hrooms⟩ := exists_of_run hrun
  intro r' hr' e' he'
  obtain rfl := Option.some.inj (hr.symm.trans hr')
  obtain rfl := Except.ok.inj (he.symm.trans he')
  refine (h r (List.mem_of_getElem? hr)).sparedBy (h' ⟨r.registry, (r.store.apply e).2⟩ ?_)
  rw [hrooms]
  exact List.mem_set (List.getElem?_eq_some_iff.mp hr).1 _

lemma IsSound.spares_of_call (h : s.IsSound) {room : ℕ} {call : Call ℚ}
    (hcall : ∀ place c, call = .dimension place c → c.isInPlace = true → ¬s.IsCarried room place) :
    s.Spares room call := by
  rintro r hr e he place d rfl held hheld hplace
  have hsound := h r (List.mem_of_getElem? hr)
  rcases Store.yields_effectOf hsound.inStep call _ he with hharmless | ⟨_, c, hc, hin, d', hd⟩
  · exact hharmless.elim
  · obtain ⟨rfl, -⟩ := Effect.changeDimension.inj hd
    exact absurd ⟨r, hr, held, hheld, hplace⟩ (hcall _ c hc hin)

/-- **In step**: in a session whose calls change no dimension that a unit carries, every unit
carries the dimension that its exponents measure; and the next call keeps it so if and only if it
changes no such dimension either. Only the calls that change a dimension in place can, and only
where a unit carries it. -/
theorem inStep_of_steps {registries : List (Registry ℚ)}
    (h : Relation.ReflTransGen (Step Spares) (start registries) s) :
    s.InStep ∧
      (∀ (room : ℕ) (call : Call ℚ) (register : Option String) (held : Held ℚ) (s' : Session ℚ),
        s.run room call register = some (.ok (held, s')) → (s'.InStep ↔ s.Spares room call)) ∧
      ∀ (room : ℕ) (call : Call ℚ), (∀ place c, call = .dimension place c → c.isInPlace = true →
        ¬s.IsCarried room place) → s.Spares room call := by
  have hsound := (isSound_start registries).steps h
  refine ⟨hsound.inStep, fun _ _ _ _ _ hrun => ⟨hsound.spares hrun, fun hspares => ?_⟩,
    fun _ _ => hsound.spares_of_call⟩
  exact (hsound.run hrun hspares).inStep

/-! ### Runs over the bundled registry -/

/-- A session after a call, whether it succeeds or not. -/
def after (s : Session ℚ) (room : ℕ) (call : Call ℚ) (register : Option String) : Session ℚ :=
  match s.run room call register with
  | some (.ok (_, s')) => s'
  | _ => s

lemma steps_after {admits : Session ℚ → ℕ → Call ℚ → Prop} {start : Session ℚ}
    (h : Relation.ReflTransGen (Step admits) start s) {room : ℕ} {call : Call ℚ}
    (hadmits : admits s room call) (register : Option String) :
    Relation.ReflTransGen (Step admits) start (s.after room call register) := by
  unfold after
  split
  · rename_i hrun
    exact h.tail (.run hadmits hrun)
  · exact h

/-- The session in which a unit and the inverse of another one have been read, and the first one
has been multiplied by the second one. -/
def speed : Session ℚ :=
  (((start [Registry.Bundled.registry]).after 0 (.create (.parseUnit (.datum (.text "m"))))
    (some "u")).after 0 (.create (.parseUnit (.datum (.text "s^-1")))) (some "v")).after 0
      (.unit 0 (.mulInPlace (.unit 1))) none

/-- The session in which a unit has been read and the dimension it hands out has been squared in
place. -/
def squared : Session ℚ :=
  (((start [Registry.Bundled.registry]).after 0 (.create (.parseUnit (.datum (.text "m"))))
    (some "u")).after 0 (.unit 0 .dimension) (some "d")).after 0
      (.dimension 0 (.powInPlace (.datum (.number 2)))) none

instance (s : Session ℚ) : Decidable s.InStep :=
  inferInstanceAs (Decidable (∀ room ∈ s.rooms, ∀ place < room.store.units.length,
    (room.store.unit place).IsConsistent))

/-- The unit that has been multiplied measures a velocity, and so does its dimension. -/
theorem inStep_of_steps_speed : speed.InStep ∧
    speed.rooms.map (fun room => room.store.units.length) = [2] := by
  have hsteps {s : Session ℚ}
      (h : Relation.ReflTransGen (Step Spares) (start [Registry.Bundled.registry]) s)
      {call : Call ℚ} (hcall : ∀ place c, call ≠ .dimension place c) (register : Option String) :
      Relation.ReflTransGen (Step Spares) (start [Registry.Bundled.registry])
        (s.after 0 call register) :=
    steps_after h (((isSound_start _).steps h).spares_of_call fun place c hc =>
      absurd hc (hcall place c)) register
  refine ⟨(inStep_of_steps (hsteps (hsteps (hsteps .refl ?_ _) ?_ _) ?_ _)).1, by decide +kernel⟩
  all_goals exact fun _ _ => by simp

/-- A session whose calls are free to change the dimensions of units does not keep them in step. -/
theorem not_inStep_of_steps : ¬ ∀ (registries : List (Registry ℚ)) (s : Session ℚ),
    Relation.ReflTransGen (Step fun _ _ _ => True) (start registries) s → s.InStep := by
  intro h
  have hsteps : Relation.ReflTransGen (Step fun _ _ _ => True)
      (start [Registry.Bundled.registry]) squared :=
    steps_after (steps_after (steps_after .refl trivial _) trivial _) trivial _
  exact absurd (h _ squared hsteps) (by decide +kernel)

end Session

end Metrology
