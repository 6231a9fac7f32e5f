import Mathlib
import Metrology.Proofs.Failures
import Metrology.Proofs.Range
import Metrology.Proofs.Writing

/-!
Exponents that get too large, among dimensions and units that are composed step by step.

A unit that is made is refused unless its dimension is finite. A dimension that is read or computed
is not checked, and neither is what a dimension or unit is changed to in place, so these stay finite
only as long as the exact results of the single steps are in the range of the doubles. What is
finite can be written; the writing of what is not never ends.
-/

namespace Metrology

open Double

variable {r : Registry Float}

/-! ### Finite stores -/

/-- Whether all dimensions at places and the exponents of all units are finite. -/
@[mk_iff]
structure Store.IsFinite (s : Store r) : Prop where
  dimensions : ∀ d ∈ s.dimensions, d.isFinite = true
  units : ∀ held ∈ s.units, held.exponents.all Scalar.isFinite = true

/-- Whether a unit that is yet to be held is finite. -/
def Target.IsFinite : Target r → Prop
  | .held _ => True
  | .fresh u => u.IsFinite

/-- Whether the dimensions and units that an effect puts into a store are finite. -/
def Effect.IsFinite : Effect r → Prop
  | .holdDimension d | .changeDimension _ d => d.isFinite = true
  | .holdDimensions ds => ∀ d ∈ ds, d.isFinite = true
  | .holdSearch search => ∀ d ∈ search.dimensions, d.isFinite = true
  | .holdUnit u | .changeUnit _ u => u.IsFinite
  | .holdQuantity _ unit | .holdConversion _ unit => unit.IsFinite
  | .compose _ | .nothing _ => True

/-- Whether what an effect changes is there. -/
def Effect.IsInPlace (s : Store r) : Effect r → Prop
  | .changeDimension place _ => place < s.dimensions.length
  | .changeUnit place _ => place < s.units.length
  | _ => True

lemma forall_mem_set_iff {β : Type} {P : β → Prop} {l : List β} {i : ℕ} (h : ∀ x ∈ l, P x)
    (hi : i < l.length) (a : β) : (∀ x ∈ l.set i a, P x) ↔ P a := by
  refine ⟨fun hset => hset a (List.mem_set hi a), fun ha x hx => ?_⟩
  rcases List.mem_or_eq_of_mem_set hx with hx | rfl
  · exact h x hx
  · exact ha

namespace Unit

lemma isFinite_iff (u : Unit r) :
    u.IsFinite ↔ u.dimension.isFinite = true ∧ u.exponents.all Scalar.isFinite = true :=
  ⟨fun h => ⟨h.dimension, h.exponents⟩, fun h => ⟨h.2, h.1⟩⟩

end Unit

namespace Store

variable {s : Store r}

lemma isFinite_empty : (empty : Store r).IsFinite :=
  ⟨fun _ h => absurd h List.not_mem_nil, fun _ h => absurd h List.not_mem_nil⟩

lemma isFinite_congr (s' s : Store r) (hd : s'.dimensions = s.dimensions)
    (hu : s'.units = s.units) : s'.IsFinite ↔ s.IsFinite := by
  rw [isFinite_iff, isFinite_iff, hd, hu]

namespace IsFinite

lemma isFinite_dimension (h : s.IsFinite) (place : ℕ) : (s.dimension place).isFinite = true :=
  getD_of_forall_mem (p := fun d : Dimension r => d.isFinite = true) Dimension.isFinite_one
    h.dimensions place

lemma isFinite_unit (h : s.IsFinite) (place : ℕ) : (s.unit place).IsFinite := by
  unfold unit
  split
  · rename_i held hheld
    exact ⟨h.units held (List.mem_of_getElem? hheld), h.isFinite_dimension _⟩
  · exact ⟨ExponentVector.all_isFinite_zeros _, Dimension.isFinite_one⟩

lemma holdUnit_iff (h : s.IsFinite) (u : Unit r) : (s.holdUnit u).2.IsFinite ↔ u.IsFinite := by
  rw [isFinite_iff, Unit.isFinite_iff]
  show (∀ d ∈ s.dimensions ++ [u.dimension], _) ∧ (∀ held ∈ s.units ++ [_], _) ↔ _
  simp only [List.forall_mem_append, List.forall_mem_singleton, and_iff_right h.dimensions,
    and_iff_right h.units]

lemma holdTarget_iff (h : s.IsFinite) (unit : Target r) :
    (s.holdTarget unit).2.IsFinite ↔ unit.IsFinite := by
  cases unit with
  | held place => exact iff_of_true h trivial
  | fresh u => exact h.holdUnit_iff u

lemma holdDimensions_iff (h : s.IsFinite) (ds : List (Dimension r)) :
    (s.holdDimensions ds).2.IsFinite ↔ ∀ d ∈ ds, d.isFinite = true := by
  rw [isFinite_iff]
  show (∀ d ∈ s.dimensions ++ ds, _) ∧ (∀ held ∈ s.units, _) ↔ _
  rw [List.forall_mem_append, and_iff_right h.dimensions, and_iff_left h.units]

/-- **One effect** leaves a finite store finite if and only if what it puts there is finite. -/
lemma apply_iff (h : s.IsFinite) {e : Effect r} (he : e.IsInPlace s) :
    (s.apply e).2.IsFinite ↔ e.IsFinite := by
  cases e with
  | holdDimension d => exact (h.holdDimensions_iff [d]).trans List.forall_mem_singleton
  | holdDimensions ds =>
    exact (isFinite_congr (s.apply _).2 (s.holdDimensions ds).2 rfl rfl).trans
      (h.holdDimensions_iff ds)
  | holdSearch search =>
    exact (isFinite_congr (s.apply _).2 (s.holdDimensions search.dimensions).2 rfl rfl).trans
      (h.holdDimensions_iff search.dimensions)
  | holdUnit u => exact h.holdUnit_iff u
  | holdQuantity _ unit | holdConversion _ unit =>
    exact (isFinite_congr (s.apply _).2 (s.holdTarget unit).2 rfl rfl).trans (h.holdTarget_iff unit)
  | changeDimension place d =>
    rw [isFinite_iff]
    show (∀ e ∈ s.dimensions.set place d, _) ∧ (∀ held ∈ s.units, _) ↔ _
    rw [and_iff_left h.units]
    exact forall_mem_set_iff h.dimensions he d
  | changeUnit place u =>
    rw [isFinite_iff, Effect.IsFinite, Unit.isFinite_iff]
    show (∀ d ∈ s.dimensions ++ [u.dimension], _) ∧ (∀ held ∈ s.units.set place _, _) ↔ _
    rw [List.forall_mem_append, and_iff_right h.dimensions, List.forall_mem_singleton,
      forall_mem_set_iff h.units he]
  | compose _ | nothing _ => exact iff_of_true ⟨h.dimensions, h.units⟩ trivial

end IsFinite

end Store

/-! ### Calls that compose -/

/-- Whether a call reads a dimension or unit, or makes one of given exponents. -/
def Creation.composes : Creation Float → Bool
  | parseDimension _ | dimension _ | parseUnit _ | unit _ => true
  | _ => false

/-- Whether a call multiplies a dimension, divides it or raises it to a power. -/
def DimensionCall.composes : DimensionCall Float → Bool
  | mul _ | div _ | pow _ | mulInPlace _ | divInPlace _ | powInPlace _ => true
  | _ => false

/-- Whether a call multiplies a unit, divides it or raises it to a power. -/
def UnitCall.composes : UnitCall Float → Bool
  | mul _ | div _ | pow _ | mulInPlace _ | divInPlace _ | powInPlace _ => true
  | _ => false

/-- Whether a call composes a dimension or unit. -/
def Call.composes : Call Float → Bool
  | create creation => creation.composes
  | dimension _ call => call.composes
  | unit _ call => call.composes
  | _ => false

namespace Dimension

/-- Whether an operation on the exact exponents of two dimensions leads to nothing too large. -/
def Fits (operation : ℚ → ℚ → ℚ) (d e : Dimension r) : Prop :=
  ExponentVector.Fits operation d.exponents e.exponents

/-- Whether the exact exponents of a dimension can be multiplied by a power. -/
def PowFits (d : Dimension r) (power : Float) : Prop := ExponentVector.ScaleFits d.exponents power

variable {d e : Dimension r}

lemma isFinite_mul_iff (hd : d.isFinite = true) (he : e.isFinite = true) :
    (d * e).isFinite = true ↔ d.Fits (· + ·) e := ExponentVector.all_isFinite_add_iff hd he

lemma isFinite_div_iff (hd : d.isFinite = true) (he : e.isFinite = true) :
    (d / e).isFinite = true ↔ d.Fits (· - ·) e := ExponentVector.all_isFinite_subtract_iff hd he

lemma isFinite_pow_iff (hd : d.isFinite = true) {power : Float} (hpower : power.isFinite = true)
    (h : d.pow power = .ok e) : e.isFinite = true ↔ d.PowFits power := by
  unfold pow at h
  split_ifs at h
  obtain rfl := Except.ok.inj h
  exact ExponentVector.all_isFinite_scale_iff hd hpower

end Dimension

namespace Unit

/-- Whether an operation on the exact exponents of the dimensions of two units, and on those of the
units, leads to nothing too large. -/
def Fits (operation : ℚ → ℚ → ℚ) (u v : Unit r) : Prop :=
  u.dimension.Fits operation v.dimension ∧ ExponentVector.Fits operation u.exponents v.exponents

/-- Whether the exact exponents of the dimension of a unit and of the unit can be multiplied by a
power. -/
def PowFits (u : Unit r) (power : Float) : Prop :=
  u.dimension.PowFits power ∧ ExponentVector.ScaleFits u.exponents power

variable {u v w : Unit r}

lemma isFinite_mulDirect_iff (hu : u.IsFinite) (hv : v.IsFinite) :
    (u.mulDirect v).IsFinite ↔ u.Fits (· + ·) v :=
  (isFinite_iff _).trans (and_congr
    (ExponentVector.all_isFinite_add_iff hu.dimension hv.dimension)
    (ExponentVector.all_isFinite_add_iff hu.exponents hv.exponents))

lemma isFinite_divDirect_iff (hu : u.IsFinite) (hv : v.IsFinite) :
    (u.divDirect v).IsFinite ↔ u.Fits (· - ·) v :=
  (isFinite_iff _).trans (and_congr
    (ExponentVector.all_isFinite_subtract_iff hu.dimension hv.dimension)
    (ExponentVector.all_isFinite_subtract_iff hu.exponents hv.exponents))

lemma isFinite_powDirect_iff (hu : u.IsFinite) {power : Float} (hpower : power.isFinite = true)
    (h : u.powDirect power = .ok w) : w.IsFinite ↔ u.PowFits power := by
  unfold powDirect at h
  split at h
  · exact absurd h (by simp)
  rename_i dimension hdimension
  obtain rfl := Except.ok.inj h
  exact (isFinite_iff _).trans (and_congr
    (Dimension.isFinite_pow_iff hu.dimension hpower hdimension)
    (ExponentVector.all_isFinite_scale_iff hu.exponents hpower))

end Unit

namespace Store

variable {s : Store r}

/-- Whether the dimension or unit that a call is made on is there. -/
def Holds (s : Store r) : Call Float → Prop
  | .dimension place _ => place < s.dimensions.length
  | .unit place _ => place < s.units.length
  | _ => True

/-- Whether a call on the dimension at a place leads to no exponent that is too large. -/
def DimensionFits (s : Store r) (place : ℕ) : DimensionCall Float → Prop
  | .mul other | .mulInPlace other => ∀ e, s.dimensionOperand .multiplication other = .ok e →
      (s.dimension place).Fits (· + ·) e
  | .div other | .divInPlace other => ∀ e, s.dimensionOperand .division other = .ok e →
      (s.dimension place).Fits (· - ·) e
  | .pow power | .powInPlace power => ∀ x, s.finite .power power = .ok x →
      (s.dimension place).PowFits x
  | _ => True

/-- Whether a call that changes the unit at a place leads to no exponent that is too large. -/
def UnitFits (s : Store r) (place : ℕ) : UnitCall Float → Prop
  | .mulInPlace other => ∀ v, s.unitOperand .multiplication other = .ok v →
      (s.unit place).Fits (· + ·) v
  | .divInPlace other => ∀ v, s.unitOperand .division other = .ok v →
      (s.unit place).Fits (· - ·) v
  | .powInPlace power => ∀ x, s.finite .power power = .ok x → (s.unit place).PowFits x
  | _ => True

/-- Whether a call leads to no exponent that is too large, as far as nothing checks it: what is read
as a dimension, what a dimension is composed with, and what a unit is changed to in place. -/
def Fits (s : Store r) : Call Float → Prop
  | .create (.parseDimension text) => ∀ t, s.quoted text = .ok t → Dimension.ParseFits r t
  | .dimension place call => s.DimensionFits place call
  | .unit place call => s.UnitFits place call
  | _ => True

/-- What a call comes to that composes something: whether it is finite is decided by the exact
results, and what it changes is there. -/
def Decides (s : Store r) (call : Call Float) (e : Effect r) : Prop :=
  (e.IsFinite ↔ s.Fits call) ∧ e.IsInPlace s

lemma forall_ok_iff {β : Type} {P : β → Prop} {x : Except Error β} {a : β} (h : x = .ok a) :
    (∀ a', x = .ok a' → P a') ↔ P a :=
  ⟨fun hall => hall a h, fun ha _ h' => Except.ok.inj (h.symm.trans h') ▸ ha⟩

lemma yields_create_decides (hr : r.IsComplete) {creation : Creation Float}
    (hc : creation.composes = true) :
    Yields (s.Decides (.create creation)) (s.create creation) := by
  cases creation with
  | parseDimension text =>
    refine .bind (fun _ h => h) fun t ht => .map (fun _ h => h) fun d hd => ⟨?_, trivial⟩
    exact (Dimension.isFinite_parse_iff hr hd).trans (forall_ok_iff ht).symm
  | dimension exponents =>
    exact .andThen fun _ => (Dimension.yields_isFinite_ofData _).map fun d hd =>
      ⟨iff_of_true hd trivial, trivial⟩
  | parseUnit text =>
    exact .andThen fun _ => (Unit.yields_isFinite_parse hr _).map fun u hu =>
      ⟨iff_of_true hu trivial, trivial⟩
  | unit exponents =>
    exact .andThen fun _ => (Unit.yields_isFinite_ofData hr _).map fun u hu =>
      ⟨iff_of_true hu trivial, trivial⟩
  | _ => exact absurd hc Bool.false_ne_true

lemma yields_isFinite_finite (s : Store r) (role : NumberRole) (a : Argument Float) :
    Yields (fun x => x.isFinite = true) (s.finite role a) := by
  unfold finite
  split
  · split_ifs with hfinite
    · exact .ok hfinite
    · exact .error _
  · unfold refused
    split
    · exact .error _
    · exact .error _

namespace IsFinite

variable (h : s.IsFinite)

include h

lemma yields_dimensionOperand (operation : Operation) (a : Argument Float) :
    Yields (fun e => e.isFinite = true) (s.dimensionOperand operation a) := by
  unfold dimensionOperand
  split
  · exact .ok (h.isFinite_dimension _)
  · exact .error _
  · exact .error _

lemma yields_unitOperand (operation : Operation) (a : Argument Float) :
    Yields Unit.IsFinite (s.unitOperand operation a) := by
  unfold unitOperand
  split
  · exact .ok (h.isFinite_unit _)
  · exact .error _
  · exact .error _

/-- Nothing checks what a dimension is composed with. -/
lemma yields_callDimension_decides {place : ℕ} (hplace : place < s.dimensions.length)
    {call : DimensionCall Float} (hc : call.composes = true) :
    Yields (s.Decides (.dimension place call)) (s.callDimension place call) := by
  have hd := h.isFinite_dimension place
  have hmul {other : Argument Float} {e : Dimension r}
      (he : s.dimensionOperand .multiplication other = .ok e) :=
    (Dimension.isFinite_mul_iff hd (h.yields_dimensionOperand _ _ _ he)).trans
      (forall_ok_iff he).symm
  have hdiv {other : Argument Float} {e : Dimension r}
      (he : s.dimensionOperand .division other = .ok e) :=
    (Dimension.isFinite_div_iff hd (h.yields_dimensionOperand _ _ _ he)).trans
      (forall_ok_iff he).symm
  have hpow {power : Argument Float} {x : Float} (hx : s.finite .power power = .ok x)
      {e : Dimension r} (he : (s.dimension place).pow x = .ok e) :=
    (Dimension.isFinite_pow_iff hd (s.yields_isFinite_finite _ _ _ hx) he).trans
      (forall_ok_iff (P := (s.dimension place).PowFits) hx).symm
  cases call with
  | mul other => exact .bind (fun _ h => h) fun e he => .ok ⟨hmul he, trivial⟩
  | div other => exact .bind (fun _ h => h) fun e he => .ok ⟨hdiv he, trivial⟩
  | pow power =>
    exact .bind (fun _ h => h) fun x hx => .map (fun _ h => h) fun e he => ⟨hpow hx he, trivial⟩
  | mulInPlace other => exact .bind (fun _ h => h) fun e he => .ok ⟨hmul he, hplace⟩
  | divInPlace other => exact .bind (fun _ h => h) fun e he => .ok ⟨hdiv he, hplace⟩
  | powInPlace power =>
    exact .bind (fun _ h => h) fun x hx => .map (fun _ h => h) fun e he => ⟨hpow hx he, hplace⟩
  | _ => exact absurd hc Bool.false_ne_true

/-- What a unit makes is checked, but not what it is changed to in place. -/
lemma yields_callUnit_decides (hr : r.IsComplete) {place : ℕ} (hplace : place < s.units.length)
    {call : UnitCall Float} (hc : call.composes = true) :
    Yields (s.Decides (.unit place call)) (s.callUnit place call) := by
  have hu := h.isFinite_unit place
  have hchecked {x : Except Error (Unit r)} (hx : Yields Unit.IsFinite x)
      (hfits : s.UnitFits place call) :
      Yields (s.Decides (.unit place call)) (x.map .holdUnit) :=
    hx.map fun u hu => ⟨iff_of_true hu hfits, trivial⟩
  cases call with
  | mul other => exact .andThen fun v => hchecked (Unit.yields_isFinite_mul hr _ v) trivial
  | div other => exact .andThen fun v => hchecked (Unit.yields_isFinite_div hr _ v) trivial
  | pow power => exact .andThen fun x => hchecked (Unit.yields_isFinite_pow hr _ x) trivial
  | mulInPlace other =>
    refine .bind (fun _ h => h) fun v hv => .ok ⟨?_, hplace⟩
    exact (Unit.isFinite_mulDirect_iff hu (h.yields_unitOperand _ _ _ hv)).trans
      (forall_ok_iff hv).symm
  | divInPlace other =>
    refine .bind (fun _ h => h) fun v hv => .ok ⟨?_, hplace⟩
    exact (Unit.isFinite_divDirect_iff hu (h.yields_unitOperand _ _ _ hv)).trans
      (forall_ok_iff hv).symm
  | powInPlace power =>
    refine .bind (fun _ h => h) fun x hx => .map (fun _ h => h) fun v hv => ⟨?_, hplace⟩
    exact (Unit.isFinite_powDirect_iff hu (s.yields_isFinite_finite _ _ _ hx) hv).trans
      (forall_ok_iff (P := (s.unit place).PowFits) hx).symm
  | _ => exact absurd hc Bool.false_ne_true

lemma yields_effectOf_decides (hr : r.IsComplete) {call : Call Float} (hc : call.composes = true)
    (hholds : s.Holds call) : Yields (s.Decides call) (s.effectOf call) := by
  cases call with
  | create creation => exact yields_create_decides hr hc
  | dimension place call => exact h.yields_callDimension_decides hholds hc
  | unit place call => exact h.yields_callUnit_decides hr hholds hc
  | _ => exact absurd hc Bool.false_ne_true

/-- **One call**: a call that composes something leaves everything finite if and only if its exact
results are not too large, as far as nothing checks them. -/
lemma run_iff (hr : r.IsComplete) {call : Call Float} (hc : call.composes = true)
    (hholds : s.Holds call) {outcome : Outcome Float} {s' : Store r}
    (hrun : s.run call = .ok (outcome, s')) : s'.IsFinite ↔ s.Fits call := by
  obtain ⟨e, he, happly⟩ := exists_of_map_eq_ok hrun
  obtain ⟨hfits, hplace⟩ := h.yields_effectOf_decides hr hc hholds e he
  rw [← hfits, ← h.apply_iff hplace, happly]

end IsFinite

/-! ### Runs -/

/-- A step: a call that composes something, that is admitted and succeeds. A call that fails leaves
the store as it was. -/
inductive Step (admits : Store r → Call Float → Prop) (s : Store r) : Store r → Prop
  | run {call : Call Float} {outcome : Outcome Float} {s' : Store r}
      (hcomposes : call.composes = true) (hholds : s.Holds call) (hadmits : admits s call)
      (h : s.run call = .ok (outcome, s')) : Step admits s s'

/-- Whether the names of all dimensions and units can be written. -/
def NamesEnd (s : Store r) : Prop :=
  (∀ d ∈ s.dimensions, d.NameEnds) ∧ ∀ place < s.units.length, (s.unit place).NameEnds

/-- Whether the symbols and descriptions of all dimensions and units can be written. -/
def WritingEnds (s : Store r) : Prop :=
  (∀ d ∈ s.dimensions, d.SymbolEnds ∧ d.DescriptionEnds) ∧
    ∀ place < s.units.length, (s.unit place).SymbolEnds ∧ (s.unit place).DescriptionEnds

/-- **Writing names** ends if and only if everything is finite. -/
lemma namesEnd_iff : s.NamesEnd ↔ s.IsFinite := by
  have hunit (place : ℕ) (hplace : place < s.units.length) :
      (s.unit place).NameEnds ↔ s.units[place].exponents.all Scalar.isFinite = true := by
    rw [Unit.nameEnds_iff, unit, List.getElem?_eq_getElem hplace]
    rfl
  have hunits := List.forall_mem_iff_forall_getElem (l := s.units)
    (P := fun held => held.exponents.all Scalar.isFinite = true)
  rw [isFinite_iff, NamesEnd]
  exact and_congr (forall₂_congr fun d _ => d.nameEnds_iff)
    ((forall₂_congr hunit).trans hunits.symm)

lemma IsFinite.writingEnds (hr : r.IsComplete) (hsymbols : r.HasFiniteSymbols) (h : s.IsFinite) :
    s.WritingEnds := by
  refine ⟨fun d hd => ?_, fun place _ => ?_⟩
  · have hfinite := h.dimensions d hd
    exact ⟨Dimension.symbolEnds_of_isFinite hsymbols hfinite,
      Dimension.descriptionEnds hsymbols d⟩
  · have hfinite := h.isFinite_unit place
    exact ⟨Unit.symbolEnds_of_isFinite hsymbols hfinite.exponents,
      Unit.descriptionEnds_of_isFinite hr hsymbols hfinite.exponents⟩

lemma IsFinite.steps (hr : r.IsComplete) (h : s.IsFinite) {s' : Store r}
    (hsteps : Relation.ReflTransGen (Step Fits) s s') : s'.IsFinite := by
  induction hsteps with
  | refl => exact h
  | tail _ hstep ih =>
    obtain ⟨hcomposes, hholds, hfits, hrun⟩ := hstep
    exact (ih.run_iff hr hcomposes hholds hrun).mpr hfits

/-- **Overflow**: dimensions and units that are composed without an exact result that is too large
are finite, and everything about them can be written. The next call that composes something either
fails or leaves it so if and only if its exact results are not too large either, as far as nothing
checks them. If they are, a name is left that cannot be written. -/
theorem isFinite_of_steps {document : Datum Float} (hr : Registry.decode document = .ok r)
    (h : Relation.ReflTransGen (Step Fits) (empty : Store r) s) :
    s.IsFinite ∧ s.NamesEnd ∧ (r.HasFiniteSymbols → s.WritingEnds) ∧
      ∀ (call : Call Float) (outcome : Outcome Float) (s' : Store r), call.composes = true →
        s.Holds call → s.run call = .ok (outcome, s') →
          (s'.IsFinite ↔ s.Fits call) ∧ (s'.NamesEnd ↔ s.Fits call) := by
  have hcomplete := Registry.isComplete_of_decode hr
  have hfinite := isFinite_empty.steps hcomplete h
  refine ⟨hfinite, namesEnd_iff.mpr hfinite, fun hsymbols => hfinite.writingEnds hcomplete hsymbols,
    fun call outcome s' hcomposes hholds hrun => ?_⟩
  have hiff := hfinite.run_iff hcomplete hcomposes hholds hrun
  exact ⟨hiff, namesEnd_iff.trans hiff⟩

/-! ### Runs over the bundled units of the primary dimensions -/

/-- A store after a call, whether it succeeds or not. -/
def after (s : Store r) (call : Call Float) : Store r :=
  match s.run call with
  | .ok (_, s') => s'
  | .error _ => s

/-- The store in which the mass has been read, and raised to a power that is almost too large. -/
def massPower : Store Registry.Bundled.primaryRegistry :=
  (empty.after (.create (.parseDimension (.datum (.text "M"))))).after
    (.dimension 0 (.pow (.datum (.number 1e308))))

/-- Raises the power of the mass to the tenth power. -/
def tenthPower : Call Float := .dimension 1 (.pow (.datum (.number 10)))

instance (s : Store r) : Decidable s.IsFinite := decidable_of_iff' _ (isFinite_iff s)

instance (s : Store r) (call : Call Float) : Decidable (s.Holds call) := by
  unfold Holds
  split <;> infer_instance

lemma run_eq_after {call : Call Float} (h : (s.run call).toOption.isSome = true) :
    ∃ outcome, s.run call = .ok (outcome, s.after call) := by
  unfold after
  cases hrun : s.run call with
  | error e => rw [hrun] at h; exact absurd h Bool.false_ne_true
  | ok pair => exact ⟨pair.1, rfl⟩

lemma steps_massPower : Relation.ReflTransGen (Step Fits) empty massPower := by
  have hcomplete := Registry.isComplete_of_decode Registry.Bundled.decode_primaryData
  have hstep {s : Store Registry.Bundled.primaryRegistry}
      (h : Relation.ReflTransGen (Step Fits) empty s) (call : Call Float)
      (hcomposes : call.composes = true) (hholds : s.Holds call)
      (hok : (s.run call).toOption.isSome = true) (hfinite : (s.after call).IsFinite) :
      Relation.ReflTransGen (Step Fits) empty (s.after call) := by
    obtain ⟨outcome, hrun⟩ := run_eq_after hok
    have hfits := (isFinite_empty.steps hcomplete h).run_iff hcomplete hcomposes hholds hrun
    exact h.tail (.run hcomposes hholds (hfits.mp hfinite) hrun)
  have hmass := hstep .refl (.create (.parseDimension (.datum (.text "M")))) rfl trivial
    (by decide +kernel) (by decide +kernel)
  exact hstep hmass _ rfl (by decide +kernel) (by decide +kernel) (by decide +kernel)

lemma exists_run_tenthPower :
    ∃ outcome, massPower.run tenthPower = .ok (outcome, massPower.after tenthPower) :=
  run_eq_after (by decide)

lemma hasFiniteSymbols_primaryRegistry : Registry.Bundled.primaryRegistry.HasFiniteSymbols := by
  have hplain : ∀ symbol ∈ Registry.Bundled.primaryRegistry.dimensions.map DimensionEntry.symbol ++
      Registry.Bundled.primaryRegistry.units.map UnitEntry.symbol, isCompound symbol = false := by
    decide
  exact fun symbol hsymbol hcompound => absurd hcompound (by simp [hplain symbol hsymbol])

/-- The power of the mass can be written. Its tenth power is infinite, and cannot. -/
theorem isFinite_of_steps_massPower : massPower.NamesEnd ∧ massPower.WritingEnds ∧
    ¬(massPower.after tenthPower).NamesEnd := by
  obtain ⟨-, hnames, hwriting, hnext⟩ :=
    isFinite_of_steps Registry.Bundled.decode_primaryData steps_massPower
  obtain ⟨outcome, hrun⟩ := exists_run_tenthPower
  obtain ⟨hfinite, hends⟩ := hnext tenthPower outcome _ rfl (by decide +kernel) hrun
  refine ⟨hnames, hwriting hasFiniteSymbols_primaryRegistry, ?_⟩
  rw [hends, ← hfinite]
  decide +kernel

/-- Not everything that is composed is finite. -/
theorem not_isFinite_of_steps : ¬ ∀ (document : Datum Float) (r : Registry Float) (s : Store r),
    Registry.decode document = .ok r →
      Relation.ReflTransGen (Step fun _ _ => True) (empty : Store r) s → s.IsFinite := by
  intro h
  have hfree (s s' : Store Registry.Bundled.primaryRegistry) (hstep : Step Fits s s') :
      Step (fun _ _ => True) s s' := by
    obtain ⟨hcomposes, hholds, -, hrun⟩ := hstep
    exact .run hcomposes hholds trivial hrun
  have hmass := Relation.ReflTransGen.mono hfree _ _ steps_massPower
  obtain ⟨outcome, hrun⟩ := exists_run_tenthPower
  have hsteps := hmass.tail (.run rfl (by decide +kernel) trivial hrun)
  exact absurd (h _ _ _ Registry.Bundled.decode_primaryData hsteps) (by decide +kernel)

end Store

end Metrology
