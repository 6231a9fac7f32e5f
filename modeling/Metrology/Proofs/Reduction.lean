import Mathlib
import Metrology.Dimension.Shortest
import Metrology.Proofs.Coordinates

/-!
The loop that composes a vector of few factors, as a run of steps.

A step takes the factor that leaves the least, if that is less by more than the tolerance. So no run
is longer than the number of tolerances in the norm at its start, and the loop, which is allowed as
many steps, ends where no step is left.
-/

namespace Metrology.Dimension

open ExponentVector

/-! ### The best candidate -/

lemma best?_append (cs : List (Candidate ℚ)) (c : Candidate ℚ) :
    best? (cs ++ [c]) = match best? cs with
      | none => some c
      | some b => if c.norm < b.norm then some c else some b := by
  unfold best?
  rw [List.foldl_append]
  rcases cs.foldl _ none with _ | b <;> simp

/-- The best candidate leaves no more than any other. -/
lemma best?_spec (cs : List (Candidate ℚ)) : cs = [] ∧ best? cs = none ∨
    ∃ c ∈ cs, best? cs = some c ∧ ∀ c' ∈ cs, c.norm ≤ c'.norm := by
  induction cs using List.reverseRecOn with
  | nil => exact Or.inl ⟨rfl, rfl⟩
  | append_singleton cs c ih =>
    right
    rw [best?_append]
    rcases ih with ⟨rfl, hbest⟩ | ⟨b, hb, hbest, hleast⟩
    · refine ⟨c, by simp, by rw [hbest], fun c' hc' => ?_⟩
      obtain rfl : c' = c := by simpa using hc'
      exact le_rfl
    · rw [hbest]
      dsimp only
      split_ifs with hless
      · refine ⟨c, by simp, rfl, fun c' hc' => ?_⟩
        rcases List.mem_append.mp hc' with hc' | hc'
        · exact hless.le.trans (hleast c' hc')
        · exact (List.mem_singleton.mp hc' ▸ le_rfl)
      · refine ⟨b, List.mem_append_left _ hb, rfl, fun c' hc' => ?_⟩
        rcases List.mem_append.mp hc' with hc' | hc'
        · exact hleast c' hc'
        · rw [List.mem_singleton.mp hc']
          exact not_lt.mp hless

/-! ### Candidates -/

/-- What a candidate is: a vector of the basis or its inverse, and what it leaves. -/
structure Candidate.Leaves (basis : List (ExponentVector ℚ)) (residual : ExponentVector ℚ)
    (c : Candidate ℚ) : Prop where
  index_lt : c.index < basis.length
  direction_eq : c.direction = 1 ∨ c.direction = -1
  length_residual : c.residual.length = residual.length
  getD_residual : ∀ j, c.residual.getD j 0 =
    residual.getD j 0 - c.direction * (basis.getD c.index []).getD j 0

section Candidates

variable {basis : List (ExponentVector ℚ)} {residual : ExponentVector ℚ}

lemma mem_candidates {c : Candidate ℚ} : c ∈ candidates basis residual ↔
    ∃ i v, basis[i]? = some v ∧
      (c = ⟨i, 1, subtract residual v, l1Norm (subtract residual v)⟩ ∨
        c = ⟨i, -1, add residual v, l1Norm (add residual v)⟩) := by
  simp only [candidates, List.mem_append, List.mem_map, Prod.exists, List.mem_zipIdx_iff_getElem?]
  constructor
  · rintro (⟨v, i, hv, rfl⟩ | ⟨v, i, hv, rfl⟩)
    · exact ⟨i, v, hv, Or.inl rfl⟩
    · exact ⟨i, v, hv, Or.inr rfl⟩
  · rintro ⟨i, v, hv, rfl | rfl⟩
    · exact Or.inl ⟨v, i, hv, rfl⟩
    · exact Or.inr ⟨v, i, hv, rfl⟩

lemma norm_of_mem_candidates {c : Candidate ℚ} (h : c ∈ candidates basis residual) :
    c.norm = l1Norm c.residual := by
  obtain ⟨i, v, -, rfl | rfl⟩ := mem_candidates.mp h <;> rfl

variable (hbasis : ∀ v ∈ basis, v.length = residual.length)

include hbasis in
lemma leaves_of_mem_candidates {c : Candidate ℚ} (h : c ∈ candidates basis residual) :
    c.Leaves basis residual := by
  obtain ⟨i, v, hv, hc⟩ := mem_candidates.mp h
  have hlength := hbasis v (List.mem_of_getElem? hv)
  have hlt : i < basis.length := (List.getElem?_eq_some_iff.mp hv).1
  have hget : basis.getD i [] = v := by rw [List.getD_eq_getElem?_getD, hv, Option.getD_some]
  rcases hc with rfl | rfl
  · refine ⟨hlt, Or.inl rfl, by simp [hlength], fun j => ?_⟩
    rw [getD_subtract hlength.symm, hget, one_mul]
  · refine ⟨hlt, Or.inr rfl, by simp [hlength], fun j => ?_⟩
    rw [getD_add hlength.symm, hget, neg_one_mul, sub_neg_eq_add]

end Candidates

/-! ### Steps -/

/-- How far a composition has come: what is composed and what is left. -/
structure Progress where
  result : ExponentVector ℚ
  residual : ExponentVector ℚ

/-- The next step: the best candidate is taken if it takes more than the tolerance off what is
left. -/
def step? (basis : List (ExponentVector ℚ)) (p : Progress) : Option Progress :=
  if Scalar.tolerance < l1Norm p.residual then
    (best? (candidates basis p.residual)).bind fun c =>
      if l1Norm p.residual - Scalar.tolerance ≤ c.norm then none
      else some ⟨addAt p.result c.index c.direction, c.residual⟩
  else none

/-- A run of steps. -/
abbrev Run (basis : List (ExponentVector ℚ)) : Progress → Progress → Prop :=
  Relation.ReflTransGen fun p q => step? basis p = some q

/-- What becomes of a composition when no step is left: more than the tolerance is put onto the
first dimensions, less is dropped. -/
def Progress.finish (p : Progress) : ExponentVector ℚ :=
  if Scalar.tolerance < l1Norm p.residual then addFront p.result p.residual else p.result

section Steps

variable {basis : List (ExponentVector ℚ)} {p q : Progress}

/-- What a step does. -/
lemma of_step? (h : step? basis p = some q) :
    ∃ c ∈ candidates basis p.residual, c.norm < l1Norm p.residual - Scalar.tolerance ∧
      q = ⟨addAt p.result c.index c.direction, c.residual⟩ := by
  unfold step? at h
  split_ifs at h with hnorm
  obtain ⟨c, hbest, hc⟩ := Option.bind_eq_some_iff.mp h
  split_ifs at hc with hless
  rcases best?_spec (candidates basis p.residual) with ⟨-, hnone⟩ | ⟨b, hb, hsome, -⟩
  · exact absurd (hnone.symm.trans hbest) (Option.some_ne_none c).symm
  · obtain rfl : b = c := Option.some.inj (hsome.symm.trans hbest)
    exact ⟨b, hb, not_le.mp hless, (Option.some.inj hc).symm⟩

/-- When there is a step: something is left, and some candidate takes enough off it. -/
lemma isSome_step? (hnorm : Scalar.tolerance < l1Norm p.residual) {c : Candidate ℚ}
    (hc : c ∈ candidates basis p.residual)
    (hless : c.norm < l1Norm p.residual - Scalar.tolerance) : (step? basis p).isSome := by
  unfold step?
  rw [if_pos hnorm]
  rcases best?_spec (candidates basis p.residual) with ⟨hnil, -⟩ | ⟨b, -, hsome, hleast⟩
  · rw [hnil] at hc
    exact absurd hc List.not_mem_nil
  · have hb : ¬l1Norm p.residual - Scalar.tolerance ≤ b.norm :=
      not_le.mpr ((hleast c hc).trans_lt hless)
    rw [hsome, Option.bind_some, if_neg hb]
    rfl

/-- One round of the loop is a step. -/
lemma reduce_succ (steps : ℕ) : reduce basis (steps + 1) p.result p.residual (l1Norm p.residual) =
    match step? basis p with
      | none => p.finish
      | some q => reduce basis steps q.result q.residual (l1Norm q.residual) := by
  conv_lhs => unfold reduce
  unfold step? Progress.finish
  by_cases hnorm : Scalar.tolerance < l1Norm p.residual
  · rw [if_pos hnorm, if_pos hnorm, if_pos hnorm]
    rcases best?_spec (candidates basis p.residual) with ⟨-, hnone⟩ | ⟨c, hc, hsome, -⟩
    · rw [hnone]
      rfl
    · rw [hsome, Option.bind_some]
      dsimp only
      split_ifs with hless
      · rfl
      · dsimp only
        rw [norm_of_mem_candidates hc]
  · rw [if_neg hnorm, if_neg hnorm, if_neg hnorm]

/-- **The loop ends where no step is left**, if there are as many steps allowed as there are
tolerances in what is to be composed. -/
lemma exists_run_reduce {steps : ℕ} (h : l1Norm p.residual < steps * Scalar.tolerance) :
    ∃ last, Run basis p last ∧ step? basis last = none ∧
      reduce basis steps p.result p.residual (l1Norm p.residual) = last.finish := by
  induction steps generalizing p with
  | zero =>
    rw [Nat.cast_zero, zero_mul] at h
    exact absurd h (not_lt.mpr (l1Norm_nonneg _))
  | succ steps ih =>
    rw [reduce_succ]
    rcases hstep : step? basis p with _ | q
    · exact ⟨p, Relation.ReflTransGen.refl, hstep, rfl⟩
    · obtain ⟨c, hc, hless, rfl⟩ := of_step? hstep
      have hnext : l1Norm c.residual < steps * Scalar.tolerance := by
        rw [← norm_of_mem_candidates hc]
        push_cast at h
        linarith
      obtain ⟨last, hrun, hend, hreduce⟩ := ih (p := ⟨_, c.residual⟩) hnext
      exact ⟨last, Relation.ReflTransGen.head hstep hrun, hend, hreduce⟩

/-- The steps that the loop is allowed are enough. -/
lemma lt_reductionSteps (norm : ℚ) : norm < reductionSteps norm * Scalar.tolerance := by
  have hbound : (sumBound norm : ℚ) = ⌊norm⌋₊ + 1 := by
    rw [← Int.floor_toNat]
    exact_mod_cast rfl
  have hfloor := Nat.lt_floor_add_one norm
  have hsteps : reductionSteps norm = 1000000000 * sumBound norm + 2 := rfl
  rw [hsteps, tolerance_rat]
  push_cast
  rw [hbound]
  linarith

end Steps

/-- What every step keeps, a run keeps. -/
lemma Run.preserves {basis : List (ExponentVector ℚ)} {P : Progress → Prop}
    (hstep : ∀ p q, step? basis p = some q → P p → P q) {p last : Progress} (h : Run basis p last)
    (hp : P p) : P last := by
  induction h with
  | refl => exact hp
  | tail _ hlast ih => exact hstep _ _ hlast ih

end Metrology.Dimension
