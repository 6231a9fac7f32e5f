import Mathlib
import Metrology.Dimension.Equivalents
import Metrology.Proofs.Rational

/-!
What is combined: the choices of a number of members of a list are its sublists of that length, as
many as the binomial coefficient says. A budget keeps the first of them.
-/

namespace Metrology

/-- A list that is too short offers no choice. -/
lemma combinations_eq_nil {β : Type} {xs : List β} {k : ℕ} (h : xs.length < k) :
    combinations xs k = [] := by
  rcases k with _ | k
  · exact absurd h (Nat.not_lt_zero _)
  rcases xs with _ | ⟨x, xs⟩
  · rw [combinations]
  · rw [combinations, if_pos (Nat.lt_of_succ_lt_succ h)]

/-- The choices with the first member come before those without it. -/
lemma combinations_cons {β : Type} (x : β) (xs : List β) (k : ℕ) :
    combinations (x :: xs) (k + 1) =
      (combinations xs k).map (x :: ·) ++ combinations xs (k + 1) := by
  rw [combinations]
  split_ifs with hshort
  · rw [combinations_eq_nil hshort, combinations_eq_nil (hshort.trans (Nat.lt_succ_self k))]
    rfl
  · rfl

lemma mem_combinations_zero {β : Type} {xs c : List β} :
    c ∈ combinations xs 0 ↔ c.Sublist xs ∧ c.length = 0 := by
  rw [combinations, List.mem_singleton, List.length_eq_zero_iff]
  exact ⟨fun h => ⟨h ▸ List.nil_sublist xs, h⟩, And.right⟩

lemma mem_combinations {β : Type} {xs c : List β} {k : ℕ} :
    c ∈ combinations xs k ↔ c.Sublist xs ∧ c.length = k := by
  induction xs generalizing c k with
  | nil =>
    rcases k with _ | k
    · exact mem_combinations_zero
    · rw [combinations]
      refine ⟨fun h => absurd h List.not_mem_nil, fun h => ?_⟩
      have hlength := h.2
      rw [List.sublist_nil.mp h.1] at hlength
      exact absurd hlength (Nat.succ_ne_zero k).symm
  | cons x xs ih =>
    rcases k with _ | k
    · exact mem_combinations_zero
    rw [combinations_cons, List.mem_append, List.mem_map, List.sublist_cons_iff, ih]
    constructor
    · rintro (⟨c, hc, rfl⟩ | ⟨hsub, hlength⟩)
      · obtain ⟨hsub, hlength⟩ := ih.mp hc
        exact ⟨Or.inr ⟨c, rfl, hsub⟩, by rw [List.length_cons, hlength]⟩
      · exact ⟨Or.inl hsub, hlength⟩
    · rintro ⟨hsub | ⟨c, rfl, hsub⟩, hlength⟩
      · exact Or.inr ⟨hsub, hlength⟩
      · exact Or.inl ⟨c, ih.mpr ⟨hsub, by simpa using hlength⟩, rfl⟩

/-! ### Numbers of choices -/

lemma length_combinations {β : Type} (xs : List β) (k : ℕ) :
    (combinations xs k).length = xs.length.choose k := by
  induction xs generalizing k with
  | nil => rcases k with _ | k <;> simp [combinations]
  | cons x xs ih =>
    rcases k with _ | k
    · simp [combinations]
    rw [combinations_cons, List.length_append, List.length_map, ih, ih, List.length_cons,
      Nat.choose_succ_succ]

/-- A budget keeps the first choices. -/
lemma combinationsUpTo_eq_take {β : Type} (budget : ℕ) (xs : List β) (k : ℕ) :
    combinationsUpTo budget xs k = (combinations xs k).take budget := by
  induction xs generalizing budget k with
  | nil =>
    rcases budget with _ | budget <;> rcases k with _ | k <;> simp [combinationsUpTo, combinations]
  | cons x xs ih =>
    rcases budget with _ | budget
    · simp [combinationsUpTo]
    rcases k with _ | k
    · simp [combinationsUpTo, combinations]
    rw [combinationsUpTo, combinations]
    split_ifs with hshort
    · rfl
    · -- what the choices with the first member leave of the budget
      have hrest : budget + 1 - min (budget + 1) (combinations xs k).length =
          budget + 1 - (combinations xs k).length := by omega
      dsimp only
      rw [List.take_append, ih, ih, List.length_map, List.length_map, List.length_take, hrest,
        List.map_take]

lemma binomialSteps_natCast {n k : ℕ} (h : k ≤ n) : binomialSteps (n : ℚ) k = n.choose k := by
  induction k with
  | zero => simp [binomialSteps]
  | succ k ih =>
    have hstep : (n.choose (k + 1) : ℚ) * (k + 1) = n.choose k * (n - k) := by
      have hnat := Nat.choose_succ_right_eq n k
      rw [← Nat.cast_sub (by omega : k ≤ n)]
      exact_mod_cast hnat
    have hne : (k + 1 : ℚ) ≠ 0 := by positivity
    rw [binomialSteps, ih (by omega), ofNat_rat]
    push_cast
    rw [div_eq_iff hne, hstep]
    ring

/-- The product of quotients is the binomial coefficient. -/
lemma binomial_natCast (n k : ℕ) : binomial (n : ℚ) k = n.choose k := by
  unfold binomial
  split_ifs with h
  · have hlt : n < k := by
      rcases h with h | h
      · exact absurd h (not_lt.mpr (Nat.cast_nonneg k))
      · exact_mod_cast h
    rw [Nat.choose_eq_zero_of_lt hlt, Nat.cast_zero]
  · have hle : k ≤ n := by
      by_contra hlt
      exact h (Or.inr (by exact_mod_cast not_le.mp hlt))
    have hmin : Scalar.min (k : ℚ) (n - k) = (min k (n - k) : ℕ) := by
      rw [Nat.cast_min, Nat.cast_sub hle]
      unfold Scalar.min
      split_ifs with hk hn
      · exact (min_eq_left hk).symm
      · exact (min_eq_right hn).symm
      · exact absurd (le_total _ _) (not_or.mpr ⟨hk, hn⟩)
    have hfloor (m : ℕ) : Scalar.toNatFloor (m : ℚ) = m := by
      show (⌊(m : ℚ)⌋).toNat = m
      rw [Int.floor_natCast, Int.toNat_natCast]
    have hsymm : n.choose (min k (n - k)) = n.choose k := by
      rcases min_choice k (n - k) with hchoice | hchoice
      · rw [hchoice]
      · rw [hchoice, Nat.choose_symm hle]
    rw [hmin, hfloor, binomialSteps_natCast (by omega), hsymm, round_rat, ← Int.cast_natCast,
      round_intCast]

namespace Dimension

/-- How many systems may be solved: any number if there is no bound. -/
def budget (maxCombinations : Option ℕ) : ℕ∞ := maxCombinations.elim ⊤ Nat.cast

section Systems

variable {α : Type} (r : Registry α)

lemma systems_some (n : ℕ) : systems r (some n) = (systems r none).take n :=
  combinationsUpTo_eq_take _ _ _

/-- A smaller budget solves the first of the systems that a larger one solves. -/
lemma isPrefix_systems {m m' : Option ℕ} (h : budget m ≤ budget m') :
    systems r m <+: systems r m' := by
  rcases m' with _ | n'
  · rcases m with _ | n
    · exact List.prefix_refl _
    · rw [systems_some]
      exact List.take_prefix _ _
  · rcases m with _ | n
    · exact absurd h (by simp [budget])
    · rw [systems_some, systems_some]
      exact List.take_prefix_take_left (by simpa [budget] using h)

lemma length_systems (m : Option ℕ) :
    ((systems r m).length : ℕ∞) = min (budget m) (r.dimensionCount.choose primaryCount : ℕ) := by
  have hall : (systems r none).length = r.dimensionCount.choose primaryCount := by
    refine (length_combinations _ _).trans ?_
    simp [Registry.basis, Registry.dimensionCount]
  rcases m with _ | n
  · simp [hall, budget]
  · rw [systems_some, List.length_take, hall]
    exact Nat.mono_cast.map_min

end Systems

variable {r : Registry ℚ}

/-- The systems of a search that is not cut short: any seven places, each with its vector. -/
lemma mem_systems {chosen : List (ℕ × ExponentVector ℚ)} :
    chosen ∈ systems r none ↔ ∃ places : List ℕ, places.Sublist (List.range r.dimensionCount) ∧
      places.length = primaryCount ∧ chosen = places.map fun i => (i, r.basis.getD i []) := by
  have hentries : r.basis.zipIdx.map (fun (v, index) => (index, v)) =
      (List.range r.dimensionCount).map fun i => (i, r.basis.getD i []) := by
    refine List.ext_getElem (by simp [Registry.basis, Registry.dimensionCount]) fun i hi _ => ?_
    have hi' : i < r.basis.length := by simpa using hi
    simp [hi']
  unfold systems
  rw [mem_combinations, hentries, List.sublist_map_iff]
  constructor
  · rintro ⟨⟨places, hsub, rfl⟩, hlength⟩
    exact ⟨places, hsub, by simpa using hlength, rfl⟩
  · rintro ⟨places, hsub, hlength, rfl⟩
    exact ⟨⟨places, hsub, rfl⟩, by simpa using hlength⟩

end Dimension

end Metrology
