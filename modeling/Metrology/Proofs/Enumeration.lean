import Mathlib
import Metrology.Proofs.Combinations

/-!
Choices of indices, one after the other.

A step to the next choice is taken behind the first index whenever there is a next choice of the
others, and raises the first index only when they are as high as they can get. So the steps go
through the choices in the order in which their recursive definition lists them, which is the
lexicographic one, and come to an end with the last.
-/

namespace Metrology

/-- Whether a list holds what comes one after the other from a start on, until nothing comes
next. -/
inductive Unfolds {β : Type} (next : β → Option β) : Option β → List β → Prop
  | done : Unfolds next none []
  | more {x : β} {xs : List β} (h : Unfolds next (next x) xs) : Unfolds next (some x) (x :: xs)

/-- What a run yields is settled by where it starts. -/
lemma Unfolds.unique {β : Type} {next : β → Option β} {start : Option β} {xs ys : List β}
    (hx : Unfolds next start xs) (hy : Unfolds next start ys) : xs = ys := by
  induction hx generalizing ys with
  | done =>
    cases hy
    rfl
  | more _ ih =>
    cases hy with
    | more h => rw [ih h]

/-! ### One step -/

/-- The places behind the first one are scanned before it. -/
lemma lastWithRoom_cons {n i : ℕ} {choice : List ℕ} (h : choice.length < n) :
    lastWithRoom n (i :: choice) =
      ((lastWithRoom n choice).map (· + 1)).or
        (if i + (choice.length + 1) = n then none else some 0) := by
  have hplaces : (List.range (choice.length + 1)).reverse =
      (List.range choice.length).reverse.map (· + 1) ++ [0] := by
    rw [List.range_succ_eq_map, List.reverse_cons, List.map_reverse]
  have hroom : ∀ place, n - (choice.length + 1) + (place + 1) = n - choice.length + place := by
    omega
  have hfirst : (i = n - (choice.length + 1)) ↔ i + (choice.length + 1) = n := by omega
  unfold lastWithRoom
  rw [List.length_cons, hplaces, List.find?_append, List.find?_map]
  congr 1
  · simp only [Function.comp_def, hroom, List.getD_cons_succ]
  · simp [hfirst]

lemma nextChoice_nil (n : ℕ) : nextChoice n [] = none := rfl

/-- What comes after the choices that begin with `i`: the lowest one that begins higher, if there is
still room for `k` indices behind. -/
def raisedChoice (n i k : ℕ) : Option (List ℕ) :=
  if i + (k + 1) = n then none else some (List.range' (i + 1) (k + 1))

/-- A step is taken behind the first index if it can be. -/
lemma nextChoice_cons {n i : ℕ} {choice : List ℕ} (h : choice.length < n) :
    nextChoice n (i :: choice) =
      ((nextChoice n choice).map (i :: ·)).or (raisedChoice n i choice.length) := by
  unfold nextChoice raisedChoice
  rw [lastWithRoom_cons h]
  rcases lastWithRoom n choice with _ | place
  · split_ifs <;> simp
  · simp

example : nextChoice 4 [0, 3] = some [1, 2] := by decide

/-! ### The whole run -/

/-- Behind a first index the steps are those of the others, until that index is raised. -/
lemma Unfolds.behind {n k i : ℕ} {start : Option (List ℕ)} {choices others : List (List ℕ)}
    (h : Unfolds (nextChoice n) start choices) (hlength : ∀ c ∈ choices, c.length = k) (hk : k < n)
    (hothers : Unfolds (nextChoice n) (raisedChoice n i k) others) :
    Unfolds (nextChoice n) ((start.map (i :: ·)).or (raisedChoice n i k))
      (choices.map (i :: ·) ++ others) := by
  induction h with
  | done => exact hothers
  | @more c rest _ ih =>
    obtain rfl : c.length = k := hlength c List.mem_cons_self
    refine Unfolds.more ?_
    rw [nextChoice_cons hk]
    exact ih fun c hc => hlength c (List.mem_cons_of_mem _ hc)

lemma unfolds_empty (n : ℕ) (xs : List ℕ) :
    Unfolds (nextChoice n) (some []) (combinations xs 0) := by
  rw [combinations]
  refine .more ?_
  rw [nextChoice_nil]
  exact .done

/-- From the lowest choice of the indices from `low` on, the steps go through all of them. -/
lemma unfolds_combinations {n low m k : ℕ} (hn : low + m = n) (hk : k ≤ m) :
    Unfolds (nextChoice n) (some (List.range' low k)) (combinations (List.range' low m) k) := by
  -- the end of the indices stays, and their beginning rises
  induction m generalizing low k with
  | zero =>
    obtain rfl : k = 0 := Nat.le_zero.mp hk
    exact unfolds_empty n _
  | succ m ih =>
    rcases k with _ | k
    · exact unfolds_empty n _
    have hrest : low + 1 + m = n := by omega
    have hothers : Unfolds (nextChoice n) (raisedChoice n low k)
        (combinations (List.range' (low + 1) m) (k + 1)) := by
      unfold raisedChoice
      split_ifs with hlast
      · rw [combinations_eq_nil (by rw [List.length_range']; omega)]
        exact .done
      · exact ih hrest (by omega)
    rw [List.range'_succ, List.range'_succ, combinations_cons]
    exact (ih hrest (Nat.le_of_succ_le_succ hk)).behind (fun c hc => (mem_combinations.mp hc).2)
      (by omega) hothers

lemma unfolds_firstChoice (n k : ℕ) :
    Unfolds (nextChoice n) (firstChoice n k) (combinations (List.range n) k) := by
  unfold firstChoice
  split_ifs with hlt
  · rw [combinations_eq_nil (by rwa [List.length_range])]
    exact .done
  · rw [List.range_eq_range', List.range_eq_range']
    exact unfolds_combinations (Nat.zero_add n) (not_lt.mp hlt)

/-! ### What is enumerated, and in which order -/

lemma sublist_range_iff {n : ℕ} {choice : List ℕ} :
    choice.Sublist (List.range n) ↔ choice.SortedLT ∧ ∀ i ∈ choice, i < n := by
  constructor
  · intro hsub
    exact ⟨((List.sortedLT_range n).pairwise.sublist hsub).sortedLT,
      fun i hi => List.mem_range.mp (hsub.subset hi)⟩
  · rintro ⟨hsorted, hlt⟩
    exact List.sublist_of_subperm_of_sortedLE
      (List.subperm_of_subset hsorted.nodup fun i hi => List.mem_range.mpr (hlt i hi))
      hsorted.sortedLE (List.sortedLT_range n).sortedLE

/-- Combinations of increasing members are in lexicographic order. -/
lemma sortedLT_combinations {xs : List ℕ} (h : xs.SortedLT) (k : ℕ) :
    (combinations xs k).SortedLT := by
  rw [List.sortedLT_iff_pairwise] at h ⊢
  induction xs generalizing k with
  | nil => rcases k with _ | k <;> simp [combinations]
  | cons x xs ih =>
    rcases k with _ | k
    · simp [combinations]
    obtain ⟨hx, hxs⟩ := List.pairwise_cons.mp h
    rw [combinations_cons, List.pairwise_append]
    refine ⟨List.pairwise_map.mpr ((ih hxs k).imp List.cons_lt_cons_self.mpr), ih hxs (k + 1), ?_⟩
    intro c hc d hd
    obtain ⟨c, -, rfl⟩ := List.mem_map.mp hc
    obtain ⟨hsub, hlength⟩ := mem_combinations.mp hd
    obtain ⟨y, d, rfl⟩ := List.exists_cons_of_length_eq_add_one hlength
    exact List.cons_lt_cons_iff.mpr (.inl (hx y (hsub.subset List.mem_cons_self)))

/-! ### How many there are -/

/-- Every division on the way to a binomial coefficient is one without a remainder. -/
lemma binomialSteps_succ_exact {n step : ℕ} (h : step < n) :
    ∃ quotient : ℕ, binomialSteps (n : ℚ) (step + 1) = quotient ∧
      binomialSteps (n : ℚ) step * (n - (step + 1 : ℕ) + 1) = quotient * (step + 1 : ℕ) := by
  have hne : ((step + 1 : ℕ) : ℚ) ≠ 0 := by exact_mod_cast Nat.succ_ne_zero step
  refine ⟨n.choose (step + 1), binomialSteps_natCast h, ?_⟩
  rw [← binomialSteps_natCast h, binomialSteps, ofNat_rat, div_mul_cancel₀ _ hne]

/-- **Enumeration.** From the first choice on, the steps yield the combinations of the indices below
`n` and then come to an end. These are the increasing lists of `k` such indices, each once and in
lexicographic order, and the binomial coefficient, in whose product every division is exact, is
their number. -/
theorem combinations_enumerated (n k : ℕ) :
    (∀ choices, Unfolds (nextChoice n) (firstChoice n k) choices ↔
      choices = combinations (List.range n) k) ∧
    (∀ choice, choice ∈ combinations (List.range n) k ↔
      choice.length = k ∧ choice.SortedLT ∧ ∀ i ∈ choice, i < n) ∧
    (combinations (List.range n) k).Nodup ∧
    (combinations (List.range n) k).SortedLT ∧
    (∀ step < min k (n - k), ∃ quotient : ℕ, binomialSteps (n : ℚ) (step + 1) = quotient ∧
      binomialSteps (n : ℚ) step * (n - (step + 1 : ℕ) + 1) = quotient * (step + 1 : ℕ)) ∧
    binomial (n : ℚ) k = (combinations (List.range n) k).length := by
  have hsorted := sortedLT_combinations (List.sortedLT_range n) k
  refine ⟨fun choices => ⟨fun h => h.unique (unfolds_firstChoice n k), ?_⟩, fun choice => ?_,
    hsorted.nodup, hsorted, fun step hstep => binomialSteps_succ_exact (by omega), ?_⟩
  · rintro rfl
    exact unfolds_firstChoice n k
  · rw [mem_combinations, sublist_range_iff]
    exact and_comm
  · rw [binomial_natCast, length_combinations, List.length_range]

end Metrology
