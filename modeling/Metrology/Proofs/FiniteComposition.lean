import Mathlib
import Metrology.Dimension.Shortest
import Metrology.Proofs.Finiteness

/-!
Compositions of few factors over the doubles.

What is left to compose stays finite, since only candidates with a finite sum of exponents are
taken. The factors are counted in ones, which stop at `2 ^ 53`, so that nothing becomes too large
when the rest is added. And the loop comes to an end by itself: although differences are rounded, a
sum that is less than another one by more than the tolerance is so exactly.
-/

namespace Metrology

open Double Float.Model Float.Model.UnpackedFloat

lemma isNumber_tolerance : IsNumber Scalar.tolerance (4835703278458517 / 2 ^ 82) :=
  isNumber_of_unpack_eq (m := 4835703278458517) (e := -82) (by norm_num) rfl (by norm_num)

/-! ### Sums of absolute values -/

/-- A double that is no negative number, and not below all numbers. -/
def IsNonneg (x : Float) : Prop := IsExcessive x ∨ ∃ q, IsNumber x q ∧ 0 ≤ q

lemma isNonneg_abs (x : Float) : IsNonneg (Scalar.abs x) := by
  cases hx : x.isFinite
  · exact .inl (isExcessive_scalar_abs hx)
  · obtain ⟨p, hp⟩ := exists_isNumber hx
    exact .inr ⟨_, isNumber_scalar_abs hp, abs_nonneg p⟩

lemma isExcessive_ofModel {u : UnpackedFloat} (h : u = .infinity .positive) :
    IsExcessive (.ofModel (Float.Model.pack u)) := by
  subst h
  exact .inr rfl

lemma IsNonneg.add {x y : Float} (hx : IsNonneg x) (hy : IsNonneg y) : IsNonneg (x + y) := by
  obtain (hx | hx) | ⟨p, hp, hp0⟩ := hx
  · exact .inl (.inl (hx.add_left y))
  · obtain (hy | hy) | ⟨q, ⟨hq, -⟩, -⟩ := hy
    · exact .inl (.inl (hy.add_right x))
    · refine .inl (isExcessive_ofModel ?_)
      rw [hx, hy]
      rfl
    · refine .inl (isExcessive_ofModel ?_)
      rw [hx]
      generalize y.toModel.unpack = b at hq
      cases b with
      | infinity _ | notANumber => exact hq.elim
      | zero _ | finite _ _ _ _ => rfl
  · obtain (hy | hy) | ⟨q, hq, hq0⟩ := hy
    · exact .inl (.inl (hy.add_right x))
    · refine .inl (isExcessive_ofModel ?_)
      obtain ⟨hp, -⟩ := hp
      rw [hy]
      generalize x.toModel.unpack = a at hp
      cases a with
      | infinity _ | notANumber => exact hp.elim
      | zero _ | finite _ _ _ _ => rfl
    · obtain ⟨hcanonical, hrounds⟩ := add_spec hp.canonical hq.canonical
      rw [hp.value_eq, hq.value_eq] at hrounds
      have hnonneg := hrounds.le_of_le 0 isNumber_zero.isRepresentable (add_nonneg hp0 hq0)
      by_cases hsmall : |value (UnpackedFloat.add Format.binary64 x.toModel.unpack
          y.toModel.unpack)| < 2 ^ 1024
      · exact .inr ⟨_, isNumber_ofModel hcanonical hsmall, hnonneg⟩
      · obtain ⟨s, hs, hsign⟩ := unpack_pack_of_large hcanonical hsmall
        rw [hsign hnonneg] at hs
        exact .inl (.inr hs)

namespace ExponentVector

variable {v : ExponentVector Float}

lemma isNonneg_foldl {start : Float} (h : IsNonneg start) :
    IsNonneg (v.foldl (fun sum x => sum + Scalar.abs x) start) := by
  induction v generalizing start with
  | nil => exact h
  | cons x v ih => exact ih (h.add (isNonneg_abs x))

lemma isNonneg_l1Norm (v : ExponentVector Float) : IsNonneg (l1Norm v) :=
  isNonneg_foldl (.inr ⟨0, isNumber_zero, le_rfl⟩)

lemma isFinite_of_foldl_abs {start : Float}
    (h : (v.foldl (fun sum x => sum + Scalar.abs x) start).isFinite = true) :
    start.isFinite = true ∧ ∀ x ∈ v, x.isFinite = true := by
  induction v generalizing start with
  | nil => exact ⟨h, fun _ hx => absurd hx List.not_mem_nil⟩
  | cons x v ih =>
    obtain ⟨hsum, hrest⟩ := ih h
    obtain ⟨hstart, habs⟩ := isFinite_of_add hsum
    refine ⟨hstart, List.forall_mem_cons.mpr ⟨?_, hrest⟩⟩
    by_contra hx
    rw [(isExcessive_scalar_abs (Bool.eq_false_iff.mpr hx)).isFinite] at habs
    exact Bool.false_ne_true habs

/-- A vector is finite if the sum of its absolute values is. -/
lemma all_isFinite_of_l1Norm (h : (l1Norm v).isFinite = true) : v.all Scalar.isFinite = true :=
  List.all_eq_true.mpr (isFinite_of_foldl_abs h).2

end ExponentVector

/-! ### Counts -/

/-- A whole number that counting by ones can lead to. -/
def IsCount (x : Float) : Prop := ∃ n : ℤ, IsNumber x n ∧ |n| ≤ 2 ^ 53

lemma isCount_zero : IsCount 0 := ⟨0, by exact_mod_cast isNumber_zero, by norm_num⟩

/-- Counting stops where one is only half of the distance to the next double. -/
lemma isNumber_max_add {x y : Float} {s : ℤ} (hx : IsNumber x (s * 2 ^ 53)) (hy : IsNumber y s)
    (hs : s = 1 ∨ s = -1) : IsNumber (x + y) (s * 2 ^ 53) := by
  have hsum (x' y' : Float) (hx' : IsNumber x' (s * 2 ^ 53)) (hy' : IsNumber y' s) :
      x + y = x' + y' := by
    show Float.ofModel (Float.Model.pack
      (UnpackedFloat.add _ x.toModel.unpack y.toModel.unpack)) = _
    rw [hx.unpack_eq hx' (by rcases hs with rfl | rfl <;> norm_num),
      hy.unpack_eq hy' (by rcases hs with rfl | rfl <;> norm_num)]
    rfl
  have hmax : IsNumber 9007199254740992 (2 ^ 53) :=
    isNumber_of_unpack_eq (m := 2 ^ 52) (e := 1) (by norm_num) rfl (by norm_num)
  have hstop : IsNumber (9007199254740992 + 1) (2 ^ 53) :=
    isNumber_of_unpack_eq (m := 2 ^ 52) (e := 1) (by norm_num) rfl (by norm_num)
  rcases hs with rfl | rfl
  · rw [hsum 9007199254740992 1 (by simpa using hmax) (by simpa using isNumber_one)]
    simpa using hstop
  · rw [hsum (-9007199254740992) (-1) (by simpa using hmax.neg) (by simpa using isNumber_one.neg)]
    have hopposite : (-9007199254740992 + -1 : Float) = -(9007199254740992 + 1) := rfl
    rw [hopposite]
    simpa using hstop.neg

lemma IsCount.add {x y : Float} {k : ℤ} (hx : IsCount x) (hy : IsNumber y k) (hk : |k| = 1) :
    IsCount (x + y) := by
  obtain ⟨n, hn, hmax⟩ := hx
  by_cases hnext : |n + k| ≤ 2 ^ 53
  · have hnextq : |((n : ℚ) + k)| ≤ 2 ^ 64 := by
      exact_mod_cast hnext.trans (by norm_num : (2 : ℤ) ^ 53 ≤ 2 ^ 64)
    obtain ⟨v, hv, hrounds⟩ := hn.add hy (inRange_of_abs_le hnextq)
    have hexact := hrounds.eq (by exact_mod_cast isRepresentable_intCast hnext)
    exact ⟨n + k, by rw [hexact] at hv; exact_mod_cast hv, hnext⟩
  · have hn' : n = k * 2 ^ 53 := by
      rcases (abs_eq zero_le_one).mp hk with rfl | rfl <;> rw [abs_le] at * <;> omega
    have hmaximal : IsNumber x (k * 2 ^ 53) := by
      rw [hn'] at hn
      exact_mod_cast hn
    have hsum := isNumber_max_add hmaximal hy ((abs_eq zero_le_one).mp hk)
    exact ⟨n, by rw [hn']; exact_mod_cast hsum, hmax⟩

/-- A count leaves room for every finite number. -/
lemma IsCount.isFinite_add {x y : Float} (hx : IsCount x) (hy : y.isFinite = true) :
    (x + y).isFinite = true := by
  obtain ⟨n, hn, hmax⟩ := hx
  obtain ⟨q, hq⟩ := exists_isNumber hy
  rw [hn.isFinite_add_iff hq]
  have hcount : |(n : ℚ)| ≤ 2 ^ 53 := by exact_mod_cast hmax
  have hroom : (2 : ℚ) ^ 53 < 2 ^ 970 := pow_lt_pow_right₀ one_lt_two (by norm_num)
  have hle := hq.isRepresentable.abs_le hq.abs_lt
  have hsum := abs_add_le (n : ℚ) q
  unfold InRange
  generalize (2 : ℚ) ^ 970 = u at hroom hle ⊢
  generalize (2 : ℚ) ^ 1024 = top at hle ⊢
  linarith

namespace Dimension

variable {r : Registry Float} {basis : List (ExponentVector Float)}

/-- The best candidate is one of the candidates, and what it leaves is finite. -/
lemma mem_and_isFinite_of_best? {candidates : List (Candidate Float)} {c : Candidate Float}
    (hnonneg : ∀ c ∈ candidates, IsNonneg c.norm) (h : best? candidates = some c) :
    c ∈ candidates ∧ c.norm.isFinite = true := by
  have hfold : ∀ b, best? candidates = some b → b ∈ candidates ∧ b.norm.isFinite = true := by
    refine List.foldlRecOn candidates _
      (motive := fun best => ∀ b, best = some b → b ∈ candidates ∧ b.norm.isFinite = true)
      (fun b hb => absurd hb (by simp)) ?_
    intro best hbest c hc b hb
    split at hb
    · split_ifs at hb with hfinite
      obtain rfl := Option.some.inj hb
      exact ⟨hc, hfinite⟩
    · rename_i b'
      obtain ⟨hmem, hfinite⟩ := hbest b' rfl
      split_ifs at hb with hlt
      · obtain rfl := Option.some.inj hb
        obtain ⟨q, hq⟩ := exists_isNumber hfinite
        -- what is not finite is not below the best sum so far
        obtain hexcessive | ⟨p, hp, -⟩ := hnonneg c hc
        · exact absurd hlt (hexcessive.not_lt hq)
        · exact ⟨hc, hp.isFinite⟩
      · exact hbest b hb
  exact hfold c h

lemma of_mem_candidates {residual : ExponentVector Float} {c : Candidate Float}
    (h : c ∈ candidates basis residual) : c.norm = ExponentVector.l1Norm c.residual ∧
      ∃ k : ℤ, IsNumber c.direction k ∧ |k| = 1 := by
  unfold candidates at h
  rcases List.mem_append.mp h with h | h
  · obtain ⟨_, -, rfl⟩ := List.mem_map.mp h
    exact ⟨rfl, 1, by exact_mod_cast isNumber_one, rfl⟩
  · obtain ⟨_, -, rfl⟩ := List.mem_map.mp h
    exact ⟨rfl, -1, by exact_mod_cast isNumber_one.neg, rfl⟩

/-- The best of all factors that can be taken is one of them, and what it leaves is finite. -/
lemma of_best?_candidates {residual : ExponentVector Float} {c : Candidate Float}
    (h : best? (candidates basis residual) = some c) :
    c ∈ candidates basis residual ∧ c.norm.isFinite = true := by
  refine mem_and_isFinite_of_best? (fun c hc => ?_) h
  rw [(of_mem_candidates hc).1]
  exact ExponentVector.isNonneg_l1Norm _

/-- The rest of a composition can be added to what has been counted. -/
lemma all_isFinite_addFront {result residual : ExponentVector Float}
    (hresult : ∀ x ∈ result, IsCount x) (hresidual : residual.all Scalar.isFinite = true) :
    (addFront result residual).all Scalar.isFinite = true := by
  induction result generalizing residual with
  | nil => cases residual <;> rfl
  | cons x result ih =>
    obtain ⟨hx, hresult⟩ := List.forall_mem_cons.mp hresult
    cases residual with
    | nil =>
      refine List.all_eq_true.mpr (List.forall_mem_cons.mpr ⟨?_, fun y hy => ?_⟩)
      · obtain ⟨n, hn, -⟩ := hx
        exact hn.isFinite
      · obtain ⟨n, hn, -⟩ := hresult y hy
        exact hn.isFinite
    | cons y residual =>
      obtain ⟨hy, hresidual⟩ := Bool.and_eq_true_iff.mp hresidual
      exact Bool.and_eq_true_iff.mpr ⟨hx.isFinite_add hy, ih hresult hresidual⟩

lemma all_isFinite_reduce {steps : ℕ} {result residual : ExponentVector Float} {norm : Float}
    (hresult : ∀ x ∈ result, IsCount x) (hresidual : residual.all Scalar.isFinite = true) :
    (reduce basis steps result residual norm).all Scalar.isFinite = true := by
  have hcounts {result : ExponentVector Float} (h : ∀ x ∈ result, IsCount x) :
      result.all Scalar.isFinite = true := List.all_eq_true.mpr fun x hx => by
    obtain ⟨n, hn, -⟩ := h x hx
    exact hn.isFinite
  induction steps generalizing result residual norm with
  | zero => exact hcounts hresult
  | succ steps ih =>
    unfold reduce
    split_ifs with hnorm
    · split
      · exact all_isFinite_addFront hresult hresidual
      · rename_i c hc
        split_ifs
        · exact all_isFinite_addFront hresult hresidual
        · obtain ⟨hmem, hfinite⟩ := of_best?_candidates hc
          obtain ⟨hl1, k, hk, hone⟩ := of_mem_candidates hmem
          rw [hl1] at hfinite
          refine ih (fun x hx => ?_) (ExponentVector.all_isFinite_of_l1Norm hfinite)
          obtain ⟨i, hi, rfl⟩ := List.getElem_of_mem hx
          have hi' : i < result.length := by rwa [addAt, List.length_modify] at hi
          have hmodify : (addAt result c.index c.direction)[i] =
              if c.index = i then result[i] + c.direction else result[i] :=
            List.getElem_modify _ _ _ _ _
          rw [hmodify]
          have hcount := hresult _ (List.getElem_mem hi')
          split_ifs
          · exact hcount.add hk hone
          · exact hcount
    · exact hcounts hresult

/-- **Compositions of few factors** are finite where the dimension can be composed of primary
ones. -/
lemma isFinite_shortest {d primary : Dimension r} (h : d.toPrimary = .ok primary) :
    d.shortest.isFinite = true := by
  refine all_isFinite_reduce (fun x hx => ?_) (all_isFinite_of_toPrimary h)
  obtain rfl := List.eq_of_mem_replicate hx
  exact isCount_zero

/-! ### The end of the loop -/

section

variable {α : Type} [Scalar α]

/-- Whether the taking of factors comes to an end within a number of steps. -/
def ReducesWithin (basis : List (ExponentVector α)) : ℕ → ExponentVector α → α → Prop
  | 0, _, _ => False
  | steps + 1, residual, norm => Scalar.tolerance < norm →
    ∀ c, best? (candidates basis residual) = some c → ¬norm - Scalar.tolerance ≤ c.norm →
      ReducesWithin basis steps c.residual c.norm

/-- More steps than it takes to come to the end change nothing. -/
lemma ReducesWithin.reduce_eq {basis : List (ExponentVector α)} {n m : ℕ}
    {result residual : ExponentVector α} {norm : α} (h : ReducesWithin basis n residual norm)
    (hle : n ≤ m) : reduce basis m result residual norm = reduce basis n result residual norm := by
  induction n generalizing m result residual norm with
  | zero => exact h.elim
  | succ n ih =>
    cases m with
    | zero => exact absurd hle (Nat.not_succ_le_zero n)
    | succ m =>
      unfold reduce
      split_ifs with hnorm
      · split
        · rfl
        · rename_i c hc
          split_ifs with hless
          · rfl
          · exact ih (h hnorm c hc hless) (Nat.le_of_succ_le_succ hle)
      · rfl

lemma ReducesWithin.succ {basis : List (ExponentVector α)} {n : ℕ} {residual : ExponentVector α}
    {norm : α} (h : ReducesWithin basis n residual norm) :
    ReducesWithin basis (n + 1) residual norm := by
  induction n generalizing residual norm with
  | zero => exact h.elim
  | succ n ih => exact fun hnorm c hc hless => ih (h hnorm c hc hless)

/-- Whether the composing of few factors comes to an end within the steps that it is allowed. -/
def ShortestEnds {r : Registry α} (d : Dimension r) : Prop :=
  ReducesWithin r.basis (reductionSteps (ExponentVector.l1Norm d.primary)) d.primary
    (ExponentVector.l1Norm d.primary)

end

/-- A sum that is below the rounded difference of another one and the tolerance is below the exact
one: it is a double itself, and no rounding goes past it. -/
lemma lt_of_not_sub_tolerance_le {x y : Float} {p q : ℚ} (hx : IsNumber x q) (hy : IsNumber y p)
    (hlt : Scalar.tolerance < x) (h : ¬x - Scalar.tolerance ≤ y) :
    p < q - 4835703278458517 / 2 ^ 82 := by
  have hpos := (isNumber_tolerance.lt_iff hx).mp hlt
  have hrange : InRange (q - 4835703278458517 / 2 ^ 82) := by
    refine hx.inRange.of_abs_le ?_
    rw [abs_of_pos (by linarith), abs_of_pos (by linarith)]
    linarith
  obtain ⟨u, hu, hrounds⟩ := hx.sub isNumber_tolerance hrange
  by_contra hge
  exact h ((hu.le_iff hy).mpr (hrounds.ge_of_ge p hy.isRepresentable (not_lt.mp hge)))

/-- From a finite sum on, there are at most as many steps as it holds tolerances. -/
lemma reducesWithin_of_le {n : ℕ} {residual : ExponentVector Float} {norm : Float} {q : ℚ}
    (hnorm : IsNumber norm q) (h : q ≤ n * (4835703278458517 / 2 ^ 82)) :
    ReducesWithin basis (n + 1) residual norm := by
  induction n generalizing residual norm q with
  | zero =>
    intro hlt
    have hpos := (isNumber_tolerance.lt_iff hnorm).mp hlt
    rw [Nat.cast_zero, zero_mul] at h
    exact absurd hpos (not_lt.mpr (h.trans (by norm_num)))
  | succ n ih =>
    intro hlt c hc hless
    obtain ⟨-, hfinite⟩ := of_best?_candidates hc
    obtain ⟨p, hp⟩ := exists_isNumber hfinite
    have hp' := lt_of_not_sub_tolerance_le hnorm hp hlt hless
    refine ih hp ?_
    push_cast at h
    linarith

/-- From a number of ones on, there are at most a billion times as many steps. -/
lemma reducesWithin_of_le_natCast {n : ℕ} {residual : ExponentVector Float} {norm : Float} {q : ℚ}
    (hnorm : IsNumber norm q) (h : q ≤ n) :
    ReducesWithin basis (tenTo 9 * n + 1) residual norm := by
  refine reducesWithin_of_le hnorm (h.trans ?_)
  have hn : (0 : ℚ) ≤ n := n.cast_nonneg
  rw [show tenTo 9 = 1000000000 from rfl]
  push_cast
  norm_num
  linarith

lemma le_sumBound {norm : Float} {q : ℚ} (h : IsNumber norm q) : q ≤ sumBound norm := by
  have hbound : sumBound norm = ⌊q⌋₊ + 1 :=
    (if_pos h.isFinite).trans (by rw [Scalar.toNatFloor, h.toRat?, ← Int.floor_toNat]; rfl)
  rw [hbound, Nat.cast_succ]
  exact (Nat.lt_floor_add_one q).le

lemma sumBound_of_not_finite {norm : Float} (h : norm.isFinite = false) :
    (sumBound norm : ℚ) = 2 ^ 1024 := by
  have hnot : ¬Scalar.isFinite norm = true := Bool.eq_false_iff.mp h
  simp only [sumBound, if_neg hnot, twoTo, Nat.pow_eq, Nat.cast_pow, Nat.cast_ofNat]

/-- **The loop comes to an end**, from whatever sum it starts. -/
lemma shortestEnds (d : Dimension r) : d.ShortestEnds := by
  unfold ShortestEnds reductionSteps
  generalize ExponentVector.l1Norm d.primary = norm
  have hends {residual : ExponentVector Float} {x : Float} {q : ℚ} (hx : IsNumber x q)
      (h : q ≤ sumBound norm) : ReducesWithin r.basis (tenTo 9 * sumBound norm + 1) residual x :=
    reducesWithin_of_le_natCast hx h
  generalize tenTo 9 * sumBound norm = n at hends ⊢
  cases hfinite : norm.isFinite with
  | true =>
    obtain ⟨q, hq⟩ := exists_isNumber hfinite
    exact (hends hq (le_sumBound hq)).succ
  | false =>
    -- what is left after one step is finite
    intro _ c hc _
    obtain ⟨p, hp⟩ := exists_isNumber (of_best?_candidates hc).2
    refine hends hp ?_
    rw [sumBound_of_not_finite hfinite]
    exact (le_abs_self p).trans hp.abs_lt.le

end Dimension

end Metrology
