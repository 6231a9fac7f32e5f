import Mathlib

/-!
Lists that are read place by place, and lists whose members are computed one after the other, up to
the first that fails.
-/

namespace Metrology

variable {β γ : Type}

/-- What holds of all members, and of what stands for a missing one, holds at every place. -/
lemma getD_of_forall_mem {p : β → Prop} {xs : List β} {missing : β} (hmissing : p missing)
    (h : ∀ x ∈ xs, p x) (i : ℕ) : p (xs.getD i missing) := by
  rcases lt_or_ge i xs.length with hi | hi
  · rw [List.getD_eq_getElem _ _ hi]
    exact h _ (List.getElem_mem hi)
  · rw [List.getD_eq_default _ _ hi]
    exact hmissing

lemma getElem?_map_range {f : ℕ → β} {n i : ℕ} {x : β} :
    ((List.range n).map f)[i]? = some x ↔ i < n ∧ f i = x := by
  rw [List.getElem?_map, Option.map_eq_some_iff]
  simp only [List.getElem?_eq_some_iff, List.getElem_range, List.length_range, exists_prop]
  constructor
  · rintro ⟨_, ⟨hi, rfl⟩, hx⟩
    exact ⟨hi, hx⟩
  · rintro ⟨hi, hx⟩
    exact ⟨i, ⟨hi, rfl⟩, hx⟩

lemma exists_of_forall₂ {R : β → γ → Prop} {xs : List β} {ys : List γ}
    (h : List.Forall₂ R xs ys) {x : β} (hx : x ∈ xs) : ∃ y ∈ ys, R x y := by
  induction h with
  | nil => exact absurd hx List.not_mem_nil
  | cons hfirst _ ih =>
    rcases List.mem_cons.mp hx with rfl | hx
    · exact ⟨_, List.mem_cons_self, hfirst⟩
    · obtain ⟨y, hy, hR⟩ := ih hx
      exact ⟨y, List.mem_cons_of_mem _ hy, hR⟩

lemma exists_forall₂ {R : β → γ → Prop} {xs : List β} (h : ∀ x ∈ xs, ∃ y, R x y) :
    ∃ ys, List.Forall₂ R xs ys := by
  induction xs with
  | nil => exact ⟨[], .nil⟩
  | cons x xs ih =>
    rw [List.forall_mem_cons] at h
    obtain ⟨⟨y, hy⟩, hrest⟩ := h
    obtain ⟨ys, hys⟩ := ih hrest
    exact ⟨y :: ys, .cons hy hys⟩

lemma exists_of_mapM {f : β → Option γ} {xs : List β} {ys : List γ} (h : xs.mapM f = some ys)
    {y : γ} (hy : y ∈ ys) : ∃ x ∈ xs, f x = some y := by
  induction xs generalizing ys with
  | nil =>
    obtain rfl : [] = ys := by simpa using h
    exact absurd hy List.not_mem_nil
  | cons x xs ih =>
    rw [List.mapM_cons] at h
    obtain ⟨z, hz, h⟩ := Option.bind_eq_some_iff.mp h
    obtain ⟨zs, hzs, h⟩ := Option.bind_eq_some_iff.mp h
    obtain rfl : z :: zs = ys := Option.some.inj h
    rcases List.mem_cons.mp hy with rfl | hy
    · exact ⟨x, List.mem_cons_self, hz⟩
    · obtain ⟨x', hx', hread⟩ := ih hzs hy
      exact ⟨x', List.mem_cons_of_mem _ hx', hread⟩

variable {ε : Type} {f : β → Except ε γ} {xs : List β}

lemma mapM_eq_ok {g : β → γ} (h : ∀ x ∈ xs, f x = .ok (g x)) : xs.mapM f = .ok (xs.map g) := by
  induction xs with
  | nil => rfl
  | cons x xs ih =>
    rw [List.forall_mem_cons] at h
    rw [List.mapM_cons, h.1, ih h.2]
    rfl

lemma forall₂_of_mapM {ys : List γ} (h : xs.mapM f = .ok ys) :
    List.Forall₂ (fun x y => f x = .ok y) xs ys := by
  induction xs generalizing ys with
  | nil =>
    obtain rfl := Except.ok.inj h
    exact .nil
  | cons x xs ih =>
    rw [List.mapM_cons] at h
    cases hx : f x with
    | error e => rw [hx] at h; exact absurd h (by simp [bind, Except.bind])
    | ok y =>
      cases hxs : xs.mapM f with
      | error e => rw [hx, hxs] at h; exact absurd h (by simp [bind, Except.bind])
      | ok rest =>
        rw [hx, hxs] at h
        obtain rfl := Except.ok.inj h
        exact .cons hx (ih hxs)

lemma mapM_append_eq_ok_iff {ys : List β} {zs : List γ} : (xs ++ ys).mapM f = .ok zs ↔
    ∃ us vs, xs.mapM f = .ok us ∧ ys.mapM f = .ok vs ∧ zs = us ++ vs := by
  rw [List.mapM_append]
  cases xs.mapM f <;> cases ys.mapM f <;> simp [bind, Except.bind, pure, Except.pure, eq_comm]

/-- What fails is the first member that does. -/
lemma mapM_eq_error_iff {e : ε} : xs.mapM f = .error e ↔ ∃ before x after,
    xs = before ++ x :: after ∧ (∀ x' ∈ before, ∃ y, f x' = .ok y) ∧ f x = .error e := by
  induction xs with
  | nil => simp [List.mapM_nil, pure, Except.pure]
  | cons x xs ih =>
    rw [List.mapM_cons]
    constructor
    · intro h
      rcases hfirst : f x with e' | y
      · rw [hfirst] at h
        obtain rfl := Except.error.inj h
        exact ⟨[], x, xs, rfl, by simp, hfirst⟩
      · rcases hrest : xs.mapM f with e' | ys
        · rw [hfirst, hrest] at h
          obtain rfl := Except.error.inj h
          obtain ⟨before, x', after, rfl, hbefore, hx'⟩ := ih.mp hrest
          exact ⟨x :: before, x', after, rfl, List.forall_mem_cons.mpr ⟨⟨y, hfirst⟩, hbefore⟩, hx'⟩
        · rw [hfirst, hrest] at h
          cases h
    · rintro ⟨before, x', after, heq, hbefore, hx'⟩
      cases before with
      | nil =>
        obtain ⟨rfl, rfl⟩ := List.cons.inj heq
        rw [hx']
        rfl
      | cons x'' before =>
        obtain ⟨rfl, rfl⟩ := List.cons.inj heq
        obtain ⟨⟨y, hy⟩, hbefore⟩ := List.forall_mem_cons.mp hbefore
        rw [hy, ih.mpr ⟨before, x', after, rfl, hbefore, hx'⟩]
        rfl

lemma exists_of_mapM_eq_error {e : ε} (h : xs.mapM f = .error e) : ∃ x ∈ xs, f x = .error e := by
  obtain ⟨before, x, after, rfl, -, hx⟩ := mapM_eq_error_iff.mp h
  exact ⟨x, List.mem_append_right _ List.mem_cons_self, hx⟩

lemma exists_mapM_eq_ok_iff : (∃ ys, xs.mapM f = .ok ys) ↔ ∀ x ∈ xs, ∃ y, f x = .ok y := by
  constructor
  · rintro ⟨ys, hys⟩ x hx
    obtain ⟨y, -, hy⟩ := exists_of_forall₂ (forall₂_of_mapM hys) hx
    exact ⟨y, hy⟩
  · intro hall
    rcases hrun : xs.mapM f with e | ys
    · obtain ⟨x, hx, he⟩ := exists_of_mapM_eq_error hrun
      obtain ⟨y, hy⟩ := hall x hx
      exact absurd (hy.symm.trans he) (by simp)
    · exact ⟨ys, rfl⟩

end Metrology
