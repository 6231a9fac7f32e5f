import Mathlib
import Metrology.Proofs.Parsing
import Metrology.Proofs.Primary
import Metrology.Proofs.Errors

/-!
Two texts joined by a dot.

Nothing that the grammar derives holds a dot, except the dots between factors. So a derivation of a
joined text is two derivations side by side, and neither text can make up for a fault in the other:
what is read is a product.
-/

namespace Metrology

namespace Grammar

/-! ### Dots separate -/

lemma Blanks.dot_notMem (b : Blanks) : '.' ∉ b.chars :=
  fun h => absurd (b.all _ h) (by decide)

lemma Block.dot_notMem {kind : Char → Bool} (hkind : kind '.' = false) (b : Block kind) :
    '.' ∉ b.chars :=
  fun h => Bool.false_ne_true (hkind.symm.trans (b.all _ h))

lemma Words.dot_notMem (ws : Words) : '.' ∉ ws.text := by
  induction ws with
  | nil => exact List.not_mem_nil
  | cons w ws ih =>
    obtain ⟨gap, word⟩ := w
    simp [Words.text, gap.dot_notMem (by decide), word.dot_notMem (by decide), ih]

lemma Base.dot_notMem (b : Base) : '.' ∉ b.text := by
  simp [Base.text, b.first.dot_notMem (by decide), b.more.dot_notMem]

lemma Raised.dot_notMem (n : Raised) : '.' ∉ n.text := by
  obtain ⟨sign, numerator, denominator⟩ := n
  have hsign : '.' ∉ signText sign := by rcases sign with _ | _ | _ <;> decide
  have hdenominator : '.' ∉ denominatorText denominator := by
    rcases denominator with _ | digits
    · exact List.not_mem_nil
    · simp [denominatorText, digits.dot_notMem (by decide)]
  simp [Raised.text, hsign, numerator.dot_notMem (by decide), hdenominator]

lemma Plain.dot_notMem (n : Plain) : '.' ∉ n.text := by
  obtain ⟨sign, numerator, denominator⟩ := n
  have hsign : '.' ∉ signText sign := by
    rcases sign with _ | ⟨_ | _, blanks⟩ <;> simp [signText, Blanks.dot_notMem]
  have hdenominator : '.' ∉ denominatorText denominator := by
    rcases denominator with _ | ⟨before, after, digits⟩
    · exact List.not_mem_nil
    · simp [denominatorText, before.dot_notMem, after.dot_notMem, digits.dot_notMem (by decide)]
  simp [Plain.text, hsign, numerator.dot_notMem (by decide), hdenominator]

lemma Factor.dot_notMem (f : Factor) : '.' ∉ f.text := by
  obtain ⟨base, power⟩ := f
  have hpower : '.' ∉ power.text := by
    rcases power with _ | ⟨gap, n⟩ | ⟨before, after, n⟩
    · exact List.not_mem_nil
    · simp [Power.text, gap.dot_notMem, n.dot_notMem]
    · simp [Power.text, before.dot_notMem, after.dot_notMem, n.dot_notMem]
  simp [Factor.text, base.dot_notMem, hpower]

/-- What stands before a dot contains all of a beginning without one. -/
lemma exists_of_dot_notMem {front rest cs ds : List Char} (hfront : '.' ∉ front)
    (h : front ++ rest = cs ++ '.' :: ds) :
    ∃ between, cs = front ++ between ∧ rest = between ++ '.' :: ds := by
  obtain ⟨between, hcs, hrest⟩ | ⟨between, rfl, hds⟩ := List.append_eq_append_iff.mp h
  · exact ⟨between, hcs, hrest⟩
  · rcases between with _ | ⟨c, between⟩
    · exact ⟨[], by simp, hds.symm⟩
    · obtain ⟨rfl, -⟩ := List.cons.inj hds
      exact absurd (List.mem_append_right cs List.mem_cons_self) hfront

/-! ### Derivations side by side -/

namespace Factors

lemma text_append (fs gs : Factors) : (fs ++ gs).text = fs.text ++ gs.text := by
  induction fs with
  | nil => rfl
  | cons f fs ih =>
    obtain ⟨before, after, f⟩ := f
    simp only [List.cons_append, Factors.text, ih, List.append_assoc]

lemma terms?_append (fs gs : Factors) :
    (fs ++ gs).terms? = do
      let terms ← fs.terms?
      let terms' ← gs.terms?
      return terms ++ terms' := by
  induction fs with
  | nil => simp [Factors.terms?]
  | cons f fs ih =>
    obtain ⟨before, after, f⟩ := f
    simp [Factors.terms?, ih, Option.bind_assoc]

/-- A dot in the text of factors stands before one of them. -/
lemma exists_of_text_eq (fs : Factors) (trail : Blanks) {cs ds : List Char}
    (h : fs.text ++ trail.chars = cs ++ '.' :: ds) :
    ∃ (front back : Factors) (before after : Blanks) (f : Factor),
      fs = front ++ (before, after, f) :: back ∧ cs = front.text ++ before.chars ∧
      ds = after.chars ++ (f.text ++ (back.text ++ trail.chars)) := by
  induction fs generalizing cs with
  | nil =>
    have hmem : '.' ∈ trail.chars := by
      rw [show trail.chars = cs ++ '.' :: ds from h]
      exact List.mem_append_right cs List.mem_cons_self
    exact absurd hmem trail.dot_notMem
  | cons g fs ih =>
    obtain ⟨before, after, f⟩ := g
    simp only [Factors.text, List.append_assoc, List.cons_append] at h
    obtain ⟨between, rfl, hbetween⟩ := exists_of_dot_notMem before.dot_notMem h
    rcases between with _ | ⟨c, between⟩
    · obtain ⟨-, rfl⟩ := List.cons.inj hbetween
      exact ⟨[], fs, before, after, f, rfl, by simp [Factors.text], rfl⟩
    · obtain ⟨rfl, hafter⟩ := List.cons.inj hbetween
      obtain ⟨between, rfl, hfactor⟩ := exists_of_dot_notMem after.dot_notMem hafter
      obtain ⟨between, rfl, hfactors⟩ := exists_of_dot_notMem f.dot_notMem hfactor
      obtain ⟨front, back, before', after', f', rfl, rfl, rfl⟩ := ih hfactors
      exact ⟨(before, after, f) :: front, back, before', after', f', rfl,
        by simp [Factors.text], rfl⟩

end Factors

namespace Derivation

/-- Two derivations joined by a dot. -/
def join (d e : Derivation) : Derivation :=
  ⟨d.lead, d.first, d.more ++ (d.trail, e.lead, e.first) :: e.more, e.trail⟩

lemma text_join (d e : Derivation) : (d.join e).text = d.text ++ '.' :: e.text := by
  simp [join, Derivation.text, Factors.text_append, Factors.text]

lemma terms?_join (d e : Derivation) :
    (d.join e).terms? = do
      let terms ← d.terms?
      let terms' ← e.terms?
      return terms ++ terms' := by
  simp [join, Derivation.terms?, Factors.terms?_append, Factors.terms?, Option.bind_assoc]

lemma exists_join (d : Derivation) {cs ds : List Char} (h : d.text = cs ++ '.' :: ds) :
    ∃ e e' : Derivation, e.text = cs ∧ e'.text = ds ∧ e.join e' = d := by
  obtain ⟨lead, first, more, trail⟩ := d
  obtain ⟨between, rfl, hfirst⟩ := exists_of_dot_notMem lead.dot_notMem h
  obtain ⟨between, rfl, hmore⟩ := exists_of_dot_notMem first.dot_notMem hfirst
  obtain ⟨front, back, before, after, f, rfl, rfl, rfl⟩ := more.exists_of_text_eq trail hmore
  exact ⟨⟨lead, first, front, before⟩, ⟨after, f, back, trail⟩, rfl, rfl, rfl⟩

end Derivation

/-- The terms of a joined text are the terms of both texts. -/
lemma parseTerms_join_iff {s t : String} {terms : List Term} :
    parseTerms (s ++ "." ++ t) = .ok terms ↔
      ∃ us vs, parseTerms s = .ok us ∧ parseTerms t = .ok vs ∧ terms = us ++ vs := by
  have hlist : (s ++ "." ++ t).toList = s.toList ++ '.' :: t.toList := by simp
  constructor
  · intro h
    obtain ⟨d, htext, hterms⟩ := exists_of_parseTerms h
    obtain ⟨e, e', he, he', rfl⟩ := d.exists_join (htext.trans hlist)
    rw [Derivation.terms?_join] at hterms
    obtain ⟨us, hus, hterms⟩ := Option.bind_eq_some_iff.mp hterms
    obtain ⟨vs, hvs, hterms⟩ := Option.bind_eq_some_iff.mp hterms
    exact ⟨us, vs, parseTerms_of_terms? e hus he, parseTerms_of_terms? e' hvs he',
      (Option.some.inj hterms).symm⟩
  · rintro ⟨us, vs, hs, ht, rfl⟩
    obtain ⟨d, hd, hus⟩ := exists_of_parseTerms hs
    obtain ⟨e, he, hvs⟩ := exists_of_parseTerms ht
    refine parseTerms_of_terms? (d.join e) ?_ ?_
    · simp [Derivation.terms?_join, hus, hvs]
    · rw [Derivation.text_join, hd, he, hlist]

end Grammar

/-! ### Products -/

/-- Whether a text is a product of terms that stand for these, one after the other. -/
def Denotes {β : Type} (find : Term → Except Error β) (text : String) (marked : List β) : Prop :=
  ∃ terms, parseTerms text = .ok terms ∧ terms.mapM find = .ok marked

/-- What a joined text stands for is what both texts stand for. -/
lemma denotes_join_iff {β : Type} {find : Term → Except Error β} {s t : String}
    {marked : List β} : Denotes find (s ++ "." ++ t) marked ↔
      ∃ ms ms', Denotes find s ms ∧ Denotes find t ms' ∧ marked = ms ++ ms' := by
  constructor
  · rintro ⟨terms, hterms, hmarked⟩
    obtain ⟨ts, ts', hs, ht, rfl⟩ := Grammar.parseTerms_join_iff.mp hterms
    obtain ⟨ms, ms', hms, hms', rfl⟩ := mapM_append_eq_ok_iff.mp hmarked
    exact ⟨ms, ms', ⟨ts, hs, hms⟩, ⟨ts', ht, hms'⟩, rfl⟩
  · rintro ⟨ms, ms', ⟨ts, hs, hms⟩, ⟨ts', ht, hms'⟩, rfl⟩
    exact ⟨ts ++ ts', Grammar.parseTerms_join_iff.mpr ⟨ts, ts', hs, ht, rfl⟩,
      mapM_append_eq_ok_iff.mpr ⟨ms, ms', hms, hms', rfl⟩⟩

section Reading

variable {α : Type} [Scalar α] {r : Registry α}

lemma Unit.parse_eq_ok_iff {text : String} {w : Unit r} :
    parse r text = .ok w ↔ ∃ marked, Denotes (factor? r) text marked ∧
      gather r (marked.filterMap id) = .ok w := by
  unfold parse Denotes
  rcases parseTerms text with problem | terms
  · simp
  · rcases hmarked : terms.mapM (factor? r) with e | marked <;> simp [hmarked]

lemma Dimension.parse_eq_ok_iff {text : String} {d : Dimension r} :
    parse r text = .ok d ↔ ∃ marked, Denotes (factor r) text marked ∧ gather r marked = d := by
  unfold parse Denotes
  rcases parseTerms text with problem | terms
  · simp
  · rcases hmarked : terms.mapM (factor r) with e | marked <;> simp [hmarked]

end Reading

namespace ExponentVector

lemma sumAt_append (i : ℕ) (marked marked' : List (ℕ × ℚ)) :
    sumAt i (marked ++ marked') = sumAt i marked + sumAt i marked' := by
  induction marked with
  | nil => simp
  | cons p marked ih => rw [List.cons_append, sumAt_cons, sumAt_cons, ih, add_assoc]

lemma gather_append (n : ℕ) (marked marked' : List (ℕ × ℚ)) :
    gather n (marked ++ marked') = add (gather n marked) (gather n marked') := by
  simp only [gather, add, sumAt_append, List.zipWith_map, List.zipWith_self]

end ExponentVector

variable {r : Registry ℚ}

namespace Unit

lemma mul_comm (u v : Unit r) : u.mul v = v.mul u := by
  have hadd : ExponentVector.add u.exponents v.exponents =
      ExponentVector.add v.exponents u.exponents :=
    List.zipWith_comm_of_comm add_comm
  simp only [mul, hadd]

lemma exists_mul (u v : Unit r) : ∃ w, u.mul v = .ok w := ⟨_, ofVector_eq_ok _ _⟩

/-- What stands behind one another is multiplied. -/
lemma gather_append {marked marked' : List (ℕ × ℚ)} {u v : Unit r}
    (hu : gather r marked = .ok u) (hv : gather r marked' = .ok v) :
    gather r (marked ++ marked') = u.mul v := by
  rw [gather, ofVector_eq_ok] at hu hv
  obtain rfl := Except.ok.inj hu
  obtain rfl := Except.ok.inj hv
  simp only [gather, mul, ExponentVector.gather_append]

lemma parse_join_iff {s t : String} {w : Unit r} :
    parse r (s ++ "." ++ t) = .ok w ↔
      ∃ u v, parse r s = .ok u ∧ parse r t = .ok v ∧ u.mul v = .ok w := by
  simp only [parse_eq_ok_iff]
  constructor
  · rintro ⟨marked, hmarked, hw⟩
    obtain ⟨ms, ms', hs, ht, rfl⟩ := denotes_join_iff.mp hmarked
    rw [List.filterMap_append, gather_append (ofVector_eq_ok _ _) (ofVector_eq_ok _ _)] at hw
    exact ⟨_, _, ⟨ms, hs, ofVector_eq_ok _ _⟩, ⟨ms', ht, ofVector_eq_ok _ _⟩, hw⟩
  · rintro ⟨u, v, ⟨ms, hs, hu⟩, ⟨ms', ht, hv⟩, hw⟩
    refine ⟨ms ++ ms', denotes_join_iff.mpr ⟨ms, ms', hs, ht, rfl⟩, ?_⟩
    rw [List.filterMap_append, gather_append hu hv, hw]

end Unit

namespace Dimension

lemma mul_comm (d e : Dimension r) : d * e = e * d :=
  exponents_injective (List.zipWith_comm_of_comm add_comm)

lemma gather_append (marked marked' : List (ℕ × ℚ)) :
    gather r (marked ++ marked') = gather r marked * gather r marked' :=
  exponents_injective (ExponentVector.gather_append _ _ _)

lemma parse_join_iff {s t : String} {d : Dimension r} :
    parse r (s ++ "." ++ t) = .ok d ↔
      ∃ e f, parse r s = .ok e ∧ parse r t = .ok f ∧ e * f = d := by
  simp only [parse_eq_ok_iff]
  constructor
  · rintro ⟨marked, hmarked, rfl⟩
    obtain ⟨ms, ms', hs, ht, rfl⟩ := denotes_join_iff.mp hmarked
    exact ⟨_, _, ⟨ms, hs, rfl⟩, ⟨ms', ht, rfl⟩, (gather_append _ _).symm⟩
  · rintro ⟨_, _, ⟨ms, hs, rfl⟩, ⟨ms', ht, rfl⟩, rfl⟩
    exact ⟨ms ++ ms', denotes_join_iff.mpr ⟨ms, ms', hs, ht, rfl⟩, gather_append _ _⟩

end Dimension

/-- **Parsing is compositional**: of a text joined from two by a dot, the terms are those of the
first text and then those of the second, and it is refused if one of them is. So it describes a unit
or a dimension exactly if both texts do, that is their product, and the order of the texts does not
matter. -/
theorem parse_join (s t : String) :
    (∀ terms, parseTerms (s ++ "." ++ t) = .ok terms ↔
      ∃ us vs, parseTerms s = .ok us ∧ parseTerms t = .ok vs ∧ terms = us ++ vs) ∧
    ∀ r : Registry ℚ,
      ((∃ w, Unit.parse r (s ++ "." ++ t) = .ok w) ↔
        (∃ u, Unit.parse r s = .ok u) ∧ ∃ v, Unit.parse r t = .ok v) ∧
      (∀ w, Unit.parse r (s ++ "." ++ t) = .ok w ↔
        ∃ u v, Unit.parse r s = .ok u ∧ Unit.parse r t = .ok v ∧ u.mul v = .ok w) ∧
      (∀ w, Unit.parse r (s ++ "." ++ t) = .ok w ↔ Unit.parse r (t ++ "." ++ s) = .ok w) ∧
      ((∃ d, Dimension.parse r (s ++ "." ++ t) = .ok d) ↔
        (∃ e, Dimension.parse r s = .ok e) ∧ ∃ f, Dimension.parse r t = .ok f) ∧
      (∀ d, Dimension.parse r (s ++ "." ++ t) = .ok d ↔
        ∃ e f, Dimension.parse r s = .ok e ∧ Dimension.parse r t = .ok f ∧ e * f = d) ∧
      ∀ d, Dimension.parse r (s ++ "." ++ t) = .ok d ↔
        Dimension.parse r (t ++ "." ++ s) = .ok d := by
  refine ⟨fun _ => Grammar.parseTerms_join_iff, fun r =>
    ⟨⟨fun ⟨w, hw⟩ => ?_, fun ⟨⟨u, hu⟩, v, hv⟩ => ?_⟩, fun _ => Unit.parse_join_iff, fun w => ?_,
      ⟨fun ⟨d, hd⟩ => ?_, fun ⟨⟨e, he⟩, f, hf⟩ => ?_⟩, fun _ => Dimension.parse_join_iff,
      fun d => ?_⟩⟩
  · obtain ⟨u, v, hu, hv, -⟩ := Unit.parse_join_iff.mp hw
    exact ⟨⟨u, hu⟩, v, hv⟩
  · obtain ⟨w, hw⟩ := u.exists_mul v
    exact ⟨w, Unit.parse_join_iff.mpr ⟨u, v, hu, hv, hw⟩⟩
  · simp only [Unit.parse_join_iff]
    constructor
    · rintro ⟨u, v, hu, hv, hw⟩
      exact ⟨v, u, hv, hu, (v.mul_comm u).trans hw⟩
    · rintro ⟨v, u, hv, hu, hw⟩
      exact ⟨u, v, hu, hv, (u.mul_comm v).trans hw⟩
  · obtain ⟨e, f, he, hf, -⟩ := Dimension.parse_join_iff.mp hd
    exact ⟨⟨e, he⟩, f, hf⟩
  · exact ⟨e * f, Dimension.parse_join_iff.mpr ⟨e, f, he, hf, rfl⟩⟩
  · simp only [Dimension.parse_join_iff]
    constructor
    · rintro ⟨e, f, he, hf, hd⟩
      exact ⟨f, e, hf, he, (f.mul_comm e).trans hd⟩
    · rintro ⟨f, e, hf, he, hd⟩
      exact ⟨e, f, he, hf, (e.mul_comm f).trans hd⟩

end Metrology
