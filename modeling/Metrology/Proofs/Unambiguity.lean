import Mathlib
import Metrology.Proofs.Grammar

/-!
No text has two derivation trees.

A text is taken apart from the left. A run of characters of one kind ends where the next character
is of another kind, and which rule comes next is told by the first character that is not blank.
-/

namespace Metrology

namespace Grammar

/-! ### Kinds of characters -/

lemma isSuperscriptDigit_iff {c : Char} : isSuperscriptDigit c = true ↔
    c ∈ ['⁰', '¹', '²', '³', '⁴', '⁵', '⁶', '⁷', '⁸', '⁹'] := by
  simp only [isSuperscriptDigit, superscriptDigit?, List.isSome_idxOf?]

lemma isBlank_of_isSuperscriptDigit {c : Char} (h : isSuperscriptDigit c = true) :
    isBlank c = false := by
  rw [isSuperscriptDigit_iff] at h
  fin_cases h <;> decide

lemma isBlank_of_isDigit {c : Char} (h : c.isDigit = true) : isBlank c = false := by
  simp only [Char.isDigit, Bool.and_eq_true, decide_eq_true_eq, UInt32.le_iff_toNat_le] at h
  change 48 ≤ c.toNat ∧ c.toNat ≤ 57 at h
  simp only [isBlank, Bool.or_eq_false_iff, decide_eq_false_iff_not, beq_eq_false_iff_ne]
  omega

lemma isWordChar_iff {c : Char} : isWordChar c = true ↔ c ≠ '.' ∧ c ≠ '^' ∧ isBlank c = false ∧
    isSuperscriptDigit c = false ∧ c ≠ '⁺' ∧ c ≠ '⁻' ∧ c ≠ '⁄' := by
  simp [isWordChar, and_assoc]

lemma isBlank_of_isWordChar {c : Char} (h : isWordChar c = true) : isBlank c = false :=
  (isWordChar_iff.mp h).2.2.1

lemma isGap_iff {c : Char} : isGap c = true ↔ c = ' ' ∨ c = '\t' := by
  simp [isGap]

lemma isBlank_of_isGap {c : Char} (h : isGap c = true) : isBlank c = true := by
  rcases isGap_iff.mp h with rfl | rfl <;> decide

/-- A sign or a digit of a raised number. -/
def isRaised (c : Char) : Bool := c == '⁺' || c == '⁻' || isSuperscriptDigit c

/-- A sign or a digit of a plain number. -/
def isPlain (c : Char) : Bool := c == '+' || c == '-' || c.isDigit

lemma isBlank_of_isRaised {c : Char} (h : isRaised c = true) : isBlank c = false := by
  simp only [isRaised, Bool.or_eq_true, beq_iff_eq] at h
  rcases h with (rfl | rfl) | h
  · decide
  · decide
  · exact isBlank_of_isSuperscriptDigit h

lemma isBlank_of_isPlain {c : Char} (h : isPlain c = true) : isBlank c = false := by
  simp only [isPlain, Bool.or_eq_true, beq_iff_eq] at h
  rcases h with (rfl | rfl) | h
  · decide
  · decide
  · exact isBlank_of_isDigit h

/-! ### Looking ahead -/

/-- The first character that is not blank. -/
def lookahead (cs : List Char) : Option Char := (cs.dropWhile isBlank).head?

@[simp] lemma lookahead_nil : lookahead [] = none := rfl

lemma lookahead_cons {c : Char} (hc : isBlank c = false) (cs : List Char) :
    lookahead (c :: cs) = some c := by
  simp [lookahead, hc]

lemma lookahead_blank {c : Char} (hc : isBlank c = true) (cs : List Char) :
    lookahead (c :: cs) = lookahead cs := by
  simp [lookahead, hc]

@[simp] lemma lookahead_blanks (b : Blanks) (cs : List Char) :
    lookahead (b.chars ++ cs) = lookahead cs := by
  rw [lookahead, List.dropWhile_append_of_pos b.all, lookahead]

/-- The next character, if there is one, is of another kind. -/
def Stops (kind : Char → Bool) (cs : List Char) : Prop := ∀ c ∈ cs.head?, kind c = false

lemma stops_nil (kind : Char → Bool) : Stops kind [] := fun _ h => absurd h (by simp)

lemma stops_cons {kind : Char → Bool} {c : Char} (hc : kind c = false) (cs : List Char) :
    Stops kind (c :: cs) := by
  intro d hd
  obtain rfl : c = d := by simpa using hd
  exact hc

lemma takeWhile_of_stops {kind : Char → Bool} {cs : List Char} (h : Stops kind cs) :
    cs.takeWhile kind = [] := by
  rcases cs with _ | ⟨c, cs⟩
  · rfl
  · simp [h c rfl]

/-- A run of a kind that has no blanks ends before any blank, so it is enough to look ahead. -/
lemma stops_of_lookahead {kind : Char → Bool} (hkind : ∀ c, kind c = true → isBlank c = false)
    {cs : List Char} (h : ∀ c ∈ lookahead cs, kind c = false) : Stops kind cs := by
  rcases cs with _ | ⟨c, cs⟩
  · exact stops_nil kind
  · refine stops_cons ?_ cs
    by_cases hc : isBlank c = true
    · by_contra hk
      exact absurd hc (by simp [hkind c (by simpa using hk)])
    · exact h c (by rw [lookahead_cons (by simpa using hc)]; rfl)

/-- Nothing but a dot can come next. -/
def Boundary (cs : List Char) : Prop := ∀ c ∈ lookahead cs, c = '.'

lemma Boundary.stops {kind : Char → Bool} (hkind : ∀ c, kind c = true → isBlank c = false)
    (hdot : kind '.' = false) {cs : List Char} (h : Boundary cs) : Stops kind cs :=
  stops_of_lookahead hkind fun c hc => by rw [h c hc]; exact hdot

lemma Boundary.lookahead_ne {cs : List Char} (h : Boundary cs) {c : Char} (hc : c ≠ '.') :
    lookahead cs ≠ some c :=
  fun hcs => hc (h c hcs)

lemma boundary_factors (fs : Factors) (trail : Blanks) : Boundary (fs.text ++ trail.chars) := by
  rcases fs with _ | ⟨⟨before, after, factor⟩, fs⟩
  · have h : lookahead trail.chars = none := by simpa using lookahead_blanks trail []
    simp [Boundary, Factors.text, h]
  · simp [Boundary, Factors.text, lookahead_cons (show isBlank '.' = false by decide)]

/-! ### Taking runs off a text -/

lemma run_inj {kind : Char → Bool} {u v x y : List Char} (hu : ∀ c ∈ u, kind c = true)
    (hv : ∀ c ∈ v, kind c = true) (hx : Stops kind x) (hy : Stops kind y)
    (h : u ++ x = v ++ y) : u = v ∧ x = y := by
  have htake := congrArg (List.takeWhile kind) h
  rw [List.takeWhile_append_of_pos hu, List.takeWhile_append_of_pos hv, takeWhile_of_stops hx,
    takeWhile_of_stops hy, List.append_nil, List.append_nil] at htake
  subst htake
  exact ⟨rfl, List.append_cancel_left h⟩

lemma Blanks.inj {b b' : Blanks} {x y : List Char} (hx : Stops isBlank x) (hy : Stops isBlank y)
    (h : b.chars ++ x = b'.chars ++ y) : b = b' ∧ x = y := by
  obtain ⟨hchars, hrest⟩ := run_inj b.all b'.all hx hy h
  exact ⟨Blanks.ext hchars, hrest⟩

lemma Block.inj {kind : Char → Bool} {b b' : Block kind} {x y : List Char} (hx : Stops kind x)
    (hy : Stops kind y) (h : b.chars ++ x = b'.chars ++ y) : b = b' ∧ x = y := by
  obtain ⟨hchars, hrest⟩ := run_inj b.all b'.all hx hy h
  exact ⟨Block.ext hchars, hrest⟩

lemma Block.exists_cons {kind : Char → Bool} (b : Block kind) :
    ∃ c cs, b.chars = c :: cs ∧ kind c = true := by
  obtain ⟨c, cs, hcs⟩ := List.exists_cons_of_ne_nil b.ne_nil
  exact ⟨c, cs, hcs, b.all c (by simp [hcs])⟩

/-- Where a block of one kind begins, a run of another kind ends. -/
lemma Block.stops {kind kind' : Char → Bool} (h : ∀ c, kind c = true → kind' c = false)
    (b : Block kind) (cs : List Char) : Stops kind' (b.chars ++ cs) := by
  obtain ⟨c, rest, hb, hc⟩ := b.exists_cons
  rw [hb]
  exact stops_cons (h c hc) _

/-! ### Bases -/

lemma baseRest_run {w : List Char} (hw : ∀ c ∈ w, isWordChar c = true) (cs : List Char) :
    baseRest (w ++ cs) = w ++ baseRest cs := by
  induction w with
  | nil => rfl
  | cons c w ih =>
    rw [List.cons_append, baseRest, if_pos (hw c List.mem_cons_self),
      ih fun d hd => hw d (List.mem_cons_of_mem _ hd), List.cons_append]

lemma baseRest_gap {g : List Char} (hg : ∀ c ∈ g, isGap c = true) {cs : List Char}
    (hcs : baseRest cs ≠ []) : baseRest (g ++ cs) = g ++ baseRest cs := by
  induction g with
  | nil => rfl
  | cons c g ih =>
    have hc := hg c List.mem_cons_self
    have hword : ¬isWordChar c = true := fun h =>
      absurd (isBlank_of_isGap hc) (by simp [isBlank_of_isWordChar h])
    have ih := ih fun d hd => hg d (List.mem_cons_of_mem _ hd)
    have hne : g ++ baseRest cs ≠ [] := List.append_ne_nil_of_right_ne_nil _ hcs
    rw [List.cons_append, baseRest, if_neg hword, if_pos (isGap_iff.mp hc), ih]
    split
    · contradiction
    · rfl

/-- A base goes on only if a word character comes next, blanks or not. -/
lemma baseRest_eq_nil {cs : List Char} (h : ∀ c ∈ lookahead cs, isWordChar c = false) :
    baseRest cs = [] := by
  induction cs with
  | nil => rfl
  | cons c cs ih =>
    have hword : ¬isWordChar c = true := by
      intro hc
      have := h c (by rw [lookahead_cons (isBlank_of_isWordChar hc)]; rfl)
      simp [hc] at this
    rw [baseRest, if_neg hword]
    split_ifs with hgap
    · have hblank := isBlank_of_isGap (isGap_iff.mpr hgap)
      rw [ih (by rwa [lookahead_blank hblank] at h)]
    · rfl

lemma baseRest_words (ws : Words) {cs : List Char} (h : baseRest cs = []) :
    baseRest (ws.text ++ cs) = ws.text := by
  induction ws with
  | nil => exact h
  | cons gw ws ih =>
    obtain ⟨gap, word⟩ := gw
    have hword : baseRest (word.chars ++ (Words.text ws ++ cs)) = word.chars ++ Words.text ws := by
      rw [baseRest_run word.all, ih]
    have hne : word.chars ++ Words.text ws ≠ [] := List.append_ne_nil_of_left_ne_nil word.ne_nil _
    simp only [Words.text, List.append_assoc]
    rw [baseRest_gap gap.all (by rw [hword]; exact hne), hword]

/-- A base is what the scan takes for one, if it cannot go on behind it. -/
lemma Base.exists_cons (b : Base) : ∃ c cs, b.text = c :: cs ∧ isWordChar c = true ∧
    ∀ rest, baseRest rest = [] → baseRest (cs ++ rest) = cs := by
  obtain ⟨c, cs, hcs, hc⟩ := b.first.exists_cons
  have hall : ∀ d ∈ cs, isWordChar d = true := fun d hd => b.first.all d (by simp [hcs, hd])
  refine ⟨c, cs ++ b.more.text, by simp [Base.text, hcs], hc, fun rest hrest => ?_⟩
  rw [List.append_assoc, baseRest_run hall, baseRest_words _ hrest]

lemma isWordChar_of_isGap {c : Char} (h : isGap c = true) : isWordChar c = false :=
  Bool.eq_false_iff.mpr fun hword =>
    absurd (isBlank_of_isGap h) (by simp [isBlank_of_isWordChar hword])

lemma isGap_of_isWordChar {c : Char} (h : isWordChar c = true) : isGap c = false :=
  Bool.eq_false_iff.mpr fun hgap => absurd h (by simp [isWordChar_of_isGap hgap])

lemma Words.stops (ws : Words) : Stops isWordChar ws.text := by
  rcases ws with _ | ⟨⟨gap, word⟩, ws⟩
  · exact stops_nil _
  · exact gap.stops (fun _ => isWordChar_of_isGap) _

lemma Block.stops_isGap (word : Block isWordChar) (cs : List Char) :
    Stops isGap (word.chars ++ cs) :=
  word.stops (fun _ => isGap_of_isWordChar) cs

lemma Words.text_inj {ws ws' : Words} (h : ws.text = ws'.text) : ws = ws' := by
  induction ws generalizing ws' with
  | nil =>
    rcases ws' with _ | ⟨⟨gap, word⟩, ws'⟩
    · rfl
    · exact absurd h.symm (List.append_ne_nil_of_left_ne_nil gap.ne_nil _)
  | cons gw ws ih =>
    rcases ws' with _ | ⟨⟨gap, word⟩, ws'⟩
    · exact absurd h (List.append_ne_nil_of_left_ne_nil gw.1.ne_nil _)
    · obtain ⟨hgap, h⟩ := Block.inj (Block.stops_isGap _ _) (Block.stops_isGap _ _) h
      obtain ⟨hword, h⟩ := Block.inj (Words.stops _) (Words.stops _) h
      rw [ih h, ← hgap, ← hword]

lemma Base.inj {b b' : Base} {x y : List Char} (hx : baseRest x = []) (hy : baseRest y = [])
    (h : b.text ++ x = b'.text ++ y) : b = b' ∧ x = y := by
  obtain ⟨c, cs, hb, _, hrest⟩ := b.exists_cons
  obtain ⟨c', cs', hb', _, hrest'⟩ := b'.exists_cons
  rw [hb, hb', List.cons_append, List.cons_append, List.cons.injEq] at h
  obtain ⟨rfl, h⟩ := h
  have hcs : cs = cs' := by rw [← hrest x hx, ← hrest' y hy, h]
  subst hcs
  have htext : b.text = b'.text := by rw [hb, hb']
  obtain ⟨hfirst, hmore⟩ := Block.inj (Words.stops _) (Words.stops _) htext
  exact ⟨Base.ext hfirst (Words.text_inj hmore), List.append_cancel_left h⟩

/-! ### Exponents -/

lemma Raised.signText_inj {s s' : Option Bool} {b b' : Block isSuperscriptDigit}
    {x y : List Char} (h : signText s ++ (b.chars ++ x) = signText s' ++ (b'.chars ++ y)) :
    s = s' ∧ b.chars ++ x = b'.chars ++ y := by
  obtain ⟨c, cs, hb, hc⟩ := b.exists_cons
  obtain ⟨c', cs', hb', hc'⟩ := b'.exists_cons
  rw [hb, hb'] at h ⊢
  rcases s with _ | _ | _ <;> rcases s' with _ | _ | _ <;>
    simp only [signText, List.nil_append, List.cons_append, List.cons.injEq] at h ⊢
  -- a sign is no digit
  all_goals first
    | exact ⟨trivial, h⟩
    | exact ⟨trivial, h.2⟩
    | exact absurd h.1 (by decide)
    | (obtain ⟨rfl, -⟩ := h; exact absurd hc (by decide))
    | (obtain ⟨rfl, -⟩ := h; exact absurd hc' (by decide))

lemma Raised.stops {d : Option (Block isSuperscriptDigit)} {x : List Char} (hx : Boundary x) :
    Stops isSuperscriptDigit (denominatorText d ++ x) := by
  rcases d with _ | digits
  · exact hx.stops (fun c => isBlank_of_isSuperscriptDigit) (by decide)
  · exact stops_cons (by decide) _

lemma Raised.inj {n n' : Raised} {x y : List Char} (hx : Boundary x) (hy : Boundary y)
    (h : n.text ++ x = n'.text ++ y) : n = n' ∧ x = y := by
  obtain ⟨sign, numerator, denominator⟩ := n
  obtain ⟨sign', numerator', denominator'⟩ := n'
  simp only [Raised.text, List.append_assoc] at h
  obtain ⟨rfl, hdigits⟩ := signText_inj h
  obtain ⟨rfl, hend⟩ := Block.inj (Raised.stops hx) (Raised.stops hy) hdigits
  have hstop : ∀ {z : List Char}, Boundary z → Stops isSuperscriptDigit z := fun hz =>
    hz.stops (fun c => isBlank_of_isSuperscriptDigit) (by decide)
  have hbar : ∀ {z : List Char}, Boundary z → ∀ cs, z ≠ '⁄' :: cs := by
    rintro z hz cs rfl
    exact hz.lookahead_ne (by decide) (lookahead_cons (by decide) cs)
  rcases denominator with _ | digits <;> rcases denominator' with _ | digits'
  · exact ⟨rfl, hend⟩
  · exact absurd hend (hbar hx _)
  · exact absurd hend.symm (hbar hy _)
  · obtain ⟨rfl, hrest⟩ := Block.inj (hstop hx) (hstop hy) (List.cons.inj hend).2
    exact ⟨rfl, hrest⟩

lemma Raised.exists_cons (n : Raised) : ∃ c cs, n.text = c :: cs ∧ isRaised c = true := by
  obtain ⟨c, cs, hcs, hc⟩ := n.numerator.exists_cons
  rcases hs : n.sign with _ | _ | _
  · exact ⟨c, cs ++ denominatorText n.denominator, by simp [Raised.text, hs, signText, hcs],
      by simp [isRaised, hc]⟩
  · exact ⟨'⁺', _, by simp only [Raised.text, hs, signText]; rfl, by decide⟩
  · exact ⟨'⁻', _, by simp only [Raised.text, hs, signText]; rfl, by decide⟩

lemma Plain.signText_inj {s s' : Option (Bool × Blanks)} {b b' : Block Char.isDigit}
    {x y : List Char} (h : signText s ++ (b.chars ++ x) = signText s' ++ (b'.chars ++ y)) :
    s = s' ∧ b.chars ++ x = b'.chars ++ y := by
  obtain ⟨c, cs, hb, hc⟩ := b.exists_cons
  obtain ⟨c', cs', hb', hc'⟩ := b'.exists_cons
  have hsign : ∀ {d : Char} {negative : Bool}, d.isDigit = true →
      (if negative then '-' else '+') ≠ d := by
    rintro d (_ | _) hd rfl <;> exact absurd hd (by decide)
  rw [hb, hb'] at h ⊢
  rcases s with _ | ⟨negative, blanks⟩ <;> rcases s' with _ | ⟨negative', blanks'⟩ <;>
    simp only [signText, List.nil_append, List.cons_append, List.cons.injEq] at h ⊢
  · exact ⟨trivial, h⟩
  · exact absurd h.1.symm (hsign hc)
  · exact absurd h.1 (hsign hc')
  · obtain ⟨hneg, h⟩ := h
    have hneg : negative = negative' := by
      cases negative <;> cases negative' <;> simp_all
    obtain ⟨hblanks, h⟩ := Blanks.inj (stops_cons (isBlank_of_isDigit hc) _)
      (stops_cons (isBlank_of_isDigit hc') _) h
    rw [hneg, hblanks]
    exact ⟨rfl, List.cons.inj h⟩

lemma Boundary.stops_isDigit {x : List Char} (hx : Boundary x) : Stops Char.isDigit x :=
  hx.stops (fun c => isBlank_of_isDigit) (by decide)

lemma Plain.stops {d : Option (Blanks × Blanks × Block Char.isDigit)} {x : List Char}
    (hx : Boundary x) : Stops Char.isDigit (denominatorText d ++ x) := by
  rcases d with _ | ⟨before, after, digits⟩
  · exact hx.stops_isDigit
  · refine stops_of_lookahead (fun c => isBlank_of_isDigit) fun c hc => ?_
    obtain rfl : '/' = c := by
      simpa [denominatorText, lookahead_cons (show isBlank '/' = false by decide)] using hc
    decide

lemma Plain.inj {n n' : Plain} {x y : List Char} (hx : Boundary x) (hy : Boundary y)
    (h : n.text ++ x = n'.text ++ y) : n = n' ∧ x = y := by
  have hslash : isBlank '/' = false := by decide
  have hbar : ∀ {z : List Char}, Boundary z → ∀ (b : Blanks) cs, z ≠ b.chars ++ '/' :: cs := by
    rintro z hz b cs rfl
    exact hz.lookahead_ne (c := '/') (by decide) (by simp [lookahead_cons hslash])
  obtain ⟨sign, numerator, denominator⟩ := n
  obtain ⟨sign', numerator', denominator'⟩ := n'
  simp only [Plain.text, List.append_assoc] at h
  obtain ⟨rfl, htail⟩ := signText_inj h
  obtain ⟨rfl, hend⟩ := Block.inj (Plain.stops hx) (Plain.stops hy) htail
  rcases denominator with _ | ⟨before, after, digits⟩ <;>
    rcases denominator' with _ | ⟨before', after', digits'⟩ <;>
    simp only [denominatorText, List.nil_append, List.append_assoc, List.cons_append] at hend
  · exact ⟨rfl, hend⟩
  · exact absurd hend (hbar hx _ _)
  · exact absurd hend.symm (hbar hy _ _)
  · obtain ⟨rfl, hafter⟩ := Blanks.inj (stops_cons hslash _) (stops_cons hslash _) hend
    obtain ⟨rfl, hbelow⟩ := Blanks.inj (digits.stops (fun c => isBlank_of_isDigit) _)
      (digits'.stops (fun c => isBlank_of_isDigit) _) (List.cons.inj hafter).2
    obtain ⟨rfl, hrest⟩ := Block.inj hx.stops_isDigit hy.stops_isDigit hbelow
    exact ⟨rfl, hrest⟩

lemma Plain.exists_cons (n : Plain) : ∃ c cs, n.text = c :: cs ∧ isPlain c = true := by
  obtain ⟨c, cs, hcs, hc⟩ := n.numerator.exists_cons
  rcases hs : n.sign with _ | ⟨negative, blanks⟩
  · exact ⟨c, cs ++ denominatorText n.denominator, by simp [Plain.text, hs, signText, hcs],
      by simp [isPlain, hc]⟩
  · exact ⟨_, _, by simp only [Plain.text, hs, signText]; rfl, by cases negative <;> decide⟩

/-! ### Trees -/

lemma Raised.stops_blank (n : Raised) (x : List Char) : Stops isBlank (n.text ++ x) := by
  obtain ⟨c, cs, hn, hc⟩ := n.exists_cons
  rw [hn]
  exact stops_cons (isBlank_of_isRaised hc) _

lemma Plain.stops_blank (n : Plain) (x : List Char) : Stops isBlank (n.text ++ x) := by
  obtain ⟨c, cs, hn, hc⟩ := n.exists_cons
  rw [hn]
  exact stops_cons (isBlank_of_isPlain hc) _

lemma lookahead_raised (gap : Blanks) (n : Raised) (x : List Char) :
    ∃ c, isRaised c = true ∧ lookahead ((Power.raised gap n).text ++ x) = some c := by
  obtain ⟨c, cs, hn, hc⟩ := n.exists_cons
  exact ⟨c, hc, by simp [Power.text, hn, lookahead_cons (isBlank_of_isRaised hc)]⟩

lemma lookahead_caret (before after : Blanks) (n : Plain) (x : List Char) :
    lookahead ((Power.caret before after n).text ++ x) = some '^' := by
  simp [Power.text, lookahead_cons (show isBlank '^' = false by decide)]

lemma Boundary.ne_raised {x : List Char} (hx : Boundary x) (gap : Blanks) (n : Raised)
    (y : List Char) : x ≠ (Power.raised gap n).text ++ y := by
  rintro rfl
  obtain ⟨c, hc, hl⟩ := lookahead_raised gap n y
  refine hx.lookahead_ne ?_ hl
  rintro rfl
  exact absurd hc (by decide)

lemma Boundary.ne_caret {x : List Char} (hx : Boundary x) (before after : Blanks) (n : Plain)
    (y : List Char) : x ≠ (Power.caret before after n).text ++ y := by
  rintro rfl
  exact hx.lookahead_ne (by decide) (lookahead_caret before after n y)

lemma raised_ne_caret (gap : Blanks) (n : Raised) (before after : Blanks) (m : Plain)
    (x y : List Char) :
    (Power.raised gap n).text ++ x ≠ (Power.caret before after m).text ++ y := by
  intro h
  obtain ⟨c, hc, hl⟩ := lookahead_raised gap n x
  rw [h, lookahead_caret, Option.some.injEq] at hl
  subst hl
  exact absurd hc (by decide)

lemma Power.inj {p p' : Power} {x y : List Char} (hx : Boundary x) (hy : Boundary y)
    (h : p.text ++ x = p'.text ++ y) : p = p' ∧ x = y := by
  rcases p with _ | ⟨gap, n⟩ | ⟨before, after, n⟩ <;>
    rcases p' with _ | ⟨gap', n'⟩ | ⟨before', after', n'⟩
  · exact ⟨rfl, h⟩
  · exact absurd h (hx.ne_raised gap' n' y)
  · exact absurd h (hx.ne_caret before' after' n' y)
  · exact absurd h.symm (hy.ne_raised gap n x)
  · simp only [Power.text, List.append_assoc] at h
    obtain ⟨rfl, hnumber⟩ := Blanks.inj (n.stops_blank x) (n'.stops_blank y) h
    obtain ⟨rfl, hrest⟩ := Raised.inj hx hy hnumber
    exact ⟨rfl, hrest⟩
  · exact absurd h (raised_ne_caret gap n before' after' n' x y)
  · exact absurd h.symm (hy.ne_caret before after n x)
  · exact absurd h.symm (raised_ne_caret gap' n' before after n y x)
  · simp only [Power.text, List.append_assoc, List.cons_append] at h
    have hcaret : isBlank '^' = false := by decide
    obtain ⟨rfl, hafter⟩ := Blanks.inj (stops_cons hcaret _) (stops_cons hcaret _) h
    obtain ⟨rfl, hnumber⟩ := Blanks.inj (n.stops_blank x) (n'.stops_blank y)
      (List.cons.inj hafter).2
    obtain ⟨rfl, hrest⟩ := Plain.inj hx hy hnumber
    exact ⟨rfl, hrest⟩

/-- No word comes next behind a base. -/
lemma Power.baseRest_eq_nil (p : Power) {x : List Char} (hx : Boundary x) :
    baseRest (p.text ++ x) = [] := by
  refine Grammar.baseRest_eq_nil fun c hc => ?_
  rcases p with _ | ⟨gap, n⟩ | ⟨before, after, n⟩
  · rw [hx c hc]
    decide
  · obtain ⟨d, hd, hl⟩ := lookahead_raised gap n x
    obtain rfl : d = c := by simpa [hl] using hc
    simp only [isRaised, Bool.or_eq_true, beq_iff_eq] at hd
    rcases hd with (rfl | rfl) | hd
    · decide
    · decide
    · simp [isWordChar, hd]
  · obtain rfl : '^' = c := by simpa [lookahead_caret] using hc
    decide

lemma Factor.inj {f f' : Factor} {x y : List Char} (hx : Boundary x) (hy : Boundary y)
    (h : f.text ++ x = f'.text ++ y) : f = f' ∧ x = y := by
  simp only [Factor.text, List.append_assoc] at h
  obtain ⟨hbase, hpower⟩ := Base.inj (f.power.baseRest_eq_nil hx) (f'.power.baseRest_eq_nil hy) h
  obtain ⟨hpower, hrest⟩ := Power.inj hx hy hpower
  exact ⟨Factor.ext hbase hpower, hrest⟩

lemma Factor.stops_blank (f : Factor) (x : List Char) : Stops isBlank (f.text ++ x) := by
  obtain ⟨c, cs, hb, hc, _⟩ := f.base.exists_cons
  rw [Factor.text, hb]
  exact stops_cons (isBlank_of_isWordChar hc) _

lemma Factors.inj {fs fs' : Factors} {trail trail' : Blanks}
    (h : fs.text ++ trail.chars = fs'.text ++ trail'.chars) : fs = fs' ∧ trail = trail' := by
  have hdot : isBlank '.' = false := by decide
  have hend : ∀ (t b : Blanks) (z : List Char), t.chars ≠ b.chars ++ '.' :: z := by
    intro t b z h
    have hmem := t.all '.' (by simp [h])
    exact absurd hmem (by decide)
  induction fs generalizing fs' with
  | nil =>
    rcases fs' with _ | ⟨⟨before, after, f⟩, fs'⟩
    · exact ⟨rfl, Blanks.ext h⟩
    · simp only [Factors.text, List.nil_append, List.append_assoc, List.cons_append] at h
      exact absurd h (hend _ _ _)
  | cons g fs ih =>
    obtain ⟨before, after, f⟩ := g
    rcases fs' with _ | ⟨⟨before', after', f'⟩, fs'⟩
    · simp only [Factors.text, List.nil_append, List.append_assoc, List.cons_append] at h
      exact absurd h.symm (hend _ _ _)
    · simp only [Factors.text, List.append_assoc, List.cons_append] at h
      obtain ⟨rfl, hafter⟩ := Blanks.inj (stops_cons hdot _) (stops_cons hdot _) h
      obtain ⟨rfl, hfactor⟩ := Blanks.inj (f.stops_blank _) (f'.stops_blank _)
        (List.cons.inj hafter).2
      obtain ⟨rfl, hmore⟩ := Factor.inj (boundary_factors fs trail) (boundary_factors fs' trail')
        hfactor
      obtain ⟨rfl, htrail⟩ := ih hmore
      exact ⟨rfl, htrail⟩

/-- **Unambiguity**: a text has at most one derivation. -/
lemma Derivation.text_injective {d d' : Derivation} (h : d.text = d'.text) : d = d' := by
  obtain ⟨hlead, hfirst⟩ := Blanks.inj (d.first.stops_blank _) (d'.first.stops_blank _) h
  obtain ⟨hfirst, hmore⟩ := Factor.inj (boundary_factors _ _) (boundary_factors _ _) hfirst
  obtain ⟨hmore, htrail⟩ := Factors.inj hmore
  exact Derivation.ext hlead hfirst hmore htrail

end Grammar

end Metrology
