import Mathlib
import Metrology.Expression.Parser
import Metrology.Proofs.Lexing

/-!
The parser accepts exactly what the grammar derives, and gives the terms of the derivation.
-/

namespace Metrology

namespace Grammar

/-! ### Derived texts are scanned as they are derived -/

def Plain.denominatorTokens : Option (Blanks × Blanks × Block Char.isDigit) → List Token
  | none => []
  | some (_, _, digits) => [.slash, .integer (digits.value plainDigit)]

/-- The tokens of a plain number. -/
def Plain.tokens (n : Plain) : List Token :=
  (n.sign.map fun s => Token.sign s.1).toList ++
    .integer (n.numerator.value plainDigit) :: denominatorTokens n.denominator

/-- The tokens of what stands behind a base. -/
def Power.tokens : Power → List Token
  | absent => []
  | raised _ n => [n.token]
  | caret _ _ n => .caret :: n.tokens

/-- The tokens of a term. -/
def Factor.tokens (f : Factor) : List Token :=
  .base (String.ofList f.base.text) :: f.power.tokens

/-- The tokens of the terms behind the first one. -/
def Factors.tokens : Factors → List Token
  | [] => []
  | (_, _, f) :: fs => .dot :: (f.tokens ++ tokens fs)

lemma Plain.lexed (n : Plain) {rest : List Char} {ts : List Token} (hb : Boundary rest)
    (h : Lexed .exponent rest ts) : Lexed .exponent (n.text ++ rest) (n.tokens ++ ts) := by
  obtain ⟨sign, numerator, denominator⟩ := n
  have hnumber : Lexed .exponent (numerator.chars ++ (denominatorText denominator ++ rest))
      (.integer (numerator.value plainDigit) :: (denominatorTokens denominator ++ ts)) := by
    refine (reads_integer numerator (Plain.stops hb)).lexed ?_
    rcases denominator with _ | ⟨before, after, digits⟩
    · exact h
    · have hdigits := ((reads_integer digits hb.stops_isDigit).lexed h).blanks after
      have hbelow := ((reads_slash _).lexed hdigits).blanks before
      simpa [denominatorText, denominatorTokens, Mode.after] using hbelow
  rcases sign with _ | ⟨negative, blanks⟩
  · simpa [Plain.text, Plain.tokens, signText] using hnumber
  · simpa [Plain.text, Plain.tokens, signText] using
      (reads_sign negative _).lexed (hnumber.blanks blanks)

lemma Power.lexed (p : Power) {rest : List Char} {ts : List Token} (hb : Boundary rest)
    (h : ∀ mode, Lexed mode rest ts) : Lexed .base (p.text ++ rest) (p.tokens ++ ts) := by
  rcases p with _ | ⟨gap, n⟩ | ⟨before, after, n⟩
  · exact h .base
  · simpa [Power.text, Power.tokens] using ((reads_raised n hb).lexed (h _)).blanks gap
  · simpa [Power.text, Power.tokens] using
      ((reads_caret .base _).lexed ((n.lexed hb (h _)).blanks after)).blanks before

lemma Factor.lexed (f : Factor) {rest : List Char} {ts : List Token} (hb : Boundary rest)
    (h : ∀ mode, Lexed mode rest ts) : Lexed .base (f.text ++ rest) (f.tokens ++ ts) := by
  simpa [Factor.text, Factor.tokens] using
    (reads_base f.base (f.power.baseRest_eq_nil hb)).lexed (f.power.lexed hb h)

lemma Factors.lexed (fs : Factors) (trail : Blanks) (mode : Mode) :
    Lexed mode (fs.text ++ trail.chars) fs.tokens := by
  induction fs generalizing mode with
  | nil => simpa [Factors.text, Factors.tokens] using (lexed_nil mode).blanks trail
  | cons g fs ih =>
    obtain ⟨before, after, f⟩ := g
    have hfactor := (f.lexed (boundary_factors fs trail) ih).blanks after
    simpa [Factors.text, Factors.tokens] using
      ((reads_dot mode _).lexed hfactor).blanks before

lemma Derivation.lexed (d : Derivation) :
    Lexed .base d.text (d.first.tokens ++ d.more.tokens) :=
  (d.first.lexed (boundary_factors d.more d.trail) (d.more.lexed d.trail)).blanks d.lead

/-! ### Nothing that is derived is refused -/

lemma takeQuotient_eq_ok_iff {negative : Bool} {numerator denominator : ℕ} {e : Exponent}
    {ls rest : List Lexeme} :
    takeQuotient (if negative then -numerator else numerator) denominator ls = .ok (e, rest) ↔
      exponent? negative numerator denominator = some e ∧ rest = ls := by
  unfold takeQuotient exponent?
  split
  · simp [faultAt_ne_ok]
  · simp [eq_comm]

/-- What can follow a term. -/
def Ends (ts : List Token) : Prop := ∀ t, ts.head? = some t → t = .dot

lemma Factors.ends (fs : Factors) : Ends fs.tokens := by
  rcases fs with _ | ⟨⟨_, _, f⟩, fs⟩
  · simp [Ends, Factors.tokens]
  · simp [Ends, Factors.tokens]

lemma exists_of_map_token {ls : List Lexeme} {t : Token} {ts : List Token}
    (h : ls.map Lexeme.token = t :: ts) :
    ∃ offset rest, ls = ⟨t, offset⟩ :: rest ∧ rest.map Lexeme.token = ts := by
  obtain ⟨⟨t', offset⟩, rest, rfl, rfl, rfl⟩ := List.map_eq_cons_iff.mp h
  exact ⟨offset, rest, rfl, rfl⟩

lemma refuseCaret_of_ends {ls : List Lexeme} (h : Ends (ls.map Lexeme.token)) (e : Exponent) :
    refuseCaret e ls = .ok (e, ls) := by
  unfold refuseCaret
  split
  · exact absurd (h .caret rfl) (by simp)
  · rfl

lemma takeDenominator_of_exponent? {negative : Bool} {numerator : ℕ} {e : Exponent}
    (denominator : Option (Blanks × Blanks × Block Char.isDigit))
    (he : exponent? negative numerator
      ((denominator.map fun d => d.2.2.value plainDigit).getD 1) = some e)
    {ls : List Lexeme} {ts : List Token} (hts : Ends ts)
    (hls : ls.map Lexeme.token = Plain.denominatorTokens denominator ++ ts) :
    ∃ rest, takeDenominator (if negative then -numerator else numerator) ls = .ok (e, rest) ∧
      rest.map Lexeme.token = ts := by
  rcases denominator with _ | ⟨before, after, digits⟩
  · obtain rfl : _ = ts := hls
    refine ⟨ls, ?_, rfl⟩
    unfold takeDenominator
    split
    · exact absurd (hts .slash rfl) (by simp)
    · exact absurd (hts .slash rfl) (by simp)
    · have hquotient : takeQuotient _ 1 ls = .ok (e, ls) := takeQuotient_eq_ok_iff.mpr ⟨he, rfl⟩
      exact hquotient
  · obtain ⟨_, _, rfl, hbehind⟩ := exists_of_map_token hls
    obtain ⟨_, rest, rfl, hrest⟩ := exists_of_map_token hbehind
    exact ⟨rest, takeQuotient_eq_ok_iff.mpr ⟨he, rfl⟩, hrest⟩

lemma takeExponent_of_exponent? (n : Plain) {e : Exponent} (he : n.exponent? = some e)
    {ls : List Lexeme} {ts : List Token} (hts : Ends ts)
    (hls : ls.map Lexeme.token = n.tokens ++ ts) :
    ∃ rest, takeExponent ls = .ok (e, rest) ∧ rest.map Lexeme.token = ts := by
  obtain ⟨sign, numerator, denominator⟩ := n
  have hnumber : ∀ (negative : Bool) (offset : ℕ) (ls' : List Lexeme),
      takeSign ls = (negative, ⟨.integer (numerator.value plainDigit), offset⟩ :: ls') →
      exponent? negative (numerator.value plainDigit)
        ((denominator.map fun d => d.2.2.value plainDigit).getD 1) = some e →
      ls'.map Lexeme.token = Plain.denominatorTokens denominator ++ ts →
      ∃ rest, takeExponent ls = .ok (e, rest) ∧ rest.map Lexeme.token = ts := by
    intro negative offset ls' hsign he hls'
    obtain ⟨rest, hrest, rfl⟩ := takeDenominator_of_exponent? denominator he hts hls'
    refine ⟨rest, ?_, rfl⟩
    simp only [takeExponent, hsign, hrest, bind, Except.bind]
    exact refuseCaret_of_ends hts e
  rcases sign with _ | ⟨negative, blanks⟩
  · obtain ⟨offset, ls', rfl, hls'⟩ := exists_of_map_token hls
    exact hnumber false offset ls' rfl he hls'
  · obtain ⟨_, _, rfl, hbehind⟩ := exists_of_map_token hls
    obtain ⟨offset, ls', rfl, hls'⟩ := exists_of_map_token hbehind
    exact hnumber negative offset ls' rfl he hls'

lemma takePower_of_exponent? (p : Power) {e : Exponent} (he : p.exponent? = some e)
    {ls : List Lexeme} {ts : List Token} (hts : Ends ts)
    (hls : ls.map Lexeme.token = p.tokens ++ ts) :
    ∃ rest, takePower ls = .ok (e, rest) ∧ rest.map Lexeme.token = ts := by
  rcases p with _ | ⟨gap, n⟩ | ⟨before, after, n⟩
  · obtain rfl : _ = ts := hls
    refine ⟨ls, ?_, rfl⟩
    unfold takePower
    split
    · exact absurd (hts _ rfl) (by simp)
    · exact absurd (hts .caret rfl) (by simp)
    · exact congrArg (fun e => Except.ok (e, ls)) (Option.some.inj he)
  · obtain ⟨_, ls, rfl, rfl⟩ := exists_of_map_token hls
    refine ⟨ls, ?_, rfl⟩
    have hquotient : takeQuotient _ _ ls = .ok (e, ls) := takeQuotient_eq_ok_iff.mpr ⟨he, rfl⟩
    change Except.bind (takeQuotient _ _ ls) _ = _
    rw [hquotient]
    dsimp only [Except.bind]
    split
    · exact absurd (hts .caret rfl) (by simp)
    · rfl
  · obtain ⟨_, _, rfl, hbehind⟩ := exists_of_map_token hls
    exact takeExponent_of_exponent? n he hts hbehind

lemma takeTerm_of_term? (f : Factor) {t : Term} (ht : f.term? = some t)
    {ls : List Lexeme} {ts : List Token} (hts : Ends ts)
    (hls : ls.map Lexeme.token = f.tokens ++ ts) :
    ∃ rest, takeTerm ls = .ok (t, rest) ∧ rest.map Lexeme.token = ts := by
  obtain ⟨e, he, rfl⟩ := Option.map_eq_some_iff.mp ht
  obtain ⟨_, _, rfl, hbehind⟩ := exists_of_map_token hls
  obtain ⟨rest, hrest, rfl⟩ := takePower_of_exponent? f.power he hts hbehind
  exact ⟨rest, by simp only [takeTerm, hrest, bind, Except.bind]; rfl, rfl⟩

lemma takeTerms_of_terms? (fs : Factors) {terms : List Term} (h : fs.terms? = some terms)
    {ls : List Lexeme} (hls : ls.map Lexeme.token = fs.tokens) : takeTerms ls = .ok terms := by
  induction fs generalizing terms ls with
  | nil =>
    obtain rfl : [] = terms := Option.some.inj h
    obtain rfl := List.map_eq_nil_iff.mp hls
    rw [takeTerms]
  | cons g fs ih =>
    obtain ⟨before, after, f⟩ := g
    obtain ⟨t, ht, h⟩ := Option.bind_eq_some_iff.mp h
    obtain ⟨more, hmore, heq⟩ := Option.bind_eq_some_iff.mp h
    obtain rfl : t :: more = terms := Option.some.inj heq
    obtain ⟨_, _, rfl, hbehind⟩ := exists_of_map_token hls
    obtain ⟨rest, hrest, hmap⟩ := takeTerm_of_term? f ht (Factors.ends fs) hbehind
    rw [takeTerms]
    split
    · rename_i hproblem
      simp [hrest] at hproblem
    · rename_i hok
      simp only [hrest, Except.ok.injEq, Prod.mk.injEq] at hok
      obtain ⟨rfl, rfl⟩ := hok
      rw [ih hmore hmap]

lemma parseTerms_of_terms? (d : Derivation) {terms : List Term} (h : d.terms? = some terms)
    {s : String} (hs : d.text = s.toList) : parseTerms s = .ok terms := by
  obtain ⟨t, ht, h⟩ := Option.bind_eq_some_iff.mp h
  obtain ⟨more, hmore, heq⟩ := Option.bind_eq_some_iff.mp h
  obtain rfl : t :: more = terms := Option.some.inj heq
  obtain ⟨ls, hls, htokens⟩ := d.lexed 0
  obtain ⟨rest, hrest, hmap⟩ := takeTerm_of_term? d.first ht (Factors.ends d.more) htokens
  have hnonblank : ¬ s.toList.all isBlank := by
    obtain ⟨c, cs, hc, hword, -⟩ := d.first.base.exists_cons
    have hmem : c ∈ s.toList := by
      simp [← hs, Derivation.text, Factor.text, hc]
    exact fun hall => by
      simpa [isBlank_of_isWordChar hword] using List.all_eq_true.mp hall c hmem
  rw [parseTerms, if_neg hnonblank, ← hs]
  simp only [hls, termsOf, hrest, takeTerms_of_terms? d.more hmore hmap, bind, Except.bind]
  rfl

/-! ### Nothing else is accepted -/

section Soundness

variable {cs : List Char} {ls rest : List Lexeme} {e : Exponent}

lemma exists_of_takeDenominator {negative : Bool} {numerator : ℕ} (h : Scanned .exponent cs ls)
    (hok : takeDenominator (if negative then -numerator else numerator) ls = .ok (e, rest)) :
    ∃ denominator behind, cs = Plain.denominatorText denominator ++ behind ∧
      exponent? negative numerator
        ((denominator.map fun d => d.2.2.value plainDigit).getD 1) = some e ∧
      Scanned .exponent behind rest := by
  unfold takeDenominator at hok
  split at hok
  · obtain ⟨he, rfl⟩ := takeQuotient_eq_ok_iff.mp hok
    obtain ⟨before, _, rfl, hslash⟩ := h.exists_mark rfl
    obtain ⟨after, digits, behind, rfl, rfl, hrest⟩ := hslash.exists_integer
    exact ⟨some (before, after, digits), behind, by simp [Plain.denominatorText], he, hrest⟩
  · exact absurd hok faultAt_ne_ok
  · have hquotient : takeQuotient (if negative then -numerator else numerator) 1 ls =
        .ok (e, rest) := hok
    obtain ⟨he, rfl⟩ := takeQuotient_eq_ok_iff.mp hquotient
    exact ⟨none, cs, rfl, he, h⟩

lemma eq_of_refuseCaret {e' : Exponent} (h : refuseCaret e ls = .ok (e', rest)) :
    e' = e ∧ rest = ls := by
  unfold refuseCaret at h
  split at h
  · exact absurd h faultAt_ne_ok
  · simpa [eq_comm] using h

lemma exists_of_takeSign {negative : Bool} {value offset : ℕ} (h : Scanned .exponent cs ls)
    (hsign : takeSign ls = (negative, ⟨.integer value, offset⟩ :: rest)) :
    ∃ (lead : Blanks) (sign : Option (Bool × Blanks)) (digits : Block Char.isDigit)
      (behind : List Char),
      cs = lead.chars ++ (Plain.signText sign ++ (digits.chars ++ behind)) ∧
      (sign.map Prod.fst).getD false = negative ∧ digits.value plainDigit = value ∧
      Scanned .exponent behind rest := by
  unfold takeSign at hsign
  split at hsign
  · simp only [Prod.mk.injEq] at hsign
    obtain ⟨rfl, rfl⟩ := hsign
    obtain ⟨lead, _, rfl, hsign⟩ := h.exists_mark rfl
    obtain ⟨blanks, digits, behind, rfl, rfl, hrest⟩ := hsign.exists_integer
    exact ⟨lead, some (_, blanks), digits, behind, by simp [Plain.signText], rfl, rfl, hrest⟩
  · simp only [Prod.mk.injEq] at hsign
    obtain ⟨rfl, rfl⟩ := hsign
    obtain ⟨lead, digits, behind, rfl, rfl, hrest⟩ := h.exists_integer
    exact ⟨lead, none, digits, behind, rfl, rfl, rfl, hrest⟩

lemma exists_of_takeExponent (h : Scanned .exponent cs ls)
    (hok : takeExponent ls = .ok (e, rest)) :
    ∃ (lead : Blanks) (n : Plain) (behind : List Char), cs = lead.chars ++ (n.text ++ behind) ∧
      n.exponent? = some e ∧ Scanned .exponent behind rest := by
  unfold takeExponent at hok
  split at hok
  · rename_i negative value offset ls' hsign
    obtain ⟨lead, sign, digits, _, rfl, rfl, rfl, hdigits⟩ := exists_of_takeSign h hsign
    simp only [bind, Except.bind] at hok
    split at hok
    · simp at hok
    · rename_i hdenominator
      obtain ⟨rfl, rfl⟩ := eq_of_refuseCaret hok
      obtain ⟨denominator, behind, rfl, he, hrest⟩ :=
        exists_of_takeDenominator hdigits hdenominator
      exact ⟨lead, ⟨sign, digits, denominator⟩, behind, by simp [Plain.text], he, hrest⟩
  · exact absurd hok faultAt_ne_ok

lemma exists_of_takePower (h : Scanned .base cs ls) (hok : takePower ls = .ok (e, rest)) :
    ∃ (p : Power) (mode : Mode) (behind : List Char), cs = p.text ++ behind ∧
      p.exponent? = some e ∧ Scanned mode behind rest := by
  unfold takePower at hok
  split at hok
  · obtain ⟨gap, n, behind, rfl, htoken, hrest⟩ := h.exists_raised
    simp only [Raised.token, raisedToken, Token.superscript.injEq] at htoken
    obtain ⟨rfl, rfl⟩ := htoken
    simp only [bind, Except.bind] at hok
    split at hok
    · simp at hok
    · rename_i hquotient
      obtain ⟨he, hpair⟩ := takeQuotient_eq_ok_iff.mp hquotient
      split at hok
      · exact absurd hok faultAt_ne_ok
      · simp only [pure, Except.pure, Except.ok.injEq, Prod.mk.injEq] at hok
        obtain ⟨rfl, rfl⟩ := hok
        rw [hpair]
        exact ⟨.raised gap n, .base, behind, by simp [Power.text], he, hrest⟩
  · obtain ⟨before, _, rfl, hcaret⟩ := h.exists_mark rfl
    obtain ⟨after, n, behind, rfl, he, hrest⟩ := exists_of_takeExponent hcaret hok
    exact ⟨.caret before after n, .exponent, behind, by simp [Power.text], he, hrest⟩
  · simp only [Except.ok.injEq, Prod.mk.injEq] at hok
    obtain ⟨rfl, rfl⟩ := hok
    exact ⟨.absent, .base, cs, rfl, rfl, h⟩

lemma exists_of_takeTerm {t : Term} (h : Scanned .base cs ls)
    (hok : takeTerm ls = .ok (t, rest)) :
    ∃ (lead : Blanks) (f : Factor) (mode : Mode) (behind : List Char),
      cs = lead.chars ++ (f.text ++ behind) ∧ f.term? = some t ∧ Scanned mode behind rest := by
  unfold takeTerm at hok
  split at hok
  · obtain ⟨lead, base, _, rfl, rfl, hbase⟩ := h.exists_base
    simp only [bind, Except.bind] at hok
    split at hok
    · simp at hok
    · rename_i hpower
      obtain ⟨p, mode, behind, rfl, he, hrest⟩ := exists_of_takePower hbase hpower
      simp only [pure, Except.pure, Except.ok.injEq, Prod.mk.injEq] at hok
      obtain ⟨rfl, rfl⟩ := hok
      exact ⟨lead, ⟨base, p⟩, mode, behind, by simp [Factor.text],
        by simp [Factor.term?, he], hrest⟩
  · exact absurd hok faultAt_ne_ok

lemma exists_of_takeTerms {mode : Mode} {terms : List Term} (h : Scanned mode cs ls)
    (hok : takeTerms ls = .ok terms) :
    ∃ (fs : Factors) (trail : Blanks), cs = fs.text ++ trail.chars ∧ fs.terms? = some terms := by
  induction terms generalizing mode cs ls with
  | nil =>
    unfold takeTerms at hok
    split at hok
    · obtain ⟨trail, rfl⟩ := h.exists_blanks
      exact ⟨[], trail, rfl, rfl⟩
    · exact absurd hok faultAt_ne_ok
    · split at hok
      · simp at hok
      · split at hok <;> simp at hok
    · exact absurd hok faultAt_ne_ok
  | cons t terms ih =>
    unfold takeTerms at hok
    split at hok
    · simp at hok
    · exact absurd hok faultAt_ne_ok
    · split at hok
      · simp at hok
      · rename_i hterm
        split at hok
        · simp at hok
        · rename_i hterms
          simp only [Except.ok.injEq, List.cons.injEq] at hok
          obtain ⟨rfl, rfl⟩ := hok
          obtain ⟨before, _, rfl, hdot⟩ := h.exists_mark rfl
          obtain ⟨after, f, _, _, rfl, ht, hrest⟩ := exists_of_takeTerm hdot hterm
          obtain ⟨fs, trail, rfl, hfs⟩ := ih hrest hterms
          exact ⟨(before, after, f) :: fs, trail, by simp [Factors.text],
            by simp [Factors.terms?, ht, hfs]⟩
    · exact absurd hok faultAt_ne_ok

end Soundness

lemma exists_of_parseTerms {s : String} {terms : List Term} (h : parseTerms s = .ok terms) :
    ∃ d : Derivation, d.text = s.toList ∧ d.terms? = some terms := by
  unfold parseTerms at h
  split_ifs at h
  simp only [termsOf, bind, Except.bind] at h
  split at h
  · simp at h
  · rename_i ls hls
    split at h
    · simp at h
    · rename_i hterm
      split at h
      · simp at h
      · rename_i hterms
        obtain rfl := Except.ok.inj h
        obtain ⟨lead, f, mode, _, hs, ht, hscan⟩ := exists_of_takeTerm ⟨0, hls⟩ hterm
        obtain ⟨fs, trail, rfl, hfs⟩ := exists_of_takeTerms hscan hterms
        exact ⟨⟨lead, f, fs, trail⟩, hs.symm, by simp [Derivation.terms?, ht, hfs]⟩

/-- **The parser accepts exactly its grammar**: no text has two derivations, the terms of an
accepted text are those of its derivation, and every other text is refused with a problem. -/
theorem parseTerms_eq_ok_iff (s : String) :
    (∀ d d' : Derivation, d.text = s.toList → d'.text = s.toList → d = d') ∧
      (∀ terms, parseTerms s = .ok terms ↔
        ∃ d : Derivation, d.text = s.toList ∧ d.terms? = some terms) ∧
      ((∀ d : Derivation, d.text = s.toList → d.terms? = none) →
        ∃ problem, parseTerms s = .error problem) := by
  refine ⟨fun d d' h h' => Derivation.text_injective (h.trans h'.symm), fun terms => ?_,
    fun hnone => ?_⟩
  · exact ⟨exists_of_parseTerms, fun ⟨d, htext, hterms⟩ => parseTerms_of_terms? d hterms htext⟩
  · rcases hparse : parseTerms s with problem | terms
    · exact ⟨problem, rfl⟩
    · obtain ⟨d, htext, hterms⟩ := exists_of_parseTerms hparse
      simp [hnone d htext] at hterms

end Grammar

end Metrology
