import Mathlib
import Metrology.Proofs.Unambiguity

/-!
What the scan makes of the pieces of an expression.

Each piece of the grammar is one lexeme if nothing behind it can make it longer, and each lexeme
has been such a piece, with the blanks before it.
-/

namespace Metrology

namespace Grammar

/-! ### Digits -/

lemma digitsValue_eq (digit : Char → ℕ) (cs : List Char) :
    digitsValue digit cs = Nat.ofDigits 10 (cs.reverse.map digit) := by
  induction cs using List.reverseRecOn with
  | nil => rfl
  | append_singleton cs c ih =>
    unfold digitsValue at ih ⊢
    rw [List.foldl_append, ih]
    simp [Nat.ofDigits_cons, Nat.add_comm]

lemma superscriptValue_eq (b : Block isSuperscriptDigit) :
    superscriptValue b.chars = b.value raisedDigit := by
  unfold superscriptValue Block.value
  rw [digitsValue_eq]
  congr 1
  refine List.map_congr_left fun c hc => ?_
  have hc := isSuperscriptDigit_iff.mp (b.all c (List.mem_reverse.mp hc))
  fin_cases hc <;> rfl

lemma decimalValue_eq (b : Block Char.isDigit) : decimalValue b.chars = b.value plainDigit :=
  digitsValue_eq _ _

lemma Block.takeWhile_eq {kind : Char → Bool} (b : Block kind) {cs : List Char}
    (h : Stops kind cs) : (b.chars ++ cs).takeWhile kind = b.chars := by
  rw [List.takeWhile_append_of_pos b.all, takeWhile_of_stops h, List.append_nil]

/-- The characters of one kind at the beginning of a text, if there are any. -/
def Block.ofTakeWhile {kind : Char → Bool} {cs : List Char} (h : cs.takeWhile kind ≠ []) :
    Block kind :=
  ⟨cs.takeWhile kind, h, fun _ hc => List.mem_takeWhile_imp hc⟩

/-! ### Raised numbers -/

/-- What a raised number is read as. -/
def raisedToken (negative : Bool) (numerator : Block isSuperscriptDigit)
    (denominator : Option (Block isSuperscriptDigit)) : Token :=
  .superscript
    (if negative then -(numerator.value raisedDigit : ℤ) else numerator.value raisedDigit)
    (denominator.map fun digits => digits.value raisedDigit)

lemma raisedDenominator_text {d : Option (Block isSuperscriptDigit)} {rest : List Char}
    (h : Boundary rest) : raisedDenominator (Raised.denominatorText d ++ rest) =
      (d.map Block.chars).getD [] := by
  rcases d with _ | digits
  · rcases rest with _ | ⟨c, rest⟩
    · rfl
    · have hc : c ≠ '⁄' := by
        rintro rfl
        exact absurd (h '⁄' (lookahead_cons (by decide) rest)) (by decide)
      simp only [Raised.denominatorText, List.nil_append, raisedDenominator]
      split
      · rename_i heq
        exact absurd (List.cons.inj heq).1 hc
      · rfl
  · exact digits.takeWhile_eq (h.stops (fun c => isBlank_of_isSuperscriptDigit) (by decide))

lemma raisedNumber?_text (negative : Bool) (n : Block isSuperscriptDigit)
    (d : Option (Block isSuperscriptDigit)) {rest : List Char} (h : Boundary rest) :
    raisedNumber? negative (n.chars ++ (Raised.denominatorText d ++ rest)) =
      some (raisedToken negative n d, (n.chars ++ Raised.denominatorText d).length) := by
  have htake := n.takeWhile_eq (Raised.stops (d := d) h)
  have hdrop : (n.chars ++ (Raised.denominatorText d ++ rest)).drop n.chars.length =
      Raised.denominatorText d ++ rest := List.drop_left
  unfold raisedNumber?
  rw [htake]
  split
  · exact absurd ‹_› n.ne_nil
  · simp only [hdrop, raisedDenominator_text h, superscriptValue_eq]
    rcases d with _ | digits
    · simp [raisedToken, Raised.denominatorText]
    · simp only [Option.map_some, Option.getD_some]
      split
      · exact absurd ‹_› digits.ne_nil
      · simp only [superscriptValue_eq, raisedToken, Raised.denominatorText, Option.map_some,
          List.length_append, List.length_cons]
        congr 2
        omega

lemma eq_append_drop {u cs : List Char} (h : u <+: cs) : cs = u ++ cs.drop u.length :=
  (List.prefix_iff_eq_append.mp h).symm

lemma exists_of_raisedDenominator {cs : List Char} (h : raisedDenominator cs ≠ []) :
    ∃ digits : Block isSuperscriptDigit, raisedDenominator cs = digits.chars ∧
      cs = '⁄' :: (digits.chars ++ cs.drop (1 + digits.chars.length)) := by
  unfold raisedDenominator at h ⊢
  split at h
  · rename_i cs
    refine ⟨Block.ofTakeWhile h, rfl, ?_⟩
    rw [Nat.add_comm, List.drop_succ_cons]
    exact congrArg ('⁄' :: ·) (eq_append_drop (List.takeWhile_prefix _))
  · exact absurd rfl h

lemma exists_of_raisedNumber? {negative : Bool} {cs : List Char} {t : Token} {k : ℕ}
    (h : raisedNumber? negative cs = some (t, k)) :
    ∃ n d, cs = n.chars ++ (Raised.denominatorText d ++ cs.drop k) ∧
      t = raisedToken negative n d := by
  unfold raisedNumber? at h
  split at h
  · exact absurd h (by simp)
  · rename_i digits hne
    obtain ⟨n, hn⟩ : ∃ n : Block isSuperscriptDigit,
        cs.takeWhile isSuperscriptDigit = n.chars := ⟨Block.ofTakeWhile hne, rfl⟩
    have hcs : cs = n.chars ++ cs.drop n.chars.length :=
      eq_append_drop (hn ▸ List.takeWhile_prefix _)
    rw [hn] at h
    dsimp only at h
    split at h
    · simp only [Option.some.injEq, Prod.mk.injEq] at h
      obtain ⟨rfl, rfl⟩ := h
      exact ⟨n, none, hcs, by rw [raisedToken, ← superscriptValue_eq]; rfl⟩
    · rename_i below hbelow
      obtain ⟨d, hd, hdrop⟩ := exists_of_raisedDenominator hbelow
      simp only [Option.some.injEq, Prod.mk.injEq] at h
      obtain ⟨rfl, rfl⟩ := h
      refine ⟨n, some d, ?_, ?_⟩
      · rw [hd, Nat.add_assoc, ← List.drop_drop]
        conv_lhs => rw [hcs, hdrop]
        rfl
      · rw [raisedToken, ← superscriptValue_eq, Option.map_some, ← superscriptValue_eq, ← hd]

/-! ### Bases -/

lemma baseRest_isPrefix (cs : List Char) : baseRest cs <+: cs := by
  induction cs with
  | nil => exact List.prefix_rfl
  | cons c cs ih =>
    rw [baseRest]
    split_ifs with hword hgap
    · exact List.cons_prefix_cons.mpr ⟨rfl, ih⟩
    · split
      · exact List.nil_prefix
      · exact List.cons_prefix_cons.mpr ⟨rfl, ih⟩
    · exact List.nil_prefix

/-- What is left of a base is the rest of a word and more words. -/
lemma exists_baseRest (cs : List Char) : ∃ (w : List Char) (ws : Words),
    (∀ c ∈ w, isWordChar c = true) ∧ baseRest cs = w ++ ws.text := by
  induction cs with
  | nil => exact ⟨[], [], by simp, rfl⟩
  | cons c cs ih =>
    obtain ⟨w, ws, hw, hrest⟩ := ih
    rw [baseRest]
    split_ifs with hword hgap
    · refine ⟨c :: w, ws, fun d hd => ?_, by rw [hrest]; rfl⟩
      rcases List.mem_cons.mp hd with rfl | hd
      · exact hword
      · exact hw d hd
    · have hc : isGap c = true := isGap_iff.mpr hgap
      rw [hrest]
      rcases w with _ | ⟨d, w⟩
      · rcases ws with _ | ⟨⟨gap, word⟩, ws⟩
        · exact ⟨[], [], by simp, rfl⟩
        · -- the gap that follows begins one character earlier
          obtain ⟨d, gs, hgs, _⟩ := gap.exists_cons
          let wider : Block isGap := ⟨c :: gap.chars, by simp, fun e he => by
            rcases List.mem_cons.mp he with rfl | he
            · exact hc
            · exact gap.all e he⟩
          exact ⟨[], (wider, word) :: ws, by simp, by simp [Words.text, wider, hgs]⟩
      · let gap : Block isGap := ⟨[c], by simp, by simpa using hc⟩
        let word : Block isWordChar := ⟨d :: w, by simp, hw⟩
        exact ⟨[], (gap, word) :: ws, by simp, by simp [Words.text, gap, word]⟩
    · exact ⟨[], [], by simp, rfl⟩

lemma exists_base {c : Char} (hc : isWordChar c = true) (cs : List Char) :
    ∃ b : Base, b.text = c :: baseRest cs := by
  obtain ⟨w, ws, hw, hrest⟩ := exists_baseRest cs
  let word : Block isWordChar := ⟨c :: w, by simp, fun d hd => by
    rcases List.mem_cons.mp hd with rfl | hd
    · exact hc
    · exact hw d hd⟩
  exact ⟨⟨word, ws⟩, by simp [Base.text, word, hrest]⟩

/-! ### Pieces as tokens -/

/-- What a raised number is read as. -/
def Raised.token (n : Raised) : Token :=
  raisedToken (n.sign.getD false) n.numerator n.denominator

/-- A piece of a text in front of a rest is scanned as one token. -/
def Reads (mode : Mode) (piece : List Char) (t : Token) (rest : List Char) : Prop :=
  ∃ c cs, piece = c :: cs ∧ isBlank c = false ∧
    token? mode c (cs ++ rest) = some (t, cs.length)

lemma reads_base (b : Base) {rest : List Char} (h : baseRest rest = []) :
    Reads .base b.text (.base (String.ofList b.text)) rest := by
  obtain ⟨c, cs, hb, hc, hcs⟩ := b.exists_cons
  obtain ⟨hdot, hcaret, hblank, hdigit, hplus, hminus, _⟩ := isWordChar_iff.mp hc
  refine ⟨c, cs, hb, hblank, ?_⟩
  simp [token?, hdot, hcaret, hplus, hminus, hdigit, hc, hcs rest h, hb]

lemma reads_raised (n : Raised) {rest : List Char} (h : Boundary rest) :
    Reads .base n.text n.token rest := by
  have hnumber := fun negative => raisedNumber?_text negative n.numerator n.denominator h
  rcases hs : n.sign with _ | _ | _
  · obtain ⟨c, cs, hcs, hc⟩ := n.numerator.exists_cons
    have hc' := isSuperscriptDigit_iff.mp hc
    have hne : c ≠ '.' ∧ c ≠ '^' ∧ c ≠ '⁺' ∧ c ≠ '⁻' := by fin_cases hc' <;> decide
    refine ⟨c, cs ++ Raised.denominatorText n.denominator,
      by simp [Raised.text, hs, Raised.signText, hcs], isBlank_of_isSuperscriptDigit hc, ?_⟩
    have hfalse := hnumber false
    rw [hcs, List.cons_append] at hfalse
    simp [token?, hne, hc, hfalse, Raised.token, hs]
  · refine ⟨'⁺', _, by simp only [Raised.text, hs, Raised.signText]; rfl, by decide, ?_⟩
    have hplus : (('⁺' : Char) == '⁻') = false := by decide
    simp [token?, hplus, hnumber, Raised.token, hs]
  · refine ⟨'⁻', _, by simp only [Raised.text, hs, Raised.signText]; rfl, by decide, ?_⟩
    simp [token?, hnumber, Raised.token, hs]

lemma reads_integer (b : Block Char.isDigit) {rest : List Char} (h : Stops Char.isDigit rest) :
    Reads .exponent b.chars (.integer (b.value plainDigit)) rest := by
  obtain ⟨c, cs, hb, hc⟩ := b.exists_cons
  have hne : c ≠ '.' ∧ c ≠ '^' ∧ c ≠ '+' ∧ c ≠ '-' := by
    refine ⟨?_, ?_, ?_, ?_⟩ <;> rintro rfl <;> exact absurd hc (by decide)
  have htake := b.takeWhile_eq h
  rw [hb, List.cons_append, List.takeWhile_cons_of_pos hc, List.cons.injEq] at htake
  refine ⟨c, cs, hb, isBlank_of_isDigit hc, ?_⟩
  simp [token?, hne, hc, htake.2, ← decimalValue_eq, hb]

/-- The character of a token that is a single mark. -/
def mark? : Token → Option Char
  | .caret => some '^'
  | .dot => some '.'
  | .sign negative => some (if negative then '-' else '+')
  | .slash => some '/'
  | _ => none

lemma reads_caret (mode : Mode) (rest : List Char) : Reads mode ['^'] .caret rest :=
  ⟨'^', [], rfl, by decide, by cases mode <;> rfl⟩

lemma reads_dot (mode : Mode) (rest : List Char) : Reads mode ['.'] .dot rest :=
  ⟨'.', [], rfl, by decide, by cases mode <;> rfl⟩

lemma reads_sign (negative : Bool) (rest : List Char) :
    Reads .exponent [if negative then '-' else '+'] (.sign negative) rest :=
  ⟨_, [], rfl, by cases negative <;> decide, by cases negative <;> rfl⟩

lemma reads_slash (rest : List Char) : Reads .exponent ['/'] .slash rest :=
  ⟨'/', [], rfl, by decide, rfl⟩

/-! ### Tokens as pieces -/

section Inversion

variable {mode : Mode} {c : Char} {cs : List Char} {t : Token} {k : ℕ}

lemma exists_of_signed (hsign : c = '⁺' ∨ c = '⁻')
    (h : raisedNumber? (c == '⁻') cs = some (t, k)) :
    ∃ n : Raised, c :: cs = n.text ++ cs.drop k ∧ t = n.token := by
  obtain ⟨n, den, hcs, ht⟩ := exists_of_raisedNumber? h
  refine ⟨⟨some (c == '⁻'), n, den⟩, ?_, ht⟩
  have htext : Raised.signText (some (c == '⁻')) = [c] := by
    rcases hsign with rfl | rfl <;> rfl
  simp only [Raised.text, htext, List.append_assoc, List.cons_append, List.nil_append, ← hcs]

lemma exists_of_unsigned (h : raisedNumber? false (c :: cs) = some (t, k)) :
    ∃ n : Raised, c :: cs = n.text ++ cs.drop (k - 1) ∧ t = n.token := by
  obtain ⟨n, den, hcs, ht⟩ := exists_of_raisedNumber? h
  refine ⟨⟨none, n, den⟩, ?_, ht⟩
  -- the number has at least one digit, so that the count of the rest is not cut off
  have hk : (c :: cs).drop k = cs.drop (k - 1) := by
    rcases k with _ | k
    · obtain ⟨e, es, hes, _⟩ := n.exists_cons
      have hlength := congrArg List.length hcs
      simp only [hes, List.length_append, List.length_cons, List.drop_zero] at hlength
      omega
    · rfl
  rw [hk] at hcs
  simpa [Raised.text, Raised.signText] using hcs

lemma exists_of_word (hword : isWordChar c = true) :
    ∃ b : Base, c :: cs = b.text ++ cs.drop (baseRest cs).length ∧
      Token.base (String.ofList (c :: baseRest cs)) = .base (String.ofList b.text) := by
  obtain ⟨b, hb⟩ := exists_base hword cs
  refine ⟨b, ?_, by rw [hb]⟩
  rw [hb, List.cons_append, ← eq_append_drop (baseRest_isPrefix cs)]

lemma exists_of_digit (hdigit : c.isDigit = true) :
    ∃ b : Block Char.isDigit, c :: cs = b.chars ++ cs.drop (cs.takeWhile Char.isDigit).length ∧
      Token.integer (decimalValue (c :: cs.takeWhile Char.isDigit)) =
        .integer (b.value plainDigit) := by
  let b : Block Char.isDigit := ⟨c :: cs.takeWhile Char.isDigit, by simp, fun d hd => by
    rcases List.mem_cons.mp hd with rfl | hd
    · exact hdigit
    · exact List.mem_takeWhile_imp hd⟩
  refine ⟨b, ?_, congrArg Token.integer (decimalValue_eq b)⟩
  exact congrArg (c :: ·) (eq_append_drop (List.takeWhile_prefix _))

/-- **What a token can be read from**: a single mark, a raised number, a base or an integer. -/
inductive Spells : List Char → Token → Prop
  | mark {t : Token} {d : Char} (hd : mark? t = some d) : Spells [d] t
  | raised {t : Token} (n : Raised) (ht : t = n.token) : Spells n.text t
  | base (b : Base) : Spells b.text (.base (String.ofList b.text))
  | integer (digits : Block Char.isDigit) :
      Spells digits.chars (.integer (digits.value plainDigit))

/-- A token is read from a piece that spells it, at the beginning of the text. -/
lemma exists_spells (h : token? mode c cs = some (t, k)) :
    ∃ piece, c :: cs = piece ++ cs.drop k ∧ Spells piece t := by
  have hpair {t' : Token} {j : ℕ} (h : some (t', j) = some (t, k)) : t' = t ∧ j = k :=
    Prod.mk.inj (Option.some.inj h)
  have hraised : (∃ n : Raised, c :: cs = n.text ++ cs.drop k ∧ t = n.token) →
      ∃ piece, c :: cs = piece ++ cs.drop k ∧ Spells piece t :=
    fun ⟨n, htext, ht⟩ => ⟨n.text, htext, .raised n ht⟩
  cases mode <;> simp only [token?] at h <;> split_ifs at h with h1 h2 h3 h4 h5
  · obtain ⟨rfl, rfl⟩ := hpair h
    exact ⟨[c], rfl, .mark (congrArg some h1.symm)⟩
  · obtain ⟨rfl, rfl⟩ := hpair h
    exact ⟨[c], rfl, .mark (congrArg some h2.symm)⟩
  · exact hraised (exists_of_signed h3 h)
  · obtain ⟨⟨t', j⟩, hunsigned, heq⟩ := Option.map_eq_some_iff.mp h
    obtain ⟨rfl, rfl⟩ := Prod.mk.inj heq
    exact hraised (exists_of_unsigned hunsigned)
  · obtain ⟨rfl, rfl⟩ := hpair h
    obtain ⟨b, htext, ht⟩ := exists_of_word h5
    exact ⟨b.text, htext, ht ▸ .base b⟩
  · obtain ⟨rfl, rfl⟩ := hpair h
    exact ⟨[c], rfl, .mark (congrArg some h1.symm)⟩
  · obtain ⟨rfl, rfl⟩ := hpair h
    exact ⟨[c], rfl, .mark (congrArg some h2.symm)⟩
  · obtain ⟨rfl, rfl⟩ := hpair h
    exact ⟨[c], rfl, .mark (by rcases h3 with rfl | rfl <;> rfl)⟩
  · obtain ⟨rfl, rfl⟩ := hpair h
    obtain ⟨digits, htext, ht⟩ := exists_of_digit h4
    exact ⟨digits.chars, htext, ht ▸ .integer digits⟩
  · obtain ⟨rfl, rfl⟩ := hpair h
    exact ⟨[c], rfl, .mark (congrArg some h5.symm)⟩

end Inversion

/-! ### Lexemes -/

/-- Wherever a text begins, it is scanned as these tokens. -/
def Lexed (mode : Mode) (cs : List Char) (tokens : List Token) : Prop :=
  ∀ offset, ∃ ls, lexemes mode offset cs = .ok ls ∧ ls.map Lexeme.token = tokens

lemma lexed_nil (mode : Mode) : Lexed mode [] [] :=
  fun _ => ⟨[], by rw [lexemes], rfl⟩

lemma Lexed.blanks {mode : Mode} {cs : List Char} {tokens : List Token}
    (h : Lexed mode cs tokens) (b : Blanks) : Lexed mode (b.chars ++ cs) tokens := by
  obtain ⟨bs, hbs⟩ := b
  induction bs with
  | nil => exact h
  | cons c bs ih =>
    intro offset
    have ih := ih fun d hd => hbs d (List.mem_cons_of_mem _ hd)
    rw [List.cons_append, lexemes, if_pos (hbs c List.mem_cons_self)]
    exact ih _

lemma Reads.lexed {mode : Mode} {piece rest : List Char} {t : Token} {tokens : List Token}
    (h : Reads mode piece t rest) (hrest : Lexed (mode.after t) rest tokens) :
    Lexed mode (piece ++ rest) (t :: tokens) := by
  obtain ⟨c, cs, rfl, hc, ht⟩ := h
  intro offset
  obtain ⟨ls, hls, hmap⟩ :=
    hrest (offset + Utf16.widthOfFirst (cs.length + 1) (c :: (cs ++ rest)))
  refine ⟨⟨t, offset⟩ :: ls, ?_, by rw [List.map_cons, hmap]⟩
  rw [List.cons_append, lexemes, if_neg (by simp [hc]), ht]
  simp only [List.drop_left, hls]

/-- A text that is scanned as these lexemes, from some offset on. -/
def Scanned (mode : Mode) (cs : List Char) (ls : List Lexeme) : Prop :=
  ∃ offset, lexemes mode offset cs = .ok ls

section Scanned

variable {mode : Mode} {cs : List Char} {ls : List Lexeme} {offset : ℕ}

lemma Scanned.exists_blanks (h : Scanned mode cs []) : ∃ b : Blanks, cs = b.chars := by
  obtain ⟨offset, h⟩ := h
  induction cs generalizing offset with
  | nil => exact ⟨⟨[], by simp⟩, rfl⟩
  | cons c cs ih =>
    rw [lexemes] at h
    split_ifs at h with hblank
    · obtain ⟨b, rfl⟩ := ih _ h
      refine ⟨⟨c :: b.chars, fun e he => ?_⟩, rfl⟩
      rcases List.mem_cons.mp he with rfl | he
      · exact hblank
      · exact b.all e he
    · split at h
      · simp at h
      · dsimp only at h
        split at h <;> simp at h

lemma Scanned.exists_token {t : Token} (h : Scanned mode cs (⟨t, offset⟩ :: ls)) :
    ∃ (b : Blanks) (c : Char) (rest : List Char) (k : ℕ), cs = b.chars ++ c :: rest ∧
      token? mode c rest = some (t, k) ∧ Scanned (mode.after t) (rest.drop k) ls := by
  obtain ⟨start, h⟩ := h
  induction cs generalizing start with
  | nil => simp [lexemes] at h
  | cons c cs ih =>
    rw [lexemes] at h
    split_ifs at h with hblank
    · obtain ⟨b, d, rest, k, rfl, ht, hls⟩ := ih _ h
      refine ⟨⟨c :: b.chars, fun e he => ?_⟩, d, rest, k, rfl, ht, hls⟩
      rcases List.mem_cons.mp he with rfl | he
      · exact hblank
      · exact b.all e he
    · split at h
      · simp at h
      · rename_i t' k ht
        dsimp only at h
        split at h
        · simp at h
        · rename_i rest hrest
          simp only [Except.ok.injEq, List.cons.injEq, Lexeme.mk.injEq] at h
          obtain ⟨⟨rfl, rfl⟩, rfl⟩ := h
          exact ⟨⟨[], by simp⟩, c, cs, k, rfl, ht, ⟨_, hrest⟩⟩

/-- Before what a lexeme is read from there are only blanks. -/
lemma Scanned.exists_piece {t : Token} (h : Scanned mode cs (⟨t, offset⟩ :: ls)) :
    ∃ (b : Blanks) (piece rest : List Char), cs = b.chars ++ (piece ++ rest) ∧ Spells piece t ∧
      Scanned (mode.after t) rest ls := by
  obtain ⟨b, c, rest, k, rfl, ht, hls⟩ := h.exists_token
  obtain ⟨piece, htext, hpiece⟩ := exists_spells ht
  exact ⟨b, piece, rest.drop k, by rw [← htext], hpiece, hls⟩

lemma Scanned.exists_base {t : String} (h : Scanned mode cs (⟨.base t, offset⟩ :: ls)) :
    ∃ (b : Blanks) (base : Base) (rest : List Char), cs = b.chars ++ (base.text ++ rest) ∧
      t = String.ofList base.text ∧ Scanned mode rest ls := by
  obtain ⟨b, piece, rest, rfl, hpiece, hls⟩ := h.exists_piece
  cases hpiece with
  | mark hd => exact absurd hd (by simp [mark?])
  | raised n ht => exact absurd ht (by simp [Raised.token, raisedToken])
  | base base => exact ⟨b, base, rest, rfl, rfl, by cases mode <;> exact hls⟩

lemma Scanned.exists_raised {a : ℤ} {d : Option ℕ}
    (h : Scanned mode cs (⟨.superscript a d, offset⟩ :: ls)) :
    ∃ (b : Blanks) (n : Raised) (rest : List Char), cs = b.chars ++ (n.text ++ rest) ∧
      .superscript a d = n.token ∧ Scanned mode rest ls := by
  obtain ⟨b, piece, rest, rfl, hpiece, hls⟩ := h.exists_piece
  cases hpiece with
  | mark hd => exact absurd hd (by simp [mark?])
  | raised n ht => exact ⟨b, n, rest, rfl, ht, by cases mode <;> exact hls⟩

lemma Scanned.exists_integer {v : ℕ} (h : Scanned mode cs (⟨.integer v, offset⟩ :: ls)) :
    ∃ (b : Blanks) (digits : Block Char.isDigit) (rest : List Char),
      cs = b.chars ++ (digits.chars ++ rest) ∧ v = digits.value plainDigit ∧
        Scanned mode rest ls := by
  obtain ⟨b, piece, rest, rfl, hpiece, hls⟩ := h.exists_piece
  cases hpiece with
  | mark hd => exact absurd hd (by simp [mark?])
  | raised n ht => exact absurd ht (by simp [Raised.token, raisedToken])
  | integer digits => exact ⟨b, digits, rest, rfl, rfl, by cases mode <;> exact hls⟩

lemma Scanned.exists_mark {t : Token} {d : Char} (hd : mark? t = some d)
    (h : Scanned mode cs (⟨t, offset⟩ :: ls)) : ∃ (b : Blanks) (rest : List Char),
      cs = b.chars ++ d :: rest ∧ Scanned (mode.after t) rest ls := by
  obtain ⟨b, piece, rest, rfl, hpiece, hls⟩ := h.exists_piece
  cases hpiece with
  | mark hd' =>
    obtain rfl := Option.some.inj (hd.symm.trans hd')
    exact ⟨b, rest, rfl, hls⟩
  | raised n ht => exact absurd hd (by simp [ht, Raised.token, raisedToken, mark?])
  | base base => exact absurd hd (by simp [mark?])
  | integer digits => exact absurd hd (by simp [mark?])

end Scanned

end Grammar

end Metrology
