import Metrology.Expression.Lexeme

/-!
Reading an expression: terms between dots, each a base with at most one exponent.

The whole text is split into lexemes first, so that a character that begins none is reported
before any fault in their order.
-/

namespace Metrology

/-- A fault noticed in front of the given lexemes. -/
def faultAt {β : Type} (fault : ParseFault) : List Lexeme → Except ParseProblem β
  | [] => .error (.fault fault .endOfInput)
  | lexeme :: _ => .error (.fault fault (.offset lexeme.offset))

def takeSign : List Lexeme → Bool × List Lexeme
  | ⟨.sign negative, _⟩ :: rest => (negative, rest)
  | rest => (false, rest)

def takeQuotient (numerator : Int) (denominator : Nat) (rest : List Lexeme) :
    Except ParseProblem (Exponent × List Lexeme) :=
  if h : denominator = 0 then faultAt .zeroDenominator rest
  else .ok (⟨numerator, denominator, h⟩, rest)

def takeDenominator (numerator : Int) : List Lexeme → Except ParseProblem (Exponent × List Lexeme)
  | ⟨.slash, _⟩ :: ⟨.integer denominator, _⟩ :: rest => takeQuotient numerator denominator rest
  | ⟨.slash, _⟩ :: rest => faultAt .denominatorExpected rest
  | rest => .ok (⟨numerator, 1, Nat.one_ne_zero⟩, rest)

def refuseCaret (exponent : Exponent) :
    List Lexeme → Except ParseProblem (Exponent × List Lexeme)
  | rest@(⟨.caret, _⟩ :: _) => faultAt .secondCaret rest
  | rest => .ok (exponent, rest)

def takeExponent (lexemes : List Lexeme) : Except ParseProblem (Exponent × List Lexeme) :=
  match takeSign lexemes with
  | (negative, ⟨.integer value, _⟩ :: rest) => do
    let (exponent, rest) ← takeDenominator (if negative then -(value : Int) else value) rest
    refuseCaret exponent rest
  | (_, rest) => faultAt .exponentExpected rest

def takePower : List Lexeme → Except ParseProblem (Exponent × List Lexeme)
  | ⟨.superscript numerator denominator, _⟩ :: rest => do
    let (exponent, rest) ← takeQuotient numerator (denominator.getD 1) rest
    match rest with
    | ⟨.caret, _⟩ :: rest => faultAt .twoExponents rest
    | rest => return (exponent, rest)
  | ⟨.caret, _⟩ :: rest => takeExponent rest
  | rest => .ok (.one, rest)

def takeTerm : List Lexeme → Except ParseProblem (Term × List Lexeme)
  | ⟨.base text, _⟩ :: rest => do
    let (exponent, rest) ← takePower rest
    return (⟨text, exponent⟩, rest)
  | rest => faultAt .baseExpected rest

theorem faultAt_ne_ok {β : Type} {fault : ParseFault} {rest : List Lexeme} {x : β} :
    faultAt fault rest ≠ .ok x := by
  cases rest <;> simp [faultAt]

theorem takeQuotient_rest {n : Int} {d : Nat} {ls rest : List Lexeme} {e : Exponent}
    (h : takeQuotient n d ls = .ok (e, rest)) : rest = ls := by
  unfold takeQuotient at h
  split at h
  · exact absurd h faultAt_ne_ok
  · simp only [Except.ok.injEq, Prod.mk.injEq] at h
    exact h.2.symm

theorem takeDenominator_length {n : Int} {ls rest : List Lexeme} {e : Exponent}
    (h : takeDenominator n ls = .ok (e, rest)) : rest.length ≤ ls.length := by
  unfold takeDenominator at h
  split at h
  · rw [takeQuotient_rest h]
    exact Nat.le_succ_of_le (Nat.le_succ _)
  · exact absurd h faultAt_ne_ok
  · simp only [Except.ok.injEq, Prod.mk.injEq] at h
    exact Nat.le_of_eq (congrArg List.length h.2.symm)

theorem takeSign_length (ls : List Lexeme) : (takeSign ls).2.length ≤ ls.length := by
  unfold takeSign
  split <;> simp

theorem refuseCaret_rest {ls rest : List Lexeme} {e e' : Exponent}
    (h : refuseCaret e ls = .ok (e', rest)) : rest = ls := by
  unfold refuseCaret at h
  split at h
  · exact absurd h faultAt_ne_ok
  · simp only [Except.ok.injEq, Prod.mk.injEq] at h
    exact h.2.symm

theorem takeExponent_length {ls rest : List Lexeme} {e : Exponent}
    (h : takeExponent ls = .ok (e, rest)) : rest.length ≤ ls.length := by
  have hsign := takeSign_length ls
  unfold takeExponent at h
  split at h
  · rename_i negative value offset tail heq
    rw [heq] at hsign
    simp only [bind, Except.bind] at h
    split at h
    · exact absurd h (by simp)
    · rename_i pair hd
      have := takeDenominator_length hd
      rw [refuseCaret_rest h]
      rw [List.length_cons] at hsign
      omega
  · exact absurd h faultAt_ne_ok

theorem takePower_length {ls rest : List Lexeme} {e : Exponent}
    (h : takePower ls = .ok (e, rest)) : rest.length ≤ ls.length := by
  unfold takePower at h
  split at h
  · simp only [bind, Except.bind] at h
    split at h
    · exact absurd h (by simp)
    · rename_i pair hq
      have := takeQuotient_rest hq
      split at h
      · exact absurd h faultAt_ne_ok
      · simp only [pure, Except.pure, Except.ok.injEq, Prod.mk.injEq] at h
        rw [← h.2, this]; simp
  · exact Nat.le_succ_of_le (takeExponent_length h)
  · simp only [Except.ok.injEq, Prod.mk.injEq] at h
    exact Nat.le_of_eq (congrArg List.length h.2.symm)

theorem takeTerm_length {ls rest : List Lexeme} {t : Term} (h : takeTerm ls = .ok (t, rest)) :
    rest.length < ls.length := by
  unfold takeTerm at h
  split at h
  · simp only [bind, Except.bind] at h
    split at h
    · exact absurd h (by simp)
    · rename_i pair hp
      have := takePower_length hp
      simp only [pure, Except.pure, Except.ok.injEq, Prod.mk.injEq] at h
      rw [← h.2, List.length_cons]
      omega
  · exact absurd h faultAt_ne_ok

/-- The terms behind a first one, each after a dot. -/
def takeTerms (lexemes : List Lexeme) : Except ParseProblem (List Term) :=
  match lexemes with
  | [] => .ok []
  | ⟨.caret, _⟩ :: _ => faultAt .secondCaret lexemes
  | ⟨.dot, _⟩ :: rest =>
    match h : takeTerm rest with
    | .error problem => .error problem
    | .ok (term, left) =>
      have := takeTerm_length h
      match takeTerms left with
      | .error problem => .error problem
      | .ok terms => .ok (term :: terms)
  | _ => faultAt .separatorExpected lexemes
termination_by lexemes.length
decreasing_by
  rw [List.length_cons]
  omega

def termsOf (lexemes : List Lexeme) : Except ParseProblem (List Term) := do
  let (term, rest) ← takeTerm lexemes
  let terms ← takeTerms rest
  return term :: terms

/-- The terms of an expression, in the order in which they are written. -/
def parseTerms (text : String) : Except ParseProblem (List Term) :=
  if text.toList.all isBlank then .error .blank
  else do
    let lexemes ← lexemes .base 0 text.toList
    termsOf lexemes

end Metrology
