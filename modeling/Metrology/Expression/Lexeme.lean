import Metrology.Expression.Term
import Metrology.Text.Blank

/-!
Expressions as sequences of lexemes.

The scan stands either among bases or, from a caret to the next dot, in an exponent. Blanks
separate lexemes and are dropped, except the gaps between the words of a base.
-/

namespace Metrology

inductive Token where
  | base (text : String)
  /-- A raised number, with its denominator if it is a fraction. -/
  | superscript (numerator : Int) (denominator : Option Nat)
  | caret
  | dot
  | sign (negative : Bool)
  | integer (value : Nat)
  | slash
deriving DecidableEq

/-- A token and where it begins, in UTF-16 code units. -/
structure Lexeme where
  token : Token
  offset : Nat
deriving DecidableEq

/-- Which lexemes can come next. -/
inductive Mode where
  | base
  | exponent
deriving DecidableEq

def superscriptDigit? (c : Char) : Option Nat :=
  ['⁰', '¹', '²', '³', '⁴', '⁵', '⁶', '⁷', '⁸', '⁹'].idxOf? c

def isSuperscriptDigit (c : Char) : Bool := (superscriptDigit? c).isSome

def isWordChar (c : Char) : Bool :=
  !(c == '.' || c == '^' || isBlank c || isSuperscriptDigit c || c == '⁺' || c == '⁻' || c == '⁄')

def digitsValue (digit : Char → Nat) (digits : List Char) : Nat :=
  digits.foldl (fun value c => 10 * value + digit c) 0

def superscriptValue (digits : List Char) : Nat :=
  digitsValue (fun c => (superscriptDigit? c).getD 0) digits

def decimalValue (digits : List Char) : Nat := digitsValue (fun c => c.toNat - '0'.toNat) digits

/-- The rest of a base of which the beginning has been read: more word characters, and gaps of
spaces and tabs that are followed by a word. -/
def baseRest : List Char → List Char
  | [] => []
  | c :: cs =>
    if isWordChar c then c :: baseRest cs
    else if c = ' ' ∨ c = '\t' then
      match baseRest cs with
      | [] => []
      | rest => c :: rest
    else []

/-- A raised fraction bar and the digits after it, at the beginning of a text. -/
def raisedDenominator : List Char → List Char
  | '⁄' :: cs => cs.takeWhile isSuperscriptDigit
  | _ => []

/-- A raised number at the beginning of a text, the sign already read, and how many characters it
takes. -/
def raisedNumber? (negative : Bool) (cs : List Char) : Option (Token × Nat) :=
  match cs.takeWhile isSuperscriptDigit with
  | [] => none
  | digits =>
    let numerator : Int := superscriptValue digits
    let numerator := if negative then -numerator else numerator
    match raisedDenominator (cs.drop digits.length) with
    | [] => some (.superscript numerator none, digits.length)
    | below =>
      some (.superscript numerator (some (superscriptValue below)),
        digits.length + 1 + below.length)

/-- The token that begins with a character, and how many of the following characters belong to
it. -/
def token? : Mode → Char → List Char → Option (Token × Nat)
  | .base, c, cs =>
    if c = '.' then some (.dot, 0)
    else if c = '^' then some (.caret, 0)
    else if c = '⁺' ∨ c = '⁻' then raisedNumber? (c == '⁻') cs
    else if isSuperscriptDigit c then
      (raisedNumber? false (c :: cs)).map fun (token, length) => (token, length - 1)
    else if isWordChar c then
      let rest := baseRest cs
      some (.base (String.ofList (c :: rest)), rest.length)
    else none
  | .exponent, c, cs =>
    if c = '.' then some (.dot, 0)
    else if c = '^' then some (.caret, 0)
    else if c = '+' ∨ c = '-' then some (.sign (c == '-'), 0)
    else if c.isDigit then
      let rest := cs.takeWhile Char.isDigit
      some (.integer (decimalValue (c :: rest)), rest.length)
    else if c = '/' then some (.slash, 0)
    else none

def Mode.after : Mode → Token → Mode
  | _, .caret => .exponent
  | _, .dot => .base
  | mode, _ => mode

def lexemes (mode : Mode) (offset : Nat) : List Char → Except ParseProblem (List Lexeme)
  | [] => .ok []
  | c :: cs =>
    if isBlank c then lexemes mode (offset + Utf16.width c) cs
    else
      match token? mode c cs with
      | none => .error (.unexpected (Utf16.first c) offset)
      | some (token, length) =>
        let next := offset + Utf16.widthOfFirst (length + 1) (c :: cs)
        match lexemes (mode.after token) next (cs.drop length) with
        | .error problem => .error problem
        | .ok rest => .ok (⟨token, offset⟩ :: rest)
termination_by cs => cs.length
decreasing_by
  · exact Nat.lt_succ_self _
  · rw [List.length_drop, List.length_cons]
    omega

end Metrology
