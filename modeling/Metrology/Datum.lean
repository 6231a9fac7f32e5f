import Metrology.ExponentVector
import Metrology.Numeral.Literal

/-!
Data of no fixed shape, as registries are described by and as callers may hand over in place of
numbers.
-/

namespace Metrology

/-- A value of a data format with nested lists and records. -/
inductive Datum (α : Type) where
  /-- Nothing at all, where a caller has left a value out. -/
  | absent
  | null
  | flag (value : Bool)
  | number (value : α)
  | text (value : String)
  | list (items : List (Datum α))
  | record (fields : List (String × Datum α))
deriving Inhabited

namespace Datum

variable {α : Type} [Scalar α]

mutual

/-- How a datum is quoted in a message: lists by their items with commas between them, nested ones
without a mark of their own, and records not by their fields. -/
def quoted : Datum α → String
  | absent => "undefined"
  | null => "null"
  | flag value => if value then "true" else "false"
  | number value => Scalar.text value
  | text value => value
  | list items => ",".intercalate (quotedItems items)
  | record _ => "[object Object]"

/-- How the items of a list are quoted: what is missing is left empty. -/
def quotedItems : List (Datum α) → List String
  | [] => []
  | absent :: items => "" :: quotedItems items
  | null :: items => "" :: quotedItems items
  | item :: items => quoted item :: quotedItems items

end

def finite? : Datum α → Option α
  | number value => if Scalar.isFinite value then some value else none
  | _ => none

/-- The number a datum counts as where it is compared with one: 0 for nothing, 0 or 1 for a flag,
and for a text or a list the number that it is a literal of when it is quoted. -/
def numeric? : Datum α → Option α
  | absent => none
  | null => some 0
  | flag value => some (if value then 1 else 0)
  | number value => some value
  | text value => literal? value
  | list items => literal? (quoted (list items))
  | record _ => none

/-- What a datum counts as once a number has been added to it. To a text, a list or a record nothing
can be added: its quotation is continued by that of the number instead. -/
def plus? (d : Datum α) (x : α) : Option α :=
  match d with
  | text _ | list _ | record _ => literal? (d.quoted ++ Scalar.text x)
  | _ => d.numeric?.map fun value => value + x

def text? : Datum α → Option String
  | text value => some value
  | _ => none

def items? : Datum α → Option (List (Datum α))
  | list items => some items
  | _ => none

def field? (d : Datum α) (name : String) : Option (Datum α) :=
  match d with
  | record fields => (fields.find? fun field => field.1 == name).map Prod.snd
  | _ => none

/-- The length of a datum, as it is quoted: the number of items of a list or of code units of a
text, and what a record says of itself. -/
def quotedLength (d : Datum α) : String :=
  match d with
  | list items => items.length.repr
  | text value => (Utf16.ofString value).length.repr
  | record _ => ((d.field? "length").getD absent).quoted
  | _ => quoted (absent : Datum α)

def isCount (d : Datum α) (n : Nat) : Bool :=
  match d with
  | number value => value == Scalar.ofNat n
  | _ => false

def finite (role : NumberRole) (d : Datum α) : Except Violation α :=
  match d.finite? with
  | some value => .ok value
  | none => .error (.notFinite role d.quoted)

end Datum

namespace ExponentVector

variable {α : Type} [Scalar α]

def ofEntries (role : VectorRole) (index : Nat) :
    List (Datum α) → Except Violation (ExponentVector α)
  | [] => .ok []
  | entry :: entries =>
    match entry.finite? with
    | none => .error (.vectorEntry role index entry.quoted)
    | some value =>
      match ofEntries role (index + 1) entries with
      | .error violation => .error violation
      | .ok values => .ok (Scalar.normalized value :: values)

/-- A vector given entry by entry, of which the length is checked first. -/
def ofData (role : VectorRole) (length : Nat) (entries : List (Datum α)) :
    Except Violation (ExponentVector α) :=
  if entries.length ≠ length then .error (.vectorLength role length.repr entries.length.repr)
  else ofEntries role 0 entries

/-- A vector given as a datum, of a length that is itself given as a datum. -/
def ofSized (role : VectorRole) (length raw : Datum α) : Except Violation (ExponentVector α) :=
  match raw with
  | .list entries =>
    if length.isCount entries.length then ofEntries role 0 entries
    else .error (.vectorLength role length.quoted raw.quotedLength)
  | _ => .error (.vectorLength role length.quoted raw.quotedLength)

theorem length_of_ofEntries {role : VectorRole} {index : Nat} {entries : List (Datum α)}
    {v : ExponentVector α} (h : ofEntries role index entries = .ok v) :
    v.length = entries.length := by
  induction entries generalizing index v with
  | nil =>
    simp only [ofEntries, Except.ok.injEq] at h
    subst h
    rfl
  | cons entry entries ih =>
    simp only [ofEntries] at h
    split at h
    · simp at h
    · split at h
      · simp at h
      · rename_i values hv
        simp only [Except.ok.injEq] at h
        subst h
        simp [ih hv]

theorem length_of_ofData {role : VectorRole} {length : Nat} {entries : List (Datum α)}
    {v : ExponentVector α} (h : ofData role length entries = .ok v) : v.length = length := by
  unfold ofData at h
  split at h
  · simp at h
  · rename_i hlen
    rw [length_of_ofEntries h]
    simpa using hlen

end ExponentVector

end Metrology
