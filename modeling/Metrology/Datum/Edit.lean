import Metrology.Datum

/-!
Edits of a datum at a place inside it.
-/

namespace Metrology

inductive Step where
  | key (name : String)
  | index (n : Nat)

namespace Step

def name : Step → String
  | key name => name
  | index n => n.repr

def position? : Step → Option Nat
  | key name => name.toNat?.filter fun n => n.repr == name
  | index n => some n

end Step

/-- A change of a datum. A place that is not there is left alone. -/
inductive Edit (α : Type) where
  /-- Puts a value at a place, which may be a new field or the end of a list. -/
  | put (path : List Step) (value : Datum α)
  | erase (path : List Step)
  | push (path : List Step) (value : Datum α)
  | replace (value : Datum α)

namespace Datum

variable {α : Type}

/-- A list of fields with a value for a name: the old field keeps its place, a new one comes
last. -/
def putField (name : String) (value : Datum α) :
    List (String × Datum α) → List (String × Datum α)
  | [] => [(name, value)]
  | (other, old) :: fields =>
    if other = name then (name, value) :: fields else (other, old) :: putField name value fields

/-- A list with an item at a position; what lies between its end and the position is left out. -/
def putItem (value : Datum α) (items : List (Datum α)) (n : Nat) : List (Datum α) :=
  if n < items.length then items.set n value
  else items ++ List.replicate (n - items.length) absent ++ [value]

def child? : Datum α → Step → Option (Datum α)
  | record fields, step => (fields.find? fun field => field.1 == step.name).map Prod.snd
  | list items, step => step.position?.bind fun n => items[n]?
  | _, _ => none

def putChild (value : Datum α) : Datum α → Step → Datum α
  | record fields, step => record (putField step.name value fields)
  | list items, step =>
    match step.position? with
    | some n => list (putItem value items n)
    | none => list items
  | d, _ => d

def eraseChild : Datum α → Step → Datum α
  | record fields, step => record (fields.filter fun field => field.1 != step.name)
  | list items, step =>
    match step.position? with
    | some n => list (items.eraseIdx n)
    | none => list items
  | d, _ => d

def pushed (value : Datum α) : Datum α → Datum α
  | list items => list (items ++ [value])
  | d => d

def modifyAt (change : Datum α → Datum α) : List Step → Datum α → Datum α
  | [], d => change d
  | step :: path, d =>
    match d.child? step with
    | some part => putChild (modifyAt change path part) d step
    | none => d

/-- Changes a datum at the part that holds the end of a path, by the last step. -/
def modifyHolder (change : Datum α → Step → Datum α) (path : List Step) (d : Datum α) : Datum α :=
  match path.getLast? with
  | some last => modifyAt (fun holder => change holder last) path.dropLast d
  | none => d

def edit (d : Datum α) : Edit α → Datum α
  | .put path value => modifyHolder (putChild value) path d
  | .erase path => modifyHolder eraseChild path d
  | .push path value => modifyAt (pushed value) path d
  | .replace value => value

end Datum

end Metrology
