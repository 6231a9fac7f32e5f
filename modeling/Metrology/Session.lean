import Metrology.Numeral.Hash
import Metrology.Session.Call

/-!
Sessions: objects over several registries, held in registers by name.

Every registry has a room with a store of its own. A register refers to a place in a room, so two
registers may refer to one object. A step that fails leaves the session as it was.
-/

namespace Metrology

/-- A registry and the objects over it. -/
structure Room (α : Type) where
  registry : Registry α
  store : Store registry

/-- The outcome of a step, in the room it took place in. -/
structure Held (α : Type) where
  room : Nat
  outcome : Outcome α

structure Session (α : Type) where
  rooms : List (Room α)
  registers : List (String × Held α)

/-- What a step is handed: what a register holds, or a datum. -/
inductive Input (α : Type) where
  | register (name : String)
  | datum (value : Datum α)

inductive Call (α : Type) where
  | create (creation : Creation α)
  | dimension (place : Nat) (call : DimensionCall α)
  | unit (place : Nat) (call : UnitCall α)
  | quantity (place : Nat) (call : QuantityCall α)
  /-- Hands on what is known already. -/
  | recall (outcome : Outcome α)

def Outcome.simple? {α : Type} : Outcome α → Option (Datum α)
  | number value => some (.number value)
  | converted value => some (.number value)
  | flag value => some (.flag value)
  | text (some value) => some (.text value)
  | text none => some .null
  | dimension _ | unit _ | quantity _ | compound _ _ => none

namespace Store

variable {α : Type} [Scalar α] {r : Registry α}

def effectOf (s : Store r) : Call α → Except Error (Effect r)
  | .create creation => s.create creation
  | .dimension place call => s.callDimension place call
  | .unit place call => s.callUnit place call
  | .quantity place call => s.callQuantity place call
  | .recall outcome => answer outcome

def run (s : Store r) (call : Call α) : Except Error (Outcome α × Store r) :=
  (s.effectOf call).map s.apply

/-- A compound as an argument; one with parts that nothing asks for is a record without fields. -/
def compoundArgument (s : Store r) : Compound α → Argument α
  | .vector values => .datum (.list (values.map .number))
  | .dimensions places => .objects (places.map fun place => (s.dimension place).description)
  | .conversion _ unit => .conversion unit
  | .search .. | .coefficients _ | .convertibility _ => .datum (.record [])

def argument (s : Store r) : Outcome α → Argument α
  | .dimension place => .dimension place
  | .unit place => .unit place
  | .quantity place => .quantity place
  | .compound _ parts => s.compoundArgument parts
  | outcome => .datum (outcome.simple?.getD .absent)

/-- An argument over one registry as an argument over another one. -/
def exported (s : Store r) (a : Argument α) : Argument α :=
  match a with
  | .dimension _ => .foreign .dimension (s.quoted a)
  | .unit _ => .foreign .unit (s.quoted a)
  | .quantity _ => .foreign .quantity (s.quoted a)
  | .conversion _ => .foreign .conversion (s.quoted a)
  | a => a

end Store

namespace Session

variable {α : Type}

def start (registries : List (Registry α)) : Session α :=
  ⟨registries.map fun registry => ⟨registry, .empty⟩, []⟩

def register? (s : Session α) (name : String) : Option (Held α) :=
  (s.registers.find? fun entry => entry.1 == name).map Prod.snd

def held? (s : Session α) : Input α → Option (Held α)
  | .register name => s.register? name
  | .datum _ => none

/-- The room in which something is made: that of the dimension or unit it is made of, if there is
one, or else a given one. -/
def roomFor (s : Session α) (default : Nat) (source : Option (Input α)) : Nat :=
  match source.bind s.held? with
  | some ⟨room, .dimension _⟩ => room
  | some ⟨room, .unit _⟩ => room
  | _ => default

def assign (s : Session α) (name : String) (held : Held α) : Session α :=
  if s.registers.any fun entry => entry.1 == name then
    { s with
      registers := s.registers.map fun entry =>
        if entry.1 == name then (name, held) else entry }
  else { s with registers := s.registers ++ [(name, held)] }

def assign? (s : Session α) (name : Option String) (held : Held α) : Session α :=
  match name with
  | some name => s.assign name held
  | none => s

variable [Scalar α]

def argument (s : Session α) (room : Nat) (input : Input α) : Argument α :=
  match input with
  | .datum value => .datum value
  | .register name =>
    match s.register? name with
    | none => .datum .absent
    | some held =>
      match s.rooms[held.room]? with
      | none => .datum .absent
      | some r =>
        let a := r.store.argument held.outcome
        if held.room = room then a else r.store.exported a

def run (s : Session α) (room : Nat) (call : Call α) (register : Option String) :
    Option (Except Error (Held α × Session α)) :=
  match s.rooms[room]? with
  | none => none
  | some r =>
    match r.store.run call with
    | .error e => some (.error e)
    | .ok (outcome, store) =>
      let held : Held α := ⟨room, outcome⟩
      let s := { s with rooms := s.rooms.set room ⟨r.registry, store⟩ }
      some (.ok (held, s.assign? register held))

def simple? (s : Session α) : Input α → Option (Datum α)
  | .datum value => some value
  | .register name =>
    match s.register? name with
    | none => some .absent
    | some held => held.outcome.simple?

/-- Whether two data are one and the same simple value. Lists and records are not. -/
def sameDatum : Datum α → Datum α → Bool
  | .absent, .absent => true
  | .null, .null => true
  | .flag x, .flag y => x == y
  | .number x, .number y => x == y
  | .text x, .text y => x == y
  | _, _ => false

/-- Whether two outcomes over one registry are the same object, or two dimensions that are one
key. -/
def sameOutcome (hash : List α → UInt32) {r : Registry α} (store : Store r) :
    Outcome α → Outcome α → Bool
  | .dimension x, .dimension y => x == y || (store.dimension x).sameKey hash (store.dimension y)
  | .unit x, .unit y => x == y
  | .quantity x, .quantity y => x == y
  | .compound x _, .compound y _ => x == y
  | _, _ => false

def sameHeld (hash : List α → UInt32) (s : Session α) (x y : Held α) : Bool :=
  match s.rooms[x.room]? with
  | none => false
  | some r => x.room == y.room && sameOutcome hash r.store x.outcome y.outcome

/-- Whether two inputs are the same: one object, or equal simple values. -/
def same (hash : List α → UInt32) (s : Session α) (x y : Input α) : Bool :=
  match s.simple? x, s.simple? y with
  | some d, some e => sameDatum d e
  | none, none =>
    match s.held? x, s.held? y with
    | some x, some y => s.sameHeld hash x y
    | _, _ => false
  | _, _ => false

def compare (s : Session α) (x y : Input α) (register : Option String)
    (hash : List α → UInt32 := listHash) : Held α × Session α :=
  let held : Held α := ⟨0, .flag (s.same hash x y)⟩
  (held, s.assign? register held)

end Session

end Metrology
