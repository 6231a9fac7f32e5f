import Metrology.Catalogue
import Metrology.Service.Config

/-!
A service over a registry: each call answers, fails with an error that its callers expect, or dies
of one that they do not, and keeps a log.
-/

namespace Metrology

inductive LogLevel where
  | debug
  | warning
deriving DecidableEq

structure LogEntry where
  level : LogLevel
  message : String
  annotations : List (String × String)

inductive ErrorKind where
  | parse
  | unknown
  | invalid
  | inconvertible
deriving DecidableEq

def Error.kind : Error → ErrorKind
  | parse _ _ => .parse
  | unknown _ _ => .unknown
  | invalid _ => .invalid
  | inconvertible _ => .inconvertible

inductive Verdict (β : Type) where
  | answered (value : β)
  | failed (error : Error)
  | died (error : Error)

/-- How a call ends, and what it has logged. -/
structure Reply (β : Type) where
  /-- What is seen of a call only if it comes to an end. -/
  verdict : Verdict β
  log : List LogEntry
  finishes : Bool

namespace Reply

variable {β γ : Type}

def answer (value : β) : Reply β := ⟨.answered value, [], true⟩

/-- How a call ends, if it does. -/
def verdict? (reply : Reply β) : Option (Verdict β) :=
  if reply.finishes then some reply.verdict else none

/-- The reply, unless the call does not come to an end. -/
def provided (finishes : Bool) (reply : Reply β) : Reply β :=
  { reply with finishes := finishes && reply.finishes }

/-- The reply of a computation whose callers expect errors of the given kinds. -/
def attempt (expected : List ErrorKind) : Except Error β → Reply β
  | .ok value => answer value
  | .error e => ⟨if e.kind ∈ expected then .failed e else .died e, [], true⟩

def andThen (reply : Reply β) (next : β → Reply γ) : Reply γ :=
  match reply.verdict with
  | .answered value =>
    let following := next value
    ⟨following.verdict, reply.log ++ following.log, reply.finishes && following.finishes⟩
  | .failed e => ⟨.failed e, reply.log, reply.finishes⟩
  | .died e => ⟨.died e, reply.log, reply.finishes⟩

def map (f : β → γ) (reply : Reply β) : Reply γ := reply.andThen fun value => answer (f value)

def logged (value : β) (level : LogLevel) (message : String) : Reply β :=
  ⟨.answered value, [⟨level, message, []⟩], true⟩

def annotated (notes : List (String × String)) (reply : Reply β) : Reply β :=
  { reply with log := reply.log.map fun entry =>
      { entry with annotations := entry.annotations ++ notes } }

/-- The log, with entries for debugging only where they are asked for. -/
def shownLog (debug : Bool) (reply : Reply β) : List LogEntry :=
  reply.log.filter fun entry => debug || entry.level != .debug

end Reply

/-- A service: a registry, and the bounds of searches that do not set their own. -/
structure Service (α : Type) where
  registry : Registry α
  defaults : SearchOptions α

structure PartialOptions (α : Type) where
  maxComposingDimensions : Option (Datum α)
  maxExponent : Option (Datum α)
  maxCombinations : Option (Datum α)

/-- The bounds a call sets, and the defaults for the others. -/
def PartialOptions.over {α : Type} (o : PartialOptions α) (defaults : SearchOptions α) :
    SearchOptions α where
  maxComposingDimensions := o.maxComposingDimensions.getD defaults.maxComposingDimensions
  maxExponent := o.maxExponent.getD defaults.maxExponent
  maxCombinations := o.maxCombinations.getD defaults.maxCombinations

namespace Service

variable {α : Type} [Scalar α] (s : Service α)

def expressionErrors : List ErrorKind := [.parse, .unknown]

def dimension (expression : String) : Reply (Dimension s.registry) :=
  .attempt expressionErrors (Dimension.parse s.registry expression)

def unit (expression : String) : Reply (Unit s.registry) :=
  .attempt expressionErrors (Unit.parse s.registry expression)

def quantity (value : Datum α) (expression : String) : Reply (Quantity s.registry) :=
  .attempt [.parse, .unknown, .invalid] do
    let unit ← Unit.parse s.registry expression
    match value.finite .value with
    | .ok value => Quantity.make value unit
    | .error violation => .error (.invalid violation)

def constant (key : String) : Reply (Quantity s.registry) :=
  .attempt [.unknown] (Catalogue.constant s.registry key)

/-- Whether the coefficients between the units of two expressions are ever found. -/
def coefficientsFinish (source target : String) : Bool :=
  (Unit.parse s.registry source).toOption.all fun u =>
    (Unit.parse s.registry target).toOption.all u.coefficientsFinish

def conversionCoefficients (source target : String) : Reply (Coefficients α) :=
  let computed : Reply (Coefficients α) :=
    .attempt [.parse, .unknown, .inconvertible] do
      let u ← Unit.parse s.registry source
      let v ← Unit.parse s.registry target
      u.coefficientsTo v
  ((computed.provided (s.coefficientsFinish source target)).andThen fun c =>
    .logged c .debug ("conversion coefficients shift=" ++ Scalar.text c.shift ++ " factor="
      ++ Scalar.text c.factor)).annotated [("from", source), ("to", target)]

def convertValue (value : Datum α) (source target : String) : Reply α :=
  (s.conversionCoefficients source target).map fun c => c.applyTo value

def conversionFinishes (q : Quantity s.registry) (target : String) : Bool :=
  (Unit.parse s.registry target).toOption.all q.unit.coefficientsFinish

/-- A quantity in the unit of an expression, for which both quantities are logged. -/
def convertQuantity (q : Quantity s.registry) (target : String) : Reply (Quantity s.registry) :=
  let computed : Reply (Quantity s.registry) :=
    .attempt [.parse, .unknown, .inconvertible] do
      let unit ← Unit.parse s.registry target
      q.convertTo unit
  (computed.provided (s.conversionFinishes q target)).andThen fun converted =>
    let texts : Reply (String × String) := .attempt [] do return (← q.text, ← converted.text)
    (texts.provided (q.textsFinish converted)).andThen fun (before, after) =>
      .logged converted .debug ("converted " ++ before ++ " to " ++ after)

def simplify (expression : String) : Reply (Dimension s.registry) :=
  .attempt expressionErrors ((Dimension.parse s.registry expression).map Dimension.shortest)

def equivalents (expression : String) (options : PartialOptions α) :
    Reply (List (Dimension s.registry)) :=
  ((s.dimension expression).andThen fun d =>
    (Reply.attempt [.invalid] (d.search (options.over s.defaults))).andThen fun search =>
      if search.exhausted then .answer search.dimensions
      else
        .logged search.dimensions .warning
          ("equivalents search stopped after " ++ Scalar.text (Scalar.ofNat search.solved : α)
            ++ " of " ++ Scalar.text search.total ++ " combinations")).annotated
    [("expression", expression)]

end Service

end Metrology
