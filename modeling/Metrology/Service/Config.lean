import Metrology.Dimension.Equivalents
import Metrology.Numeral.Literal
import Metrology.Text.Quoted

/-!
The configuration of a service: the bounds of its searches for equivalents, each a whole number
that may be left out.
-/

namespace Metrology

inductive Setting where
  | maxComposingDimensions
  | maxExponent
  | maxCombinations
deriving DecidableEq

namespace Setting

def key : Setting → String
  | maxComposingDimensions => "UNITS_EQUIVALENTS_MAX_COMPOSING_DIMENSIONS"
  | maxExponent => "UNITS_EQUIVALENTS_MAX_EXPONENT"
  | maxCombinations => "UNITS_EQUIVALENTS_MAX_COMBINATIONS"

/-- The value of a setting that is left out. -/
def default : Setting → Nat
  | maxComposingDimensions => 5
  | maxExponent => 3
  | maxCombinations => 100000

def all : List Setting := [maxComposingDimensions, maxExponent, maxCombinations]

end Setting

/-- A setting whose text is no whole number. -/
structure ConfigFault where
  setting : Setting
  got : String
deriving DecidableEq

namespace ConfigFault

def text (f : ConfigFault) : String :=
  "(Invalid data at " ++ f.setting.key ++ ": \"Expected an integer value but received "
    ++ quotedText f.got ++ "\")"

def message (faults : List ConfigFault) : String :=
  " and ".intercalate (faults.map text)

end ConfigFault

namespace Setting

variable {α : Type} [Scalar α]

def read (s : Setting) (config : List (String × String)) : Except ConfigFault α :=
  match config.find? fun entry => entry.1 == s.key with
  | none => .ok (Scalar.ofNat s.default)
  | some (_, text) =>
    match wholeLiteral? text with
    | some value => .ok value
    | none => .error ⟨s, text⟩

def fault? (α : Type) [Scalar α] (config : List (String × String)) (s : Setting) :
    Option ConfigFault :=
  match (s.read config : Except ConfigFault α) with
  | .ok _ => none
  | .error fault => some fault

end Setting

namespace SearchOptions

variable {α : Type} [Scalar α]

/-- The bounds that a configuration sets; all of its faults, if it has any. -/
def ofConfig (config : List (String × String)) : Except (List ConfigFault) (SearchOptions α) :=
  match Setting.maxComposingDimensions.read config, Setting.maxExponent.read config,
    Setting.maxCombinations.read config with
  | .ok maxComposingDimensions, .ok maxExponent, .ok maxCombinations =>
    .ok ⟨.number maxComposingDimensions, .number maxExponent, .number maxCombinations⟩
  | _, _, _ => .error (Setting.all.filterMap (Setting.fault? α config))

end SearchOptions

end Metrology
