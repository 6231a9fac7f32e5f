import Mathlib
import Metrology.Registry.Bundled
import Metrology.Unit
import Metrology.Proofs.Primary

/-!
Registries that are accepted: those that some document describes. The bundled one is among them.
-/

namespace Metrology

deriving instance DecidableEq for DimensionEntry, UnitEntry, MetricPrefix, Constant, Registry

deriving instance DecidableEq for UnitDefinition, DimensionDefinition, PrefixRule, RegistryData

namespace Registry

lemma decode_eq_build {α : Type} [Scalar α] {document : Datum α} {data : RegistryData α}
    (h : document.registryData? = some data) : decode document = build data := by
  rw [decode, h]

/-- Whether a registry is built from some document. -/
def IsAccepted (r : Registry ℚ) : Prop := ∃ document : Datum ℚ, decode document = .ok r

namespace Bundled

/-- The bundled registry, over the rationals. -/
def registry : Registry ℚ :=
  match (data : RegistryData ℚ).additions prefixedUnits with
  | .ok additions => ofData data additions
  | .error _ => ofData data []

lemma registryData?_document : (document : Datum ℚ).registryData? = some data := by
  decide +kernel

lemma decode_document : decode (document : Datum ℚ) = .ok registry := by
  rw [decode_eq_build registryData?_document]
  decide +kernel

lemma isAccepted_registry : registry.IsAccepted := ⟨document, decode_document⟩

lemma isWhole_registry : registry.IsWhole := by decide +kernel

/-- The unit of the bundled registry that an expression describes. -/
def unit (text : String)
    (h : (Unit.parse registry text).toOption.isSome = true := by decide +kernel) : Unit registry :=
  (Unit.parse registry text).toOption.get h

/-- The dimension over the bundled registry that an expression describes. -/
def dimension (text : String)
    (h : (Dimension.parse registry text).toOption.isSome = true := by decide +kernel) :
    Dimension registry :=
  (Dimension.parse registry text).toOption.get h

end Bundled

end Registry

end Metrology
