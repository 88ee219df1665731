import Installer.Payload.Shape
import Installer.Proofs.Json.Lawful

/-!
# Payload items read back from their documents

The codecs of items are lawful: each kind is found by its tag, its optional texts are left out and
read back as absent. Integrations are not written into packages, so nothing is needed of theirs.
-/

set_option autoImplicit false

namespace Installer
open Json

namespace Json.Field
variable {ρ : Type} {name : String} {get : ρ → Option String} {set : Option String → ρ → ρ}

@[simp] theorem isRequired_optionalText : (optionalText name get set).isRequired = false := rfl

/-- An optional text that is left out is absent from a record to be filled. -/
@[simp] theorem refill_optionalText {p : Place} {r t : ρ} {fields : List (Field ρ)}
    (hnone : set none t = t) : Schema.refill p r (.optionalText name get set :: fields) t =
      Schema.refill p r fields (set (get r) t) :=
  Schema.refill_omittedWhen (Nat.zero_le _) fun h => by
    rw [Option.isNone_iff_eq_none.mp h, hnone]

@[simp] theorem isPlain_optionalText :
    (optionalText name get set).IsPlain ↔ name ≠ variantTag := by
  refine ⟨fun h => h.name, fun h => ?_⟩
  exact (isPlain_defaulted.mpr h).omittedWhen _

end Json.Field

instance : FileItem.shape.Lawful 0 where
  distinct := by decide
  required := by simp [FileItem.shape]
  refill_blank p r hp := by simp [FileItem.shape]

instance : RegistryValue.shape.Lawful 0 where
  distinct := by decide
  required := by simp [RegistryValue.shape]
  refill_blank p r hp := by simp [RegistryValue.shape]

instance : EnvironmentChange.shape.Lawful 0 where
  distinct := by decide
  required := by simp [EnvironmentChange.shape]
  refill_blank p r hp := by simp [EnvironmentChange.shape]

instance : Shortcut.shape.Lawful 0 where
  distinct := by decide
  required := by simp [Shortcut.shape]
  refill_blank p r hp := by simp [Shortcut.shape]

instance : FolderRemoval.shape.Lawful 0 where
  distinct := by decide
  required := by simp [FolderRemoval.shape]
  refill_blank p r hp := by simp [FolderRemoval.shape]

/-- Whichever kind an item is of, it is read back. -/
instance : Item.codec.Lawful 1 where
  read_write p i hp := by
    cases i with
    | file f => exact Variant.read_write (by simp [FileItem.shape, variantTag]) rfl f hp
    | registry r => exact Variant.read_write (by simp [RegistryValue.shape, variantTag]) rfl r hp
    | environment e =>
      exact Variant.read_write (by simp [EnvironmentChange.shape, variantTag]) rfl e hp
    | shortcut s => exact Variant.read_write (by simp [Shortcut.shape, variantTag]) rfl s hp
    | removeFolder r => exact Variant.read_write (by simp [FolderRemoval.shape, variantTag]) rfl r hp

end Installer
