import Installer.Json.Codec
import Installer.Payload.Basic

/-!
# How items and integrations stand in documents

Each is an object whose `kind` says which it is. Optional texts of items are left out when they are
not set; those of integrations, and an environment change's permanence, are written as null.
-/

set_option autoImplicit false

namespace Installer
open Json

/-- An optional text that is left out when it is not set. -/
def Json.Field.optionalText {ρ : Type} (name : String) (get : ρ → Option String)
    (set : Option String → ρ → ρ) : Field ρ :=
  (Field.defaulted name (Codec.optional Codec.text) get set).omittedWhen fun r => (get r).isNone

def FileItem.shape : Schema FileItem where
  blank := ⟨"", "", none, false⟩
  fields := [
    .required "id" .text (·.id) (fun v r => { r with id := v }),
    .required "source" .text (·.source) (fun v r => { r with source := v }),
    .optionalText "name" (·.name) (fun v r => { r with name := v }),
    .defaulted "key_path" .flag (·.keyPath) (fun v r => { r with keyPath := v })]
  closed := true

def RegistryValue.shape : Schema RegistryValue where
  blank := ⟨"", .localMachine, "", none, "", .string, false⟩
  fields := [
    .required "id" .text (·.id) (fun v r => { r with id := v }),
    .required "root" .keyword (·.root) (fun v r => { r with root := v }),
    .required "key" .text (·.key) (fun v r => { r with key := v }),
    .optionalText "name" (·.name) (fun v r => { r with name := v }),
    .required "value" .text (·.value) (fun v r => { r with value := v }),
    .defaulted "value_type" .keyword (·.valueType) (fun v r => { r with valueType := v }),
    .defaulted "key_path" .flag (·.keyPath) (fun v r => { r with keyPath := v })]
  closed := true

def EnvironmentChange.shape : Schema EnvironmentChange where
  blank := ⟨"", "", "", .last, .set, none, true, false⟩
  fields := [
    .required "id" .text (·.id) (fun v r => { r with id := v }),
    .required "name" .text (·.name) (fun v r => { r with name := v }),
    .required "value" .text (·.value) (fun v r => { r with value := v }),
    .defaulted "part" .keyword (·.place) (fun v r => { r with place := v }),
    .defaulted "action" .keyword (·.action) (fun v r => { r with action := v }),
    .defaulted "permanent" (.optional .flag) (·.permanent) (fun v r => { r with permanent := v }),
    .defaulted "system" .flag (·.system) (fun v r => { r with system := v }),
    .defaulted "key_path" .flag (·.keyPath) (fun v r => { r with keyPath := v })]
  closed := true

def Shortcut.shape : Schema Shortcut where
  blank := ⟨"", "", "", "", none, none, none, none, false⟩
  fields := [
    .required "id" .text (·.id) (fun v r => { r with id := v }),
    .required "name" .text (·.name) (fun v r => { r with name := v }),
    .required "target" .text (·.target) (fun v r => { r with target := v }),
    .required "directory" .text (·.directory) (fun v r => { r with directory := v }),
    .optionalText "working_directory" (·.workingDirectory)
      (fun v r => { r with workingDirectory := v }),
    .optionalText "icon" (·.icon) (fun v r => { r with icon := v }),
    .optionalText "description" (·.description) (fun v r => { r with description := v }),
    .optionalText "arguments" (·.arguments) (fun v r => { r with arguments := v }),
    .defaulted "key_path" .flag (·.keyPath) (fun v r => { r with keyPath := v })]
  closed := true

def FolderRemoval.shape : Schema FolderRemoval where
  blank := ⟨"", "", false⟩
  fields := [
    .required "id" .text (·.id) (fun v r => { r with id := v }),
    .required "directory" .text (·.directory) (fun v r => { r with directory := v }),
    .defaulted "key_path" .flag (·.keyPath) (fun v r => { r with keyPath := v })]
  closed := true

namespace Item

/-- The word for an item's kind. -/
def kind : Item → String
  | .file _ => "file"
  | .registry _ => "registry"
  | .environment _ => "environment"
  | .shortcut _ => "shortcut"
  | .removeFolder _ => "remove_folder"

def variants : List (Variant Item) := [
  FileItem.shape.variant "file" .file,
  RegistryValue.shape.variant "registry" .registry,
  EnvironmentChange.shape.variant "environment" .environment,
  Shortcut.shape.variant "shortcut" .shortcut,
  FolderRemoval.shape.variant "remove_folder" .removeFolder]

def toValue (i : Item) : Value :=
  match i with
  | .file f => Variant.write i.kind FileItem.shape f
  | .registry r => Variant.write i.kind RegistryValue.shape r
  | .environment e => Variant.write i.kind EnvironmentChange.shape e
  | .shortcut s => Variant.write i.kind Shortcut.shape s
  | .removeFolder r => Variant.write i.kind FolderRemoval.shape r

def codec : Codec Item := ⟨Variant.read variants, toValue⟩

end Item

def PathEntry.shape : Schema PathEntry where
  blank := ⟨"", .last, none, true⟩
  fields := [
    .required "directory" .text (·.directory) (fun v r => { r with directory := v }),
    .defaulted "part" .keyword (·.place) (fun v r => { r with place := v }),
    .defaulted "permanent" (.optional .flag) (·.permanent) (fun v r => { r with permanent := v }),
    .defaulted "system" .flag (·.system) (fun v r => { r with system := v })]
  closed := true

def FileAssociation.shape : Schema FileAssociation where
  blank := ⟨"", "", "", none, none, "open", none⟩
  fields := [
    .required "extension" .text (·.extension) (fun v r => { r with extension := v }),
    .required "prog_id" .text (·.progId) (fun v r => { r with progId := v }),
    .required "target" .text (·.target) (fun v r => { r with target := v }),
    .defaulted "description" (.optional .text) (·.description)
      (fun v r => { r with description := v }),
    .defaulted "icon" (.optional .text) (·.icon) (fun v r => { r with icon := v }),
    .defaulted "verb" .text (·.verb) (fun v r => { r with verb := v }),
    .defaulted "command" (.optional .text) (·.command) (fun v r => { r with command := v })]
  closed := true

def StartMenuEntry.shape : Schema StartMenuEntry where
  blank := ⟨"", "", "", none, none, none, none, false⟩
  fields := [
    .required "id" .text (·.id) (fun v r => { r with id := v }),
    .required "name" .text (·.name) (fun v r => { r with name := v }),
    .required "target" .text (·.target) (fun v r => { r with target := v }),
    .defaulted "folder" (.optional .text) (·.folder) (fun v r => { r with folder := v }),
    .defaulted "icon" (.optional .text) (·.icon) (fun v r => { r with icon := v }),
    .defaulted "working_directory" (.optional .text) (·.workingDirectory)
      (fun v r => { r with workingDirectory := v }),
    .defaulted "description" (.optional .text) (·.description)
      (fun v r => { r with description := v }),
    .defaulted "registry_key_path" .flag (·.registryKeyPath)
      (fun v r => { r with registryKeyPath := v })]
  closed := true

namespace Integration

def variants : List (Variant Integration) := [
  PathEntry.shape.variant "path" .path,
  FileAssociation.shape.variant "file_association" .fileAssociation,
  StartMenuEntry.shape.variant "start_menu_shortcut" .startMenu]

def toValue : Integration → Value
  | .path p => Variant.write "path" PathEntry.shape p
  | .fileAssociation a => Variant.write "file_association" FileAssociation.shape a
  | .startMenu s => Variant.write "start_menu_shortcut" StartMenuEntry.shape s

def codec : Codec Integration := ⟨Variant.read variants, toValue⟩

end Integration
end Installer
