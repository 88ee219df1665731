import Installer.Digest.Sha256
import Installer.Manifest.Shape
import Installer.Package.Basic

/-!
# How a package stands in a document

The canonical text of a package writes its fields in their order; empty dictionaries and texts
without a value are left out. Objects are open: when a package is read, members of names that are
not declared are passed over, except in the upgrade policy and in items. The fingerprint of a
package is the SHA-256 digest of its canonical text, in hexadecimal.
-/

set_option autoImplicit false

namespace Installer
open Json

def Variable.shape : Schema Variable where
  blank := ⟨"", "", ""⟩
  fields := [
    .required "name" .text (·.name) (fun v r => { r with name := v }),
    .required "value" .text (·.value) (fun v r => { r with value := v }),
    .required "condition" .text (·.condition) (fun v r => { r with condition := v })]
  closed := false

def Schedule.Action.shape : Schema Schedule.Action where
  blank := ⟨"", "", .immediate, false, .check, ""⟩
  fields := [
    .required "id" .text (·.id) (fun v r => { r with id := v }),
    .required "file_key" .text (·.fileKey) (fun v r => { r with fileKey := v }),
    .required "execute" .keyword (·.execute) (fun v r => { r with execute := v }),
    .required "impersonate" .flag (·.impersonate) (fun v r => { r with impersonate := v }),
    .required "return" .keyword (·.returnPolicy) (fun v r => { r with returnPolicy := v }),
    (Field.defaulted "arguments" .text (·.arguments)
      (fun v r => { r with arguments := v })).omittedWhen (·.arguments.isEmpty)]
  closed := false

def Step.shape : Schema Step where
  blank := ⟨"", .phase, 0, none⟩
  fields := [
    .required "name" .text (·.name) (fun v r => { r with name := v }),
    .required "kind" .keyword (·.kind) (fun v r => { r with kind := v }),
    .required "sequence" .word32 (·.number) (fun v r => { r with number := v }),
    .optionalText "condition" (·.condition) (fun v r => { r with condition := v })]
  closed := false

namespace Package

def Product.shape : Schema Product where
  blank := ⟨"", "", "", "", "", .x86, false, "", 0, 0, .perMachine, 0, .standard, .empty, .empty⟩
  fields := [
    .required "name" .text (·.name) (fun v r => { r with name := v }),
    .required "manufacturer" .text (·.manufacturer) (fun v r => { r with manufacturer := v }),
    .required "upgrade_code" .text (·.upgradeCode) (fun v r => { r with upgradeCode := v }),
    .required "product_code" .text (·.productCode) (fun v r => { r with productCode := v }),
    .required "version" .text (·.version) (fun v r => { r with version := v }),
    .required "platform" .keyword (·.platform) (fun v r => { r with platform := v }),
    .required "win64" .flag (·.win64) (fun v r => { r with win64 := v }),
    .required "program_files" .text (·.programFiles) (fun v r => { r with programFiles := v }),
    .required "language" .word16 (·.language) (fun v r => { r with language := v }),
    .required "codepage" .word16 (·.codepage) (fun v r => { r with codepage := v }),
    .required "scope" .keyword (·.scope) (fun v r => { r with scope := v }),
    .required "install_level" .word16 (·.installLevel) (fun v r => { r with installLevel := v }),
    .required "upgrade" Manifest.Upgrade.shape.codec (·.upgrade)
      (fun v r => { r with upgrade := v }),
    (Field.defaulted "properties" .dictionary (·.properties)
      (fun v r => { r with properties := v })).omittedWhen (·.properties.isEmpty),
    (Field.defaulted "assets" .dictionary (·.assets)
      (fun v r => { r with assets := v })).omittedWhen (·.assets.isEmpty)]
  closed := false

def Directory.shape : Schema Directory where
  blank := ⟨"", "", none, false, ""⟩
  fields := [
    .required "id" .text (·.id) (fun v r => { r with id := v }),
    .required "name" .text (·.name) (fun v r => { r with name := v }),
    (Field.ofNeed .optional "parent" (.optional .text) (·.parent)
      (fun v r => { r with parent := v })).omittedWhen (·.parent.isNone),
    .required "standard" .flag (·.standard) (fun v r => { r with standard := v }),
    .required "path" .text (·.path) (fun v r => { r with path := v })]
  closed := false

def Component.shape : Schema Component where
  blank := ⟨"", "", "", .auto, false, "", "", []⟩
  fields := [
    .required "id" .text (·.id) (fun v r => { r with id := v }),
    .required "directory" .text (·.directory) (fun v r => { r with directory := v }),
    .required "guid" .text (·.guid) (fun v r => { r with guid := v }),
    .required "stability" .keyword (·.stability) (fun v r => { r with stability := v }),
    .required "win64" .flag (·.win64) (fun v r => { r with win64 := v }),
    .required "key_path" .text (·.keyPath) (fun v r => { r with keyPath := v }),
    .required "key_path_identity" .text (·.keyPathIdentity)
      (fun v r => { r with keyPathIdentity := v }),
    .required "items" (.list Item.codec) (·.items) (fun v r => { r with items := v })]
  closed := false

def Feature.shape : Schema Feature where
  blank := ⟨"", "", "", none, 0, false, .expand, [], false⟩
  fields := [
    .required "id" .text (·.id) (fun v r => { r with id := v }),
    .required "title" .text (·.title) (fun v r => { r with title := v }),
    (Field.defaulted "description" .text (·.description)
      (fun v r => { r with description := v })).omittedWhen (·.description.isEmpty),
    .optionalText "parent" (·.parent) (fun v r => { r with parent := v }),
    .required "level" .word16 (·.level) (fun v r => { r with level := v }),
    .required "allow_absent" .flag (·.allowAbsent) (fun v r => { r with allowAbsent := v }),
    .required "display" .keyword (·.display) (fun v r => { r with display := v }),
    .required "components" (.list .text) (·.components) (fun v r => { r with components := v }),
    .required "default" .flag (·.byDefault) (fun v r => { r with byDefault := v })]
  closed := false

/-- The shape of a whole package. -/
def shape : Schema Package where
  blank := ⟨0, Product.shape.blank, [], [], [], [], [], [], [], []⟩
  fields := [
    .required "format_version" .word32 (·.formatVersion) (fun v r => { r with formatVersion := v }),
    .required "product" Product.shape.codec (·.product) (fun v r => { r with product := v }),
    .required "variables" (.list Variable.shape.codec) (·.recorded)
      (fun v r => { r with recorded := v }),
    .required "directories" (.list Directory.shape.codec) (·.directories)
      (fun v r => { r with directories := v }),
    .required "components" (.list Component.shape.codec) (·.components)
      (fun v r => { r with components := v }),
    .required "features" (.list Feature.shape.codec) (·.features)
      (fun v r => { r with features := v }),
    .required "default_features" (.list .text) (·.defaultFeatures)
      (fun v r => { r with defaultFeatures := v }),
    .required "default_components" (.list .text) (·.defaultComponents)
      (fun v r => { r with defaultComponents := v }),
    .required "custom_actions" (.list Schedule.Action.shape.codec) (·.actions)
      (fun v r => { r with actions := v }),
    .required "sequence" (.list Step.shape.codec) (·.steps) (fun v r => { r with steps := v })]
  closed := false

/-- The package that a text writes. -/
def ofText (text : String) : Except Fault Package := shape.codec.ofText text

/-- The canonical text of a package. -/
def text (p : Package) : String := shape.codec.toText p

/-- The fingerprint of a text: its digest, in hexadecimal. -/
def fingerprintOf (text : String) : String :=
  String.ofList ((Digest.Sha256.digest (Digest.utf8 text)).flatMap fun b =>
    Text.hexDigits 2 b.toNat)

/-- The fingerprint of a package. -/
def fingerprint (p : Package) : String := fingerprintOf p.text

end Package
end Installer
