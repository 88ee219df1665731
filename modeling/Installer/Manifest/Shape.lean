import Installer.Manifest.Basic
import Installer.Payload.Shape

/-!
# How a manifest stands in a document

Every object is closed: a member of a name that is not declared is refused. Fields with a default
may be left out; when a manifest is written they are all there.
-/

set_option autoImplicit false

namespace Installer.Manifest
open Json

def Upgrade.shape : Schema Upgrade where
  blank := Upgrade.standard
  fields := [
    .defaulted "allow_downgrades" .flag (·.allowDowngrades)
      (fun v r => { r with allowDowngrades := v }),
    .defaulted "allow_same_version_upgrades" .flag (·.allowSameVersion)
      (fun v r => { r with allowSameVersion := v }),
    .defaulted "downgrade_error_message" .text (·.downgradeMessage)
      (fun v r => { r with downgradeMessage := v })]
  closed := true

def Product.shape : Schema Product where
  blank := ⟨"", "", "", "auto", "$\x7bversion\x7d", 1033, 1252, .perMachine, 1, .standard, .empty⟩
  fields := [
    .required "name" .text (·.name) (fun v r => { r with name := v }),
    .required "manufacturer" .text (·.manufacturer) (fun v r => { r with manufacturer := v }),
    .required "upgrade_code" .text (·.upgradeCode) (fun v r => { r with upgradeCode := v }),
    .defaulted "product_code" .text (·.productCode) (fun v r => { r with productCode := v }),
    .defaulted "version" .text (·.version) (fun v r => { r with version := v }),
    .defaulted "language" .word16 (·.language) (fun v r => { r with language := v }),
    .defaulted "codepage" .word16 (·.codepage) (fun v r => { r with codepage := v }),
    .defaulted "scope" .keyword (·.scope) (fun v r => { r with scope := v }),
    .defaulted "install_level" .word16 (·.installLevel) (fun v r => { r with installLevel := v }),
    .defaulted "upgrade" Upgrade.shape.codec (·.upgrade) (fun v r => { r with upgrade := v }),
    .defaulted "properties" .dictionary (·.properties) (fun v r => { r with properties := v })]
  closed := true

def Directory.shape : Schema Directory where
  blank := ⟨"", "", none, false⟩
  fields := [
    .required "id" .text (·.id) (fun v r => { r with id := v }),
    .required "name" .text (·.name) (fun v r => { r with name := v }),
    .defaulted "parent" (.optional .text) (·.parent) (fun v r => { r with parent := v }),
    .defaulted "grouping" .flag (·.grouping) (fun v r => { r with grouping := v })]
  closed := true

def Component.shape : Schema Component where
  blank := ⟨"", "", "auto", none, [], []⟩
  fields := [
    .required "id" .text (·.id) (fun v r => { r with id := v }),
    .required "directory" .text (·.directory) (fun v r => { r with directory := v }),
    .defaulted "guid" .text (·.guid) (fun v r => { r with guid := v }),
    .defaulted "win64" (.optional .flag) (·.win64) (fun v r => { r with win64 := v }),
    .defaulted "items" (.list Item.codec) (·.items) (fun v r => { r with items := v }),
    .defaulted "integrations" (.list Integration.codec) (·.integrations)
      (fun v r => { r with integrations := v })]
  closed := true

namespace Feature

/-- The fields of a feature without the features inside it. -/
def ownFields : List (Json.Field Feature) := [
  .required "id" .text (·.id) (fun v r => { r with id := v }),
  .required "title" .text (·.title) (fun v r => { r with title := v }),
  .defaulted "description" .text (·.description) (fun v r => { r with description := v }),
  .defaulted "level" .word16 (·.level) (fun v r => { r with level := v }),
  .defaulted "allow_absent" .flag (·.allowAbsent) (fun v r => { r with allowAbsent := v }),
  .defaulted "display" .keyword (·.display) (fun v r => { r with display := v }),
  .defaulted "components" (.list .text) (·.components) (fun v r => { r with components := v })]

/-- The shape of a feature, given the codec of the features inside it. -/
def shape (inner : Codec Feature) : Schema Feature where
  blank := ⟨"", "", "", 1, true, .expand, [], []⟩
  fields := ownFields ++ [
    .defaulted "children" (.list inner) (·.children) (fun v r => { r with children := v })]
  closed := true

/-- The members of a feature that are not features. -/
def ownMembers (f : Feature) : List (String × Value) :=
  ownFields.filterMap fun field => (field.write f).map fun v => (field.name, v)

mutual
def toValue : Feature → Value
  | ⟨id, title, description, level, allowAbsent, display, components, children⟩ =>
    .object (ownMembers ⟨id, title, description, level, allowAbsent, display, components, []⟩ ++
      [("children", .array (toValues children))])
def toValues : List Feature → List Value
  | [] => []
  | f :: rest => toValue f :: toValues rest
end

/-- Reads a feature with features nested at most `depth` deep in it. -/
def readWithin : (depth : Nat) → Reader Feature
  | 0 => fun _ d => .error (match d with
    | .object _ | .array _ => .malformed
    | d => d.refusal)
  | depth + 1 => (shape ⟨readWithin depth, toValue⟩).read

/-- Features nest no deeper than documents do. -/
def codec : Codec Feature := ⟨readWithin Place.outermost.room, toValue⟩

end Feature

def Action.shape : Schema Action where
  blank := ⟨"", "", .immediate, true, none, ""⟩
  fields := [
    .required "id" .text (·.id) (fun v r => { r with id := v }),
    .required "file_key" .text (·.fileKey) (fun v r => { r with fileKey := v }),
    .defaulted "execute" .keyword (·.execute) (fun v r => { r with execute := v }),
    .defaulted "impersonate" .flag (·.impersonate) (fun v r => { r with impersonate := v }),
    .defaulted "return" (.optional .keyword) (·.returnPolicy)
      (fun v r => { r with returnPolicy := v }),
    .defaulted "arguments" .text (·.arguments) (fun v r => { r with arguments := v })]
  closed := true

def Rule.shape : Schema Rule where
  blank := ⟨"", none, none, none⟩
  fields := [
    .required "action" .text (·.action) (fun v r => { r with action := v }),
    .defaulted "before" (.optional .text) (·.before) (fun v r => { r with before := v }),
    .defaulted "after" (.optional .text) (·.after) (fun v r => { r with after := v }),
    .defaulted "condition" (.optional .text) (·.condition) (fun v r => { r with condition := v })]
  closed := true

/-- The shape of a whole manifest. -/
def shape : Schema Manifest where
  blank := ⟨Product.shape.blank, [], [], [], [], []⟩
  fields := [
    .required "product" Product.shape.codec (·.product) (fun v r => { r with product := v }),
    .defaulted "directories" (.list Directory.shape.codec) (·.directories)
      (fun v r => { r with directories := v }),
    .defaulted "components" (.list Component.shape.codec) (·.components)
      (fun v r => { r with components := v }),
    .defaulted "features" (.list Feature.codec) (·.features) (fun v r => { r with features := v }),
    .defaulted "custom_actions" (.list Action.shape.codec) (·.actions)
      (fun v r => { r with actions := v }),
    .defaulted "sequence" (.list Rule.shape.codec) (·.rules) (fun v r => { r with rules := v })]
  closed := true

/-- The manifest that a text writes. -/
def ofText (text : String) : Except Fault Manifest := shape.codec.ofText text

end Installer.Manifest
