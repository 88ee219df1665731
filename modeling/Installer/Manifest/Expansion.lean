import Installer.Manifest.Basic

/-!
# A manifest with its texts expanded

Display texts, paths, values and the parents of directories are expanded; ids, references and GUIDs
are not. The first text that has no expansion decides, in the order product, directories, components
with their items and then their integrations, actions.

Features are passed on as they are, with their titles and descriptions.
-/

set_option autoImplicit false

namespace Installer

/-- Expands a text. -/
abbrev Expander (ε : Type) := String → Except ε String

/-- Expands a text if there is one. -/
def Expander.optional {ε : Type} (f : Expander ε) (text : Option String) :
    Except ε (Option String) :=
  match text with
  | none => .ok none
  | some text => (f text).map some

variable {ε : Type}

def Item.expandWith (f : Expander ε) : Item → Except ε Item
  | .file x => do
    let source ← f x.source
    let name ← f.optional x.name
    return .file { x with source, name }
  | .registry x => do
    let key ← f x.key
    let name ← f.optional x.name
    let value ← f x.value
    return .registry { x with key, name, value }
  | .environment x => do
    let value ← f x.value
    return .environment { x with value }
  | .shortcut x => do
    let name ← f x.name
    let description ← f.optional x.description
    let arguments ← f.optional x.arguments
    return .shortcut { x with name, description, arguments }
  | .removeFolder x => .ok (.removeFolder x)

def Integration.expandWith (f : Expander ε) : Integration → Except ε Integration
  | .path x => .ok (.path x)
  | .fileAssociation x => do
    let description ← f.optional x.description
    let command ← f.optional x.command
    return .fileAssociation { x with description, command }
  | .startMenu x => do
    let name ← f x.name
    let description ← f.optional x.description
    return .startMenu { x with name, description }

namespace Manifest

/-- The product's texts, with the version that the build has settled. -/
def Product.expandWith (f : Expander ε) (version : String) (p : Product) : Except ε Product := do
  let name ← f p.name
  let manufacturer ← f p.manufacturer
  let downgradeMessage ← f p.upgrade.downgradeMessage
  let properties ← p.properties.mapM f
  return { p with
    name, manufacturer, version, properties, upgrade := { p.upgrade with downgradeMessage } }

def Directory.expandWith (f : Expander ε) (d : Directory) : Except ε Directory := do
  let name ← f d.name
  let parent ← f.optional d.parent
  return { d with name, parent }

def Component.expandWith (f : Expander ε) (c : Component) : Except ε Component := do
  let items ← c.items.mapM (Item.expandWith f)
  let integrations ← c.integrations.mapM (Integration.expandWith f)
  return { c with items, integrations }

def Action.expandWith (f : Expander ε) (a : Action) : Except ε Action := do
  let arguments ← f a.arguments
  return { a with arguments }

/-- The manifest with its texts expanded and its version settled. -/
def expandWith (f : Expander ε) (version : String) (m : Manifest) : Except ε Manifest := do
  let product ← m.product.expandWith f version
  let directories ← m.directories.mapM (Directory.expandWith f)
  let components ← m.components.mapM (Component.expandWith f)
  let actions ← m.actions.mapM (Action.expandWith f)
  return { m with product, directories, components, actions }

end Manifest
end Installer
