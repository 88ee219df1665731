import Installer.Directory.Tree
import Installer.Identity
import Installer.Package.Basic
import Installer.Payload.Generated

/-!
# One component, resolved

Its directory and those of its path entries exist; its items, with those of its integrations, refer
to declared files and existing directories; an environment change says whether it is permanent; and
one item, a file or a registry value, is the key path, from which the component is identified.

Nothing is checked across components here, neither their ids nor those of their items.
-/

set_option autoImplicit false

namespace Installer

/-- What resolving components needs to know. -/
structure Component.Context where
  product : Integration.Context
  directories : DirectoryTree
  upgradeCode : Guid
  /-- Whether components are 64-bit that do not say. -/
  win64 : Bool
  deriving Repr

namespace Component

/-- `owner` may refer to directories of the tree only. -/
def requireDirectory (t : DirectoryTree) (owner directory : String) : Except Violation Unit :=
  if t.contains directory then .ok () else .error (.danglingDirectory owner directory)

/-- Checks the directory of an integration that is a path entry. -/
def checkIntegration (t : DirectoryTree) (component : String) :
    Integration → Except Violation Unit
  | .path p => requireDirectory t component p.directory
  | .fileAssociation _ | .startMenu _ => .ok ()

/-- Checks what one item refers to and says. -/
def checkItem (context : Context) (component : String) : Item → Except Violation Unit
  | .environment e =>
    if e.permanent.isNone then .error (.missingPermanence component e.id) else .ok ()
  | .shortcut s => do
    requireFile context.product.fileKeys s.id s.target
    s.icon.toList.forM (requireFile context.product.fileKeys s.id)
    requireDirectory context.directories s.id s.directory
    s.workingDirectory.toList.forM (requireDirectory context.directories s.id)
  | .removeFolder r => requireDirectory context.directories r.id r.directory
  | .file _ | .registry _ => .ok ()

/-- The one item that is marked as key path. -/
def keyItem (component : String) (items : List Item) : Except Violation Item :=
  match items.find? fun i => i.keyPath && !i.canBeKeyPath with
  | some i => .error (.keyPathNotAllowed component i.id)
  | none =>
    match items.filter (·.keyPath) with
    | [i] => .ok i
    | [] => .error (.missingKeyPath component)
    | many => .error (.multipleKeyPaths component (many.map (·.id)))

/-- What identifies a component in a directory by its key item. -/
def identity (t : DirectoryTree) (component directory : String) (key : Item) :
    Except Violation String :=
  match key.keyPathIdentity? ((t.path? directory).getD "") with
  | some identity => .ok identity
  | none => .error (.keyPathNotAllowed component key.id)

/-- The component that a declaration makes, or the first rule that it breaks. -/
def resolve (context : Context) (c : Manifest.Component) :
    Except Violation Package.Component := do
  requireDirectory context.directories c.id c.directory
  c.integrations.forM (checkIntegration context.directories c.id)
  let items ← c.allItems context.product
  items.forM (checkItem context c.id)
  let key ← keyItem c.id items
  let keyPathIdentity ← identity context.directories c.id c.directory key
  let (guid, stability) ← stabilityKey c.id c.guid context.upgradeCode keyPathIdentity
  return {
    id := c.id
    directory := c.directory
    guid := guid.text
    win64 := c.win64.getD context.win64
    keyPath := key.id
    stability, keyPathIdentity, items }

end Component
end Installer
