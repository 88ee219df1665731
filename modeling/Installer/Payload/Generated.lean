import Installer.Manifest.Basic
import Installer.Platform
import Installer.Text.Letters
import Installer.Violation

/-!
# The items that integrations come to

A component's items are its declared ones, followed by those of its integrations in their order: a
path entry is a change of the variable `PATH`, a file association is four registry values under the
classes of its hive, and a start menu entry is a shortcut, with the removal of its folder and a
registry value as key path where they are needed. Generated ids start with the id of the component
or of the entry.
-/

set_option autoImplicit false

namespace Installer

/-- What generating items needs to know of the product. -/
structure Integration.Context where
  scope : Scope
  manufacturer : String
  product : String
  /-- The ids of all declared files. -/
  fileKeys : List String
  deriving Repr

/-- `owner` may refer to declared files only. -/
def requireFile (fileKeys : List String) (owner fileKey : String) : Except Violation Unit :=
  if fileKeys.contains fileKey then .ok () else .error (.unresolvedFile owner fileKey)

/-- The text with every character replaced that cannot stand in an id. -/
def asId (s : String) : String :=
  String.ofList (s.toList.map fun c => if c.isAlphanum || c == '_' then c else '_')

namespace PathEntry

/-- The id of the item of a component's integration number `n`. -/
def itemId (component : String) (n : Nat) : String := s!"{component}_Path{n}"

def items (component : String) (n : Nat) (p : PathEntry) : Except Violation (List Item) :=
  let id := itemId component n
  match p.permanent with
  | none => .error (.missingPermanence component id)
  | some permanent => .ok [.environment {
      id, place := p.place, permanent, system := p.system
      name := "PATH"
      value := s!"[{p.directory}]"
      action := .set
      keyPath := false }]

end PathEntry

namespace FileAssociation

/-- The hive that holds the classes of a scope. -/
def hive : Scope → Hive
  | .perMachine => .localMachine
  | .perUser => .currentUser

/-- The key below which classes are registered. -/
def classes : String := "Software\\Classes"

/-- The extension without the dots before it. -/
def bareExtension (a : FileAssociation) : String :=
  String.ofList (a.extension.toList.dropWhile (· == '.'))

/-- What the ids of the association's items start with. -/
def baseId (component : String) (a : FileAssociation) : String :=
  s!"{component}_Assoc_{asId a.bareExtension}"

/-- The association as the owner of references. -/
def owner (component : String) (a : FileAssociation) : String := s!"{component}/{a.progId}"

/-- The command that opens a file, if none is declared: the target with the file as its argument. -/
def standardCommand (a : FileAssociation) : String := s!"\"[#{a.target}]\" \"%1\""

def standardDescription (a : FileAssociation) : String := s!"{Text.upper a.bareExtension} file"

def items (context : Integration.Context) (component : String) (a : FileAssociation) :
    Except Violation (List Item) := do
  let owner := a.owner component
  let icon := a.icon.getD a.target
  requireFile context.fileKeys owner a.target
  requireFile context.fileKeys owner icon
  let base := a.baseId component
  let progKey := s!"{classes}\\{a.progId}"
  let registered (part key value : String) : Item := .registry {
    id := s!"{base}_{part}"
    root := hive context.scope
    name := none
    valueType := .string
    keyPath := false
    key, value }
  return [
    registered "Ext" s!"{classes}\\.{a.bareExtension}" a.progId,
    registered "ProgId" progKey (a.description.getD a.standardDescription),
    registered "Icon" s!"{progKey}\\DefaultIcon" s!"[#{icon}],0",
    registered "Command" s!"{progKey}\\shell\\{a.verb}\\command"
      (a.command.getD a.standardCommand)]

end FileAssociation

namespace StartMenuEntry

/-- The folder of an entry that names none. -/
def standardFolder : String := StandardFolder.programMenu.id

/-- The id of the item that removes a folder. -/
def removalId (component folder : String) : String := s!"{component}_Remove{asId folder}"

/-- The items of an entry, after the items `earlier` of the component. The standard folder is never
removed, and no other folder twice. -/
def items (context : Integration.Context) (component directory : String) (earlier : List Item)
    (s : StartMenuEntry) : List Item :=
  let folder := s.folder.getD standardFolder
  let shortcut : Item := .shortcut {
    id := s.id, name := s.name, target := s.target, icon := s.icon, description := s.description
    directory := folder
    workingDirectory := some (s.workingDirectory.getD directory)
    arguments := none
    keyPath := false }
  let removal := removalId component folder
  let isRemoved := (earlier ++ [shortcut]).any fun i => i.id = removal
  let removals : List Item :=
    if isRemoved || folder = standardFolder then []
    else [.removeFolder ⟨removal, folder, false⟩]
  let marks : List Item :=
    if s.registryKeyPath then [.registry {
      id := s!"{s.id}_Installed"
      root := .currentUser
      key := s!"Software\\{context.manufacturer}\\{context.product}"
      name := some s!"{s.id}_installed"
      value := "1"
      valueType := .integer
      keyPath := true }]
    else []
  shortcut :: removals ++ marks

end StartMenuEntry

namespace Manifest.Component

/-- The items after `earlier` that integrations come to, the first of which has the number `n`; they
stand after `earlier`. -/
def itemsFrom (context : Integration.Context) (component directory : String) :
    (n : Nat) → (earlier : List Item) → List Integration → Except Violation (List Item)
  | _, earlier, [] => .ok earlier
  | n, earlier, intent :: rest => do
    let more ← match intent with
      | .path p => p.items component n
      | .fileAssociation a => a.items context component
      | .startMenu s => .ok (s.items context component directory earlier)
    itemsFrom context component directory (n + 1) (earlier ++ more) rest

/-- All items of a component. -/
def allItems (context : Integration.Context) (c : Component) : Except Violation (List Item) :=
  itemsFrom context c.id c.directory 0 c.items c.integrations

end Manifest.Component
end Installer
