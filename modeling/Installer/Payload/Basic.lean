import Installer.Vocabulary

/-!
# Payload items

What a component puts on the target system: files, values in the registry, changes of environment
variables, shortcuts, and the removal of folders. An item refers to others, and to directories, by id,
and is marked if it is the key path of its component. A shortcut, an environment change or a removal
can be marked too, and is then refused when the component is resolved.

Shell integrations are declared beside the items and stand for items that are made of them later.
-/

set_option autoImplicit false

namespace Installer

/-- A file, installed under `name`, or under the last segment of its source. -/
structure FileItem where
  id : String
  source : String
  name : Option String
  keyPath : Bool
  deriving DecidableEq, Repr

/-- A registry value; without a name it is the default value of its key. -/
structure RegistryValue where
  id : String
  root : Hive
  key : String
  name : Option String
  value : String
  valueType : ValueType
  keyPath : Bool
  deriving DecidableEq, Repr

/-- A change of an environment variable. -/
structure EnvironmentChange where
  id : String
  name : String
  value : String
  place : ListPlace
  action : EnvironmentAction
  /-- Whether the value stays when the component is removed; a manifest has to say. -/
  permanent : Option Bool
  system : Bool
  keyPath : Bool
  deriving DecidableEq, Repr

/-- A shortcut in `directory` to the file whose id is `target`. -/
structure Shortcut where
  id : String
  name : String
  target : String
  directory : String
  workingDirectory : Option String
  /-- The id of the file that holds the icon. -/
  icon : Option String
  description : Option String
  arguments : Option String
  keyPath : Bool
  deriving DecidableEq, Repr

/-- A folder to remove when the component is removed. -/
structure FolderRemoval where
  id : String
  directory : String
  keyPath : Bool
  deriving DecidableEq, Repr

/-- One thing that a component installs. -/
inductive Item
  | file (f : FileItem)
  | registry (r : RegistryValue)
  | environment (e : EnvironmentChange)
  | shortcut (s : Shortcut)
  | removeFolder (r : FolderRemoval)
  deriving DecidableEq, Repr

namespace Item

def id : Item → String
  | .file f => f.id
  | .registry r => r.id
  | .environment e => e.id
  | .shortcut s => s.id
  | .removeFolder r => r.id

/-- Whether the item is marked as the key path of its component. -/
def keyPath : Item → Bool
  | .file f => f.keyPath
  | .registry r => r.keyPath
  | .environment e => e.keyPath
  | .shortcut s => s.keyPath
  | .removeFolder r => r.keyPath

/-- Only files and registry values identify a component. -/
def canBeKeyPath : Item → Bool
  | .file _ | .registry _ => true
  | .environment _ | .shortcut _ | .removeFolder _ => false

/-- The file of a file item. -/
def file? : Item → Option FileItem
  | .file f => some f
  | .registry _ | .environment _ | .shortcut _ | .removeFolder _ => none

end Item

/-- An entry of the search path. -/
structure PathEntry where
  directory : String
  place : ListPlace
  permanent : Option Bool
  system : Bool
  deriving DecidableEq, Repr

/-- A file extension that a program opens. -/
structure FileAssociation where
  extension : String
  progId : String
  /-- The id of the program's file. -/
  target : String
  description : Option String
  icon : Option String
  verb : String
  command : Option String
  deriving DecidableEq, Repr

/-- An entry of the start menu. -/
structure StartMenuEntry where
  id : String
  name : String
  target : String
  folder : Option String
  icon : Option String
  workingDirectory : Option String
  description : Option String
  /-- Whether a registry value is added as the component's key path. -/
  registryKeyPath : Bool
  deriving DecidableEq, Repr

/-- A shell integration that a component asks for, in place of the items that make it. -/
inductive Integration
  | path (p : PathEntry)
  | fileAssociation (a : FileAssociation)
  | startMenu (s : StartMenuEntry)
  deriving DecidableEq, Repr

end Installer
