import Installer.Package.Basic
import Installer.Xml.Element

/-!
# Components and their items as elements

Each item is one element without children, with an attribute for each of its parts that has a value,
and a component is the element around them. Texts are put in as they are; writing an element escapes
them.
-/

set_option autoImplicit false

namespace Installer.Wix
open Xml

/-- An attribute that is there if it has a value. -/
def optional (name : String) (value : Option String) : List Attribute :=
  value.toList.map fun v => (name, v)

/-- The id of the icon that is taken from a file. -/
def iconId (fileKey : String) : String := s!"Icon_{fileKey}"

/-- The word for the type of a registry value. -/
def typeWord : ValueType → String
  | .string => "string"
  | .integer => "integer"
  | .expandable => "expandable"
  | .multistring => "multiString"

/-- A change whose permanence is open is not permanent. -/
def permanence (e : EnvironmentChange) : Bool := e.permanent.getD false

/-- The element of an item. -/
def item : Item → Element
  | .file f => .leaf "File"
      ([("Id", f.id), ("Source", f.source)] ++ optional "Name" f.name ++
        [("KeyPath", yesNo f.keyPath)])
  | .registry r => .leaf "RegistryValue"
      ([("Id", r.id), ("Root", Keyword.spelling r.root), ("Key", r.key)] ++
        optional "Name" r.name ++
        [("Type", typeWord r.valueType), ("Value", r.value), ("KeyPath", yesNo r.keyPath)])
  | .environment e => .leaf "Environment"
      [("Id", e.id), ("Name", e.name), ("Value", e.value), ("Part", Keyword.spelling e.place),
        ("Action", Keyword.spelling e.action), ("Permanent", yesNo (permanence e)),
        ("System", yesNo e.system)]
  | .shortcut s => .leaf "Shortcut"
      ([("Id", s.id), ("Name", s.name), ("Target", s!"[#{s.target}]"),
        ("Directory", s.directory)] ++
        optional "WorkingDirectory" s.workingDirectory ++ optional "Icon" (s.icon.map iconId) ++
        optional "Description" s.description ++ optional "Arguments" s.arguments)
  | .removeFolder r => .leaf "RemoveFolder"
      [("Id", r.id), ("Directory", r.directory), ("On", "uninstall")]

/-- A component inside a reference to its directory. -/
def component (c : Package.Component) : Element :=
  .node "DirectoryRef" [("Id", c.directory)]
    [.node "Component" [("Id", c.id), ("Guid", c.guid), ("Win64", yesNo c.win64)]
      (c.items.map item)]

end Installer.Wix
