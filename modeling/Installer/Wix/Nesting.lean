import Installer.Wix.Item

/-!
# Directories and features as nested elements

A package lists directories and features and says for each what it lies in; a WiX source nests them.
A walk makes the elements of what lies in one place, in the order of the package, each from the
elements of what lies in it in turn.

A walk that comes to its end goes no deeper than the number of what is listed, so `nest` goes that
deep. What lies deeper lies in itself: the walk would never end, and `nest` has no elements for it.
-/

set_option autoImplicit false

namespace Installer.Wix
open Xml

section
variable {α β γ : Type} (inside : α → List β) (key : β → α) (make : β → List γ → γ)

/-- The elements of what lies in a place, each made from those of what lies in it, if nothing lies
deeper than `depth`. -/
def nest : (depth : Nat) → (place : α) → Option (List γ)
  | 0, place => if (inside place).isEmpty then some [] else none
  | depth + 1, place => (inside place).mapM fun x => (nest depth (key x)).map (make x)

end

/-! ## Directories -/

/-- The id of the root of all directories. -/
def rootId : String := StandardFolder.targetDir.id

/-- The directories that lie directly in one, in their order. -/
def directoriesIn (all : List Package.Directory) (parent : String) : List Package.Directory :=
  all.filter fun d => d.parent.getD rootId = parent

/-- The attributes of a directory; standard folders have their names from the system. -/
def directoryAttributes (d : Package.Directory) : List Attribute :=
  ("Id", d.id) :: if d.standard then [] else [("Name", d.name)]

/-- The element of a directory, from those of the directories in it. -/
def directoryElement (d : Package.Directory) (inner : List Element) : Element :=
  match inner with
  | [] => .leaf "Directory" (directoryAttributes d)
  | inner => .node "Directory" (directoryAttributes d) inner

/-- The elements of the directories in the root, if the walk over them comes to its end. -/
def directories? (all : List Package.Directory) : Option (List Element) :=
  nest (directoriesIn all) (·.id) directoryElement all.length rootId

/-- The element of the root. -/
def targetDirectory (inner : List Element) : Element :=
  .node "Directory" [("Id", rootId), ("Name", "SourceDir")] inner

/-! ## Features -/

/-- The features that lie directly in one, or in none. -/
def featuresIn (all : List Package.Feature) (parent : Option String) : List Package.Feature :=
  all.filter (·.parent = parent)

def featureAttributes (f : Package.Feature) : List Attribute :=
  [("Id", f.id), ("Title", f.title)] ++
    optional "Description" (if f.description.isEmpty then none else some f.description) ++
    [("Level", Text.decimal f.level.toNat), ("AllowAbsent", yesNo f.allowAbsent),
      ("Display", Keyword.spelling f.display)]

/-- The element of a feature, from those of the features in it. -/
def featureElement (f : Package.Feature) (inner : List Element) : Element :=
  .node "Feature" (featureAttributes f)
    (f.components.map (fun c => Element.leaf "ComponentRef" [("Id", c)]) ++ inner)

/-- The elements of the features that lie in no other, if the walk over them comes to its end. -/
def features? (all : List Package.Feature) : Option (List Element) :=
  nest (featuresIn all) (fun f => some f.id) featureElement all.length none

end Installer.Wix
