import Installer.Component.Resolution
import Installer.Feature.Forest

/-!
# Components, features and directories together

Ids of components, and of items across all components, are unique. Every component belongs to a
feature. A declared directory that is not there to group others has to be used: by a component, a
shortcut or the removal of a folder, in it or somewhere below it.

The checks come one after the other and the first that fails is told: the components in their order,
then features and the components without one, and last the directories that nothing uses.
-/

set_option autoImplicit false

namespace Installer

/-- The components and the listed features of a manifest. -/
structure ComponentGraph where
  components : List Package.Component
  features : List Package.Feature
  deriving DecidableEq, Repr

namespace ComponentGraph

/-- The components that declarations make, after components with the ids `earlier` and items with
the ids `taken`. -/
def resolveAll (context : Component.Context) (earlier taken : List String) :
    List Manifest.Component → Except Violation (List Package.Component)
  | [] => .ok []
  | c :: rest => do
    if earlier.contains c.id then throw (.duplicateComponentId c.id)
    let resolved ← Component.resolve context c
    match Distinct.firstTaken? taken (resolved.items.map (·.id)) with
    | some id => throw (.duplicateItemId id)
    | none => pure ()
    let more ← resolveAll context (c.id :: earlier) (resolved.items.map (·.id) ++ taken) rest
    return resolved :: more

/-- The directory that an item puts something into or removes. -/
def directoryOf? : Item → Option String
  | .shortcut s => some s.directory
  | .removeFolder r => some r.directory
  | .file _ | .registry _ | .environment _ => none

/-- The ids of the directories that components use themselves, with repeats. -/
def usedDirectories (components : List Package.Component) : List String :=
  components.flatMap fun c => c.directory :: c.items.filterMap directoryOf?

/-- The positions of the directories that are used, and of those above them. -/
def usedPositions (t : DirectoryTree) (components : List Package.Component) : List Nat :=
  ((usedDirectories components).filterMap t.position?).flatMap fun p => p :: t.ancestors p

/-- The first declared directory that is neither used nor there to group others. -/
def unused? (t : DirectoryTree) (components : List Package.Component)
    (declared : List Manifest.Directory) : Option Manifest.Directory :=
  let used := usedPositions t components
  declared.find? fun d => !d.grouping && (t.position? d.id).any fun p => !used.contains p

/-- The graph of a manifest whose texts are expanded, or the first rule that it breaks. -/
def make (context : Component.Context) (m : Manifest) : Except Violation ComponentGraph := do
  let components ← resolveAll context [] [] m.components
  let features ← Feature.list m.product.installLevel (components.map (·.id)) m.features
  match components.find? fun c => !(Feature.named features).contains c.id with
  | some c => throw (.orphanComponent c.id)
  | none => pure ()
  match unused? context.directories components m.directories with
  | some d => throw (.unusedDirectory d.id)
  | none => return ⟨components, features⟩

end ComponentGraph
end Installer
