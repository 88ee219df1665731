import Installer.Package.Compilation
import Installer.Proofs.Component.Graph
import Installer.Proofs.Schedule.Conditions
import Installer.Proofs.Schedule.Soundness

/-!
# What a compiled package is made of

A package comes from an expanded manifest through a tree of directories, a graph of components and
features and a schedule (`compile_eq_ok`), and holds what these hold.
-/

set_option autoImplicit false

namespace Installer.Manifest
open Result

/-- What the components of a manifest are resolved with. -/
def componentContext (i : Injection) (m : Manifest) (upgradeCode : Guid) (t : DirectoryTree) :
    Component.Context where
  product := ⟨m.product.scope, m.product.manufacturer, m.product.name, m.fileKeys⟩
  directories := t
  upgradeCode := upgradeCode
  win64 := i.platform.isWin64

/-- The package is put together from the stages of an expanded manifest. -/
structure Settles (i : Injection) (m : Manifest) (upgradeCode : Guid) (t : DirectoryTree)
    (g : ComponentGraph) (p : Package) : Prop where
  code : Guid.parse "upgrade_code" m.product.upgradeCode = .ok upgradeCode
  tree : DirectoryTree.make i.platform.programFiles m.directories = .ok t
  graph : ComponentGraph.make (componentContext i m upgradeCode t) m = .ok g
  schedule : Schedule.make m.actions m.rules m.fileKeys
    (guardScope t g m.product.properties) = .ok ⟨p.actions, p.steps⟩
  directories : p.directories = t.listing
  components : p.components = g.components
  features : p.features = g.features
  properties : p.product.properties = m.product.properties
  upgradeCode_text : p.product.upgradeCode = upgradeCode.text
  platform : p.product.platform = i.platform
  assets : p.product.assets = i.packageAssets

theorem settle_eq_ok {i : Injection} {m : Manifest} {p : Package} (h : m.settle i = .ok p) :
    ∃ upgradeCode t g, Settles i m upgradeCode t g p := by
  obtain ⟨upgradeCode, hcode, h⟩ := bind_eq_ok.mp h
  obtain ⟨code, -, h⟩ := bind_eq_ok.mp h
  obtain ⟨t, htree, h⟩ := bind_eq_ok.mp h
  obtain ⟨g, hgraph, h⟩ := bind_eq_ok.mp h
  obtain ⟨schedule, hschedule, h⟩ := bind_eq_ok.mp h
  cases h
  exact ⟨upgradeCode, t, g, hcode, htree, hgraph, hschedule, rfl, rfl, rfl, rfl, rfl, rfl,
    rfl⟩

/-- A package is compiled from the expansion of its manifest. -/
theorem compile_eq_ok {m : Manifest} {s : Settings} {p : Package} (h : m.compile s = .ok p) :
    ∃ i expanded upgradeCode t g, Injection.ofSettings s m.product.version = .ok i ∧
      m.expandWith i.expand i.version.text = .ok expanded ∧
        Settles i expanded upgradeCode t g p := by
  obtain ⟨i, hi, h⟩ := bind_eq_ok.mp h
  obtain ⟨expanded, hexpanded, h⟩ := bind_eq_ok.mp h
  obtain ⟨upgradeCode, t, g, hsettles⟩ := settle_eq_ok h
  exact ⟨i, expanded, upgradeCode, t, g, hi, hexpanded, hsettles⟩

end Installer.Manifest

namespace Installer.Package
open Result

variable (p : Package)

/-- The directories that a package may refer to: the target directory and those it lists. -/
def knownDirectories : List String := StandardFolder.targetDir.id :: p.directories.map (·.id)

/-- The ids of all files in a package. -/
def fileIds : List String :=
  p.components.flatMap fun c => c.items.filterMap fun i => i.file?.map (·.id)

/-- The names that the conditions of a package may refer to. -/
def guardScope : Guard.Scope where
  variableNames := Guard.builtins ++ p.knownDirectories ++ p.product.properties.names
  features := p.features.map (·.id)
  components := p.components.map (·.id)

end Installer.Package

namespace Installer.Manifest.Settles
open Result

variable {i : Injection} {m : Manifest} {upgradeCode : Guid} {t : DirectoryTree}
  {g : ComponentGraph} {p : Package} (h : Settles i m upgradeCode t g p)

include h

/-- The ids of the tree are those of the known directories. -/
theorem ids_eq : t.ids = p.knownDirectories := by
  rw [DirectoryTree.ids_eq_cons h.tree, Package.knownDirectories, h.directories]

/-- Every component of the package is a resolved one of the manifest, and their ids are new. -/
theorem resolved : List.Forall₂ (Component.Resolves (componentContext i m upgradeCode t))
    m.components p.components ∧ (p.components.map (·.id)).Nodup ∧
      (ComponentGraph.itemIds p.components).Nodup := by
  obtain ⟨hcomponents, -⟩ := ComponentGraph.make_eq_ok_iff.mp h.graph
  obtain ⟨hall, hids, hitems⟩ := ComponentGraph.resolveAll_eq_ok_iff.mp hcomponents
  rw [h.components, map_eq_map_of_related hall fun _ _ hresolves => hresolves.id]
  exact ⟨hall, (Distinct.firstTaken?_eq_none_iff.mp hids).1,
    (Distinct.firstTaken?_eq_none_iff.mp hitems).1⟩

/-- The declared files are files of the package. -/
theorem fileKeys_subset : m.fileKeys ⊆ p.fileIds := by
  intro id hid
  obtain ⟨c, hc, hid⟩ := List.mem_flatMap.mp hid
  obtain ⟨r, hr, hresolves⟩ := exists_related h.resolved.1 hc
  have hkept := Component.prefix_allItems hresolves.items
  exact List.mem_flatMap.mpr ⟨r, hr, (hkept.sublist.filterMap _).subset hid⟩

/-- The schedule is made in the scope of the package. -/
theorem guardScope_eq : guardScope t g m.product.properties = p.guardScope := by
  rw [guardScope, Package.guardScope, h.ids_eq, h.components, h.features, h.properties]

end Installer.Manifest.Settles
