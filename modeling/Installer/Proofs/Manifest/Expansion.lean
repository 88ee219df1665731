import Mathlib.Data.List.Perm.Basic
import Installer.Manifest.Expansion
import Installer.Proofs.Dictionary

/-!
# What a manifest with expanded texts is made of

A manifest is expanded exactly if its parts are (`expandWith_eq_ok_iff`), each by itself, so that the
order of components and directories does not matter (`exists_expandWith`); ids stay as they are.
-/

set_option autoImplicit false

namespace Installer.Manifest
open Result

variable {ε : Type} {f : Expander ε}

/-- A manifest is expanded part by part. -/
theorem expandWith_eq_ok_iff {version : String} {m expanded : Manifest} :
    m.expandWith f version = .ok expanded ↔
      ∃ product directories components actions,
        m.product.expandWith f version = .ok product ∧
          List.Forall₂ (fun d d' => Directory.expandWith f d = .ok d') m.directories directories ∧
          List.Forall₂ (fun c c' => Component.expandWith f c = .ok c') m.components components ∧
          m.actions.mapM (Action.expandWith f) = .ok actions ∧
            expanded = { m with product, directories, components, actions } := by
  rw [expandWith]
  constructor
  · intro h
    obtain ⟨product, hproduct, h⟩ := bind_eq_ok.mp h
    obtain ⟨directories, hdirectories, h⟩ := bind_eq_ok.mp h
    obtain ⟨components, hcomponents, h⟩ := bind_eq_ok.mp h
    obtain ⟨actions, hactions, h⟩ := bind_eq_ok.mp h
    cases h
    exact ⟨product, directories, components, actions, hproduct, mapM_eq_ok.mp hdirectories,
      mapM_eq_ok.mp hcomponents, hactions, rfl⟩
  · rintro ⟨product, directories, components, actions, hproduct, hdirectories, hcomponents,
      hactions, rfl⟩
    rw [hproduct, ok_bind, mapM_eq_ok.mpr hdirectories, ok_bind, mapM_eq_ok.mpr hcomponents,
      ok_bind, hactions]
    rfl

/-- An expanded product has its texts expanded and the version of the build, and all else as it is
declared. -/
theorem Product.expandWith_eq_ok {version : String} {x x' : Product}
    (h : x.expandWith f version = .ok x') : ∃ name manufacturer downgradeMessage properties,
      f x.name = .ok name ∧ f x.manufacturer = .ok manufacturer ∧
        f x.upgrade.downgradeMessage = .ok downgradeMessage ∧
        x.properties.mapM f = .ok properties ∧
          x' = { x with
            name, manufacturer, version, properties, upgrade := { x.upgrade with downgradeMessage } } := by
  obtain ⟨name, hname, h⟩ := bind_eq_ok.mp h
  obtain ⟨manufacturer, hmanufacturer, h⟩ := bind_eq_ok.mp h
  obtain ⟨downgradeMessage, hmessage, h⟩ := bind_eq_ok.mp h
  obtain ⟨properties, hproperties, h⟩ := bind_eq_ok.mp h
  cases h
  exact ⟨name, manufacturer, downgradeMessage, properties, hname, hmanufacturer, hmessage,
    hproperties, rfl⟩

/-- The names of properties are not expanded. -/
theorem Product.names_of_expandWith {version : String} {x x' : Product}
    (h : x.expandWith f version = .ok x') : x'.properties.names = x.properties.names := by
  obtain ⟨_, _, _, _, -, -, -, hproperties, rfl⟩ := expandWith_eq_ok h
  exact Dictionary.names_of_mapM hproperties

/-- The id of a directory is not expanded. -/
theorem Directory.id_of_expandWith {d d' : Directory} (h : d.expandWith f = .ok d') :
    d'.id = d.id := by
  obtain ⟨name, -, h⟩ := bind_eq_ok.mp h
  obtain ⟨parent, -, h⟩ := bind_eq_ok.mp h
  cases h
  rfl

theorem Component.id_of_expandWith {c c' : Component} (h : c.expandWith f = .ok c') :
    c'.id = c.id := by
  obtain ⟨items, -, h⟩ := bind_eq_ok.mp h
  obtain ⟨integrations, -, h⟩ := bind_eq_ok.mp h
  cases h
  rfl

/-- Components and directories in another order are expanded to the same, in that order. -/
theorem exists_expandWith {version : String} {m expanded : Manifest}
    (h : m.expandWith f version = .ok expanded) {components : List Component}
    (hcomponents : components.Perm m.components) {directories : List Directory}
    (hdirectories : directories.Perm m.directories) :
    ∃ components' directories', { m with components, directories }.expandWith f version =
        .ok { expanded with components := components', directories := directories' } ∧
      (components'.Perm expanded.components ∧
        components'.map (·.id) = components.map (·.id)) ∧
      directories'.Perm expanded.directories ∧
        directories'.map (·.id) = directories.map (·.id) := by
  obtain ⟨product, _, _, actions, hproduct, hds, hcs, hactions, rfl⟩ := expandWith_eq_ok_iff.mp h
  obtain ⟨components', hcs', hcomponents'⟩ := List.perm_comp_forall₂ hcomponents hcs
  obtain ⟨directories', hds', hdirectories'⟩ := List.perm_comp_forall₂ hdirectories hds
  refine ⟨components', directories', expandWith_eq_ok_iff.mpr
    ⟨product, directories', components', actions, hproduct, hds', hcs', hactions, rfl⟩,
    ⟨hcomponents', ?_⟩, hdirectories', ?_⟩
  · exact map_eq_map_of_related hcs' fun _ _ => Component.id_of_expandWith
  · exact map_eq_map_of_related hds' fun _ _ => Directory.id_of_expandWith

end Installer.Manifest
