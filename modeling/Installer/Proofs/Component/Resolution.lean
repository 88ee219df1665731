import Installer.Component.Resolution
import Installer.Proofs.Directory.Tree

/-!
# What a resolved component is

Checks of references are memberships (`checkItem_eq_ok_iff`), the key item is the only one that is
marked (`keyItem_eq_ok_iff`), and a component's items start with those that it declares
(`prefix_allItems`). A component is resolved exactly if all of that holds of it
(`resolve_eq_ok_iff`).

**What it does not establish.** Which check fails first is not told; where a component is not
resolved, the violation is any of those that its parts break.
-/

set_option autoImplicit false

namespace Installer
open Result

/-- What an item refers to is there, and an environment change says whether it is permanent. -/
def Item.IsClosed (files directories : List String) : Item → Prop
  | .environment e => e.permanent.isSome
  | .shortcut s => s.target ∈ files ∧ (∀ icon ∈ s.icon, icon ∈ files) ∧
      s.directory ∈ directories ∧ ∀ directory ∈ s.workingDirectory, directory ∈ directories
  | .removeFolder r => r.directory ∈ directories
  | .file _ | .registry _ => True

theorem requireFile_eq_ok_iff {fileKeys : List String} {owner fileKey : String} :
    requireFile fileKeys owner fileKey = .ok () ↔ fileKey ∈ fileKeys := by
  rw [requireFile]
  by_cases h : fileKey ∈ fileKeys <;> simp [h]

namespace Component

theorem requireDirectory_eq_ok_iff {t : DirectoryTree} {owner directory : String} :
    requireDirectory t owner directory = .ok () ↔ directory ∈ t.ids := by
  rw [requireDirectory, ← DirectoryTree.contains_iff]
  by_cases h : t.contains directory <;> simp [h]

section Item
variable {context : Context} {component : String}

/-- An item passes its check exactly if it is closed. -/
theorem checkItem_eq_ok_iff {i : Item} : checkItem context component i = .ok () ↔
    i.IsClosed context.product.fileKeys context.directories.ids := by
  cases i with
  | file | registry => simp [checkItem, Item.IsClosed]
  | environment e =>
    rw [checkItem, Item.IsClosed]
    cases e.permanent <;> simp
  | removeFolder r => exact requireDirectory_eq_ok_iff
  | shortcut s =>
    simp only [checkItem, Item.IsClosed, check_bind_eq_ok, forM_toList_eq_ok,
      requireFile_eq_ok_iff, requireDirectory_eq_ok_iff]

/-- The key item is the one that is marked, and it can be one. -/
theorem keyItem_eq_ok_iff {items : List Item} {key : Item} :
    keyItem component items = .ok key ↔
      items.filter (·.keyPath) = [key] ∧ key.canBeKeyPath = true := by
  rw [keyItem]
  constructor
  · intro h
    split at h
    · cases h
    · next hfind =>
      split at h
      · next i hmarked =>
        cases h
        obtain ⟨hkey, hmark⟩ := List.mem_filter.mp (hmarked ▸ List.mem_singleton_self key)
        exact ⟨hmarked, by simpa [hmark] using List.find?_eq_none.mp hfind key hkey⟩
      · cases h
      · cases h
  · rintro ⟨hmarked, hcan⟩
    have hfind : items.find? (fun i => i.keyPath && !i.canBeKeyPath) = none := by
      refine List.find?_eq_none.mpr fun i hi hboth => ?_
      obtain ⟨hmark, hcannot⟩ := Bool.and_eq_true_iff.mp hboth
      have hone : i ∈ [key] := hmarked ▸ List.mem_filter.mpr ⟨hi, hmark⟩
      rw [List.mem_singleton.mp hone, hcan] at hcannot
      cases hcannot
    rw [hfind, hmarked]

end Item

section Integrations
variable {context : Integration.Context} {component directory : String}

/-- The items that one integration comes to, after the items `earlier`. -/
def itemsOf (context : Integration.Context) (component directory : String) (n : Nat)
    (earlier : List Item) : Integration → Except Violation (List Item)
  | .path p => p.items component n
  | .fileAssociation a => a.items context component
  | .startMenu s => .ok (s.items context component directory earlier)

theorem itemsFrom_cons {n : Nat} {earlier : List Item} {intent : Integration}
    {rest : List Integration} :
    Manifest.Component.itemsFrom context component directory n earlier (intent :: rest) =
      itemsOf context component directory n earlier intent >>= fun more =>
        Manifest.Component.itemsFrom context component directory (n + 1) (earlier ++ more) rest := by
  cases intent <;> rfl

/-- Integrations leave the items before them as they are. -/
theorem prefix_itemsFrom {intents : List Integration} : ∀ {n : Nat} {earlier items : List Item},
    Manifest.Component.itemsFrom context component directory n earlier intents = .ok items →
      earlier <+: items := by
  induction intents with
  | nil =>
    intro n earlier items h
    cases h
    exact List.prefix_rfl
  | cons intent rest ih =>
    intro n earlier items h
    rw [itemsFrom_cons] at h
    obtain ⟨more, -, hrest⟩ := bind_eq_ok.mp h
    exact (List.prefix_append earlier more).trans (ih hrest)

theorem prefix_allItems {c : Manifest.Component} {items : List Item}
    (h : c.allItems context = .ok items) : c.items <+: items :=
  prefix_itemsFrom h

end Integrations

/-- A key that is not declared is derived from what identifies the key path. -/
theorem eq_named_of_auto {component declared identity : String} {upgradeCode guid : Guid}
    (h : stabilityKey component declared upgradeCode identity = .ok (guid, .auto)) :
    guid = upgradeCode.named identity := by
  unfold stabilityKey at h
  split at h
  · exact (Prod.mk.inj (Except.ok.inj h)).1.symm
  · cases hparsed : Guid.parse component declared with
    | error e =>
      rw [hparsed] at h
      cases h
    | ok declaredGuid =>
      rw [hparsed] at h
      cases h

/-- What a declaration and the component that it makes have to do with each other. -/
structure Resolves (context : Context) (c : Manifest.Component) (r : Package.Component) :
    Prop where
  id : r.id = c.id
  directory : r.directory = c.directory
  known : c.directory ∈ context.directories.ids
  integrations : ∀ i ∈ c.integrations, checkIntegration context.directories c.id i = .ok ()
  items : c.allItems context.product = .ok r.items
  closed : ∀ i ∈ r.items, i.IsClosed context.product.fileKeys context.directories.ids
  /-- One item is the key path, and identifies the component. -/
  key : ∃ key, (r.items.filter (·.keyPath) = [key] ∧ key.canBeKeyPath) ∧ r.keyPath = key.id ∧
    identity context.directories c.id c.directory key = .ok r.keyPathIdentity
  stability : ∃ guid, stabilityKey c.id c.guid context.upgradeCode r.keyPathIdentity =
    .ok (guid, r.stability) ∧ r.guid = guid.text
  win64 : r.win64 = c.win64.getD context.win64

/-- A component is resolved exactly if its directory, its items and its keys are as they have to
be. -/
theorem resolve_eq_ok_iff {context : Context} {c : Manifest.Component} {r : Package.Component} :
    resolve context c = .ok r ↔ Resolves context c r := by
  constructor
  · intro h
    obtain ⟨_, hknown, h⟩ := bind_eq_ok.mp h
    obtain ⟨_, hintegrations, h⟩ := bind_eq_ok.mp h
    obtain ⟨items, hitems, h⟩ := bind_eq_ok.mp h
    obtain ⟨_, hclosed, h⟩ := bind_eq_ok.mp h
    obtain ⟨key, hkey, h⟩ := bind_eq_ok.mp h
    obtain ⟨keyPathIdentity, hidentity, h⟩ := bind_eq_ok.mp h
    obtain ⟨⟨guid, stability⟩, hstability, h⟩ := bind_eq_ok.mp h
    cases h
    exact {
      id := rfl
      directory := rfl
      known := requireDirectory_eq_ok_iff.mp hknown
      integrations := forM_eq_ok.mp hintegrations
      items := hitems
      closed := fun i hi => checkItem_eq_ok_iff.mp (forM_eq_ok.mp hclosed i hi)
      key := ⟨key, keyItem_eq_ok_iff.mp hkey, rfl, hidentity⟩
      stability := ⟨guid, hstability, rfl⟩
      win64 := rfl }
  · rintro ⟨hid, hdirectory, hknown, hintegrations, hitems, hclosed, ⟨key, hkey, hkeyPath,
      hidentity⟩, ⟨guid, hstability, hguid⟩, hwin64⟩
    have hchecked : r.items.forM (checkItem context c.id) = .ok () :=
      forM_eq_ok.mpr fun i hi => checkItem_eq_ok_iff.mpr (hclosed i hi)
    rw [resolve, requireDirectory_eq_ok_iff.mpr hknown, ok_bind, forM_eq_ok.mpr hintegrations,
      ok_bind, hitems, ok_bind, hchecked, ok_bind, keyItem_eq_ok_iff.mpr hkey, ok_bind, hidentity,
      ok_bind, hstability, ok_bind]
    dsimp only
    rw [← hid, ← hdirectory, ← hguid, ← hwin64, ← hkeyPath]
    rfl

end Component
end Installer
