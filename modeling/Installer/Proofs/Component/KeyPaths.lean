import Installer.Proofs.Manifest.Frame
import Installer.Proofs.Payload.Removals

/-!
# Components that are told by the same key

Two items are keyed alike if they have one id and are identified in the same way, as far as they are
marked as key paths at all. Integrations that differ in their texts only come to items that are keyed
alike, whatever those before them say beyond that (`keyedAlike_itemsFrom`). So the components that two
declarations make have the same key if their items are keyed alike and their integrations differ in
their texts only (`sameKey_of_resolves`).

**What it does not establish.** The converse is not true and not claimed: a declared key stays
whatever the items are, so components with one key may have items that are keyed differently.
-/

set_option autoImplicit false

namespace Installer
open Result

/-- Items with one id, of which none is marked as key path, or both and they are identified alike. -/
structure Item.KeyedAlike (x y : Item) : Prop where
  id : y.id = x.id
  keyPath : y.keyPath = x.keyPath
  identity : x.keyPath = true → ∀ path, y.keyPathIdentity? path = x.keyPathIdentity? path

namespace Item.KeyedAlike

theorem refl (x : Item) : KeyedAlike x x := ⟨rfl, rfl, fun _ _ => rfl⟩

theorem refl_all (items : List Item) : List.Forall₂ KeyedAlike items items :=
  List.forall₂_same.mpr fun x _ => refl x

theorem unmarked {x y : Item} (hid : y.id = x.id) (hx : x.keyPath = false)
    (hy : y.keyPath = false) : KeyedAlike x y :=
  ⟨hid, hy.trans hx.symm, fun h => absurd (h.symm.trans hx) (by decide)⟩

theorem map_id {xs ys : List Item} (h : List.Forall₂ KeyedAlike xs ys) :
    ys.map (·.id) = xs.map (·.id) :=
  map_eq_map_of_related h fun _ _ hxy => hxy.id

theorem filter_keyPath {xs ys : List Item} (h : List.Forall₂ KeyedAlike xs ys) :
    List.Forall₂ KeyedAlike (xs.filter (·.keyPath)) (ys.filter (·.keyPath)) := by
  refine List.rel_filter (fun x y hxy => ?_) h
  show x.keyPath = true ↔ y.keyPath = true
  rw [hxy.keyPath]

end Item.KeyedAlike

/-! ## Generated items -/

section Generated
variable {context : Integration.Context} {component directory : String} {earlier earlier' : List Item}

theorem FileAssociation.keyedAlike_items {a a' : FileAssociation} {items items' : List Item}
    (hextension : a'.extension = a.extension) (h : a.items context component = .ok items)
    (h' : a'.items context component = .ok items') :
    List.Forall₂ Item.KeyedAlike items items' := by
  have hid (part : String) :
      partId (a'.baseId component) part = partId (a.baseId component) part := by
    rw [baseId, baseId, bareExtension, bareExtension, hextension]
  obtain ⟨_, -, h⟩ := bind_eq_ok.mp h
  obtain ⟨_, -, h⟩ := bind_eq_ok.mp h
  obtain ⟨_, -, h'⟩ := bind_eq_ok.mp h'
  obtain ⟨_, -, h'⟩ := bind_eq_ok.mp h'
  cases h
  cases h'
  exact .cons (.unmarked (hid "Ext") rfl rfl) <| .cons (.unmarked (hid "ProgId") rfl rfl) <|
    .cons (.unmarked (hid "Icon") rfl rfl) <| .cons (.unmarked (hid "Command") rfl rfl) .nil

/-- Of what is before an entry, its items depend on the ids alone. -/
theorem StartMenuEntry.keyedAlike_items {s s' : StartMenuEntry} (hid : s'.id = s.id)
    (hfolder : s'.folder = s.folder) (hmark : s'.registryKeyPath = s.registryKeyPath)
    (hearlier : earlier'.map (·.id) = earlier.map (·.id)) :
    List.Forall₂ Item.KeyedAlike (s.items context component directory earlier)
      (s'.items context component directory earlier') := by
  have hplace : s'.place = s.place := by rw [place, place, hfolder]
  have hleaves : s'.LeavesOut component earlier' ↔ s.LeavesOut component earlier := by
    rw [LeavesOut, LeavesOut, hplace, hid, hearlier]
  have hvalue : s'.mark context = s.mark context := by rw [mark, mark, hid]
  rw [items_eq, items_eq, hplace, hmark, hvalue, if_congr hleaves rfl rfl, List.cons_append,
    List.cons_append]
  exact .cons (.unmarked hid rfl rfl) (Item.KeyedAlike.refl_all _)

namespace Component

/-- Integrations that differ in their texts only come to items that are keyed alike. -/
theorem keyedAlike_itemsOf {n : Nat} {intent intent' : Integration} {more more' : List Item}
    (houtline : intent'.outline = intent.outline)
    (hearlier : earlier'.map (·.id) = earlier.map (·.id))
    (h : itemsOf context component directory n earlier intent = .ok more)
    (h' : itemsOf context component directory n earlier' intent' = .ok more') :
    List.Forall₂ Item.KeyedAlike more more' := by
  cases intent with
  | path p =>
    cases intent' with
    | path p' =>
      cases houtline
      cases h.symm.trans h'
      exact Item.KeyedAlike.refl_all more
    | fileAssociation a' => cases houtline
    | startMenu s' => cases houtline
  | fileAssociation a =>
    cases intent' with
    | path p' => cases houtline
    | fileAssociation a' =>
      simp only [Integration.outline, Integration.fileAssociation.injEq,
        FileAssociation.mk.injEq] at houtline
      exact FileAssociation.keyedAlike_items houtline.1 h h'
    | startMenu s' => cases houtline
  | startMenu s =>
    cases intent' with
    | path p' => cases houtline
    | fileAssociation a' => cases houtline
    | startMenu s' =>
      simp only [Integration.outline, Integration.startMenu.injEq, StartMenuEntry.mk.injEq]
        at houtline
      obtain ⟨hid, -, -, hfolder, -, -, -, hmark⟩ := houtline
      cases h
      cases h'
      exact StartMenuEntry.keyedAlike_items hid hfolder hmark hearlier

/-- Items that are keyed alike are so with those of integrations that differ in their texts only. -/
theorem keyedAlike_itemsFrom {intents intents' : List Integration}
    (hintents : List.Forall₂ (fun x y => y.outline = x.outline) intents intents') :
    ∀ {n : Nat} {earlier earlier' items items' : List Item},
      List.Forall₂ Item.KeyedAlike earlier earlier' →
      Manifest.Component.itemsFrom context component directory n earlier intents = .ok items →
      Manifest.Component.itemsFrom context component directory n earlier' intents' = .ok items' →
      List.Forall₂ Item.KeyedAlike items items' := by
  induction hintents with
  | nil =>
    intro n earlier earlier' items items' hearlier h h'
    cases h
    cases h'
    exact hearlier
  | cons houtline _ ih =>
    intro n earlier earlier' items items' hearlier h h'
    rw [itemsFrom_cons] at h h'
    obtain ⟨more, hmore, hrest⟩ := bind_eq_ok.mp h
    obtain ⟨more', hmore', hrest'⟩ := bind_eq_ok.mp h'
    -- all that an integration sees of the items before it are their ids
    have hkeyed := keyedAlike_itemsOf houtline (Item.KeyedAlike.map_id hearlier) hmore hmore'
    exact ih (List.rel_append hearlier hkeyed) hrest hrest'

end Component
end Generated

/-! ## Components -/

/-- Declarations that say the same of their keys, with items that are keyed alike and integrations that
differ in their texts only. -/
structure Manifest.Component.KeyedAlike (c c' : Manifest.Component) : Prop where
  id : c'.id = c.id
  directory : c'.directory = c.directory
  guid : c'.guid = c.guid
  win64 : c'.win64 = c.win64
  items : List.Forall₂ Item.KeyedAlike c.items c'.items
  integrations : List.Forall₂ (fun x y => y.outline = x.outline) c.integrations c'.integrations

/-- Components that are known by one key, which comes from the same key path. -/
structure Package.Component.SameKey (r r' : Package.Component) : Prop where
  id : r'.id = r.id
  guid : r'.guid = r.guid
  stability : r'.stability = r.stability
  win64 : r'.win64 = r.win64
  keyPath : r'.keyPath = r.keyPath
  keyPathIdentity : r'.keyPathIdentity = r.keyPathIdentity

namespace Component
variable {context : Context} {c c' : Manifest.Component} {r r' : Package.Component}

theorem identity_congr {t : DirectoryTree} {component directory : String} {key key' : Item}
    (hkey : key.KeyedAlike key') (hmarked : key.keyPath = true) :
    identity t component directory key' = identity t component directory key := by
  unfold identity
  rw [hkey.identity hmarked, hkey.id]

/-- Declarations that are keyed alike make components with the same key. -/
theorem sameKey_of_resolves (hkeyed : c.KeyedAlike c') (h : Resolves context c r)
    (h' : Resolves context c' r') : r.SameKey r' := by
  obtain ⟨hid, hdirectory, hguid, hwin64, hitems, hintents⟩ := hkeyed
  have hall := h.items
  have hall' := h'.items
  rw [Manifest.Component.allItems] at hall hall'
  rw [hid, hdirectory] at hall'
  have hkeyed := keyedAlike_itemsFrom hintents hitems hall hall'
  obtain ⟨key, ⟨hone, -⟩, hkeyPath, hidentity⟩ := h.key
  obtain ⟨key', ⟨hone', -⟩, hkeyPath', hidentity'⟩ := h'.key
  have hkey : key.KeyedAlike key' := by
    have hmarked := Item.KeyedAlike.filter_keyPath hkeyed
    rw [hone, hone'] at hmarked
    exact (List.forall₂_cons.mp hmarked).1
  have hmarked : key.keyPath = true :=
    (List.mem_filter.mp (hone ▸ List.mem_singleton_self key)).2
  have hsame : r'.keyPathIdentity = r.keyPathIdentity := by
    rw [hid, hdirectory, identity_congr hkey hmarked, hidentity] at hidentity'
    exact (Except.ok.inj hidentity').symm
  obtain ⟨guid, hstability, hr⟩ := h.stability
  obtain ⟨guid', hstability', hr'⟩ := h'.stability
  rw [hid, hguid, hsame, hstability, Except.ok.injEq, Prod.mk.injEq] at hstability'
  obtain ⟨rfl, horigin⟩ := hstability'
  exact {
    id := by rw [h'.id, h.id, hid]
    guid := hr'.trans hr.symm
    stability := horigin.symm
    win64 := by rw [h'.win64, h.win64, hwin64]
    keyPath := by rw [hkeyPath', hkeyPath, hkey.id]
    keyPathIdentity := hsame }

end Component
end Installer
