import Mathlib.Data.List.Perm.Basic
import Installer.Proofs.Component.Graph
import Installer.Proofs.Directory.Renumbering

/-!
# Components in another order

A component is resolved by what is known of the product and of the directories, whatever order that
is known in (`resolve_congr`). So components in another order are resolved to the same, in that order,
and make a graph exactly as before. Main statement: `exists_make`.

**What it does not establish.** Manifests of which no graph is made have none in another order either,
but the rule that is reported may be another one then.
-/

set_option autoImplicit false

namespace Installer
open Result

/-- One context knows what the other knows. -/
structure Component.Context.Agrees (context context' : Component.Context) : Prop where
  fileKeys : ∀ key, key ∈ context'.product.fileKeys ↔ key ∈ context.product.fileKeys
  product : context'.product = { context.product with fileKeys := context'.product.fileKeys }
  directories : ∀ id, id ∈ context'.directories.ids ↔ id ∈ context.directories.ids
  paths : context'.directories.path? = context.directories.path?
  upgradeCode : context'.upgradeCode = context.upgradeCode
  win64 : context'.win64 = context.win64

namespace Component
variable {context context' : Context} (h : context.Agrees context')

include h

theorem requireFile_congr : requireFile context'.product.fileKeys =
    requireFile context.product.fileKeys := by
  funext owner key
  rw [requireFile, requireFile, contains_congr h.fileKeys]

theorem requireDirectory_congr :
    requireDirectory context'.directories = requireDirectory context.directories := by
  funext owner directory
  have hknown : context'.directories.contains directory = context.directories.contains directory := by
    rw [Bool.eq_iff_iff, DirectoryTree.contains_iff, DirectoryTree.contains_iff, h.directories]
  rw [requireDirectory, requireDirectory, hknown]

/-- Integrations come to the same items. -/
theorem allItems_congr (c : Manifest.Component) :
    c.allItems context'.product = c.allItems context.product := by
  have hone : itemsOf context'.product c.id c.directory =
      itemsOf context.product c.id c.directory := by
    funext n earlier intent
    cases intent with
    | path p => rfl
    | fileAssociation a =>
      rw [itemsOf, itemsOf, FileAssociation.items, FileAssociation.items, requireFile_congr h,
        h.product]
    | startMenu s =>
      rw [itemsOf, itemsOf, h.product]
      rfl
  have hall : ∀ (intents : List Integration) (n : Nat) (earlier : List Item),
      Manifest.Component.itemsFrom context'.product c.id c.directory n earlier intents =
        Manifest.Component.itemsFrom context.product c.id c.directory n earlier intents := by
    intro intents
    induction intents with
    | nil => exact fun _ _ => rfl
    | cons intent rest ih =>
      intro n earlier
      rw [itemsFrom_cons, itemsFrom_cons, hone]
      simp only [ih]
  exact hall c.integrations 0 c.items

theorem resolve_congr : resolve context' = resolve context := by
  have hintegration : checkIntegration context'.directories =
      checkIntegration context.directories := by
    funext owner intent
    cases intent <;> simp only [checkIntegration, requireDirectory_congr h]
  have hitem : checkItem context' = checkItem context := by
    funext owner item
    cases item <;> simp only [checkItem, requireFile_congr h, requireDirectory_congr h]
  have hidentity : identity context'.directories = identity context.directories := by
    funext owner directory key
    rw [identity, identity, h.paths]
  funext c
  simp only [resolve, requireDirectory_congr h, hintegration, allItems_congr h, hitem, hidentity,
    h.upgradeCode, h.win64]

theorem resolves_congr {c : Manifest.Component} {r : Package.Component} :
    Resolves context' c r ↔ Resolves context c r := by
  rw [← resolve_eq_ok_iff, ← resolve_eq_ok_iff, resolve_congr h]

end Component

namespace ComponentGraph

section Used
variable {σ : Nat → Nat} {t t' : DirectoryTree} {components components' : List Package.Component}

/-- A directory that is used is used in the other order as well. -/
theorem mem_usedPositions (h : t.Renumbers σ t') (hperm : components'.Perm components) {p : Nat}
    (hp : p ∈ usedPositions t components) : σ p ∈ usedPositions t' components' := by
  obtain ⟨q, hq, hpq⟩ := List.mem_flatMap.mp hp
  obtain ⟨id, hid, hposition⟩ := List.mem_filterMap.mp hq
  have hused : id ∈ usedDirectories components' := (hperm.flatMap_right _).mem_iff.mpr hid
  refine List.mem_flatMap.mpr ⟨σ q, List.mem_filterMap.mpr ⟨id, hused, ?_⟩, ?_⟩
  · rw [h.position?_eq, hposition, Option.map_some]
  · rw [h.ancestors_eq (DirectoryTree.lt_of_position? hposition), ← List.map_cons]
    exact List.mem_map_of_mem hpq

theorem unused?_eq_none (h : t.Renumbers σ t') (hperm : components'.Perm components)
    {declared declared' : List Manifest.Directory} (hdeclared : declared'.Perm declared)
    (hnone : unused? t components declared = none) : unused? t' components' declared' = none := by
  refine List.find?_eq_none.mpr fun d hd => ?_
  have hkept := List.find?_eq_none.mp hnone d (hdeclared.mem_iff.mp hd)
  rw [h.position?_eq]
  cases hposition : t.position? d.id with
  | none => simp
  | some p =>
    cases hgrouping : d.grouping with
    | true => simp
    | false =>
      have hused : p ∈ usedPositions t components := by
        simpa [hposition, hgrouping] using hkept
      simpa using mem_usedPositions h hperm hused

end Used

/-- Components and directories in another order make the graph of the same components, in their new
order, and of the same features. -/
theorem exists_make {context context' : Component.Context} {σ : Nat → Nat}
    (hagrees : context.Agrees context') (hrenumbers : context.directories.Renumbers σ context'.directories)
    {m : Manifest} {g : ComponentGraph} (h : make context m = .ok g)
    {components : List Manifest.Component} (hcomponents : components.Perm m.components)
    {directories : List Manifest.Directory} (hdirectories : directories.Perm m.directories) :
    ∃ resolved, make context' { m with components, directories } = .ok ⟨resolved, g.features⟩ ∧
      resolved.Perm g.components ∧ resolved.map (·.id) = components.map (·.id) := by
  obtain ⟨hresolved, hlist, hnamed, hunused⟩ := make_eq_ok_iff.mp h
  obtain ⟨hall, hids, hitems⟩ := resolveAll_eq_ok_iff.mp hresolved
  obtain ⟨resolved, hall', hperm⟩ := List.perm_comp_forall₂ hcomponents hall
  refine ⟨resolved, make_eq_ok_iff.mpr ⟨resolveAll_eq_ok_iff.mpr ⟨?_, ?_, ?_⟩, ?_, ?_, ?_⟩, hperm, ?_⟩
  · exact hall'.imp fun _ _ => (Component.resolves_congr hagrees).mpr
  · rw [Distinct.firstTaken?_eq_none_iff] at hids ⊢
    exact ⟨(hcomponents.map _).nodup_iff.mpr hids.1, fun _ _ => List.not_mem_nil⟩
  · rw [Distinct.firstTaken?_eq_none_iff] at hitems ⊢
    exact ⟨(hperm.flatMap_right _).nodup_iff.mpr hitems.1, fun _ _ => List.not_mem_nil⟩
  · rw [Feature.list_congr fun _ => (hperm.map _).mem_iff]
    exact hlist
  · exact fun c hc => hnamed c (hperm.mem_iff.mp hc)
  · exact unused?_eq_none hrenumbers hperm hdirectories hunused
  · exact map_eq_map_of_related hall' fun _ _ hresolves => hresolves.id

end ComponentGraph
end Installer
