import Mathlib.Data.List.Nodup
import Installer.Proofs.Dictionary
import Installer.Proofs.Manifest.Expansion
import Installer.Proofs.Wix.Ending
import Installer.Proofs.Wix.Parts

/-!
# Ids in the source of a package

Icons have ids of their own, and the icon of a shortcut is one of them. The ids of properties come
from three places that know nothing of each other: the install level, the properties that are
declared and the icon of the product. They are different exactly if no declared property has one of
the two names that the source itself gives. Main statement: `compile_ids_distinct`.

Ids are compared as they are written; that the installer tells some names apart by case only is not
looked at.
-/

set_option autoImplicit false

namespace Installer.Wix
open Xml Result
open Element (called)

/-! ## Icons -/

theorem toList_iconId (key : String) : (iconId key).toList = "Icon_".toList ++ key.toList := by
  rw [iconId, String.toList_append]
  rfl

theorem iconId_injective : Function.Injective iconId := by
  intro a b h
  have hchars := congrArg String.toList h
  rw [toList_iconId, toList_iconId] at hchars
  exact String.toList_injective (List.append_cancel_left hchars)

theorem iconId_ne_productIcon (key : String) : iconId key ≠ "ProductIcon" := by
  intro h
  have hchars := congrArg String.toList h
  rw [toList_iconId] at hchars
  exact absurd (List.cons.inj hchars).1 (by decide)

/-- The icon of the product and the variable for it. -/
theorem called_productIcon (assets : Dictionary) :
    ((productIcon assets).flatMap (called "Icon")).map Element.id? =
        (if (assets.get? "icon").isSome then ["ProductIcon"] else []).map some ∧
      ((productIcon assets).flatMap (called "Property")).map Element.id? =
        (if (assets.get? "icon").isSome then ["ARPPRODUCTICON"] else []).map some := by
  rw [productIcon]
  cases assets.get? "icon" with
  | none => exact ⟨rfl, rfl⟩
  | some source => exact ⟨rfl, rfl⟩

/-- The ids of the icons in their order. -/
def iconIds (p : Package) : List String :=
  (if (p.product.assets.get? "icon").isSome then ["ProductIcon"] else []) ++
    (iconSources (itemsOf p.components)).names.map iconId

theorem AreNested.ids_icon {p : Package} {directories features : List Element}
    (h : AreNested p directories features) :
    ((root p directories features).called "Icon").map Element.id? = (iconIds p).map some := by
  have hshortcuts (d : Dictionary) :
      (d.entries.map fun e : String × String => icon (iconId e.1) e.2).map Element.id? =
        (d.names.map iconId).map some := by
    simp only [Dictionary.names, List.map_map]
    rfl
  rw [h.called_icon, iconIds, List.map_append, List.map_append, (called_productIcon _).1,
    ← hshortcuts]
  rfl

theorem nodup_iconIds (p : Package) : (iconIds p).Nodup := by
  refine List.nodup_append.mpr ⟨?_, (Dictionary.nodup_names _).map iconId_injective, ?_⟩
  · split
    · exact List.nodup_singleton _
    · exact List.nodup_nil
  · rintro _ hproduct _ hshortcut rfl
    obtain ⟨key, -, hkey⟩ := List.mem_map.mp hshortcut
    split at hproduct
    · exact iconId_ne_productIcon key (hkey.trans (List.mem_singleton.mp hproduct))
    · exact List.not_mem_nil hproduct

/-- An id among those of the icons is the id of one icon. -/
theorem AreNested.exists_withId {p : Package} {directories features : List Element}
    (h : AreNested p directories features) {id : String} (hid : id ∈ iconIds p) :
    ∃ e, (root p directories features).withId "Icon" id = [e] := by
  have hids : ((root p directories features).called "Icon").filterMap Element.id? = iconIds p := by
    have hmap := congrArg (List.filterMap fun x => x) h.ids_icon
    rw [List.filterMap_map, List.filterMap_map] at hmap
    exact hmap.trans (List.filterMap_some ..)
  obtain ⟨e, he, heid⟩ := List.mem_filterMap.mp (hids ▸ hid)
  exact ⟨e, Element.filter_id?_eq (hids ▸ nodup_iconIds p) he heid⟩

/-! ## Icons of shortcuts -/

theorem lookup_optional (name key : String) (value : Option String) :
    (optional name value).lookup key = if key = name then value else none := by
  cases value with
  | none => simp [optional]
  | some v =>
    by_cases h : key = name
    · simp [optional, h]
    · simp [optional, List.lookup_cons, beq_eq_false_iff_ne.mpr h, h]

/-- A shortcut names its icon. -/
theorem lookup_icon (s : Shortcut) :
    (item (.shortcut s)).attributes.lookup "Icon" = s.icon.map iconId := by
  simp [item, Element.attributes, List.lookup_append, List.lookup_cons, lookup_optional]

/-- The icon of a shortcut, if it is a file of the package, is among the icons. -/
theorem mem_iconSources {items : List Item} {s : Shortcut} (hs : Item.shortcut s ∈ items)
    {key : String} (hicon : s.icon = some key)
    (hfile : key ∈ items.filterMap fun i => i.file?.map (·.id)) :
    key ∈ (iconSources items).names := by
  have hsource : key ∈ (fileSources items).names := by
    rw [fileSources, Dictionary.mem_names_ofList, List.map_filterMap]
    simpa only [Option.map_map, Function.comp_def] using hfile
  obtain ⟨source, hget⟩ := Option.isSome_iff_exists.mp (Dictionary.isSome_get?_iff.mpr hsource)
  have hasked : key ∈ items.filterMap shortcutIcon? := List.mem_filterMap.mpr ⟨_, hs, hicon⟩
  rw [iconSources, Dictionary.mem_names_ofList]
  refine List.mem_map.mpr ⟨(key, source), List.mem_filterMap.mpr ⟨key, hasked, ?_⟩, rfl⟩
  rw [hget, Option.map_some]

/-! ## Properties -/

/-- The ids of the properties in their order. -/
def propertyIds (p : Package) : List String :=
  "INSTALLLEVEL" :: p.product.properties.names ++
    if (p.product.assets.get? "icon").isSome then ["ARPPRODUCTICON"] else []

theorem AreNested.ids_property {p : Package} {directories features : List Element}
    (h : AreNested p directories features) :
    ((root p directories features).called "Property").map Element.id? =
      (propertyIds p).map some := by
  have hdeclared (d : Dictionary) :
      (d.entries.map fun e : String × String => property e.1 e.2).map Element.id? =
        d.names.map some := by
    simp only [Dictionary.names, List.map_map]
    rfl
  rw [h.called_property, propertyIds, List.map_append, List.map_append, (called_productIcon _).2,
    List.map_cons, ← hdeclared]
  rfl

/-- The ids are different if no declared property has one that the source gives. -/
theorem nodup_propertyIds_iff (p : Package) : (propertyIds p).Nodup ↔
    "INSTALLLEVEL" ∉ p.product.properties.names ∧
      ((p.product.assets.get? "icon").isSome → "ARPPRODUCTICON" ∉ p.product.properties.names) := by
  have hdeclared : ("INSTALLLEVEL" :: p.product.properties.names).Nodup ↔
      "INSTALLLEVEL" ∉ p.product.properties.names := by
    rw [List.nodup_cons, and_iff_left (Dictionary.nodup_names _)]
  rw [propertyIds]
  split
  · next hicon =>
    have hother : "ARPPRODUCTICON" ≠ "INSTALLLEVEL" := by decide
    rw [← List.concat_eq_append, List.nodup_concat, hdeclared, List.mem_cons, not_or,
      and_iff_right hother, and_comm, forall_prop_of_true hicon]
  · next hicon =>
    rw [List.append_nil, hdeclared, forall_prop_of_false hicon, and_true]

/-! ## The source of a compiled package -/

/-- The product's icon is in the package exactly if one is injected. -/
theorem isSome_icon_iff {s : Settings} {versionTemplate : String} {i : Injection}
    (h : Injection.ofSettings s versionTemplate = .ok i) :
    (i.packageAssets.get? "icon").isSome ↔ s.icon.isSome := by
  obtain ⟨platform, -, h⟩ := bind_eq_ok.mp h
  obtain ⟨text, -, h⟩ := bind_eq_ok.mp h
  obtain ⟨version, -, h⟩ := bind_eq_ok.mp h
  cases h
  rw [Dictionary.isSome_get?_iff, Injection.packageAssets, Dictionary.mem_names_ofList]
  simp [Settings.assets, Option.isSome_iff_exists]

/-- The elements of a compiled package's source have ids of their own: icons always, and every
shortcut's icon is the id of one of them; properties unless a declared one is called as the one for
the install level, or as the one for the product's icon where an icon is injected. -/
theorem compile_ids_distinct {m : Manifest} {s : Settings} {p : Package}
    (h : m.compile s = .ok p) :
    ∃ e, root? p = some e ∧
      (((e.called "Property").map Element.id?).Nodup ↔
        "INSTALLLEVEL" ∉ m.product.properties.names ∧
          (s.icon.isSome → "ARPPRODUCTICON" ∉ m.product.properties.names)) ∧
      ((e.called "Icon").map Element.id?).Nodup ∧
      ∀ link ∈ e.called "Shortcut", ∀ id ∈ link.attributes.lookup "Icon",
        ∃ icon, e.withId "Icon" id = [icon] := by
  obtain ⟨directories, features, hnested⟩ := exists_root_of_compile h
  obtain ⟨i, expanded, upgradeCode, t, g, hi, hexpanded, hsettles⟩ := Manifest.compile_eq_ok h
  obtain ⟨product, _, _, _, hproduct, -, -, -, rfl⟩ := Manifest.expandWith_eq_ok_iff.mp hexpanded
  have hnames : p.product.properties.names = m.product.properties.names := by
    rw [hsettles.properties]
    exact Manifest.Product.names_of_expandWith hproduct
  refine ⟨_, hnested.root?_eq, ?_, ?_, fun link hlink id hid => ?_⟩
  · rw [hnested.ids_property, List.nodup_map_iff (Option.some_injective _), nodup_propertyIds_iff,
      hnames, hsettles.assets]
    simp only [isSome_icon_iff hi]
  · rw [hnested.ids_icon]
    exact (nodup_iconIds p).map (Option.some_injective _)
  · obtain ⟨c, hc, shortcut, hshortcut, rfl⟩ := hnested.exists_shortcut hlink
    rw [lookup_icon] at hid
    obtain ⟨key, hkey, rfl⟩ := Option.mem_map.mp hid
    obtain ⟨d, -, hresolves⟩ := exists_related hsettles.resolved.1.flip hc
    obtain ⟨-, hicon, -⟩ := hresolves.closed _ hshortcut
    refine hnested.exists_withId (List.mem_append_right _ (List.mem_map_of_mem ?_))
    refine mem_iconSources (List.mem_flatMap.mpr ⟨c, hc, hshortcut⟩) hkey ?_
    have hfile := hsettles.fileKeys_subset (hicon key hkey)
    rwa [Package.fileIds, ← List.filterMap_flatMap] at hfile

/-- A program with a link on the desktop, and one declared property. -/
def linked (property : String) : Manifest where
  product := {
    name := "Acme Editor"
    manufacturer := "Acme Corp"
    upgradeCode := "3F2504E0-4F89-11D3-9A0C-0305E82C3301"
    productCode := "6B29FC40-CA47-1067-B31D-00DD010662DA"
    version := "1.0.0"
    language := 1033
    codepage := 1252
    scope := .perMachine
    installLevel := 1
    upgrade := Manifest.Upgrade.standard
    properties := .ofList [(property, "1")] }
  directories := [⟨"INSTALLFOLDER", "Acme", none, false⟩]
  components := [{
    id := "Main"
    directory := "INSTALLFOLDER"
    guid := "A0EEBC99-9C0B-4EF8-BB6D-6BB9BD380A11"
    win64 := none
    items := [.file ⟨"AcmeExe", "bin/acme.exe", none, true⟩,
      .shortcut ⟨"AcmeLink", "Acme", "AcmeExe", "DesktopFolder", none, some "AcmeExe", none, none,
        false⟩]
    integrations := [] }]
  features := [⟨"Core", "Core", "", 1, false, .expand, ["Main"], []⟩]
  actions := []
  rules := []

/-- With an icon for the product, and a property that is called as none of the source's own. -/
theorem compile_ids_distinct_linked :
    ∃ p e, (linked "EDITORMODE").compile
        ⟨none, "1.0.0", "release", none, some "acme.ico", none, none, none⟩ = .ok p ∧
      root? p = some e ∧ ((e.called "Property").map Element.id?).Nodup ∧
      ((e.called "Icon").map Element.id?).Nodup := by
  have hmade : ((linked "EDITORMODE").compile
      ⟨none, "1.0.0", "release", none, some "acme.ico", none, none, none⟩).isOk = true := by
    decide +kernel
  obtain ⟨p, hp⟩ := exists_of_isOk hmade
  obtain ⟨e, he, hproperties, hicons, -⟩ := compile_ids_distinct hp
  exact ⟨p, e, hp, he, hproperties.mpr ⟨by decide, fun _ => by decide⟩, hicons⟩

/-- A declared property that is called as the one for the install level stands there twice. -/
theorem compile_repeats_property :
    ∃ p e, (linked "INSTALLLEVEL").compile
        ⟨none, "1.0.0", "release", none, none, none, none, none⟩ = .ok p ∧
      root? p = some e ∧ ¬ ((e.called "Property").map Element.id?).Nodup := by
  have hmade : ((linked "INSTALLLEVEL").compile
      ⟨none, "1.0.0", "release", none, none, none, none, none⟩).map propertyIds =
        .ok ["INSTALLLEVEL", "INSTALLLEVEL"] := by
    decide +kernel
  obtain ⟨p, hp, hids⟩ := map_eq_ok.mp hmade
  obtain ⟨directories, features, hnested⟩ := exists_root_of_compile hp
  refine ⟨p, _, hp, hnested.root?_eq, ?_⟩
  rw [hnested.ids_property, hids]
  decide

end Installer.Wix
