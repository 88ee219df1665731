import Installer.Proofs.Manifest.Expansion
import Installer.Proofs.Wix.Ending
import Installer.Proofs.Wix.Parts
import Installer.Proofs.Wix.Source

/-!
# Declared trees in the source of a package

A compilation lists the declared directories and features, and the walk over the package nests them
again. Nothing is lost on the way: every directory has one element, with the elements of the
directories in it for its children (`Houses`), and the elements of features are those of the declared
forest. Main statement: `compile_mirrors`.

The ids that a walk meets are gathered by the walk itself (`gather`). They are those that can be
reached, and where parents are unique none is met twice, so that an element is found by its id.

The elements are those of the root element; that the text of the source is read as this element is
shown for all packages that have one (`AreNested.readDocument_eq`).
-/

set_option autoImplicit false

namespace Installer.Wix
open Xml Relation Result
open Element (called)

/-! ## Directories -/

section Directories
variable {all : List Package.Directory}

/-- The elements of the directories in one. -/
def elementsIn (all : List Package.Directory) (id : String) : List Element :=
  (nest (directoriesIn all) (·.id) directoryElement all.length id).getD []

/-- The element of a directory of a package. -/
def elementOf (all : List Package.Directory) (d : Package.Directory) : Element :=
  directoryElement d (elementsIn all d.id)

theorem children_directoryElement (d : Package.Directory) (inner : List Element) :
    (directoryElement d inner).children = inner := by
  cases inner <;> rfl

theorem attributes_directoryElement (d : Package.Directory) (inner : List Element) :
    (directoryElement d inner).attributes = directoryAttributes d := by
  cases inner <;> rfl

theorem tag_directoryElement (d : Package.Directory) (inner : List Element) :
    (directoryElement d inner).tag = "Directory" := by
  cases inner <;> rfl

theorem id?_directoryElement (d : Package.Directory) (inner : List Element) :
    (directoryElement d inner).id? = some d.id := by
  rw [Element.id?, attributes_directoryElement, directoryAttributes, List.lookup_cons_self]

/-- What stands in a place from which every walk ends are the elements of the directories there. -/
theorem nest_eq_elements {a : String} (hnone : ReachesNoLoop (IsParent all) a) :
    nest (directoriesIn all) (·.id) directoryElement all.length a =
      some ((directoriesIn all a).map (elementOf all)) := by
  rw [← holds_directoriesIn] at hnone
  have heq := nest_eq_map directoryElement (id_mem_of_mem_directoriesIn all) hnone
  rwa [List.length_map] at heq

theorem elementsIn_eq {a : String} (hnone : ReachesNoLoop (IsParent all) a) :
    elementsIn all a = (directoriesIn all a).map (elementOf all) := by
  rw [elementsIn, nest_eq_elements hnone, Option.getD_some]

/-- The ids of the directories in an element. -/
def directoryIds (e : Element) : List String := (e.called "Directory").filterMap Element.id?

theorem directoryIds_directoryElement (d : Package.Directory) (inner : List Element) :
    directoryIds (directoryElement d inner) = gather (·.id) d (inner.map directoryIds) := by
  rw [directoryIds, Element.called_of_tag_eq (tag_directoryElement d inner),
    List.filterMap_cons_some (id?_directoryElement d inner), children_directoryElement, gather,
    List.filterMap_flatMap, List.flatMap_def]
  rfl

/-- Every element of a directory has an id. -/
theorem id?_ne_none {directories : List Element} (h : directories? all = some directories) :
    ∀ e ∈ (targetDirectory directories).called "Directory", e.id? ≠ none := by
  have hinner : ∀ e ∈ directories, ∀ x ∈ e.called "Directory", x.id? ≠ none := by
    refine (nests_directories_iff.mpr h).forall_mem fun d inner hinner => ?_
    rw [Element.called_of_tag_eq (tag_directoryElement d inner), children_directoryElement,
      List.forall_mem_cons, List.forall_mem_flatMap, id?_directoryElement]
    exact ⟨Option.some_ne_none _, hinner⟩
  have htag : (targetDirectory directories).tag = "Directory" := rfl
  rw [Element.called_of_tag_eq htag, List.forall_mem_cons, List.forall_mem_flatMap]
  exact ⟨Option.some_ne_none _, hinner⟩

/-- The elements of directories of a package in a document: one for each directory, directly in it
those of the directories that lie in the directory, in the order of the package, and besides the one
that those without another around them are in. -/
structure Houses (all : List Package.Directory) (document : Element)
    (element : Package.Directory → Element) : Prop where
  once : ∀ d ∈ all, document.withId "Directory" d.id = [element d]
  attributes : ∀ d ∈ all, (element d).attributes = directoryAttributes d
  children : ∀ d ∈ all, (element d).children = (all.filter (·.parent = some d.id)).map element
  top : ∃ e, document.withId "Directory" rootId = [e] ∧
    e.children = (all.filter (·.parent = some rootId)).map element
  only : ∀ e ∈ document.called "Directory", e.id? = some rootId ∨ ∃ d ∈ all, e = element d

/-- The element around all directories is that of the root. -/
theorem directoryIds_targetDirectory (directories : List Element) :
    directoryIds (targetDirectory directories) =
      rootId :: (directories.map directoryIds).flatten := by
  have htag : (targetDirectory directories).tag = "Directory" := rfl
  have hid : (targetDirectory directories).id? = some rootId := rfl
  rw [directoryIds, Element.called_of_tag_eq htag, List.filterMap_cons_some hid, targetDirectory,
    Element.children, List.filterMap_flatMap, List.flatMap_def]
  rfl

namespace IsTree
variable (h : IsTree all) {directories : List Element}

include h

/-- Every directory names its parent. -/
theorem directoriesIn_eq (a : String) :
    directoriesIn all a = all.filter (·.parent = some a) := by
  refine List.filter_congr fun d hd => ?_
  obtain ⟨parent, hparent, -⟩ := h.leads d hd
  simp [hparent]

variable (hall : directories? all = some directories)

include hall

theorem eq_elements : directories = (directoriesIn all rootId).map (elementOf all) := by
  rw [directories?, nest_eq_elements h.reachesNoLoop] at hall
  exact (Option.some.inj hall).symm

omit h in
theorem nests : Nests (directoriesIn all) (·.id) (gather (·.id)) (directoriesIn all rootId)
    (directories.map directoryIds) :=
  (nests_directories_iff.mpr hall).map directoryIds_directoryElement

/-- The walk comes to the root and to every directory. -/
theorem mem_directoryIds_iff {a : String} : a ∈ directoryIds (targetDirectory directories) ↔
    a = rootId ∨ ∃ d ∈ all, d.id = a := by
  rw [directoryIds_targetDirectory, mem_cons_flatten_iff (nests hall), holds_directoriesIn]
  constructor
  · intro ha
    rcases ha.cases_tail with rfl | ⟨b, -, d, hd, -, rfl⟩
    · exact .inl rfl
    · exact .inr ⟨d, hd, rfl⟩
  · rintro (rfl | ⟨d, hd, rfl⟩)
    · exact .refl
    · exact reached (h.leads_id hd)

/-- The walk comes to nothing twice. -/
theorem nodup_directoryIds : (directoryIds (targetDirectory directories)).Nodup := by
  have hnone := h.reachesNoLoop
  rw [← holds_directoriesIn] at hnone
  have hids := (List.nodup_cons.mp h.ids).2
  rw [directoryIds_targetDirectory]
  refine List.nodup_cons.mpr ⟨not_mem_flatten (nests hall) hnone, ?_⟩
  refine nodup_flatten (nests hall) ?_ (fun a => ?_) hnone (List.Subset.refl _) ?_
  · rw [holds_directoriesIn]
    exact h.parent_unique
  · exact hids.sublist (List.filter_sublist.map _)
  · exact hids.sublist (List.filter_sublist.map _)

/-- Every directory in a place that the walk comes to has its element in the document. -/
theorem elementOf_mem {a : String} (ha : ReflTransGen (IsParent all) rootId a) :
    ∀ d ∈ directoriesIn all a, elementOf all d ∈ (targetDirectory directories).called "Directory" := by
  induction ha with
  | refl =>
    intro d hd
    refine Element.mem_called_of_child (Element.mem_all_self _) ?_ (tag_directoryElement d _)
    rw [targetDirectory, Element.children, h.eq_elements hall]
    exact List.mem_map_of_mem hd
  | @tail a b ha hab ih =>
    intro d hd
    obtain ⟨outer, houter, hparent, rfl⟩ := hab
    have hmem := ih outer (List.mem_filter.mpr ⟨houter, by simpa using hparent⟩)
    refine Element.mem_called_of_child (List.mem_of_mem_filter hmem) ?_ (tag_directoryElement d _)
    rw [elementOf, children_directoryElement, elementsIn_eq (h.reachesNoLoop_id houter)]
    exact List.mem_map_of_mem hd

/-- In a document with these directories and no others every directory has its place. -/
theorem houses {document : Element}
    (hcalled : document.called "Directory" = (targetDirectory directories).called "Directory") :
    Houses all document (elementOf all) := by
  have hwithId (e : Element) (he : e ∈ (targetDirectory directories).called "Directory")
      (id : String) (hid : e.id? = some id) : document.withId "Directory" id = [e] := by
    rw [Element.withId, hcalled]
    exact Element.filter_id?_eq (h.nodup_directoryIds hall) he hid
  have hmem (d : Package.Directory) (hd : d ∈ all) :
      elementOf all d ∈ (targetDirectory directories).called "Directory" := by
    obtain ⟨parent, hparent, hleads⟩ := h.leads d hd
    exact h.elementOf_mem hall (reached hleads) d
      (List.mem_filter.mpr ⟨hd, by simp [hparent]⟩)
  constructor
  case once => exact fun d hd => hwithId _ (hmem d hd) d.id (id?_directoryElement d _)
  case attributes => exact fun d _ => attributes_directoryElement d _
  case children =>
    intro d hd
    rw [elementOf, children_directoryElement, elementsIn_eq (h.reachesNoLoop_id hd),
      h.directoriesIn_eq]
  case top =>
    refine ⟨targetDirectory directories, hwithId _ (Element.mem_called_self rfl) rootId rfl, ?_⟩
    rw [targetDirectory, Element.children, ← h.directoriesIn_eq]
    exact h.eq_elements hall
  case only =>
    intro e he
    rw [hcalled] at he
    obtain ⟨id, hid⟩ := Option.ne_none_iff_exists'.mp (id?_ne_none hall e he)
    rcases (h.mem_directoryIds_iff hall).mp (List.mem_filterMap.mpr ⟨e, he, hid⟩) with
      rfl | ⟨d, hd, rfl⟩
    · exact .inl hid
    · have honly := hwithId _ (hmem d hd) d.id (id?_directoryElement d _)
      rw [hwithId e he d.id hid, List.singleton_inj] at honly
      exact .inr ⟨d, hd, honly⟩

end IsTree

end Directories

/-! ## Features -/

mutual
/-- The element of a declared feature: its own attributes, a reference for each of its components in
their order, and after them the elements of the features declared in it. -/
def declared : Manifest.Feature → Element
  | ⟨id, title, description, level, allowAbsent, display, components, children⟩ =>
    .node "Feature"
      ([("Id", id), ("Title", title)] ++
        optional "Description" (if description.isEmpty then none else some description) ++
        [("Level", Text.decimal level.toNat), ("AllowAbsent", yesNo allowAbsent),
          ("Display", Keyword.spelling display)])
      (components.map (fun c => .leaf "ComponentRef" [("Id", c)]) ++ declaredAll children)
/-- The elements of declared features in their order. -/
def declaredAll : List Manifest.Feature → List Element
  | [] => []
  | f :: rest => declared f :: declaredAll rest
end

theorem declaredAll_eq (fs : List Manifest.Feature) : declaredAll fs = fs.map declared := by
  induction fs with
  | nil => rfl
  | cons f rest ih => rw [declaredAll, ih, List.map_cons]

section Features
open Feature (listOne listAll asDeclared)

variable {installLevel : UInt16}

theorem declared_asDeclared (f : Package.Feature) (inner : List Manifest.Feature) :
    declared (asDeclared f inner) = featureElement f (inner.map declared) := by
  rw [asDeclared, declared, declaredAll_eq]
  rfl

mutual
/-- The ids of the feature elements in the element of a feature are those of its listing. -/
theorem ids_declared (outer : Option String) (byDefault : Bool) : ∀ f : Manifest.Feature,
    ((declared f).called "Feature").map Element.id? =
      ((listOne installLevel outer byDefault f).map (·.id)).map some
  | ⟨id, title, description, level, allowAbsent, display, components, children⟩ => by
    have hreferences (cs : List String) :
        (cs.map fun c => Element.leaf "ComponentRef" [("Id", c)]).flatMap (called "Feature") = [] := by
      have hmade : ∀ e ∈ cs.map fun c => Element.leaf "ComponentRef" [("Id", c)],
          e.IsMadeOf ["ComponentRef"] :=
        List.forall_mem_map.mpr fun c _ => Element.isMadeOf_leaf List.mem_cons_self
      exact Element.flatMap_called_eq_nil hmade (by decide)
    rw [declared, Element.called_node, List.flatMap_append, hreferences, List.nil_append,
      List.map_cons, ids_declaredAll (some id) _ children, listOne]
    rfl
theorem ids_declaredAll (outer : Option String) (byDefault : Bool) : ∀ fs : List Manifest.Feature,
    ((declaredAll fs).flatMap (called "Feature")).map Element.id? =
      ((listAll installLevel outer byDefault fs).map (·.id)).map some
  | [] => by
    rw [declaredAll, listAll]
    rfl
  | f :: rest => by
    rw [declaredAll, listAll, List.flatMap_cons, List.map_append, List.map_append, List.map_append,
      ids_declared outer byDefault f, ids_declaredAll outer byDefault rest]
end

/-- The walk over a listing makes the elements of the forest. -/
theorem features?_of_list {known : List String} {forest : List Manifest.Feature}
    {listing : List Package.Feature}
    (h : Feature.list installLevel known forest = .ok listing) :
    features? listing = some (forest.map declared) :=
  nests_features_iff.mp ((Feature.nests_of_list h).map declared_asDeclared)

end Features

/-! ## The source of a compiled package -/

/-- The element that the walk over a package makes has the trees that a manifest declares. -/
structure Mirrors (m : Manifest) (p : Package) (e : Element) : Prop where
  /-- The walk over the package comes to its end. -/
  ends : Walks p e
  /-- The package has the standard folders first and then the declared directories. -/
  order : p.directories.map (·.id) =
    (DirectoryTree.standardFolders p.product.platform.programFiles).map (·.id) ++
      m.directories.map (·.id)
  directories : ∃ element, Houses p.directories e element
  /-- Directly in the product stand the elements of the declared forest. -/
  forest : ∃ product, e.children = [product] ∧
    product.children.filter (·.tag = "Feature") = m.features.map declared
  /-- Features stand nowhere else. -/
  only : e.called "Feature" = (m.features.map declared).flatMap (called "Feature")
  /-- No feature stands twice. -/
  once : ((e.called "Feature").map Element.id?).Nodup

/-- A compiled package has a source, whose root element has the declared trees. -/
theorem compile_mirrors {m : Manifest} {s : Settings} {p : Package} (h : m.compile s = .ok p) :
    ∃ e, root? p = some e ∧ Mirrors m p e := by
  obtain ⟨directories, features, hnested⟩ := exists_root_of_compile h
  obtain ⟨i, expanded, upgradeCode, t, g, -, hexpanded, hsettles⟩ := Manifest.compile_eq_ok h
  obtain ⟨_, _, _, _, -, hdirectories, -, -, rfl⟩ := Manifest.expandWith_eq_ok_iff.mp hexpanded
  obtain ⟨-, hlist, -, -⟩ := ComponentGraph.make_eq_ok_iff.mp hsettles.graph
  rw [← hsettles.features] at hlist
  obtain rfl : features = m.features.map declared :=
    Option.some.inj (hnested.features.symm.trans (features?_of_list hlist))
  refine ⟨_, hnested.root?_eq, ?_⟩
  constructor
  case ends => exact walks_iff.mpr hnested.root?_eq
  case order =>
    rw [hsettles.directories, hsettles.platform, DirectoryTree.ids_of_listing hsettles.tree,
      map_eq_map_of_related hdirectories fun _ _ => Manifest.Directory.id_of_expandWith]
  case directories =>
    exact ⟨_, (isTree_of_compile h).houses hnested.directories hnested.called_directory⟩
  case forest => exact ⟨_, rfl, hnested.filter_contents_feature⟩
  case only => exact hnested.called_feature
  case once =>
    obtain ⟨hlisting, hwhole⟩ := Feature.isWhole_of_list hlist
    rw [hnested.called_feature, ← declaredAll_eq, ids_declaredAll none true, ← hlisting]
    exact hwhole.nodup.map (Option.some_injective _)

/-- A directory that is declared before the one it lies in, and features three deep, of which one
refers to a component twice. -/
def branches : Manifest where
  product := {
    name := "Acme"
    manufacturer := "Acme"
    upgradeCode := "3F2504E0-4F89-11D3-9A0C-0305E82C3301"
    productCode := "6B29FC40-CA47-1067-B31D-00DD010662DA"
    version := "1.0.0"
    language := 1033
    codepage := 1252
    scope := .perMachine
    installLevel := 1
    upgrade := Manifest.Upgrade.standard
    properties := .ofList [] }
  directories := [⟨"Plugins", "plugins", some "App", false⟩, ⟨"App", "Acme", none, false⟩,
    ⟨"Docs", "docs", some "App", true⟩]
  components := [{
    id := "Main"
    directory := "Plugins"
    guid := "A0EEBC99-9C0B-4EF8-BB6D-6BB9BD380A11"
    win64 := none
    items := [.file ⟨"AcmeExe", "bin/acme.exe", none, true⟩]
    integrations := [] }]
  features := [
    ⟨"Core", "Core", "", 1, false, .collapse, ["Main"], [
      ⟨"Editor", "Editor", "Edits", 1, true, .expand, ["Main", "Main"], [
        ⟨"Themes", "Themes", "", 1, true, .hidden, [], []⟩]⟩,
      ⟨"Viewer", "Viewer", "", 1, true, .expand, [], []⟩]⟩,
    ⟨"Extras", "Extras", "", 3, true, .collapse, ["Main"], []⟩]
  actions := []
  rules := []

theorem compile_mirrors_branches :
    ∃ p e, branches.compile ⟨none, "1.0.0", "release", none, none, none, none, none⟩ = .ok p ∧
      root? p = some e ∧ Mirrors branches p e := by
  have hmade : (branches.compile
      ⟨none, "1.0.0", "release", none, none, none, none, none⟩).isOk = true := by
    decide +kernel
  obtain ⟨p, hp⟩ := exists_of_isOk hmade
  obtain ⟨e, he, hmirrors⟩ := compile_mirrors hp
  exact ⟨p, e, hp, he, hmirrors⟩

end Installer.Wix
