import Installer.Proofs.Wix.Nesting
import Installer.Proofs.Xml.Reading
import Installer.Wix.Source

/-!
# The source of a package gives back the elements that were put into it

Whatever the strings of a package are, its source is the declaration and one tree of elements, and
reading it gives the root element with every attribute and every condition as the package has them:
no string ends a value, a text or a tag. Main statement: `readDocument_source`.

An element can be read back if its name and the names of its attributes are known ones
(`Element.IsPlain`), and this is all that is asked of the elements of a source, part by part; what
their strings are plays no part.

A package has a source only if the walk over it ends. Compiled packages have one; a package that was
written by hand may not, though its directories are in order (`no_source_circled`). What else reads a
source is not described: `readDocument` takes what `document` writes and need not take other XML.
-/

set_option autoImplicit false

namespace Installer.Wix
open Xml

/-- Only a step of the sequence holds a text, its condition. -/
def holdsText (name : String) : Bool := name == "Custom"

/-! ## Every element can be read back -/

/-- The names of the attributes. -/
def namesOf (attributes : List Attribute) : List String := attributes.map (·.1)

theorem namesOf_optional (name : String) (value : Option String) :
    (namesOf (optional name value)).Sublist [name] := by
  cases value with
  | none => exact List.nil_sublist [name]
  | some v => exact List.Sublist.refl [name]

theorem namesOf_append (front rest : List Attribute) :
    namesOf (front ++ rest) = namesOf front ++ namesOf rest := List.map_append

/-- An element whose attributes are among those that elements of its name have. -/
theorem isPlain_leaf {name : String} {attributes : List Attribute} (all : List String)
    (h : IsTag name all) (hsub : (namesOf attributes).Sublist all) :
    (Element.leaf name attributes).IsPlain holdsText :=
  .leaf (h.sublist hsub)

theorem isPlain_item (i : Item) : (item i).IsPlain holdsText := by
  cases i with
  | file f =>
    refine isPlain_leaf ["Id", "Source", "Name", "KeyPath"] (by decide) ?_
    simp only [namesOf_append]
    exact ((List.Sublist.refl _).append (namesOf_optional _ _)).append (List.Sublist.refl _)
  | registry r =>
    refine isPlain_leaf ["Id", "Root", "Key", "Name", "Type", "Value", "KeyPath"] (by decide) ?_
    simp only [namesOf_append]
    exact ((List.Sublist.refl _).append (namesOf_optional _ _)).append (List.Sublist.refl _)
  | environment e =>
    exact isPlain_leaf ["Id", "Name", "Value", "Part", "Action", "Permanent", "System"] (by decide)
      (List.Sublist.refl _)
  | shortcut s =>
    refine isPlain_leaf ["Id", "Name", "Target", "Directory", "WorkingDirectory", "Icon",
      "Description", "Arguments"] (by decide) ?_
    simp only [namesOf_append]
    exact ((((List.Sublist.refl _).append (namesOf_optional _ _)).append
      (namesOf_optional _ _)).append (namesOf_optional _ _)).append (namesOf_optional _ _)
  | removeFolder r =>
    exact isPlain_leaf ["Id", "Directory", "On"] (by decide) (List.Sublist.refl _)

theorem isPlain_component (c : Package.Component) : (component c).IsPlain holdsText := by
  have hinner : (Element.node "Component" [("Id", c.id), ("Guid", c.guid), ("Win64", yesNo c.win64)]
      (c.items.map item)).IsPlain holdsText :=
    .node (show IsTag "Component" ["Id", "Guid", "Win64"] by decide) rfl
      (List.forall_mem_map.mpr fun i _ => isPlain_item i)
  exact .node (show IsTag "DirectoryRef" ["Id"] by decide) rfl (List.forall_mem_singleton.mpr hinner)

theorem isTag_directory (d : Package.Directory) :
    IsTag "Directory" (namesOf (directoryAttributes d)) := by
  have hall : IsTag "Directory" ["Id", "Name"] := by decide
  refine hall.sublist ?_
  rw [directoryAttributes]
  split
  · exact (List.nil_sublist ["Name"]).cons_cons "Id"
  · exact List.Sublist.refl _

theorem isPlain_directories {all : List Package.Directory} {directories : List Element}
    (h : directories? all = some directories) : ∀ e ∈ directories, e.IsPlain holdsText := by
  refine (nests_directories_iff.mpr h).forall_mem fun d inner hinner => ?_
  cases inner with
  | nil => exact .leaf (isTag_directory d)
  | cons e inner => exact .node (isTag_directory d) rfl hinner

theorem isTag_feature (f : Package.Feature) : IsTag "Feature" (namesOf (featureAttributes f)) := by
  have hall : IsTag "Feature" ["Id", "Title", "Description", "Level", "AllowAbsent", "Display"] := by
    decide
  refine hall.sublist ?_
  simp only [featureAttributes, namesOf_append]
  exact ((List.Sublist.refl _).append (namesOf_optional _ _)).append (List.Sublist.refl _)

theorem isPlain_features {all : List Package.Feature} {features : List Element}
    (h : features? all = some features) : ∀ e ∈ features, e.IsPlain holdsText := by
  refine (nests_features_iff.mpr h).forall_mem fun f inner hinner => ?_
  refine .node (isTag_feature f) rfl (List.forall_mem_append.mpr ⟨?_, hinner⟩)
  exact List.forall_mem_map.mpr fun c _ =>
    isPlain_leaf ["Id"] (by decide) (List.Sublist.refl _)

theorem isPlain_property (id value : String) : (property id value).IsPlain holdsText :=
  isPlain_leaf ["Id", "Value"] (by decide) (List.Sublist.refl _)

theorem isPlain_icon (id source : String) : (icon id source).IsPlain holdsText :=
  isPlain_leaf ["Id", "SourceFile"] (by decide) (List.Sublist.refl _)

theorem isPlain_heading (p : Package.Product) : ∀ e ∈ heading p, e.IsPlain holdsText := by
  have hpackage : IsTag "Package" ["InstallerVersion", "Compressed", "InstallScope", "Platform"] := by
    decide
  have hupgrade : IsTag "MajorUpgrade"
      ["AllowDowngrades", "AllowSameVersionUpgrades", "DowngradeErrorMessage"] := by
    decide
  have hmedia : IsTag "MediaTemplate" ["EmbedCab"] := by decide
  rw [heading, List.forall_mem_cons, List.forall_mem_cons, List.forall_mem_singleton]
  exact ⟨.leaf hpackage, .leaf hupgrade, .leaf hmedia⟩

theorem isPlain_properties (p : Package.Product) : ∀ e ∈ properties p, e.IsPlain holdsText :=
  List.forall_mem_cons.mpr ⟨isPlain_property _ _,
    List.forall_mem_map.mpr fun _ _ => isPlain_property _ _⟩

theorem isPlain_productIcon (assets : Dictionary) :
    ∀ e ∈ productIcon assets, e.IsPlain holdsText := by
  rw [productIcon]
  cases assets.get? "icon" with
  | none => exact fun e he => absurd he List.not_mem_nil
  | some source =>
    exact List.forall_mem_cons.mpr
      ⟨isPlain_icon _ _, List.forall_mem_singleton.mpr (isPlain_property _ _)⟩

theorem isPlain_shortcutIcons (items : List Item) :
    ∀ e ∈ shortcutIcons items, e.IsPlain holdsText :=
  List.forall_mem_map.mpr fun _ _ => isPlain_icon _ _

theorem isPlain_interfaceVariables (assets : Dictionary) :
    ∀ e ∈ interfaceVariables assets, e.IsPlain holdsText := by
  intro e he
  obtain ⟨_, -, he⟩ := List.mem_flatMap.mp he
  obtain ⟨_, -, rfl⟩ := List.mem_map.mp he
  exact isPlain_leaf ["Id", "Value"] (by decide) (List.Sublist.refl _)

theorem isPlain_customAction (a : Schedule.Action) : (customAction a).IsPlain holdsText :=
  isPlain_leaf ["Id", "FileKey", "ExeCommand", "Execute", "Impersonate", "Return"] (by decide)
    (List.Sublist.refl _)

theorem isPlain_custom (previous : Option String) (s : Step) :
    (custom previous s).IsPlain holdsText := by
  have htag : IsTag "Custom" (namesOf [("Action", s.name), place previous s]) := by
    cases previous with
    | none => exact show IsTag "Custom" ["Action", "Sequence"] by decide
    | some name => exact show IsTag "Custom" ["Action", "After"] by decide
  rw [custom]
  cases s.condition with
  | none => exact .leaf htag
  | some condition => exact .text condition htag rfl

theorem isPlain_sequence (p : Package) : ∀ e ∈ sequence p, e.IsPlain holdsText := by
  rw [sequence]
  split
  · exact fun e he => absurd he List.not_mem_nil
  · refine List.forall_mem_singleton.mpr ?_
    exact .node (show IsTag "InstallExecuteSequence" [] by decide) rfl
      (forall_mem_customsAfter isPlain_custom none p.steps)

section
variable {p : Package} {directories features : List Element}

theorem AreNested.isPlain_contents (h : AreNested p directories features) :
    ∀ e ∈ contents p directories features, e.IsPlain holdsText := by
  have hroot : IsTag "Directory" ["Id", "Name"] := by decide
  simp only [contents, List.forall_mem_append, List.forall_mem_cons, List.append_assoc,
    List.cons_append]
  exact ⟨isPlain_heading p.product, isPlain_properties p.product, isPlain_productIcon _,
    isPlain_shortcutIcons _, isPlain_interfaceVariables _,
    .node hroot rfl (isPlain_directories h.directories),
    List.forall_mem_map.mpr fun c _ => isPlain_component c, isPlain_features h.features,
    List.forall_mem_map.mpr fun a _ => isPlain_customAction a, isPlain_sequence p⟩

theorem AreNested.isPlain_root (h : AreNested p directories features) :
    (root p directories features).IsPlain holdsText := by
  have hproduct : IsTag "Product"
      ["Id", "Name", "Language", "Codepage", "Version", "Manufacturer", "UpgradeCode"] := by
    decide
  refine .node (show IsTag "Wix" ["xmlns"] by decide) rfl (List.forall_mem_singleton.mpr ?_)
  exact .node hproduct rfl h.isPlain_contents

/-- The text of a package's source is read as the root element. -/
theorem AreNested.readDocument_eq (h : AreNested p directories features) :
    ∃ text, source? p = some text ∧
      readDocument holdsText text = some (root p directories features) :=
  ⟨_, by rw [source?, h.root?_eq, Option.map_some], readDocument_document h.isPlain_root⟩

end

/-! ## The walk over a package -/

/-- The element tree that the walk over a package makes: the parts of the package in their order,
and in their places the directories and the features with all that lies in them, however deep. -/
def Walks (p : Package) (e : Element) : Prop :=
  ∃ directories features : List Element,
    Nests (directoriesIn p.directories) (·.id) directoryElement
      (directoriesIn p.directories rootId) directories ∧
    Nests (featuresIn p.features) (fun f => some f.id) featureElement
      (featuresIn p.features none) features ∧
    e = .node "Wix" [("xmlns", xmlNamespace)] [.node "Product" (productAttributes p.product)
      (heading p.product ++ properties p.product ++ productIcon p.product.assets ++
        shortcutIcons (itemsOf p.components) ++ interfaceVariables p.product.assets ++
        .node "Directory" [("Id", rootId), ("Name", "SourceDir")] directories ::
          p.components.map component ++ features ++ p.actions.map customAction ++ sequence p)]

theorem walks_iff {p : Package} {e : Element} : Walks p e ↔ root? p = some e := by
  simp only [Walks, nests_directories_iff, nests_features_iff, root?_eq_some_iff]
  constructor
  · rintro ⟨directories, features, hdirectories, hfeatures, rfl⟩
    exact ⟨directories, features, ⟨hdirectories, hfeatures⟩, rfl⟩
  · rintro ⟨directories, features, h, rfl⟩
    exact ⟨directories, features, h.directories, h.features, rfl⟩

/-- Take a package whose directories lie in no loop that the root leads to. If its features lie in
none either, it has a source: the declaration and one tree of elements. Reading that undoes the
writing, whatever the strings are: it gives the one element tree that the walk over the package
makes. If the features lead into a loop, that walk does not end, and there is no source. -/
theorem readDocument_source (p : Package)
    (h : ReachesNoLoop (IsParent p.directories) rootId) :
    (ReachesNoLoop (IsParentFeature p.features) none →
      ∃ text e, source? p = some text ∧ readDocument holdsText text = some e ∧
        ∀ x, Walks p x ↔ x = e) ∧
    (¬ ReachesNoLoop (IsParentFeature p.features) none →
      source? p = none ∧ ∀ e, ¬ Walks p e) := by
  refine ⟨fun hfeatures => ?_, fun hloop => ?_⟩
  · obtain ⟨e, he⟩ := exists_root_iff.mpr ⟨h, hfeatures⟩
    obtain ⟨directories, features, hnested, rfl⟩ := root?_eq_some_iff.mp he
    obtain ⟨text, htext, hread⟩ := hnested.readDocument_eq
    refine ⟨text, _, htext, hread, fun x => ?_⟩
    rw [walks_iff, he, Option.some_inj, eq_comm]
  · have hnone : root? p = none := by
      rw [Option.eq_none_iff_forall_ne_some]
      exact fun e he => hloop (exists_root_iff.mp ⟨e, he⟩).2
    refine ⟨by rw [source?, hnone, Option.map_none], fun e hwalks => ?_⟩
    rw [walks_iff, hnone] at hwalks
    cases hwalks

/-- Characters that have a meaning of their own in a source. -/
def markup : String := "</Wix> <!-- & &lt; ]]> -->\"\x27/>\n"

/-- A package with markup for its strings. Two of its directories lie in each other, but in nothing
that the root leads to. -/
def markedUp : Package where
  formatVersion := Package.currentFormat
  product := {
    name := markup
    manufacturer := markup
    upgradeCode := markup
    productCode := markup
    version := markup
    platform := .x64
    win64 := true
    programFiles := markup
    language := 1033
    codepage := 1252
    scope := .perMachine
    installLevel := 1
    upgrade := ⟨false, false, markup⟩
    properties := .ofList [(markup, markup)]
    assets := .ofList [("icon", markup), ("banner", markup)] }
  recorded := []
  directories := [
    ⟨"ProgramFiles64Folder", markup, none, true, markup⟩,
    ⟨"App", markup, some "ProgramFiles64Folder", false, markup⟩,
    ⟨markup, markup, some "App", false, markup⟩,
    ⟨"Hither", markup, some "Thither", false, markup⟩,
    ⟨"Thither", markup, some "Hither", false, markup⟩]
  components := [
    ⟨markup, "App", markup, .auto, true, markup, markup,
      [.file ⟨markup, markup, some markup, true⟩,
        .shortcut ⟨markup, markup, markup, "App", none, some markup, some markup, none, false⟩]⟩]
  features := [
    ⟨"Core", markup, markup, none, 1, false, .expand, [markup], true⟩,
    ⟨markup, markup, "", some "Core", 1, true, .collapse, [], true⟩]
  defaultFeatures := []
  defaultComponents := []
  actions := [⟨markup, markup, .deferred, true, .check, markup⟩]
  steps := [
    ⟨"InstallInitialize", .phase, 1500, none⟩,
    ⟨markup, .action, 1501, some "A<>B AND \"</Custom>\" <> C"⟩]

theorem readDocument_source_markedUp :
    ReachesNoLoop (IsParent markedUp.directories) rootId ∧
      ReachesNoLoop (IsParentFeature markedUp.features) none ∧
      ∃ text e, source? markedUp = some text ∧ readDocument holdsText text = some e ∧
        Walks markedUp e := by
  have hdirectories : ReachesNoLoop (IsParent markedUp.directories) rootId :=
    exists_directories_iff.mp ⟨_, rfl⟩
  have hfeatures : ReachesNoLoop (IsParentFeature markedUp.features) none :=
    exists_features_iff.mp ⟨_, rfl⟩
  obtain ⟨text, e, htext, hread, hwalk⟩ := (readDocument_source markedUp hdirectories).1 hfeatures
  exact ⟨hdirectories, hfeatures, text, e, htext, hread, (hwalk e).mpr rfl⟩

/-- A package with one feature in no other, and one of the same id in that. -/
def circled : Package :=
  { markedUp with
    features := [
      ⟨"Core", markup, markup, none, 1, false, .expand, [markup], true⟩,
      ⟨"Core", markup, markup, some "Core", 1, true, .collapse, [], true⟩] }

/-- The walk into its features does not end, though the directories lead into no loop. -/
theorem no_source_circled :
    ReachesNoLoop (IsParent circled.directories) rootId ∧ source? circled = none ∧
      ∀ e, ¬ Walks circled e := by
  have hnone : root? circled = none := rfl
  refine ⟨exists_directories_iff.mp ⟨_, rfl⟩, by rw [source?, hnone, Option.map_none], ?_⟩
  intro e hwalks
  rw [walks_iff, hnone] at hwalks
  cases hwalks

end Installer.Wix
