import Installer.Proofs.Wix.Nesting
import Installer.Proofs.Xml.Elements
import Installer.Wix.Source

/-!
# The parts of a source

What stands in the product element comes in parts, and a part has elements of its own names only. So
the elements of a name are found in the parts that have it (`called_root`).

**What it does not establish.** The elements of directories and features are taken as the walks over
them made them. That these walks end is not shown here; for compiled packages they do
(`exists_root_of_compile`).
-/

set_option autoImplicit false

namespace Installer.Wix
open Xml
open Element (called IsMadeOf isMadeOf_iff isMadeOf_leaf isMadeOf_text)

/-- The names of the elements of a component. -/
def componentNames : List String :=
  ["DirectoryRef", "Component", "File", "RegistryValue", "Environment", "Shortcut", "RemoveFolder"]

/-- What stands in the product element, part by part, each with the names of its elements. -/
def parts (p : Package) (directories features : List Element) :
    List (List String × List Element) := [
  (["Package", "MajorUpgrade", "MediaTemplate"], heading p.product),
  (["Property"], properties p.product),
  (["Icon", "Property"], productIcon p.product.assets),
  (["Icon"], shortcutIcons (itemsOf p.components)),
  (["WixVariable"], interfaceVariables p.product.assets),
  (["Directory"], [targetDirectory directories]),
  (componentNames, p.components.map component),
  (["Feature", "ComponentRef"], features),
  (["CustomAction"], p.actions.map customAction),
  (["InstallExecuteSequence", "Custom"], sequence p)]

theorem contents_eq (p : Package) (directories features : List Element) :
    contents p directories features = (parts p directories features).flatMap (·.2) := by
  simp [contents, parts]

/-! ## The names in each part -/

theorem isMadeOf_component (c : Package.Component) : (component c).IsMadeOf componentNames := by
  refine isMadeOf_iff.mpr ⟨List.mem_cons_self, List.forall_mem_singleton.mpr ?_⟩
  refine isMadeOf_iff.mpr ⟨show "Component" ∈ componentNames by decide, ?_⟩
  refine List.forall_mem_map.mpr fun i _ => ?_
  cases i <;> exact isMadeOf_leaf (by decide)

theorem isMadeOf_targetDirectory {all : List Package.Directory} {directories : List Element}
    (h : directories? all = some directories) :
    (targetDirectory directories).IsMadeOf ["Directory"] := by
  refine isMadeOf_iff.mpr ⟨List.mem_singleton_self _, ?_⟩
  refine (nests_directories_iff.mpr h).forall_mem fun d inner hinner => ?_
  cases inner with
  | nil => exact isMadeOf_leaf (List.mem_singleton_self _)
  | cons e inner => exact isMadeOf_iff.mpr ⟨List.mem_singleton_self _, hinner⟩

theorem isMadeOf_features {all : List Package.Feature} {features : List Element}
    (h : features? all = some features) :
    ∀ e ∈ features, e.IsMadeOf ["Feature", "ComponentRef"] := by
  refine (nests_features_iff.mpr h).forall_mem fun f inner hinner => ?_
  refine isMadeOf_iff.mpr ⟨List.mem_cons_self, List.forall_mem_append.mpr ⟨?_, hinner⟩⟩
  exact List.forall_mem_map.mpr fun c _ => isMadeOf_leaf (by decide)

theorem isMadeOf_custom (previous : Option String) (s : Step) :
    (custom previous s).IsMadeOf ["InstallExecuteSequence", "Custom"] := by
  rw [custom]
  cases s.condition with
  | none => exact isMadeOf_leaf (by decide)
  | some condition => exact isMadeOf_text (by decide)

theorem isMadeOf_sequence (p : Package) :
    ∀ e ∈ sequence p, e.IsMadeOf ["InstallExecuteSequence", "Custom"] := by
  rw [sequence]
  split
  · exact fun e he => absurd he List.not_mem_nil
  · exact List.forall_mem_singleton.mpr
      (isMadeOf_iff.mpr ⟨List.mem_cons_self, forall_mem_customsAfter isMadeOf_custom none p.steps⟩)

theorem isMadeOf_productIcon (assets : Dictionary) :
    ∀ e ∈ productIcon assets, e.IsMadeOf ["Icon", "Property"] := by
  rw [productIcon]
  cases assets.get? "icon" with
  | none => exact fun e he => absurd he List.not_mem_nil
  | some source =>
    exact List.forall_mem_cons.mpr ⟨isMadeOf_leaf (by decide),
      List.forall_mem_singleton.mpr (isMadeOf_leaf (by decide))⟩

theorem isMadeOf_interfaceVariables (assets : Dictionary) :
    ∀ e ∈ interfaceVariables assets, e.IsMadeOf ["WixVariable"] := by
  intro e he
  obtain ⟨_, -, he⟩ := List.mem_flatMap.mp he
  obtain ⟨_, -, rfl⟩ := List.mem_map.mp he
  exact isMadeOf_leaf (by decide)

theorem isMadeOf_heading (p : Package.Product) :
    ∀ e ∈ heading p, e.IsMadeOf ["Package", "MajorUpgrade", "MediaTemplate"] := by
  rw [heading, List.forall_mem_cons, List.forall_mem_cons, List.forall_mem_singleton]
  exact ⟨isMadeOf_leaf (by decide), isMadeOf_leaf (by decide), isMadeOf_leaf (by decide)⟩

theorem isMadeOf_properties (p : Package.Product) :
    ∀ e ∈ properties p, e.IsMadeOf ["Property"] :=
  List.forall_mem_cons.mpr ⟨isMadeOf_leaf (by decide),
    List.forall_mem_map.mpr fun _ _ => isMadeOf_leaf (by decide)⟩

section
variable {p : Package} {directories features : List Element}

namespace AreNested
variable (h : AreNested p directories features)

include h

/-- Every part is made of its own names. -/
theorem isMadeOf_of_mem_parts :
    ∀ part ∈ parts p directories features, ∀ e ∈ part.2, e.IsMadeOf part.1 := by
  simp only [parts, List.forall_mem_cons, List.not_mem_nil, false_imp_iff, implies_true, and_true]
  refine ⟨isMadeOf_heading p.product, isMadeOf_properties p.product, isMadeOf_productIcon _, ?_,
    isMadeOf_interfaceVariables _, isMadeOf_targetDirectory h.directories, ?_,
    isMadeOf_features h.features, ?_, isMadeOf_sequence p⟩
  · exact List.forall_mem_map.mpr fun _ _ => isMadeOf_leaf (by decide)
  · exact List.forall_mem_map.mpr fun c _ => isMadeOf_component c
  · exact List.forall_mem_map.mpr fun _ _ => isMadeOf_leaf (by decide)

end AreNested

/-! ## Where the elements of a name are -/

/-- Of several parts only those that have a name give elements of it. -/
theorem filter_flatMap_parts {name : String} {ps : List (List String × List Element)}
    {k : List String × List Element → List Element}
    (hk : ∀ part ∈ ps, ∀ e ∈ k part, e.tag ∈ part.1) :
    (ps.flatMap k).filter (·.tag = name) =
      (ps.filter fun part => name ∈ part.1).flatMap fun part => (k part).filter (·.tag = name) := by
  induction ps with
  | nil => rfl
  | cons part rest ih =>
    obtain ⟨hpart, hrest⟩ := List.forall_mem_cons.mp hk
    rw [List.flatMap_cons, List.filter_append, ih hrest]
    by_cases hname : name ∈ part.1
    · rw [List.filter_cons_of_pos (by simpa using hname), List.flatMap_cons]
    · have hnone : (k part).filter (·.tag = name) = [] :=
        List.filter_eq_nil_iff.mpr fun e he => by
          simpa using fun heq : e.tag = name => hname (heq ▸ hpart e he)
      rw [List.filter_cons_of_neg (by simpa using hname), hnone, List.nil_append]

namespace AreNested
variable (h : AreNested p directories features)

include h

/-- The elements of a name that stand directly in the product. -/
theorem filter_contents (name : String) :
    (contents p directories features).filter (·.tag = name) =
      ((parts p directories features).filter fun part => name ∈ part.1).flatMap fun part =>
        part.2.filter (·.tag = name) := by
  rw [contents_eq, filter_flatMap_parts fun part hpart e he =>
    h.isMadeOf_of_mem_parts part hpart e he e (Element.mem_all_self e)]

/-- The elements of a name other than those of the two elements around the parts. -/
theorem called_root {name : String} (hname : name ∉ ["Wix", "Product"]) :
    (root p directories features).called name =
      ((parts p directories features).filter fun part => name ∈ part.1).flatMap fun part =>
        part.2.flatMap (called name) := by
  have hproduct : (root p directories features).called name =
      (contents p directories features).flatMap (called name) := by
    simp only [List.mem_cons, List.not_mem_nil, or_false, not_or] at hname
    rw [root, Element.called_of_tag_ne (Ne.symm hname.1), Element.children, List.flatMap_singleton,
      Element.called_of_tag_ne (Ne.symm hname.2), Element.children]
  have htags : ∀ part ∈ parts p directories features, ∀ e ∈ part.2.flatMap Element.all,
      e.tag ∈ part.1 :=
    fun part hpart => List.forall_mem_flatMap.mpr (h.isMadeOf_of_mem_parts part hpart)
  rw [hproduct, Element.flatMap_called, contents_eq, List.flatMap_assoc, filter_flatMap_parts htags]
  simp only [Element.flatMap_called]

theorem called_directory : (root p directories features).called "Directory" =
    (targetDirectory directories).called "Directory" := by
  rw [h.called_root (by decide)]
  simp [parts, componentNames]

theorem called_feature : (root p directories features).called "Feature" =
    features.flatMap (called "Feature") := by
  rw [h.called_root (by decide)]
  simp [parts, componentNames]

theorem called_property : (root p directories features).called "Property" =
    properties p.product ++ (productIcon p.product.assets).flatMap (called "Property") := by
  have hall : ∀ e ∈ properties p.product, e.called "Property" = [e] :=
    List.forall_mem_cons.mpr ⟨Element.called_leaf _ _,
      List.forall_mem_map.mpr fun _ _ => Element.called_leaf _ _⟩
  rw [h.called_root (by decide)]
  simp [parts, componentNames, Element.flatMap_called_eq_self hall]

theorem called_icon : (root p directories features).called "Icon" =
    (productIcon p.product.assets).flatMap (called "Icon") ++
      shortcutIcons (itemsOf p.components) := by
  have hall : ∀ e ∈ shortcutIcons (itemsOf p.components), e.called "Icon" = [e] :=
    List.forall_mem_map.mpr fun _ _ => Element.called_leaf _ _
  rw [h.called_root (by decide)]
  simp [parts, componentNames, Element.flatMap_called_eq_self hall]

/-- The elements of shortcuts are those of items of components. -/
theorem exists_shortcut {e : Element} (he : e ∈ (root p directories features).called "Shortcut") :
    ∃ c ∈ p.components, ∃ s, Item.shortcut s ∈ c.items ∧ e = item (.shortcut s) := by
  have hcomponents : (root p directories features).called "Shortcut" =
      (p.components.map component).flatMap (called "Shortcut") := by
    rw [h.called_root (by decide)]
    simp [parts, componentNames]
  rw [hcomponents] at he
  obtain ⟨_, hmade, he⟩ := List.mem_flatMap.mp he
  obtain ⟨c, hc, rfl⟩ := List.mem_map.mp hmade
  have hitems : (component c).called "Shortcut" = (c.items.map item).flatMap (called "Shortcut") := by
    have hreference : (component c).tag ≠ "Shortcut" := show "DirectoryRef" ≠ "Shortcut" by decide
    rw [Element.called_of_tag_ne hreference, component, Element.children, List.flatMap_singleton]
    exact Element.called_of_tag_ne (show "Component" ≠ "Shortcut" by decide)
  rw [hitems] at he
  obtain ⟨_, hmade, he⟩ := List.mem_flatMap.mp he
  obtain ⟨i, hi, rfl⟩ := List.mem_map.mp hmade
  cases i with
  | shortcut s =>
    rw [item, Element.called_leaf, List.mem_singleton] at he
    exact ⟨c, hc, s, hi, he⟩
  | file | registry | environment | removeFolder =>
    rw [item, Element.called_of_tag_ne (by simp [Element.tag])] at he
    exact absurd he List.not_mem_nil

/-- Directly in the product stand the elements of the features. -/
theorem filter_contents_feature :
    (contents p directories features).filter (·.tag = "Feature") = features := by
  have htag : ∀ e ∈ features, e.tag = "Feature" :=
    (nests_features_iff.mpr h.features).forall_mem fun f inner _ =>
      show (featureElement f inner).tag = _ from rfl
  rw [h.filter_contents]
  simpa [parts, componentNames] using htag

end AreNested

end

end Installer.Wix
