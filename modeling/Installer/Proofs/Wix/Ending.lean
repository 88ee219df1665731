import Mathlib.Data.List.Nodup
import Installer.Proofs.Directory.Tree
import Installer.Proofs.Feature.Nesting
import Installer.Proofs.Package.Compilation

/-!
# The walk over a compiled package ends

A compilation lists directories whose parents lead to the root (`isTree_of_compile`) and features
that a declared forest is made of, so neither lead into a loop and every compiled package has a root
element and a source. Main statement: `exists_root_of_compile`.

Nothing is said of packages that are read from a file: an earlier package is only compared with.
-/

set_option autoImplicit false

namespace Installer.Wix
open Xml Relation Result

/-! ## Directories -/

section Directories
variable {all : List Package.Directory}

/-- Directories with ids of their own, from each of which the parents lead to the root. -/
structure IsTree (all : List Package.Directory) : Prop where
  ids : (rootId :: all.map (·.id)).Nodup
  leads : ∀ d ∈ all, ∃ parent, d.parent = some parent ∧ DirectoryTree.Leads all parent

theorem isParent {d : Package.Directory} (hd : d ∈ all) {parent : String}
    (hparent : d.parent = some parent) : IsParent all parent d.id :=
  ⟨d, hd, by rw [hparent, Option.getD_some], rfl⟩

namespace IsTree
variable (h : IsTree all)

include h

/-- A directory lies in one other only. -/
theorem parent_unique {a b c : String} (ha : IsParent all a c) (hb : IsParent all b c) : a = b := by
  obtain ⟨d, hd, rfl, rfl⟩ := ha
  obtain ⟨e, he, rfl, heq⟩ := hb
  rw [List.inj_on_of_nodup_map (List.nodup_cons.mp h.ids).2 hd he heq.symm]

/-- The root lies in nothing. -/
theorem not_isParent_root {a : String} : ¬ IsParent all a rootId := by
  rintro ⟨d, hd, -, hid⟩
  exact (List.nodup_cons.mp h.ids).1 (hid ▸ List.mem_map_of_mem hd)

/-- What leads to the root is in no loop. -/
theorem not_loop {a : String} (ha : DirectoryTree.Leads all a) : ¬ TransGen (IsParent all) a a := by
  induction ha with
  | target =>
    intro hloop
    obtain ⟨_, -, hroot⟩ := TransGen.tail'_iff.mp hloop
    exact h.not_isParent_root hroot
  | @step d parent hd hparent _ ih =>
    -- the last step of a loop comes from the only parent, which then is in the loop as well
    intro hloop
    obtain ⟨b, hb, hbd⟩ := TransGen.tail'_iff.mp hloop
    rw [h.parent_unique hbd (isParent hd hparent)] at hb
    exact ih (.head' (isParent hd hparent) hb)

omit h in
theorem reached {a : String} (ha : DirectoryTree.Leads all a) :
    ReflTransGen (IsParent all) rootId a := by
  induction ha with
  | target => exact .refl
  | step hd hparent _ ih => exact ih.tail (isParent hd hparent)

theorem leads_id {d : Package.Directory} (hd : d ∈ all) : DirectoryTree.Leads all d.id := by
  obtain ⟨parent, hparent, hleads⟩ := h.leads d hd
  exact .step hd hparent hleads

theorem leads_of_reached {a : String} (ha : ReflTransGen (IsParent all) rootId a) :
    DirectoryTree.Leads all a := by
  rcases ha.cases_tail with rfl | ⟨b, -, d, hd, -, rfl⟩
  · exact .target
  · exact h.leads_id hd

theorem reachesNoLoop : ReachesNoLoop (IsParent all) rootId :=
  fun _ hb => h.not_loop (h.leads_of_reached hb)

theorem reachesNoLoop_id {d : Package.Directory} (hd : d ∈ all) :
    ReachesNoLoop (IsParent all) d.id :=
  fun b hb => h.reachesNoLoop b ((reached (h.leads_id hd)).trans hb)

end IsTree

end Directories

/-! ## Compiled packages -/

section Compiled
variable {m : Manifest} {s : Settings} {p : Package}

theorem isTree_of_compile (h : m.compile s = .ok p) : IsTree p.directories := by
  obtain ⟨i, expanded, upgradeCode, t, g, -, -, hsettles⟩ := Manifest.compile_eq_ok h
  have hids := DirectoryTree.nodup_ids (DirectoryTree.nodup_seedIds _) hsettles.tree
  rw [DirectoryTree.ids_eq_cons hsettles.tree, ← hsettles.directories] at hids
  refine ⟨hids, ?_⟩
  rw [hsettles.directories]
  exact fun d hd => DirectoryTree.exists_parent_leads hsettles.tree hd

/-- What is listed for a forest leads into no loop. -/
theorem reachesNoLoop_of_list {installLevel : UInt16} {known : List String}
    {forest : List Manifest.Feature} {listing : List Package.Feature}
    (h : Feature.list installLevel known forest = .ok listing) :
    ReachesNoLoop (IsParentFeature listing) none := by
  rw [← holds_featuresIn]
  exact (Feature.nests_of_list h).reachesNoLoop

/-- A compiled package has elements for all its directories and features. -/
theorem exists_root_of_compile (h : m.compile s = .ok p) :
    ∃ directories features, AreNested p directories features := by
  obtain ⟨i, expanded, upgradeCode, t, g, -, -, hsettles⟩ := Manifest.compile_eq_ok h
  obtain ⟨-, hlist, -, -⟩ := ComponentGraph.make_eq_ok_iff.mp hsettles.graph
  rw [← hsettles.features] at hlist
  obtain ⟨_, he⟩ := exists_root_iff.mpr
    ⟨(isTree_of_compile h).reachesNoLoop, reachesNoLoop_of_list hlist⟩
  obtain ⟨directories, features, hnested, -⟩ := root?_eq_some_iff.mp he
  exact ⟨directories, features, hnested⟩

/-- A compiled package has a source. -/
theorem exists_source_of_compile (h : m.compile s = .ok p) : ∃ text, source? p = some text := by
  obtain ⟨directories, features, hnested⟩ := exists_root_of_compile h
  exact ⟨_, by rw [source?, hnested.root?_eq, Option.map_some]⟩

end Compiled

end Installer.Wix
