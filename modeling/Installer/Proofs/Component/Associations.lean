import Installer.Proofs.Component.Graph
import Installer.Proofs.Package.Baseline
import Installer.Proofs.Payload.Generated

/-!
# The file associations of a manifest in its graph

What an association registers has ids that start with its base. No graph is made where two
associations have one base (`associationsAreApart_of_make`). Where each has a base of its own and an
id is refused nevertheless, some item that no association registers has that id
(`exists_other_of_make`). Main statement: `make_associations`.

That no other check refuses the id of an item is said once, of all steps that are put together from
certain parts (`TakesAnyId`), so that only the check of the ids themselves is looked at.

**What it does not establish.** Which other item has the id that is refused is left open. Extensions
that look alike to the ids that are made of them are refused though they differ
(`make_confuses_extensions`).
-/

set_option autoImplicit false

namespace Installer
open Result

/-! ## Which steps refuse an id that is taken -/

/-- The step does not refuse an item for its id. -/
def TakesAnyId {α : Type} (x : Except Violation α) : Prop := ∀ id, x ≠ .error (.duplicateItemId id)

namespace TakesAnyId
variable {α β : Type}

theorem ok (a : α) : TakesAnyId (.ok a) := by
  intro id h
  cases h

theorem error {v : Violation} (h : ∀ id, v ≠ .duplicateItemId id) :
    TakesAnyId (.error v : Except Violation α) := by
  intro id heq
  exact h id (Except.error.inj heq)

theorem bind {x : Except Violation α} {f : α → Except Violation β} (hx : TakesAnyId x)
    (hf : ∀ a, TakesAnyId (f a)) : TakesAnyId (x >>= f) := by
  intro id h
  rcases bind_eq_error.mp h with h | ⟨a, -, h⟩
  · exact hx id h
  · exact hf a id h

theorem forM {f : α → Except Violation Unit} (hf : ∀ a, TakesAnyId (f a)) (as : List α) :
    TakesAnyId (as.forM f) := by
  intro id h
  obtain ⟨a, -, ha⟩ := exists_of_forM_error h
  exact hf a id ha

theorem ite {p : Prop} [Decidable p] {x y : Except Violation α} (hx : TakesAnyId x)
    (hy : TakesAnyId y) : TakesAnyId (if p then x else y) := by
  split
  · exact hx
  · exact hy

end TakesAnyId

theorem takesAnyId_requireFile {fileKeys : List String} {owner fileKey : String} :
    TakesAnyId (requireFile fileKeys owner fileKey) :=
  .ite (.ok ()) (.error (by simp))

theorem Feature.takesAnyId_check {known : List String} {listing : List Package.Feature} :
    ∀ {earlier : List String}, TakesAnyId (check known earlier listing) := by
  induction listing with
  | nil =>
    intro earlier
    exact .ok ()
  | cons f rest ih =>
    intro earlier
    rw [check]
    refine .ite (.error (by simp)) ?_
    split
    · exact .error (by simp)
    · exact ih

namespace Component

theorem takesAnyId_requireDirectory {t : DirectoryTree} {owner directory : String} :
    TakesAnyId (requireDirectory t owner directory) :=
  .ite (.ok ()) (.error (by simp))

theorem takesAnyId_itemsFrom {context : Integration.Context} {component directory : String}
    {intents : List Integration} : ∀ {n : Nat} {earlier : List Item},
      TakesAnyId (Manifest.Component.itemsFrom context component directory n earlier intents) := by
  induction intents with
  | nil =>
    intro n earlier
    exact .ok earlier
  | cons intent rest ih =>
    intro n earlier
    rw [itemsFrom_cons]
    refine .bind ?_ fun more => ih
    cases intent with
    | path p =>
      show TakesAnyId (p.items component n)
      unfold PathEntry.items
      split
      · exact .error (by simp)
      · exact .ok _
    | fileAssociation a =>
      refine .bind takesAnyId_requireFile fun _ => ?_
      exact .bind takesAnyId_requireFile fun _ => .ok _
    | startMenu s => exact .ok _

theorem takesAnyId_checkItem (context : Context) (component : String) (i : Item) :
    TakesAnyId (checkItem context component i) := by
  cases i with
  | file f => exact .ok ()
  | registry r => exact .ok ()
  | environment e => exact .ite (.error (by simp)) (.ok ())
  | removeFolder r => exact takesAnyId_requireDirectory
  | shortcut s =>
    refine .bind takesAnyId_requireFile fun _ => ?_
    refine .bind (.forM (fun _ => takesAnyId_requireFile) _) fun _ => ?_
    refine .bind takesAnyId_requireDirectory fun _ => ?_
    exact .forM (fun _ => takesAnyId_requireDirectory) _

/-- No component is refused on its own for the id of an item. -/
theorem takesAnyId_resolve (context : Context) (c : Manifest.Component) :
    TakesAnyId (resolve context c) := by
  refine .bind takesAnyId_requireDirectory fun _ => ?_
  refine .bind (.forM (fun intent => ?_) _) fun _ => ?_
  · cases intent with
    | path p => exact takesAnyId_requireDirectory
    | fileAssociation a => exact .ok ()
    | startMenu s => exact .ok ()
  refine .bind takesAnyId_itemsFrom fun items => ?_
  refine .bind (.forM (takesAnyId_checkItem context c.id) _) fun _ => ?_
  refine .bind ?_ fun key => .bind ?_ fun identity => .bind ?_ fun _ => .ok _
  · unfold keyItem
    split
    · exact .error (by simp)
    · split
      · exact .ok _
      · exact .error (by simp)
      · exact .error (by simp)
  · unfold Component.identity
    split
    · exact .ok _
    · exact .error (by simp)
  · unfold stabilityKey
    refine .ite (.ok _) ?_
    unfold Guid.parse
    split
    · exact .ok _
    · exact .error (by simp)

end Component

/-! ## The ids of associations -/

/-- The file association that an integration is. -/
def Integration.association? : Integration → Option FileAssociation
  | .fileAssociation a => some a
  | .path _ | .startMenu _ => none

namespace Manifest.Component

/-- The component's file associations. -/
def associations (c : Component) : List FileAssociation :=
  c.integrations.filterMap Integration.association?

/-- What the ids of a component's associations start with. -/
def associationBases (c : Component) : List String := c.associations.map (·.baseId c.id)

end Manifest.Component

namespace Component

/-- What associations register is among the items of all integrations, after the items before. -/
theorem sublist_itemsFrom {context : Integration.Context} {component directory : String}
    {intents : List Integration} : ∀ {n : Nat} {earlier items : List Item},
      Manifest.Component.itemsFrom context component directory n earlier intents = .ok items →
        (earlier.map (·.id) ++
          (intents.filterMap Integration.association?).flatMap (·.ids component)).Sublist
            (items.map (·.id)) := by
  induction intents with
  | nil =>
    intro n earlier items h
    cases h
    rw [List.filterMap_nil, List.flatMap_nil, List.append_nil]
  | cons intent rest ih =>
    intro n earlier items h
    rw [itemsFrom_cons] at h
    obtain ⟨more, hmore, hrest⟩ := bind_eq_ok.mp h
    have hsub := ih hrest
    rw [List.map_append, List.append_assoc] at hsub
    have hskip : intent.association? = none →
        (earlier.map (·.id) ++
          ((intent :: rest).filterMap Integration.association?).flatMap (·.ids component)).Sublist
            (items.map (·.id)) := by
      intro hnone
      rw [List.filterMap_cons_none hnone]
      exact ((List.sublist_append_right _ _).append_left _).trans hsub
    cases intent with
    | path p => exact hskip rfl
    | startMenu s => exact hskip rfl
    | fileAssociation a =>
      have hids : more.map (·.id) = a.ids component := FileAssociation.ids_of_items hmore
      rw [hids] at hsub
      exact hsub

theorem Resolves.sublist_ids {context : Context} {c : Manifest.Component} {r : Package.Component}
    (h : Resolves context c r) :
    (c.associationBases.flatMap FileAssociation.idsOn).Sublist (r.items.map (·.id)) := by
  have hsub := sublist_itemsFrom h.items
  unfold Manifest.Component.associationBases Manifest.Component.associations
  rw [List.flatMap_map]
  exact (List.sublist_append_right _ _).trans hsub

end Component

namespace ComponentGraph
variable {context : Component.Context}

/-- What the ids of all associations start with. -/
def associationBases (components : List Manifest.Component) : List String :=
  components.flatMap (·.associationBases)

/-- Associations are told apart by their ids. -/
structure AssociationsAreApart (components : List Manifest.Component) : Prop where
  /-- Those of one component have extensions that do not look alike. -/
  inside : ∀ c ∈ components, c.associations.Pairwise fun a b =>
    ¬LooksAlike a.bareExtension b.bareExtension
  across : components.Pairwise fun c d => c.associationBases.Disjoint d.associationBases

theorem nodup_associationBases_iff {components : List Manifest.Component} :
    (associationBases components).Nodup ↔ AssociationsAreApart components := by
  have hinside : ∀ c : Manifest.Component, c.associationBases.Nodup ↔
      c.associations.Pairwise fun a b => ¬LooksAlike a.bareExtension b.bareExtension := by
    intro c
    unfold Manifest.Component.associationBases
    rw [List.Nodup, List.pairwise_map]
    exact List.Pairwise.iff fun {_ _} => not_congr FileAssociation.baseId_eq_iff
  unfold associationBases
  rw [List.nodup_flatMap]
  constructor
  · rintro ⟨hnodup, hacross⟩
    exact ⟨fun c hc => (hinside c).mp (hnodup c hc), hacross⟩
  · rintro ⟨hapart, hacross⟩
    exact ⟨fun c hc => (hinside c).mpr (hapart c hc), hacross⟩

theorem sublist_itemIds {cs : List Manifest.Component} {rs : List Package.Component}
    (h : List.Forall₂ (Component.Resolves context) cs rs) :
    ((associationBases cs).flatMap FileAssociation.idsOn).Sublist (itemIds rs) := by
  unfold associationBases itemIds
  induction h with
  | nil => exact .slnil
  | cons hr _ ih =>
    rw [List.flatMap_cons, List.flatMap_append, List.flatMap_cons]
    exact hr.sublist_ids.append ih

/-- An id that is refused is there twice, among the items of the components up to where it is. -/
theorem exists_twice_of_resolveAll {cs : List Manifest.Component} {id : String} :
    ∀ {earlier taken : List String},
      resolveAll context earlier taken cs = .error (.duplicateItemId id) →
        ∃ front rs, front <+: cs ∧ List.Forall₂ (Component.Resolves context) front rs ∧
          2 ≤ taken.count id + (itemIds rs).count id := by
  induction cs with
  | nil =>
    intro earlier taken h
    cases h
  | cons c rest ih =>
    intro earlier taken h
    rw [resolveAll] at h
    by_cases hid : earlier.contains c.id
    · rw [if_pos hid] at h
      cases h
    · rw [if_neg hid] at h
      rcases bind_eq_error.mp h with hresolve | ⟨r, hr, h⟩
      · exact absurd hresolve (Component.takesAnyId_resolve context c id)
      · have hresolves := Component.resolve_eq_ok_iff.mp hr
        split at h
        · next htaken =>
          cases h
          refine ⟨[c], [r], List.prefix_append [c] rest, .cons hresolves .nil, ?_⟩
          simpa [itemIds] using Distinct.two_le_count_of_firstTaken? htaken
        · rcases bind_eq_error.mp h with hmore | ⟨rs, -, hdone⟩
          · obtain ⟨front, rs, hfront, hall, hcount⟩ := ih hmore
            refine ⟨c :: front, r :: rs, (List.prefix_cons_inj c).mpr hfront,
              .cons hresolves hall, ?_⟩
            rw [List.count_append] at hcount
            show 2 ≤ taken.count id + (r.items.map (·.id) ++ itemIds rs).count id
            rw [List.count_append]
            omega
          · cases hdone

/-- Features, orphans and unused directories are not about ids of items. -/
theorem exists_twice_of_make {m : Manifest} {id : String}
    (h : make context m = .error (.duplicateItemId id)) :
    ∃ front rs, front <+: m.components ∧ List.Forall₂ (Component.Resolves context) front rs ∧
      2 ≤ (itemIds rs).count id := by
  rw [make] at h
  rcases bind_eq_error.mp h with hresolve | ⟨components, -, hrest⟩
  · obtain ⟨front, rs, hfront, hall, htwice⟩ := exists_twice_of_resolveAll hresolve
    rw [List.count_nil, Nat.zero_add] at htwice
    exact ⟨front, rs, hfront, hall, htwice⟩
  · have hnever : TakesAnyId
        (Feature.list m.product.installLevel (components.map (·.id)) m.features) := by
      rw [Feature.list_eq]
      exact .bind Feature.takesAnyId_check fun _ => .ok _
    rcases bind_eq_error.mp hrest with hlist | ⟨features, -, hrest⟩
    · exact absurd hlist (hnever id)
    · dsimp only at hrest
      split at hrest
      · cases hrest
      · split at hrest <;> cases hrest

/-- A graph is made only where associations are told apart. -/
theorem associationsAreApart_of_make {m : Manifest} {g : ComponentGraph}
    (h : make context m = .ok g) : AssociationsAreApart m.components := by
  obtain ⟨hall, -, hfree⟩ := resolveAll_eq_ok_iff.mp (make_eq_ok_iff.mp h).1
  rw [← nodup_associationBases_iff, ← FileAssociation.nodup_flatMap_idsOn_iff]
  exact (sublist_itemIds hall).nodup (Distinct.firstTaken?_eq_none_iff.mp hfree).1

/-- Where associations are told apart, an id that is refused is the id of an item that none of them
registers. -/
theorem exists_other_of_make {m : Manifest} {id : String}
    (h : make context m = .error (.duplicateItemId id))
    (hapart : AssociationsAreApart m.components) :
    ∃ front rs others, front <+: m.components ∧
      List.Forall₂ (Component.Resolves context) front rs ∧
        (itemIds rs).Perm ((associationBases front).flatMap FileAssociation.idsOn ++ others) ∧
          id ∈ others := by
  obtain ⟨front, rs, hfront, hall, htwice⟩ := exists_twice_of_make h
  obtain ⟨others, hperm⟩ := (sublist_itemIds hall).exists_perm_append
  refine ⟨front, rs, others, hfront, hall, hperm, ?_⟩
  have hnodup : (associationBases front).Nodup := by
    obtain ⟨back, heq⟩ := hfront
    have hbases := nodup_associationBases_iff.mpr hapart
    unfold associationBases at hbases
    rw [← heq, List.flatMap_append] at hbases
    exact (List.nodup_append.mp hbases).1
  have honce : ((associationBases front).flatMap FileAssociation.idsOn).count id ≤ 1 :=
    List.nodup_iff_count_le_one.mp (FileAssociation.nodup_flatMap_idsOn_iff.mpr hnodup) id
  rw [hperm.count_eq, List.count_append] at htwice
  apply List.count_pos_iff.mp
  omega

/-- The items of two associations of a component have ids of their own exactly if the extensions do
not look alike. A graph is made only where associations are told apart, and where they are, no id is
refused but that of another item. -/
theorem make_associations (context : Component.Context) (m : Manifest) :
    (∀ (component : String) (a b : FileAssociation) (as bs : List Item),
      a.items context.product component = .ok as → b.items context.product component = .ok bs →
        ((as.map (·.id)).Disjoint (bs.map (·.id)) ↔
          ¬LooksAlike a.bareExtension b.bareExtension)) ∧
    (∀ g, make context m = .ok g → AssociationsAreApart m.components) ∧
    ∀ id, make context m = .error (.duplicateItemId id) → AssociationsAreApart m.components →
      ∃ front rs others, front <+: m.components ∧
        List.Forall₂ (Component.Resolves context) front rs ∧
          (itemIds rs).Perm ((associationBases front).flatMap FileAssociation.idsOn ++ others) ∧
            id ∈ others := by
  refine ⟨?_, fun g h => associationsAreApart_of_make h, fun id h => exists_other_of_make h⟩
  intro component a b as bs ha hb
  rw [FileAssociation.ids_of_items ha, FileAssociation.ids_of_items hb,
    ← FileAssociation.baseId_eq_iff]
  exact FileAssociation.disjoint_idsOn_iff

/-- The association of an extension with the file that has the id `file`. -/
def sourceAssociation (file extension : String) : FileAssociation :=
  ⟨extension, "Acme.Source", file, none, none, "open", none⟩

/-- An editor whose file has the id `file`, for files with the extensions. -/
def sourceEditor (file : String) (extensions : List String) : Manifest :=
  { Manifest.twins with
    components := [{
      id := "Main"
      directory := "INSTALLFOLDER"
      guid := "auto"
      win64 := none
      items := [.file ⟨file, "bin/acme.exe", none, true⟩]
      integrations := extensions.map fun extension =>
        .fileAssociation (sourceAssociation file extension) }]
    features := [⟨"Core", "Acme Editor", "", 1, false, .collapse, ["Main"], []⟩] }

def sourceContext (file : String) : Component.Context where
  product := ⟨.perMachine, "Acme Corp", "Acme Editor", [file]⟩
  directories := DirectoryTree.seed .programFiles
    |>.insert "INSTALLFOLDER" "Acme" false false |>.link 6 1
  upgradeCode := ⟨0⟩
  win64 := false

/-- Associations of C sources and headers are told apart, and a file with an id of theirs is
refused. -/
theorem make_associations_sources :
    (∃ as bs, (sourceAssociation "AcmeExe" ".c").items (sourceContext "AcmeExe").product "Main" =
        .ok as ∧
      (sourceAssociation "AcmeExe" ".h").items (sourceContext "AcmeExe").product "Main" = .ok bs ∧
        (as.map (·.id)).Disjoint (bs.map (·.id))) ∧
    AssociationsAreApart (sourceEditor "AcmeExe" [".c", ".h"]).components ∧
    ∃ front rs others, front <+: (sourceEditor "Main_Assoc_c_Ext" [".c", ".h"]).components ∧
      List.Forall₂ (Component.Resolves (sourceContext "Main_Assoc_c_Ext")) front rs ∧
        (itemIds rs).Perm ((associationBases front).flatMap FileAssociation.idsOn ++ others) ∧
          "Main_Assoc_c_Ext" ∈ others := by
  refine ⟨?_, ?_, ?_⟩
  · obtain ⟨as, ha⟩ := exists_of_isOk (x := (sourceAssociation "AcmeExe" ".c").items
      (sourceContext "AcmeExe").product "Main") (by decide +kernel)
    obtain ⟨bs, hb⟩ := exists_of_isOk (x := (sourceAssociation "AcmeExe" ".h").items
      (sourceContext "AcmeExe").product "Main") (by decide +kernel)
    have hdifferent : ¬LooksAlike (sourceAssociation "AcmeExe" ".c").bareExtension
        (sourceAssociation "AcmeExe" ".h").bareExtension := by
      decide +kernel
    exact ⟨as, bs, ha, hb,
      ((make_associations _ (sourceEditor "AcmeExe" [])).1 _ _ _ as bs ha hb).mpr hdifferent⟩
  · obtain ⟨g, hg⟩ : ∃ g, make (sourceContext "AcmeExe") (sourceEditor "AcmeExe" [".c", ".h"]) =
        .ok g := exists_of_isOk (by decide +kernel)
    exact (make_associations _ _).2.1 g hg
  · have hrefused : make (sourceContext "Main_Assoc_c_Ext")
        (sourceEditor "Main_Assoc_c_Ext" [".c", ".h"]) =
          .error (.duplicateItemId "Main_Assoc_c_Ext") := by
      decide +kernel
    have hapart : AssociationsAreApart
        (sourceEditor "Main_Assoc_c_Ext" [".c", ".h"]).components :=
      nodup_associationBases_iff.mp (by decide +kernel)
    exact (make_associations _ _).2.2 _ hrefused hapart

/-- Two extensions that differ are refused for the ids that are made of them. -/
theorem make_confuses_extensions :
    ((sourceEditor "AcmeExe" [".c++", ".c--"]).components.flatMap fun c =>
      c.associations.map (·.bareExtension)) = ["c++", "c--"] ∧
    make (sourceContext "AcmeExe") (sourceEditor "AcmeExe" [".c++", ".c--"]) =
      .error (.duplicateItemId "Main_Assoc_c___Ext") := by
  decide +kernel

end ComponentGraph
end Installer
