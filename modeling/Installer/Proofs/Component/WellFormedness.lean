import Installer.Proofs.Component.Usage
import Installer.Proofs.Feature.Flattening
import Installer.Proofs.Payload.Removals

/-!
# Manifests of which a graph can be made

What has to hold is said of the declarations (`Manifest.IsWellFormed`): of what they refer to, of their
ids, and of the items that integrations come to only where there is no saying it otherwise. The items
that are generated then pass the checks that declared ones pass, because each integration is as good as
its items (`exists_itemsFrom_iff`). A graph is made of a manifest exactly if it is well-formed. Main
statement: `exists_make_iff_isWellFormed`.

**What it does not establish.** The tree of directories is taken as made, and the files of the product
as those that the manifest declares. Of a manifest that is not well-formed it is said that there is no
graph, not which rule is reported.
-/

set_option autoImplicit false

namespace Installer
open Result

/-! ## Integrations -/

/-- What an integration refers to is there, and a path entry says whether it is permanent. -/
def Integration.IsClosed (files directories : List String) : Integration → Prop
  | .path p => p.directory ∈ directories ∧ p.permanent.isSome
  | .fileAssociation a => a.target ∈ files ∧ ∀ icon ∈ a.icon, icon ∈ files
  | .startMenu s => s.target ∈ files ∧ (∀ icon ∈ s.icon, icon ∈ files) ∧
      (∀ folder ∈ s.folder, folder ∈ directories) ∧
        ∀ directory ∈ s.workingDirectory, directory ∈ directories

theorem getD_mem_iff {names : List String} {name : String} (h : name ∈ names)
    {o : Option String} : o.getD name ∈ names ↔ ∀ n ∈ o, n ∈ names := by
  cases o <;> simp [h]

section Items
variable {files directories : List String} {component directory : String}

theorem PathEntry.exists_items_iff {n : Nat} {p : PathEntry} :
    (∃ items, p.items component n = .ok items ∧ ∀ i ∈ items, i.IsClosed files directories) ↔
      p.permanent.isSome := by
  unfold PathEntry.items
  cases p.permanent <;> simp [Item.IsClosed]

/-- An association comes to items if there are its program and its icon, which may be the program's. -/
theorem FileAssociation.exists_items_iff {context : Integration.Context} {a : FileAssociation} :
    (∃ items, a.items context component = .ok items ∧
      ∀ i ∈ items, i.IsClosed context.fileKeys directories) ↔
        a.target ∈ context.fileKeys ∧ ∀ icon ∈ a.icon, icon ∈ context.fileKeys := by
  constructor
  · rintro ⟨items, h, -⟩
    obtain ⟨htarget, h⟩ := check_bind_eq_ok.mp h
    obtain ⟨hicon, -⟩ := check_bind_eq_ok.mp h
    rw [requireFile_eq_ok_iff] at htarget hicon
    exact ⟨htarget, (getD_mem_iff htarget).mp hicon⟩
  · rintro ⟨htarget, hicon⟩
    have hitems : ∃ items, a.items context component = .ok items := by
      unfold FileAssociation.items
      dsimp only
      rw [requireFile_eq_ok_iff.mpr htarget, ok_bind,
        requireFile_eq_ok_iff.mpr ((getD_mem_iff htarget).mpr hicon), ok_bind]
      exact ⟨_, rfl⟩
    obtain ⟨items, hitems⟩ := hitems
    refine ⟨items, hitems, fun i hi => ?_⟩
    obtain ⟨r, rfl⟩ := FileAssociation.registry_of_items hitems i hi
    trivial

namespace StartMenuEntry

variable {context : Integration.Context} {earlier : List Item} {s : StartMenuEntry}

/-- The menu is there on every platform. -/
theorem standardFolder_mem_seedIds (base : StandardFolder) :
    standardFolder ∈ DirectoryTree.seedIds base := by
  simp [standardFolder, DirectoryTree.seedIds, DirectoryTree.seeds, DirectoryTree.standardFolders]

theorem shortcutFrom_mem_items :
    .shortcut (s.shortcutFrom directory) ∈ s.items context component directory earlier := by
  rw [items_eq]
  exact List.mem_cons_self

/-- What an entry comes to besides its shortcut removes the folder of the shortcut or refers to
nothing. -/
theorem cases_of_mem_items {i : Item} (h : i ∈ s.items context component directory earlier) :
    i = .shortcut (s.shortcutFrom directory) ∨ (∃ id, i = .removeFolder ⟨id, s.place, false⟩) ∨
      i = .registry (s.mark context) := by
  rw [items_eq, List.cons_append, List.mem_cons, List.mem_append, List.mem_ite_nil_left,
    List.mem_ite_nil_right, List.mem_singleton, List.mem_singleton] at h
  rcases h with h | ⟨-, h⟩ | ⟨-, h⟩
  · exact .inl h
  · exact .inr (.inl ⟨_, h⟩)
  · exact .inr (.inr h)

/-- An entry is as good as its items: the menu and the component's own directory are there anyway. -/
theorem forall_items_iff (hdirectory : directory ∈ directories)
    (hmenu : standardFolder ∈ directories) :
    (∀ i ∈ s.items context component directory earlier, i.IsClosed files directories) ↔
      Integration.IsClosed files directories (.startMenu s) := by
  have hshortcut : Item.IsClosed files directories (.shortcut (s.shortcutFrom directory)) ↔
      Integration.IsClosed files directories (.startMenu s) := by
    rw [Integration.IsClosed, ← getD_mem_iff hmenu, ← getD_mem_iff hdirectory]
    simp [Item.IsClosed, shortcutFrom, place]
  rw [← hshortcut]
  constructor
  · exact fun h => h _ shortcutFrom_mem_items
  · intro h i hi
    rcases cases_of_mem_items hi with rfl | ⟨id, rfl⟩ | rfl
    · exact h
    · exact h.2.2.1
    · trivial

end StartMenuEntry

end Items

namespace Component

/-- All items refer to what there is. -/
def AreClosed (context : Context) (items : List Item) : Prop :=
  ∀ i ∈ items, i.IsClosed context.product.fileKeys context.directories.ids

section Integrations
variable {context : Context} {component directory : String}
  (hdirectory : directory ∈ context.directories.ids)
  (hmenu : StartMenuEntry.standardFolder ∈ context.directories.ids)

include hdirectory hmenu

/-- An integration is as good as the items that it comes to; of path entries the directory is checked
besides. -/
theorem exists_itemsOf_iff (n : Nat) (earlier : List Item) (intent : Integration) :
    (checkIntegration context.directories component intent = .ok () ∧
      ∃ more, itemsOf context.product component directory n earlier intent = .ok more ∧
        AreClosed context more) ↔
      intent.IsClosed context.product.fileKeys context.directories.ids := by
  cases intent with
  | path p => exact and_congr requireDirectory_eq_ok_iff PathEntry.exists_items_iff
  | fileAssociation a => exact (and_iff_right rfl).trans FileAssociation.exists_items_iff
  | startMenu s =>
    have hitems : AreClosed context (s.items context.product component directory earlier) ↔ _ :=
      StartMenuEntry.forall_items_iff hdirectory hmenu
    rw [← hitems]
    constructor
    · rintro ⟨-, more, hmore, hclosed⟩
      cases hmore
      exact hclosed
    · exact fun hclosed => ⟨rfl, _, rfl, hclosed⟩

/-- All items are closed, the declared ones and those of integrations, if these are closed. -/
theorem exists_itemsFrom_iff {intents : List Integration} {n : Nat} {earlier : List Item} :
    ((∀ intent ∈ intents, checkIntegration context.directories component intent = .ok ()) ∧
      ∃ items, Manifest.Component.itemsFrom context.product component directory n earlier intents =
        .ok items ∧ AreClosed context items) ↔
      AreClosed context earlier ∧
        ∀ intent ∈ intents, intent.IsClosed context.product.fileKeys context.directories.ids := by
  induction intents generalizing n earlier with
  | nil =>
    constructor
    · rintro ⟨-, items, hitems, hclosed⟩
      cases hitems
      exact ⟨hclosed, fun _ h => absurd h List.not_mem_nil⟩
    · rintro ⟨hclosed, -⟩
      exact ⟨fun _ h => absurd h List.not_mem_nil, earlier, rfl, hclosed⟩
  | cons intent rest ih =>
    -- for the rest the items of the first integration are earlier ones
    rw [List.forall_mem_cons, List.forall_mem_cons, itemsFrom_cons,
      ← exists_itemsOf_iff hdirectory hmenu n earlier intent]
    constructor
    · rintro ⟨⟨hcheck, hchecks⟩, items, hitems, hclosed⟩
      obtain ⟨more, hmore, hrest⟩ := bind_eq_ok.mp hitems
      obtain ⟨hbefore, hintents⟩ := ih.mp ⟨hchecks, items, hrest, hclosed⟩
      obtain ⟨hearlier, hnext⟩ := List.forall_mem_append.mp hbefore
      exact ⟨hearlier, ⟨hcheck, more, hmore, hnext⟩, hintents⟩
    · rintro ⟨hearlier, ⟨hcheck, more, hmore, hnext⟩, hintents⟩
      obtain ⟨hchecks, items, hrest, hclosed⟩ :=
        ih.mpr ⟨List.forall_mem_append.mpr ⟨hearlier, hnext⟩, hintents⟩
      exact ⟨⟨hcheck, hchecks⟩, items, bind_eq_ok.mpr ⟨more, hmore, hrest⟩, hclosed⟩

end Integrations
end Component

/-! ## Components -/

/-- What a component refers to is there, one of its items is its key path, and its key is one that
there can be. -/
structure Manifest.Component.IsWellFormed (context : Integration.Context)
    (files directories : List String) (c : Manifest.Component) : Prop where
  directory : c.directory ∈ directories
  items : ∀ i ∈ c.items, i.IsClosed files directories
  integrations : ∀ intent ∈ c.integrations, intent.IsClosed files directories
  /-- Among all items, with those that the integrations come to. -/
  key : ∀ items, c.allItems context = .ok items →
    ∃ key, items.filter (·.keyPath) = [key] ∧ key.canBeKeyPath
  guid : isAuto c.guid ∨ (Guid.ofText? c.guid).isSome

namespace Component
variable {context : Context} {c : Manifest.Component}

theorem exists_identity_iff {t : DirectoryTree} {component directory : String} {key : Item} :
    (∃ identified, identity t component directory key = .ok identified) ↔ key.canBeKeyPath := by
  unfold identity
  cases key <;> simp [Item.keyPathIdentity?, Item.canBeKeyPath]

theorem exists_stabilityKey_iff {component declared identified : String} {upgradeCode : Guid} :
    (∃ key, stabilityKey component declared upgradeCode identified = .ok key) ↔
      isAuto declared ∨ (Guid.ofText? declared).isSome := by
  unfold stabilityKey Guid.parse
  by_cases hauto : isAuto declared
  · simp [hauto]
  · cases Guid.ofText? declared <;> simp [hauto, Except.map]

/-- A component can be resolved exactly if it is well-formed. -/
theorem exists_resolves_iff (hmenu : StartMenuEntry.standardFolder ∈ context.directories.ids) :
    (∃ r, Resolves context c r) ↔
      c.IsWellFormed context.product context.product.fileKeys context.directories.ids := by
  constructor
  · rintro ⟨r, h⟩
    obtain ⟨hitems, hintegrations⟩ := (exists_itemsFrom_iff h.known hmenu).mp
      ⟨h.integrations, r.items, h.items, h.closed⟩
    obtain ⟨key, hkey, -, -⟩ := h.key
    obtain ⟨guid, hguid, -⟩ := h.stability
    refine ⟨h.known, hitems, hintegrations, fun items hall => ?_, ?_⟩
    · rw [h.items] at hall
      cases hall
      exact ⟨key, hkey⟩
    · exact exists_stabilityKey_iff.mp ⟨_, hguid⟩
  · intro h
    obtain ⟨hchecks, items, hitems, hclosed⟩ :=
      (exists_itemsFrom_iff h.directory hmenu).mpr ⟨h.items, h.integrations⟩
    obtain ⟨key, hkey⟩ := h.key items hitems
    obtain ⟨identified, hidentified⟩ := exists_identity_iff.mpr hkey.2
    obtain ⟨⟨guid, origin⟩, hguid⟩ := exists_stabilityKey_iff.mpr h.guid
    exact ⟨⟨c.id, c.directory, guid.text, origin, c.win64.getD context.win64, key.id, identified,
      items⟩, {
      id := rfl
      directory := rfl
      known := h.directory
      integrations := hchecks
      items := hitems
      closed := hclosed
      key := ⟨key, hkey, rfl, hidentified⟩
      stability := ⟨guid, hguid, rfl⟩
      win64 := rfl }⟩

end Component

/-! ## Manifests -/

/-- What a manifest refers to is there, ids are not used twice, and nothing is left aside. -/
structure Manifest.IsWellFormed (base : StandardFolder) (context : Component.Context)
    (m : Manifest) : Prop where
  ids : (m.components.map (·.id)).Nodup
  components : ∀ c ∈ m.components, c.IsWellFormed context.product m.fileKeys
    (DirectoryTree.seedIds base ++ m.directories.map (·.id))
  /-- Of all components, with the items that their integrations come to. -/
  items : ∀ lists, m.components.mapM (·.allItems context.product) = .ok lists →
    (lists.flatten.map (·.id)).Nodup
  features : Feature.IsSound (m.components.map (·.id)) (Feature.places m.features)
  referenced : ∀ c ∈ m.components, ∃ p ∈ Feature.places m.features, c.id ∈ p.feature.components
  used : ∀ d ∈ m.directories, d.grouping = false →
    ∃ id, DirectoryTree.LiesIn m.directories d.id id ∧ ComponentGraph.Uses context m.components id

namespace ComponentGraph
variable {context : Component.Context}

section Resolved
variable {cs : List Manifest.Component} {rs : List Package.Component}

theorem mapM_resolve (h : List.Forall₂ (Component.Resolves context) cs rs) :
    cs.mapM (Component.resolve context) = .ok rs :=
  mapM_eq_ok.mpr (h.imp fun _ _ => Component.resolve_eq_ok_iff.mpr)

theorem mapM_allItems (h : List.Forall₂ (Component.Resolves context) cs rs) :
    cs.mapM (·.allItems context.product) = .ok (rs.map (·.items)) :=
  mapM_eq_ok.mpr (List.forall₂_map_right_iff.mpr (h.imp fun _ _ hr => hr.items))

/-- There is one way only in which components can be resolved. -/
theorem resolved_unique {rs' : List Package.Component}
    (h : List.Forall₂ (Component.Resolves context) cs rs)
    (h' : List.Forall₂ (Component.Resolves context) cs rs') : rs' = rs := by
  have hboth := mapM_resolve h'
  rw [mapM_resolve h] at hboth
  exact (Except.ok.inj hboth).symm

/-- Resolved components have the ids of their declarations. -/
theorem forall_id_mem_iff (h : List.Forall₂ (Component.Resolves context) cs rs)
    {names : List String} : (∀ r ∈ rs, r.id ∈ names) ↔ ∀ c ∈ cs, c.id ∈ names := by
  have hids : rs.map (·.id) = cs.map (·.id) := map_eq_map_of_related h fun _ _ hr => hr.id
  have hsame : (∀ id ∈ rs.map (·.id), id ∈ names) ↔ ∀ id ∈ cs.map (·.id), id ∈ names := by
    rw [hids]
  rwa [List.forall_mem_map, List.forall_mem_map] at hsame

theorem itemIds_eq (rs : List Package.Component) :
    itemIds rs = (rs.map (·.items)).flatten.map (·.id) := by
  rw [itemIds, List.flatMap_def, List.map_flatten, List.map_map]
  rfl

/-- Components are resolved together if each of them can be resolved. -/
theorem exists_resolved (h : ∀ c ∈ cs, ∃ r, Component.Resolves context c r) :
    ∃ rs, List.Forall₂ (Component.Resolves context) cs rs := by
  simp only [← Component.resolve_eq_ok_iff] at h
  obtain ⟨rs, hrs⟩ := exists_mapM_ok_iff.mpr h
  exact ⟨rs, (mapM_eq_ok.mp hrs).imp fun _ _ => Component.resolve_eq_ok_iff.mp⟩

end Resolved

variable {base : StandardFolder} {m : Manifest}

/-- Of components that are resolved a graph is made if their ids and those of their items are new, the
features are sound and name them all, and no directory is unused. -/
theorem exists_make_iff_of_resolved {rs : List Package.Component}
    (htree : DirectoryTree.make base m.directories = .ok context.directories)
    (hall : List.Forall₂ (Component.Resolves context) m.components rs) :
    (∃ g, make context m = .ok g) ↔ (m.components.map (·.id)).Nodup ∧ (itemIds rs).Nodup ∧
      Feature.IsSound (m.components.map (·.id)) (Feature.places m.features) ∧
        (∀ c ∈ m.components, ∃ p ∈ Feature.places m.features, c.id ∈ p.feature.components) ∧
          ∀ d ∈ m.directories, ¬ IsUnused context m d := by
  have hids : rs.map (·.id) = m.components.map (·.id) :=
    map_eq_map_of_related hall fun _ _ hr => hr.id
  have hresolved : resolveAll context [] [] m.components = .ok rs ↔
      (m.components.map (·.id)).Nodup ∧ (itemIds rs).Nodup := by
    simp [resolveAll_eq_ok_iff, hall, Distinct.firstTaken?_eq_none_iff]
  have hnamed : (∀ r ∈ rs, r.id ∈ Feature.named
        ((Feature.places m.features).map (·.entry m.product.installLevel))) ↔
      ∀ c ∈ m.components, ∃ p ∈ Feature.places m.features, c.id ∈ p.feature.components := by
    rw [forall_id_mem_iff hall, Feature.named_entries]
    simp only [List.mem_flatMap]
  rw [← unused?_eq_none_iff htree hall, ← hnamed, ← and_assoc, ← hresolved, ← hids]
  constructor
  · rintro ⟨g, hg⟩
    obtain ⟨hcomponents, hlist, hnamed, hunused⟩ := make_eq_ok_iff.mp hg
    -- the graph has no other components than those that are resolved already
    have hone := resolved_unique hall (resolveAll_eq_ok_iff.mp hcomponents).1
    rw [hone] at hcomponents hlist hnamed hunused
    obtain ⟨hfeatures, hsound⟩ := Feature.list_eq_ok_iff_isSound.mp hlist
    rw [hfeatures] at hnamed
    exact ⟨hcomponents, hsound, hnamed, hunused⟩
  · rintro ⟨hcomponents, hsound, hnamed, hunused⟩
    exact ⟨⟨rs, _⟩, make_eq_ok_iff.mpr
      ⟨hcomponents, Feature.list_eq_ok_iff_isSound.mpr ⟨rfl, hsound⟩, hnamed, hunused⟩⟩

theorem not_isUnused_iff {d : Manifest.Directory} : ¬ IsUnused context m d ↔ (d.grouping = false →
    ∃ id, DirectoryTree.LiesIn m.directories d.id id ∧ Uses context m.components id) := by
  rw [IsUnused]
  push Not
  rfl

/-- A graph is made of a manifest exactly if it is well-formed, with a component for each that is
declared, in their order, whose items start with the declared ones. -/
theorem exists_make_iff_isWellFormed
    (htree : DirectoryTree.make base m.directories = .ok context.directories)
    (hfiles : context.product.fileKeys = m.fileKeys) :
    ((∃ g, make context m = .ok g) ↔ m.IsWellFormed base context) ∧
      ∀ g, make context m = .ok g → List.Forall₂
        (fun c r => Component.Resolves context c r ∧ c.items <+: r.items)
        m.components g.components := by
  have hknown := DirectoryTree.ids_of_make htree
  have hmenu : StartMenuEntry.standardFolder ∈ context.directories.ids := by
    rw [hknown]
    exact List.mem_append_left _ (StartMenuEntry.standardFolder_mem_seedIds base)
  have hcomponent (c : Manifest.Component) :
      (∃ r, Component.Resolves context c r) ↔ c.IsWellFormed context.product m.fileKeys
        (DirectoryTree.seedIds base ++ m.directories.map (·.id)) := by
    rw [Component.exists_resolves_iff hmenu, hfiles, hknown]
  refine ⟨⟨?_, fun h => ?_⟩, fun g hg => ?_⟩
  · rintro ⟨g, hg⟩
    obtain ⟨hall, -⟩ := resolveAll_eq_ok_iff.mp (make_eq_ok_iff.mp hg).1
    obtain ⟨hids, hitems, hsound, hnamed, hunused⟩ :=
      (exists_make_iff_of_resolved htree hall).mp ⟨g, hg⟩
    constructor
    case ids => exact hids
    case components =>
      intro c hc
      obtain ⟨r, -, hr⟩ := exists_related hall hc
      exact (hcomponent c).mp ⟨r, hr⟩
    case items =>
      intro lists hlists
      rw [mapM_allItems hall] at hlists
      cases hlists
      rwa [← itemIds_eq]
    case features => exact hsound
    case referenced => exact hnamed
    case used => exact fun d hd => not_isUnused_iff.mp (hunused d hd)
  · obtain ⟨rs, hall⟩ := exists_resolved fun c hc => (hcomponent c).mpr (h.components c hc)
    have hitems : (itemIds rs).Nodup := by
      rw [itemIds_eq]
      exact h.items _ (mapM_allItems hall)
    exact (exists_make_iff_of_resolved htree hall).mpr
      ⟨h.ids, hitems, h.features, h.referenced, fun d hd => not_isUnused_iff.mpr (h.used d hd)⟩
  · obtain ⟨hall, -⟩ := resolveAll_eq_ok_iff.mp (make_eq_ok_iff.mp hg).1
    exact hall.imp fun c r hr => ⟨hr, Component.prefix_allItems hr.items⟩

/-- An editor with an integration of each kind, below a vendor's directory that holds nothing else. -/
def integrated : Manifest := { cached with
  directories := [⟨"VendorDir", "Acme", some "ProgramFilesFolder", false⟩,
    ⟨"INSTALLFOLDER", "Editor", some "VendorDir", false⟩,
    ⟨"AcmeMenu", "Acme", some "ProgramMenuFolder", false⟩,
    ⟨"SharedDir", "Shared", none, true⟩]
  components := [{
    id := "Main"
    directory := "INSTALLFOLDER"
    guid := " Auto "
    win64 := none
    items := [.file ⟨"AcmeExe", "acme.exe", none, true⟩,
      .environment ⟨"AcmeHome", "ACME_HOME", "Acme", .last, .set, some false, true, false⟩]
    integrations := [
      .startMenu ⟨"Open", "Acme Editor", "AcmeExe", some "AcmeMenu", none, none, none, false⟩,
      .startMenu ⟨"Manual", "Manual", "AcmeExe", none, none, none, none, false⟩,
      .fileAssociation ⟨".acme", "Acme.Document", "AcmeExe", none, none, "open", none⟩,
      .path ⟨"INSTALLFOLDER", .last, some false, true⟩] }]
  features := [⟨"Core", "Acme Editor", "", 1, false, .collapse, [], [
    ⟨"Editor", "Editor", "", 1, true, .expand, ["Main"], []⟩]⟩] }

def integratedContext : Component.Context where
  product := ⟨.perMachine, "Acme Corp", "Acme Editor", ["AcmeExe"]⟩
  directories := DirectoryTree.seed .programFiles
    |>.insert "VendorDir" "Acme" false false |>.insert "INSTALLFOLDER" "Editor" false false
    |>.insert "AcmeMenu" "Acme" false false |>.insert "SharedDir" "Shared" false true
    |>.link 6 1 |>.link 7 6 |>.link 8 2 |>.link 9 DirectoryTree.root
  upgradeCode := ⟨0⟩
  win64 := false

theorem exists_make_iff_isWellFormed_integrated :
    integrated.IsWellFormed .programFiles integratedContext ∧
    ∃ g, make integratedContext integrated = .ok g ∧ List.Forall₂
      (fun c r => Component.Resolves integratedContext c r ∧ c.items <+: r.items)
      integrated.components g.components := by
  have htree : DirectoryTree.make .programFiles integrated.directories =
      .ok integratedContext.directories := by
    decide +kernel
  obtain ⟨g, hg⟩ : ∃ g, make integratedContext integrated = .ok g :=
    exists_of_isOk (by decide +kernel)
  obtain ⟨hiff, hall⟩ := exists_make_iff_isWellFormed htree rfl
  exact ⟨hiff.mp ⟨g, hg⟩, g, hg, hall g hg⟩

end ComponentGraph
end Installer
