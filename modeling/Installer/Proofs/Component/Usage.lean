import Installer.Proofs.Component.Graph
import Installer.Proofs.Directory.Rootedness

/-!
# Directories that nothing uses

A directory is used by what lies in it: itself, or a directory below it, is that of a component, of a
shortcut or of the removal of a folder. The rule quantifies over what lies in a directory (`LiesIn`),
while the graph goes up from every directory that is used. The two meet in `mem_way_iff`: a declared
directory is found on the way up from another exactly if the other lies in it. Main statement:
`make_finds_unused`.

**What it does not establish.** The rule is reported only where every other check of the graph is
passed, and that is a premise of the main statement. A directory that is there to group others is
never reported, used or not.
-/

set_option autoImplicit false

namespace Installer
open Result

/-! ## What lies in a directory -/

namespace DirectoryTree

/-- A directory lies in itself and in what its parent lies in. -/
inductive LiesIn (declared : List Manifest.Directory) (outer : String) : String → Prop
  | itself : LiesIn declared outer outer
  | inside {d : Manifest.Directory} {parent : String} : d ∈ declared → d.parent = some parent →
      LiesIn declared outer parent → LiesIn declared outer d.id

variable {base : StandardFolder} {declared : List Manifest.Directory} {t : DirectoryTree}
  {outer : Manifest.Directory}

/-- The target directory and the standard folders lie in nothing that is declared. -/
theorem not_mem_seedIds_of_liesIn (hnew : AreNew base declared) (houter : outer ∈ declared)
    {id : String} (hid : LiesIn declared outer.id id) : id ∉ seedIds base := by
  cases hid with
  | itself => exact hnew.2 outer houter
  | inside hd _ _ => exact hnew.2 _ hd

theorem isKnown_of_liesIn (houter : outer ∈ declared) {id : String}
    (hid : LiesIn declared outer.id id) : IsKnown base declared id := by
  cases hid with
  | itself => exact .inr ⟨outer, houter, rfl⟩
  | @inside d _ hd _ _ => exact .inr ⟨d, hd, rfl⟩

namespace Arranges
variable (h : Arranges base declared t) (houter : outer ∈ declared) {p : Nat}
  (hp : t.position? outer.id = some p)

include h houter hp

/-- A way that meets a declared directory starts in it. -/
theorem liesIn_of_mem {start : Nat} {above : List Nat} (hway : t.Way start above)
    (hmem : p ∈ start :: above) :
    ∀ {id : String}, t.ids[start]? = some id → LiesIn declared outer.id id := by
  have hid := getElem?_of_lastPosition? hp
  have hseed {id : String} (hlies : LiesIn declared outer.id id) : id ∉ seedIds base :=
    not_mem_seedIds_of_liesIn h.new houter hlies
  induction hway with
  | here =>
    intro id hstart
    obtain rfl : p = root := by simpa using hmem
    cases hid.symm.trans hstart
    exact .itself
  | @step start q above hparent _ ih =>
    intro id hstart
    rcases List.mem_cons.mp hmem with rfl | hmem
    · cases hid.symm.trans hstart
      exact .itself
    · obtain ⟨node, hnode, rfl⟩ := exists_node_of_id hstart
      rw [parentOf?, hnode, Option.bind_some] at hparent
      rcases h.node_cases hnode with ⟨-, rfl⟩ | ⟨folder, -, rfl⟩ | ⟨d, hd, q', hq, rfl⟩
      · cases hparent
      · cases hparent
        exact absurd List.mem_cons_self (hseed (ih hmem h.id_root))
      · cases hparent
        have hlies := ih hmem (h.getElem?_parentPosition? hq)
        cases hnamed : d.parent with
        | none =>
          rw [hnamed] at hlies
          exact absurd List.mem_cons_self (hseed hlies)
        | some parent =>
          rw [hnamed] at hlies
          exact .inside hd hnamed hlies

omit houter in
/-- From what lies in a directory the way up meets it. -/
theorem mem_of_liesIn (hstray : t.stray? = none) {id : String} (hid : LiesIn declared outer.id id) :
    ∀ {start : Nat}, t.position? id = some start → p ∈ start :: t.ancestors start := by
  induction hid with
  | itself =>
    intro start hstart
    rw [hp] at hstart
    cases hstart
    exact List.mem_cons_self
  | @inside d parent hd hparent _ ih =>
    intro start hstart
    have hlt := lt_of_position? hstart
    obtain ⟨q, hq, hnode⟩ := h.node_of_declared hd (getElem?_of_lastPosition? hstart)
    have hparentOf : t.parentOf? start = some q := by
      rw [parentOf?, hnode]
      rfl
    rw [parentPosition?, hparent, Option.elim_some] at hq
    rw [ancestors_of_parentOf? h.isLinked hlt (rooted_of_stray hstray hlt) hparentOf]
    exact List.mem_cons_of_mem _ (ih hq)

/-- The way up meets a declared directory exactly from what lies in it. -/
theorem mem_way_iff (hstray : t.stray? = none) {id : String} {start : Nat}
    (hstart : t.position? id = some start) :
    p ∈ start :: t.ancestors start ↔ LiesIn declared outer.id id := by
  have hid := getElem?_of_lastPosition? hstart
  obtain ⟨above, hway⟩ := rooted_iff_exists_way.mp (rooted_of_stray hstray (lt_of_id hid))
  refine ⟨fun hmem => ?_, fun hlies => h.mem_of_liesIn hp hstray hlies hstart⟩
  rw [hway.ancestors_eq h.isLinked (lt_of_id hid)] at hmem
  exact h.liesIn_of_mem houter hp hway hmem hid

end Arranges
end DirectoryTree

namespace ComponentGraph

/-! ## What is used -/

/-- A component uses the directory that it goes to and those of its shortcuts and removals, whether these
are declared or come from an integration. -/
inductive Uses (context : Component.Context) (declared : List Manifest.Component) : String → Prop
  | component {c : Manifest.Component} : c ∈ declared → Uses context declared c.directory
  | shortcut {c : Manifest.Component} {items : List Item} {s : Shortcut} : c ∈ declared →
      c.allItems context.product = .ok items → .shortcut s ∈ items → Uses context declared s.directory
  | removal {c : Manifest.Component} {items : List Item} {r : FolderRemoval} : c ∈ declared →
      c.allItems context.product = .ok items → .removeFolder r ∈ items →
      Uses context declared r.directory

/-- A directory that is not there to group others, and nothing that lies in it is used. -/
def IsUnused (context : Component.Context) (m : Manifest) (d : Manifest.Directory) : Prop :=
  d.grouping = false ∧
    ∀ id, DirectoryTree.LiesIn m.directories d.id id → ¬ Uses context m.components id

variable {context : Component.Context} {m : Manifest} {components : List Package.Component}

theorem directoryOf?_eq_some_iff {item : Item} {id : String} : directoryOf? item = some id ↔
    (∃ s, item = .shortcut s ∧ s.directory = id) ∨ ∃ r, item = .removeFolder r ∧ r.directory = id := by
  cases item <;> simp [directoryOf?]

theorem mem_usedDirectories_of_item
    (h : List.Forall₂ (Component.Resolves context) m.components components) {c : Manifest.Component}
    (hc : c ∈ m.components) {items : List Item} (hitems : c.allItems context.product = .ok items)
    {item : Item} (hmem : item ∈ items) {id : String} (hid : directoryOf? item = some id) :
    id ∈ usedDirectories components := by
  obtain ⟨r, hr, hresolves⟩ := exists_related h hc
  rw [hresolves.items] at hitems
  cases hitems
  exact List.mem_flatMap.mpr ⟨r, hr, List.mem_cons_of_mem _ (List.mem_filterMap.mpr ⟨_, hmem, hid⟩)⟩

/-- Resolved components use what their declarations use. -/
theorem mem_usedDirectories_iff
    (h : List.Forall₂ (Component.Resolves context) m.components components) {id : String} :
    id ∈ usedDirectories components ↔ Uses context m.components id := by
  constructor
  · intro hused
    obtain ⟨r, hr, hid⟩ := List.mem_flatMap.mp hused
    obtain ⟨c, hc, hresolves⟩ := exists_related h.flip hr
    rcases List.mem_cons.mp hid with rfl | hdirectory
    · rw [hresolves.directory]
      exact .component hc
    · obtain ⟨item, hmem, hdirectory⟩ := List.mem_filterMap.mp hdirectory
      rcases directoryOf?_eq_some_iff.mp hdirectory with ⟨s, rfl, rfl⟩ | ⟨r, rfl, rfl⟩
      · exact .shortcut hc hresolves.items hmem
      · exact .removal hc hresolves.items hmem
  · intro huses
    cases huses with
    | component hc =>
      obtain ⟨r, hr, hresolves⟩ := exists_related h hc
      rw [← hresolves.directory]
      exact List.mem_flatMap.mpr ⟨r, hr, List.mem_cons_self⟩
    | shortcut hc hitems hmem => exact mem_usedDirectories_of_item h hc hitems hmem rfl
    | removal hc hitems hmem => exact mem_usedDirectories_of_item h hc hitems hmem rfl

section Unused
variable {base : StandardFolder}
  (htree : DirectoryTree.make base m.directories = .ok context.directories)
  (hresolved : List.Forall₂ (Component.Resolves context) m.components components)

include htree hresolved

/-- A declared directory is on the way up from one that is used exactly if something in it is used. -/
theorem mem_usedPositions_iff {d : Manifest.Directory} (hd : d ∈ m.directories) {p : Nat}
    (hp : context.directories.position? d.id = some p) :
    p ∈ usedPositions context.directories components ↔
      ∃ id, DirectoryTree.LiesIn m.directories d.id id ∧ Uses context m.components id := by
  have harranges := DirectoryTree.arranges_of_make htree
  have hstray := DirectoryTree.stray?_of_make htree
  simp only [usedPositions, List.mem_flatMap, List.mem_filterMap, mem_usedDirectories_iff hresolved]
  constructor
  · rintro ⟨start, ⟨id, huses, hstart⟩, hmem⟩
    exact ⟨id, (harranges.mem_way_iff hd hp hstray hstart).mp hmem, huses⟩
  · rintro ⟨id, hlies, huses⟩
    obtain ⟨start, hstart⟩ := Option.isSome_iff_exists.mp
      (harranges.isSome_position?_iff.mpr (DirectoryTree.isKnown_of_liesIn hd hlies))
    exact ⟨start, ⟨id, huses, hstart⟩, (harranges.mem_way_iff hd hp hstray hstart).mpr hlies⟩

/-- A declared directory is looked for exactly if it is unused. -/
theorem isUnused_iff {d : Manifest.Directory} (hd : d ∈ m.directories) :
    (!d.grouping && (context.directories.position? d.id).any fun p =>
      !(usedPositions context.directories components).contains p) = true ↔ IsUnused context m d := by
  obtain ⟨p, hp⟩ := Option.isSome_iff_exists.mp
    ((DirectoryTree.arranges_of_make htree).isSome_position?_iff.mpr (.inr ⟨d, hd, rfl⟩))
  have hused := mem_usedPositions_iff htree hresolved hd hp
  rw [hp, Option.any_some, Bool.and_eq_true, Bool.not_eq_true', Bool.not_eq_true',
    List.contains_eq_mem, decide_eq_false_iff_not, hused, IsUnused]
  push Not
  rfl

theorem unused?_eq_some_iff {d : Manifest.Directory} :
    unused? context.directories components m.directories = some d ↔
      ∃ front back, m.directories = front ++ d :: back ∧
        (∀ earlier ∈ front, ¬ IsUnused context m earlier) ∧ IsUnused context m d :=
  find?_eq_some_iff_first fun _ hd => isUnused_iff htree hresolved hd

theorem unused?_eq_none_iff : unused? context.directories components m.directories = none ↔
    ∀ d ∈ m.directories, ¬ IsUnused context m d := by
  unfold unused?
  rw [List.find?_eq_none]
  exact forall₂_congr fun d hd => not_congr (isUnused_iff htree hresolved hd)

end Unused

/-- Where all other checks are passed, the first directory that is unused is reported, and a graph is
made if there is none. -/
theorem make_finds_unused {base : StandardFolder} {features : List Package.Feature}
    (htree : DirectoryTree.make base m.directories = .ok context.directories)
    (hresolved : resolveAll context [] [] m.components = .ok components)
    (hfeatures : Feature.list m.product.installLevel (components.map (·.id)) m.features =
      .ok features)
    (hnamed : ∀ c ∈ components, c.id ∈ Feature.named features) :
    (∀ id, make context m = .error (.unusedDirectory id) ↔
      ∃ front d back, m.directories = front ++ d :: back ∧ d.id = id ∧ IsUnused context m d ∧
        ∀ earlier ∈ front, ¬ IsUnused context m earlier) ∧
    ((∀ d ∈ m.directories, ¬ IsUnused context m d) → make context m = .ok ⟨components, features⟩) := by
  obtain ⟨hall, -, -⟩ := resolveAll_eq_ok_iff.mp hresolved
  have hmake := make_of_checked hresolved hfeatures hnamed
  constructor
  · intro id
    rw [hmake]
    constructor
    · intro hfails
      cases hunused : unused? context.directories components m.directories with
      | none =>
        rw [hunused] at hfails
        cases hfails
      | some d =>
        rw [hunused] at hfails
        cases hfails
        obtain ⟨front, back, hsplit, hfront, hd⟩ := (unused?_eq_some_iff htree hall).mp hunused
        exact ⟨front, d, back, hsplit, rfl, hd, hfront⟩
    · rintro ⟨front, d, back, hsplit, rfl, hd, hfront⟩
      rw [(unused?_eq_some_iff htree hall).mpr ⟨front, back, hsplit, hfront, hd⟩]
      rfl
  · intro hnone
    rw [hmake, (unused?_eq_none_iff htree hall).mpr hnone]
    rfl

/-- An editor whose cache nothing uses. The folder of its start menu is used by the entry that is made
for it, and the vendor's by the editor's, which lies in it. -/
def cached : Manifest where
  product := {
    name := "Acme Editor"
    manufacturer := "Acme Corp"
    upgradeCode := "3F2504E0-4F89-11D3-9A0C-0305E82C3301"
    productCode := "auto"
    version := "1.0.0"
    language := 1033
    codepage := 1252
    scope := .perMachine
    installLevel := 1
    upgrade := Manifest.Upgrade.standard
    properties := .empty }
  directories := [⟨"VendorDir", "Acme", some "ProgramFilesFolder", false⟩,
    ⟨"INSTALLFOLDER", "Editor", some "VendorDir", false⟩,
    ⟨"AcmeMenu", "Acme", some "ProgramMenuFolder", false⟩,
    ⟨"SharedDir", "Shared", none, true⟩,
    ⟨"CacheDir", "Cache", some "SharedDir", false⟩]
  components := [{
    id := "Main"
    directory := "INSTALLFOLDER"
    guid := "auto"
    win64 := none
    items := [.file ⟨"AcmeExe", "acme.exe", none, true⟩]
    integrations := [.startMenu
      ⟨"Open", "Acme Editor", "AcmeExe", some "AcmeMenu", none, none, none, false⟩] }]
  features := [⟨"Core", "Acme Editor", "", 1, false, .collapse, ["Main"], []⟩]
  actions := []
  rules := []

def cachedContext : Component.Context where
  product := ⟨.perMachine, "Acme Corp", "Acme Editor", ["AcmeExe"]⟩
  directories := DirectoryTree.seed .programFiles
    |>.insert "VendorDir" "Acme" false false |>.insert "INSTALLFOLDER" "Editor" false false
    |>.insert "AcmeMenu" "Acme" false false |>.insert "SharedDir" "Shared" false true
    |>.insert "CacheDir" "Cache" false false
    |>.link 6 1 |>.link 7 6 |>.link 8 2 |>.link 9 DirectoryTree.root |>.link 10 9
  upgradeCode := ⟨0⟩
  win64 := false

theorem make_finds_unused_cache :
    DirectoryTree.make .programFiles cached.directories = .ok cachedContext.directories ∧
    (∃ g : ComponentGraph, resolveAll cachedContext [] [] cached.components = .ok g.components ∧
      Feature.list cached.product.installLevel (g.components.map (·.id)) cached.features =
        .ok g.features ∧ ∀ c ∈ g.components, c.id ∈ Feature.named g.features) ∧
    make cachedContext cached = .error (.unusedDirectory "CacheDir") ∧
    ∃ front d back, cached.directories = front ++ d :: back ∧ d.id = "CacheDir" ∧
      IsUnused cachedContext cached d ∧ ∀ earlier ∈ front, ¬ IsUnused cachedContext cached earlier := by
  have htree : DirectoryTree.make .programFiles cached.directories =
      .ok cachedContext.directories := by
    decide +kernel
  -- With no directories declared there is none to report, and the graph is made.
  obtain ⟨g, hg⟩ : ∃ g, make cachedContext { cached with directories := [] } = .ok g :=
    exists_of_isOk (by decide +kernel)
  obtain ⟨hresolved, hfeatures, hnamed, -⟩ := make_eq_ok_iff.mp hg
  have hreported : make cachedContext cached = .error (.unusedDirectory "CacheDir") := by
    decide +kernel
  have hunused := ((make_finds_unused htree hresolved hfeatures hnamed).1 "CacheDir").mp hreported
  exact ⟨htree, ⟨g, hresolved, hfeatures, hnamed⟩, hreported, hunused⟩

end ComponentGraph
end Installer
