import Installer.Proofs.Component.Rearrangement
import Installer.Proofs.Manifest.Expansion
import Installer.Proofs.Package.Compilation

/-!
# Packages of declarations in another order

The order in which components and directories are declared is kept in the package, and says nothing
else: every check, key, path, feature and step is found as before. Main statement:
`compile_rearranged`.

Each stage is shown to come to the same: the tree in other numbers, components in another order, the
names that guards may use as a set (`exists_settle`). One direction is enough, since the declarations
as they were are themselves a rearrangement.

**What it does not establish.** A manifest that does not compile does not compile in another order
either, but the rule that is reported may be another one. Features, actions and rules stay in their
order: theirs is seen in the package.
-/

set_option autoImplicit false

namespace Installer
open Result

/-- A package that is another one but for the order of its components and directories: these stand as
the ids say, the directories after the standard folders. -/
structure Package.Rearranges (p p' : Package) (componentIds directoryIds : List String) : Prop where
  rest : p' = { p with components := p'.components, directories := p'.directories }
  components : p'.components.Perm p.components
  components_order : p'.components.map (·.id) = componentIds
  directories : p'.directories.Perm p.directories
  directories_order : p'.directories.map (·.id) =
    (DirectoryTree.standardFolders p.product.platform.programFiles).map (·.id) ++ directoryIds

namespace Manifest

/-- The files of components in another order are the same. -/
theorem mem_fileKeys_iff {m m' : Manifest} (h : m'.components.Perm m.components) (key : String) :
    key ∈ m'.fileKeys ↔ key ∈ m.fileKeys :=
  (h.flatMap_right _).mem_iff

/-- Guards may use the same names. -/
theorem mem_namesFor_iff {t t' : DirectoryTree} (ht : t'.ids.Perm t.ids) {g : ComponentGraph}
    {components : List Package.Component} (hcomponents : components.Perm g.components)
    (properties : Dictionary) (o : Guard.Operand) (name : String) :
    name ∈ (guardScope t' ⟨components, g.features⟩ properties).namesFor o ↔
      name ∈ (guardScope t g properties).namesFor o := by
  rw [Guard.Scope.namesFor.eq_def, Guard.Scope.namesFor.eq_def]
  split
  · split
    · rfl
    · exact (hcomponents.map _).mem_iff
  · exact ((ht.append_left _).append_right _).mem_iff

section Settle
variable {i : Injection} {m : Manifest} {components : List Component} {directories : List Directory}

theorem exists_settle {p : Package} (h : m.settle i = .ok p)
    (hcomponents : components.Perm m.components) (hdirectories : directories.Perm m.directories) :
    ∃ p', { m with components, directories }.settle i = .ok p' ∧
      p.Rearranges p' (components.map (·.id)) (directories.map (·.id)) := by
  obtain ⟨upgradeCode, hcode, h⟩ := bind_eq_ok.mp h
  obtain ⟨code, hproduct, h⟩ := bind_eq_ok.mp h
  obtain ⟨t, htree, h⟩ := bind_eq_ok.mp h
  obtain ⟨g, hgraph, h⟩ := bind_eq_ok.mp h
  obtain ⟨schedule, hschedule, h⟩ := bind_eq_ok.mp h
  have hp := Except.ok.inj h
  obtain ⟨σ, t', htree', hrenumbers⟩ :=
    DirectoryTree.exists_renumbers (DirectoryTree.nodup_seedIds _) htree hdirectories
  have hkeys : ∀ key, key ∈ ({ m with components, directories } : Manifest).fileKeys ↔
      key ∈ m.fileKeys :=
    mem_fileKeys_iff hcomponents
  have hagrees : (componentContext i m upgradeCode t).Agrees
      (componentContext i { m with components, directories } upgradeCode t') :=
    ⟨hkeys, rfl, fun _ => hrenumbers.ids.mem_iff, funext hrenumbers.path?_eq, rfl, rfl⟩
  obtain ⟨resolved, hgraph', hresolved, hids⟩ :=
    ComponentGraph.exists_make hagrees hrenumbers hgraph hcomponents hdirectories
  have hnames : ∀ o name,
      name ∈ (guardScope t' ⟨resolved, g.features⟩ m.product.properties).namesFor o ↔
        name ∈ (guardScope t g m.product.properties).namesFor o :=
    mem_namesFor_iff hrenumbers.ids hresolved _
  have hschedule' := (Schedule.make_congr hkeys hnames m.actions m.rules).trans hschedule
  refine ⟨{ p with components := resolved, directories := t'.listing }, ?_, ?_⟩
  · subst hp
    exact bind_eq_ok.mpr ⟨upgradeCode, hcode, bind_eq_ok.mpr ⟨code, hproduct, bind_eq_ok.mpr
      ⟨t', htree', bind_eq_ok.mpr ⟨_, hgraph', bind_eq_ok.mpr ⟨schedule, hschedule', rfl⟩⟩⟩⟩⟩
  · subst hp
    exact ⟨rfl, hresolved, hids, hrenumbers.listing_perm (DirectoryTree.entries_of_make htree)
      (DirectoryTree.entries_of_make htree'), DirectoryTree.ids_of_listing htree'⟩

end Settle

theorem exists_compile {m : Manifest} {s : Settings} {p : Package} (h : m.compile s = .ok p)
    {components : List Component} {directories : List Directory}
    (hcomponents : components.Perm m.components) (hdirectories : directories.Perm m.directories) :
    ∃ p', { m with components, directories }.compile s = .ok p' ∧
      p.Rearranges p' (components.map (·.id)) (directories.map (·.id)) := by
  obtain ⟨i, hi, h⟩ := bind_eq_ok.mp h
  obtain ⟨expanded, hexpanded, h⟩ := bind_eq_ok.mp h
  obtain ⟨components', directories', hexpanded', ⟨hcomponents', hcids⟩, hdirectories', hdids⟩ :=
    exists_expandWith hexpanded hcomponents hdirectories
  obtain ⟨p', hsettle, hrearranges⟩ := exists_settle h hcomponents' hdirectories'
  rw [hcids, hdids] at hrearranges
  exact ⟨p', bind_eq_ok.mpr ⟨i, hi, bind_eq_ok.mpr ⟨_, hexpanded', hsettle⟩⟩, hrearranges⟩

/-- Components and directories in another order: a manifest compiles with them exactly if it compiles
as it is, and then to a package that differs in that order alone. -/
theorem compile_rearranged (m : Manifest) (s : Settings) {components : List Component}
    {directories : List Directory} (hcomponents : components.Perm m.components)
    (hdirectories : directories.Perm m.directories) :
    ({ m with components, directories }.compile s).isOk = (m.compile s).isOk ∧
      ∀ p p', m.compile s = .ok p → { m with components, directories }.compile s = .ok p' →
        p.Rearranges p' (components.map (·.id)) (directories.map (·.id)) := by
  constructor
  · rw [Bool.eq_iff_iff]
    constructor
    · intro hmade
      obtain ⟨p', hp'⟩ := exists_of_isOk hmade
      obtain ⟨p, hp, -⟩ := exists_compile hp' hcomponents.symm hdirectories.symm
      rw [show m.compile s = _ from hp]
      rfl
    · intro hmade
      obtain ⟨p, hp⟩ := exists_of_isOk hmade
      obtain ⟨p', hp', -⟩ := exists_compile hp hcomponents hdirectories
      rw [hp']
      rfl
  · intro p p' hp hp'
    obtain ⟨q, hq, hrearranges⟩ := exists_compile hp hcomponents hdirectories
    rw [hp'] at hq
    cases hq
    exact hrearranges

/-- A program with a link to it, which is declared first, and directories that are declared before
the ones they lie in. -/
def suite : Manifest where
  product := {
    name := "Acme Suite"
    manufacturer := "Acme Corp"
    upgradeCode := "3F2504E0-4F89-11D3-9A0C-0305E82C3301"
    productCode := "6B29FC40-CA47-1067-B31D-00DD010662DA"
    version := "1.0.0"
    language := 1033
    codepage := 1252
    scope := .perMachine
    installLevel := 1
    upgrade := Upgrade.standard
    properties := .ofList [] }
  directories := [⟨"Bin", "bin", some "App", false⟩, ⟨"App", "Suite", some "Maker", false⟩,
    ⟨"Maker", "Acme", none, false⟩]
  components := [
    { id := "Link"
      directory := "App"
      guid := "6BA7B810-9DAD-11D1-80B4-00C04FD430C8"
      win64 := none
      items := [.file ⟨"ReadMe", "readme.txt", none, true⟩,
        .shortcut ⟨"AcmeLink", "Acme", "AcmeExe", "DesktopFolder", none, none, none, none, false⟩]
      integrations := [] },
    { id := "Main"
      directory := "Bin"
      guid := "A0EEBC99-9C0B-4EF8-BB6D-6BB9BD380A11"
      win64 := none
      items := [.file ⟨"AcmeExe", "bin/acme.exe", none, true⟩]
      integrations := [] }]
  features := [⟨"Core", "Core", "", 1, false, .expand, ["Main", "Link"], []⟩]
  actions := [⟨"Setup", "ReadMe", .immediate, true, none, ""⟩]
  rules := [⟨"Setup", none, some "InstallFinalize", some "$Link = 3"⟩]

theorem compile_rearranged_suite :
    ∃ p p', suite.compile ⟨none, "1.0.0", "release", none, none, none, none, none⟩ = .ok p ∧
      { suite with
        components := suite.components.reverse
        directories := suite.directories.reverse }.compile
          ⟨none, "1.0.0", "release", none, none, none, none, none⟩ = .ok p' ∧
      p.Rearranges p' ["Main", "Link"] ["Maker", "App", "Bin"] := by
  have hmade : (suite.compile
      ⟨none, "1.0.0", "release", none, none, none, none, none⟩).isOk = true := by
    decide +kernel
  obtain ⟨hsame, hrearranges⟩ := compile_rearranged suite
    ⟨none, "1.0.0", "release", none, none, none, none, none⟩
    (List.reverse_perm suite.components) (List.reverse_perm suite.directories)
  obtain ⟨p, hp⟩ := exists_of_isOk hmade
  obtain ⟨p', hp'⟩ := exists_of_isOk (hsame.trans hmade)
  exact ⟨p, p', hp, hp', hrearranges p p' hp hp'⟩

end Manifest
end Installer
