import Installer.Proofs.Guid
import Installer.Proofs.Identity
import Installer.Proofs.Package.Baseline

/-!
# Derived stability keys

What identifies a component is the identity of its key path, under the install path of its directory
(`exists_keyPath`). A key that is not declared is derived from that, so two components share a derived
key exactly if they are identified alike, as far as the derivation keeps their identities apart
(`Guid.Separates`). Nothing keeps two components from having one key path
(`compile_shares_key_copies`). Main statement: `compile_derived_key_eq_iff`.

**What it does not establish.** That components have different keys is not shown, because components
with one key path share one. The derivation is assumed to keep the identities of the package apart and
nothing else is asked of it.
-/

set_option autoImplicit false

namespace Installer
open Result

/-- Different names of a list have different GUIDs in a space. -/
def Guid.Separates (space : Guid) (names : List String) : Prop :=
  ∀ a ∈ names, ∀ b ∈ names, space.named a = space.named b → a = b

theorem Guid.separates_of_nodup {space : Guid} {names : List String}
    (h : (names.map space.named).Nodup) : space.Separates names :=
  fun _ ha _ hb => List.inj_on_of_nodup_map h ha hb

theorem Guid.Separates.mono {space : Guid} {names more : List String}
    (h : space.Separates more) (hsub : ∀ a ∈ names, a ∈ more) : space.Separates names :=
  fun a ha b hb => h a (hsub a ha) b (hsub b hb)

namespace Package
variable (p : Package)

/-- The path of a directory; that of the target directory, which is not listed, is empty. -/
def installPath (directory : String) : String :=
  (p.directories.find? (·.id = directory)).elim "" (·.path)

/-- Where the key path of a component is. -/
def keyPathOf? (c : Component) : Option KeyPath :=
  (c.items.find? (·.keyPath)).bind (Item.keyPathIn? (p.installPath c.directory))

/-- The identities from which keys are derived. -/
def derivedIdentities : List String :=
  (p.components.filter (·.stability = .auto)).map (·.keyPathIdentity)

end Package

namespace Manifest
variable {m : Manifest} {s : Settings} {p : Package}

/-- Every component of a compiled package is identified by its key path. -/
theorem exists_keyPath (h : m.compile s = .ok p) {c : Package.Component} (hc : c ∈ p.components) :
    ∃ k, p.keyPathOf? c = some k ∧ k.identity = c.keyPathIdentity := by
  obtain ⟨i, expanded, upgradeCode, t, g, -, -, hsettles⟩ := compile_eq_ok h
  obtain ⟨d, -, hd⟩ := exists_related hsettles.resolved.1.flip hc
  obtain ⟨key, ⟨hmarked, -⟩, -, hidentity⟩ := hd.key
  have hkey : c.items.find? (·.keyPath) = some key := by
    rw [← List.head?_filter, hmarked]
    rfl
  have hpath : p.installPath c.directory = (t.path? d.directory).getD "" := by
    rw [Package.installPath, hsettles.directories, hd.directory]
    exact DirectoryTree.path_of_listing (DirectoryTree.nodup_seedIds _) hsettles.tree _
  have hitem : key.keyPathIdentity? (p.installPath c.directory) = some c.keyPathIdentity := by
    unfold Component.identity componentContext at hidentity
    rw [hpath]
    split at hidentity
    · next hsome =>
      cases hidentity
      exact hsome
    · cases hidentity
  rw [Item.keyPathIdentity?_eq_map] at hitem
  obtain ⟨k, hk, hkidentity⟩ := Option.map_eq_some_iff.mp hitem
  exact ⟨k, by rw [Package.keyPathOf?, hkey, Option.bind_some, hk], hkidentity⟩

/-- Two components with derived keys have one key exactly if they are identified alike, each by its
key path. So they have one key exactly if they have one key path, unless there is a bar in the place
of one and in the name of the other. -/
theorem compile_derived_key_eq_iff (h : m.compile s = .ok p) {space : Guid}
    (hspace : p.product.upgradeCode = space.text) (hseparates : space.Separates p.derivedIdentities)
    {c d : Package.Component} (hc : c ∈ p.components) (hd : d ∈ p.components)
    (hcauto : c.stability = .auto) (hdauto : d.stability = .auto) :
    (c.guid = d.guid ↔ c.keyPathIdentity = d.keyPathIdentity) ∧
    ∃ k l, p.keyPathOf? c = some k ∧ p.keyPathOf? d = some l ∧
      k.identity = c.keyPathIdentity ∧ l.identity = d.keyPathIdentity ∧
      (¬(HasBar l.place ∧ HasBar k.name) → ¬(HasBar k.place ∧ HasBar l.name) →
        (c.guid = d.guid ↔ k = l)) := by
  obtain ⟨space', hcode, hderived⟩ := exists_space_of_auto h
  obtain rfl : space' = space := Guid.text_injective (hcode.symm.trans hspace)
  have hmem : ∀ {c : Package.Component}, c ∈ p.components → c.stability = .auto →
      c.keyPathIdentity ∈ p.derivedIdentities := fun hc hauto =>
    List.mem_map_of_mem (List.mem_filter.mpr ⟨hc, by simpa using hauto⟩)
  have hkeys : c.guid = d.guid ↔ c.keyPathIdentity = d.keyPathIdentity := by
    rw [hderived c hc hcauto, hderived d hd hdauto]
    constructor
    · intro heq
      exact hseparates _ (hmem hc hcauto) _ (hmem hd hdauto) (Guid.text_injective heq)
    · intro heq
      rw [heq]
  obtain ⟨k, hk, hkidentity⟩ := exists_keyPath h hc
  obtain ⟨l, hl, hlidentity⟩ := exists_keyPath h hd
  refine ⟨hkeys, k, l, hk, hl, hkidentity, hlidentity, fun hkl hlk => ?_⟩
  rw [hkeys, ← hkidentity, ← hlidentity, KeyPath.identity_eq_iff_of_no_bar hkl hlk]

/-- An editor that installs its program twice, under one name in one directory, and a help file. -/
def copies : Manifest where
  product := {
    name := "Acme Editor"
    manufacturer := "Acme Corp"
    upgradeCode := "3F2504E0-4F89-11D3-9A0C-0305E82C3301"
    productCode := "6B29FC40-CA47-1067-B31D-00DD010662DA"
    version := "$\x7bversion\x7d"
    language := 1033
    codepage := 1252
    scope := .perMachine
    installLevel := 1
    upgrade := Upgrade.standard
    properties := .empty }
  directories := [⟨"INSTALLFOLDER", "Acme", none, false⟩]
  components := [
    { id := "Main"
      directory := "INSTALLFOLDER"
      guid := "auto"
      win64 := none
      items := [.file ⟨"AcmeExe", "bin/acme.exe", none, true⟩]
      integrations := [] },
    { id := "Debug"
      directory := "INSTALLFOLDER"
      guid := "auto"
      win64 := none
      items := [.file ⟨"AcmeDebugExe", "debug/acme.exe", none, true⟩]
      integrations := [] },
    { id := "Help"
      directory := "INSTALLFOLDER"
      guid := "auto"
      win64 := none
      items := [.file ⟨"AcmeHelp", "bin/acme.chm", none, true⟩]
      integrations := [] }]
  features := [⟨"Core", "Acme Editor", "", 1, false, .collapse, ["Main", "Debug", "Help"], []⟩]
  actions := []
  rules := []

/-- Settings that the editor is built with. -/
def copySettings : Settings := ⟨some "x64", "1.0.0", "release", none, none, none, none, none⟩

/-- The upgrade code of the editor. -/
def copySpace : Guid := ⟨0x3F2504E04F8911D39A0C0305E82C3301⟩

/-- What identifies both programs. -/
def programIdentity : String := "file|acme|acme.exe"

/-- What identifies the help file. -/
def helpIdentity : String := "file|acme|acme.chm"

theorem compile_copies : ((copies.compile copySettings).map fun p => (p.product.upgradeCode,
    p.components.map fun c => (c.id, c.stability, c.keyPathIdentity))) =
    .ok (copySpace.text, [("Main", .auto, programIdentity), ("Debug", .auto, programIdentity),
      ("Help", .auto, helpIdentity)]) := by
  decide +kernel

/-- The package of the editor has the two programs and the help file. -/
theorem exists_copies : ∃ p c d e, copies.compile copySettings = .ok p ∧
    p.product.upgradeCode = copySpace.text ∧ p.components = [c, d, e] ∧
    (c.id = "Main" ∧ c.stability = .auto ∧ c.keyPathIdentity = programIdentity) ∧
    (d.id = "Debug" ∧ d.stability = .auto ∧ d.keyPathIdentity = programIdentity) ∧
    e.id = "Help" ∧ e.stability = .auto ∧ e.keyPathIdentity = helpIdentity := by
  have hview := compile_copies
  cases hp : copies.compile copySettings with
  | error v =>
    rw [hp] at hview
    exact nomatch hview
  | ok p =>
    rw [hp] at hview
    obtain ⟨hcode, hcomponents⟩ := Prod.mk.inj (Except.ok.inj hview)
    obtain ⟨c, rest, hpc, hc, hrest⟩ := List.map_eq_cons_iff.mp hcomponents
    obtain ⟨d, last, rfl, hd, hlast⟩ := List.map_eq_cons_iff.mp hrest
    obtain ⟨e, rfl, he⟩ := List.map_eq_singleton_iff.mp hlast
    simp only [Prod.mk.injEq] at hc hd he
    exact ⟨p, c, d, e, rfl, hcode, hpc, hc, hd, he⟩

/-- The derivation keeps the two identities apart. -/
theorem separates_copies {p : Package} {c d e : Package.Component}
    (hcomponents : p.components = [c, d, e]) (hc : c.keyPathIdentity = programIdentity)
    (hd : d.keyPathIdentity = programIdentity) (he : e.keyPathIdentity = helpIdentity) :
    copySpace.Separates p.derivedIdentities := by
  have hapart : copySpace.named programIdentity ≠ copySpace.named helpIdentity := by
    decide +kernel
  have hnames : ∀ a ∈ p.derivedIdentities, a = programIdentity ∨ a = helpIdentity := by
    intro a ha
    obtain ⟨x, hx, rfl⟩ := List.mem_map.mp ha
    have hmem := (List.mem_filter.mp hx).1
    rw [hcomponents] at hmem
    rcases (by simpa using hmem : x = c ∨ x = d ∨ x = e) with rfl | rfl | rfl
    · exact .inl hc
    · exact .inl hd
    · exact .inr he
  intro a ha b hb heq
  rcases hnames a ha with rfl | rfl <;> rcases hnames b hb with rfl | rfl
  · rfl
  · exact absurd heq hapart
  · exact absurd heq.symm hapart
  · rfl

/-- The two programs of a compiled package have one derived key, though the derivation keeps all
identities of the package apart. -/
theorem compile_shares_key_copies : ∃ p space c d, copies.compile copySettings = .ok p ∧
    p.product.upgradeCode = Guid.text space ∧ space.Separates p.derivedIdentities ∧
    c ∈ p.components ∧ d ∈ p.components ∧ c ≠ d ∧ c.stability = .auto ∧ d.stability = .auto ∧
    c.guid = d.guid := by
  obtain ⟨p, c, d, e, hp, hcode, hcomponents, ⟨hcid, hcauto, hcidentity⟩,
    ⟨hdid, hdauto, hdidentity⟩, -, -, heidentity⟩ := exists_copies
  have hcmem : c ∈ p.components := by simp [hcomponents]
  have hdmem : d ∈ p.components := by simp [hcomponents]
  obtain ⟨space, -, hderived⟩ := exists_space_of_auto hp
  have hguid : c.guid = d.guid := by
    rw [hderived c hcmem hcauto, hderived d hdmem hdauto, hcidentity, hdidentity]
  have hne : c ≠ d := by
    intro heq
    rw [heq, hdid] at hcid
    exact absurd hcid (by decide)
  exact ⟨p, copySpace, c, d, hp, hcode,
    separates_copies hcomponents hcidentity hdidentity heidentity, hcmem, hdmem, hne, hcauto, hdauto,
    hguid⟩

/-- The program and the help file have different keys. -/
theorem compile_derived_key_eq_iff_copies : ∃ p c e, copies.compile copySettings = .ok p ∧
    c ∈ p.components ∧ e ∈ p.components ∧ c.stability = .auto ∧ e.stability = .auto ∧
    c.guid ≠ e.guid := by
  obtain ⟨p, c, d, e, hp, hcode, hcomponents, ⟨-, hcauto, hcidentity⟩, ⟨-, -, hdidentity⟩, -,
    heauto, heidentity⟩ := exists_copies
  have hcmem : c ∈ p.components := by simp [hcomponents]
  have hemem : e ∈ p.components := by simp [hcomponents]
  have hkeys := (compile_derived_key_eq_iff hp hcode
    (separates_copies hcomponents hcidentity hdidentity heidentity) hcmem hemem hcauto heauto).1
  refine ⟨p, c, e, hp, hcmem, hemem, hcauto, heauto, ?_⟩
  rw [ne_eq, hkeys, hcidentity, heidentity]
  decide

end Manifest
end Installer
