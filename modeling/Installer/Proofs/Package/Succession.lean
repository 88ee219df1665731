import Installer.Proofs.Package.StabilityKeys

/-!
# Derived keys from one build to the next

Two packages with one upgrade code derive their keys in one space. So a derived key of one is a derived
key of the other exactly if it stands for the same key path, whatever else has changed in the manifest
or the settings (`derived_keys_eq_iff`), and packages that derive all their keys are accepted after
each other in either order (`checkBaseline_of_derived`). The premise is that the derivation keeps the
identities of both packages apart (`Guid.Separates`). Main statement: `compile_derived_keys_follow`.

**What it does not establish.** The two packages may come from different manifests; what ties them is
the upgrade code alone. Packages that declare some of their keys may be refused after each other.
-/

set_option autoImplicit false

namespace Installer.Package

/-- The package derives the keys that it does not declare from the key paths, in a space. -/
structure DerivesIn (space : Guid) (p : Package) : Prop where
  upgradeCode : p.product.upgradeCode = space.text
  guid : ∀ c ∈ p.components, c.stability = .auto → c.guid = (space.named c.keyPathIdentity).text

variable {space : Guid} {p q : Package}

theorem keyPathIdentity_mem {c : Component} (hc : c ∈ p.components) (hauto : c.stability = .auto) :
    c.keyPathIdentity ∈ p.derivedIdentities :=
  List.mem_map_of_mem (List.mem_filter.mpr ⟨hc, by simpa using hauto⟩)

/-- Two derived keys of packages in one space are the same exactly if the components are identified
alike. -/
theorem derived_keys_eq_iff (hp : p.DerivesIn space) (hq : q.DerivesIn space)
    (hseparates : space.Separates (p.derivedIdentities ++ q.derivedIdentities))
    {c d : Component} (hc : c ∈ p.components) (hd : d ∈ q.components)
    (hcauto : c.stability = .auto) (hdauto : d.stability = .auto) :
    c.guid = d.guid ↔ c.keyPathIdentity = d.keyPathIdentity := by
  rw [hp.guid c hc hcauto, hq.guid d hd hdauto]
  constructor
  · intro heq
    exact hseparates _ (List.mem_append_left _ (keyPathIdentity_mem hc hcauto)) _
      (List.mem_append_right _ (keyPathIdentity_mem hd hdauto)) (Guid.text_injective heq)
  · intro heq
    rw [heq]

/-- A package is accepted after another in whose space it derives all its keys. -/
theorem checkBaseline_of_derived (hp : p.DerivesIn space) (hq : q.DerivesIn space)
    (hseparates : space.Separates (p.derivedIdentities ++ q.derivedIdentities))
    (hpauto : ∀ c ∈ p.components, c.stability = .auto)
    (hqauto : ∀ c ∈ q.components, c.stability = .auto) : p.checkBaseline q = .ok () := by
  rw [checkBaseline_eq_ok_iff]
  refine ⟨by simp [hp.upgradeCode, hq.upgradeCode, Text.sameIgnoringAsciiCase], ?_⟩
  intro c hc old hold
  obtain ⟨holdmem, hkey⟩ := componentWithKey?_eq_some hold
  have hkeys := derived_keys_eq_iff hp hq hseparates hc holdmem (hpauto c hc) (hqauto old holdmem)
  exact (hkeys.mp hkey.symm).symm

end Installer.Package

namespace Installer.Manifest

theorem derivesIn_of_compile {m : Manifest} {s : Settings} {p : Package} {space : Guid}
    (h : m.compile s = .ok p) (hspace : p.product.upgradeCode = space.text) :
    p.DerivesIn space := by
  obtain ⟨space', hcode, hderived⟩ := exists_space_of_auto h
  obtain rfl : space' = space := Guid.text_injective (hcode.symm.trans hspace)
  exact ⟨hspace, hderived⟩

/-- Of any two packages with one upgrade code, two components with derived keys have one key exactly
if they are identified alike, each by its key path. Packages that derive all their keys are accepted
after each other. -/
theorem compile_derived_keys_follow {m n : Manifest} {s r : Settings} {p q : Package}
    (hp : m.compile s = .ok p) (hq : n.compile r = .ok q)
    (hcode : q.product.upgradeCode = p.product.upgradeCode) {space : Guid}
    (hspace : p.product.upgradeCode = space.text)
    (hseparates : space.Separates (p.derivedIdentities ++ q.derivedIdentities)) :
    (∀ c ∈ p.components, ∀ d ∈ q.components, c.stability = .auto → d.stability = .auto →
      (c.guid = d.guid ↔ c.keyPathIdentity = d.keyPathIdentity) ∧
      ∃ k l, p.keyPathOf? c = some k ∧ q.keyPathOf? d = some l ∧
        k.identity = c.keyPathIdentity ∧ l.identity = d.keyPathIdentity) ∧
    ((∀ c ∈ p.components, c.stability = .auto) → (∀ d ∈ q.components, d.stability = .auto) →
      p.checkBaseline q = .ok () ∧ q.checkBaseline p = .ok ()) := by
  have hpderives := derivesIn_of_compile hp hspace
  have hqderives := derivesIn_of_compile hq (hcode.trans hspace)
  have hswapped : space.Separates (q.derivedIdentities ++ p.derivedIdentities) :=
    fun a ha b hb => hseparates a (List.perm_append_comm.mem_iff.mp ha) b
      (List.perm_append_comm.mem_iff.mp hb)
  refine ⟨fun c hc d hd hcauto hdauto => ⟨?_, ?_⟩, fun hpauto hqauto => ⟨?_, ?_⟩⟩
  · exact Package.derived_keys_eq_iff hpderives hqderives hseparates hc hd hcauto hdauto
  · obtain ⟨k, hk, hkidentity⟩ := exists_keyPath hp hc
    obtain ⟨l, hl, hlidentity⟩ := exists_keyPath hq hd
    exact ⟨k, l, hk, hl, hkidentity, hlidentity⟩
  · exact Package.checkBaseline_of_derived hpderives hqderives hseparates hpauto hqauto
  · exact Package.checkBaseline_of_derived hqderives hpderives hswapped hqauto hpauto

/-- The next edition of the editor: its program and its help file have moved to other components and
to another directory of the same path, letter case aside. -/
def relocated : Manifest :=
  { copies with
    directories := [⟨"PROGRAMFOLDER", "ACME", none, false⟩]
    components := [
      { id := "Editor"
        directory := "PROGRAMFOLDER"
        guid := "auto"
        win64 := none
        items := [.file ⟨"Editor", "release/Acme.exe", none, true⟩]
        integrations := [] },
      { id := "Manual"
        directory := "PROGRAMFOLDER"
        guid := "AUTO"
        win64 := none
        items := [.file ⟨"Manual", "doc/manual.chm", some "acme.chm", true⟩]
        integrations := [] }]
    features := [⟨"All", "Acme Editor", "", 1, false, .collapse, ["Editor", "Manual"], []⟩] }

/-- Settings of the next edition. -/
def relocatedSettings : Settings := ⟨some "x86", "1.1.0", "release", none, none, none, none, none⟩

theorem compile_relocated : ((relocated.compile relocatedSettings).map fun p =>
    (p.product.upgradeCode, p.components.map fun c => (c.id, c.stability, c.keyPathIdentity))) =
    .ok (copySpace.text,
      [("Editor", .auto, programIdentity), ("Manual", .auto, helpIdentity)]) := by
  decide +kernel

/-- The package of the next edition has a program and a help file. -/
theorem exists_relocated : ∃ q d e, relocated.compile relocatedSettings = .ok q ∧
    q.product.upgradeCode = copySpace.text ∧ q.components = [d, e] ∧
    (d.stability = .auto ∧ d.keyPathIdentity = programIdentity) ∧
    e.stability = .auto ∧ e.keyPathIdentity = helpIdentity := by
  have hview := compile_relocated
  cases hq : relocated.compile relocatedSettings with
  | error v =>
    rw [hq] at hview
    exact nomatch hview
  | ok q =>
    rw [hq] at hview
    obtain ⟨hcode, hcomponents⟩ := Prod.mk.inj (Except.ok.inj hview)
    obtain ⟨d, rest, hqd, hd, hrest⟩ := List.map_eq_cons_iff.mp hcomponents
    obtain ⟨e, rfl, he⟩ := List.map_eq_singleton_iff.mp hrest
    simp only [Prod.mk.injEq] at hd he
    exact ⟨q, d, e, rfl, hcode, hqd, hd.2, he.2⟩

/-- The program has kept its key, the help file has another one, and each edition is accepted after
the other. -/
theorem compile_derived_keys_follow_relocated : ∃ p q, copies.compile copySettings = .ok p ∧
    relocated.compile relocatedSettings = .ok q ∧
    (∃ c ∈ p.components, ∃ d ∈ q.components, ∃ e ∈ q.components,
      c.guid = d.guid ∧ c.guid ≠ e.guid) ∧
    p.checkBaseline q = .ok () ∧ q.checkBaseline p = .ok () := by
  obtain ⟨p, c, c', c'', hp, hpcode, hpcomponents, ⟨-, hcauto, hcidentity⟩,
    ⟨-, hcauto', hcidentity'⟩, -, hcauto'', hcidentity''⟩ := exists_copies
  obtain ⟨q, d, e, hq, hqcode, hqcomponents, ⟨hdauto, hdidentity⟩, heauto, heidentity⟩ :=
    exists_relocated
  have hpseparates := separates_copies hpcomponents hcidentity hcidentity' hcidentity''
  have hsub : ∀ a ∈ p.derivedIdentities ++ q.derivedIdentities, a ∈ p.derivedIdentities := by
    have hprogram : programIdentity ∈ p.derivedIdentities := by
      rw [← hcidentity]
      exact Package.keyPathIdentity_mem (by simp [hpcomponents]) hcauto
    have hhelp : helpIdentity ∈ p.derivedIdentities := by
      rw [← hcidentity'']
      exact Package.keyPathIdentity_mem (by simp [hpcomponents]) hcauto''
    intro a ha
    rcases List.mem_append.mp ha with ha | ha
    · exact ha
    · obtain ⟨x, hx, rfl⟩ := List.mem_map.mp ha
      have hmem := (List.mem_filter.mp hx).1
      rw [hqcomponents] at hmem
      rcases (by simpa using hmem : x = d ∨ x = e) with rfl | rfl
      · rwa [hdidentity]
      · rwa [heidentity]
  have hseparates : copySpace.Separates (p.derivedIdentities ++ q.derivedIdentities) :=
    fun a ha b hb => hpseparates a (hsub a ha) b (hsub b hb)
  obtain ⟨hkeys, haccepted⟩ :=
    compile_derived_keys_follow hp hq (hqcode.trans hpcode.symm) hpcode hseparates
  have hcmem : c ∈ p.components := by simp [hpcomponents]
  have hdmem : d ∈ q.components := by simp [hqcomponents]
  have hemem : e ∈ q.components := by simp [hqcomponents]
  refine ⟨p, q, hp, hq, ⟨c, hcmem, d, hdmem, e, hemem, ?_, ?_⟩, haccepted ?_ ?_⟩
  · rw [(hkeys c hcmem d hdmem hcauto hdauto).1, hcidentity, hdidentity]
  · rw [ne_eq, (hkeys c hcmem e hemem hcauto heauto).1, hcidentity, heidentity]
    decide
  · simp [hpcomponents, hcauto, hcauto', hcauto'']
  · simp [hqcomponents, hdauto, heauto]

end Installer.Manifest
