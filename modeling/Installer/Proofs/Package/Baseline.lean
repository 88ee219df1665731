import Installer.Package.Baseline
import Installer.Proofs.Package.Compilation
import Installer.Proofs.Package.RoundTrip

/-!
# Holding a package against an earlier one, and against itself

A package is accepted exactly if the upgrade code stays and every component whose stability key was
there before has the key path of the last component that had it (`checkBaseline_eq_ok_iff`). So a
package is accepted against itself unless two of its components have one key for different key paths;
in a compiled package one of the two then declares the key, since derived keys come from the key
paths (`exists_space_of_auto`). Main statement: `compile_rebuild_accepted_iff`.

**What it does not establish.** It is not shown that a rebuild is accepted, because it need not be:
two components that declare one key are refused against themselves. Of derived keys the same could be
said only if a digest were to repeat.
-/

set_option autoImplicit false

namespace Installer.Package
open Result

variable {p baseline : Package}

theorem componentWithKey?_eq_some {guid : String} {c : Component}
    (h : p.componentWithKey? guid = some c) : c ∈ p.components ∧ c.guid = guid := by
  unfold componentWithKey? at h
  obtain ⟨hc, hguid⟩ := List.mem_filter.mp (List.mem_of_getLast? h)
  exact ⟨hc, by simpa using hguid⟩

/-- Some component has the key of each. -/
theorem exists_componentWithKey {c : Component} (hc : c ∈ p.components) :
    ∃ last, p.componentWithKey? c.guid = some last := by
  have hmem : c ∈ p.components.filter (·.guid = c.guid) :=
    List.mem_filter.mpr ⟨hc, by simp⟩
  unfold componentWithKey?
  exact ⟨_, List.getLast?_eq_some_getLast (List.ne_nil_of_mem hmem)⟩

/-- A package is accepted against an earlier one exactly if the upgrade code stays and no stability
key has gone over to another key path. -/
theorem checkBaseline_eq_ok_iff : p.checkBaseline baseline = .ok () ↔
    Text.sameIgnoringAsciiCase p.product.upgradeCode baseline.product.upgradeCode = true ∧
      ∀ c ∈ p.components, ∀ old ∈ baseline.componentWithKey? c.guid,
        old.keyPathIdentity = c.keyPathIdentity := by
  unfold checkBaseline
  rw [ite_error_eq_ok, Bool.not_eq_true', Bool.not_eq_false]
  refine and_congr_right fun _ => ?_
  constructor
  · intro h c hc old hold
    split at h
    · cases h
    · next hfresh =>
      have hc := List.find?_eq_none.mp hfresh c hc
      simpa [isStale, Option.mem_def.mp hold] using hc
  · intro h
    have hfresh : p.components.find? (isStale baseline) = none := by
      apply List.find?_eq_none.mpr
      intro c hc hstale
      cases hold : baseline.componentWithKey? c.guid with
      | none => simp [isStale, hold] at hstale
      | some old => simp [isStale, hold, h c hc old hold] at hstale
    rw [hfresh]

/-- Two components with one stability key for different key paths. -/
structure KeyIsShared (p : Package) (c d : Component) : Prop where
  left : c ∈ p.components
  right : d ∈ p.components
  key : c.guid = d.guid
  keyPaths : c.keyPathIdentity ≠ d.keyPathIdentity

theorem checkBaseline_self_iff : p.checkBaseline p = .ok () ↔ ∀ c d, ¬p.KeyIsShared c d := by
  rw [checkBaseline_eq_ok_iff]
  constructor
  · rintro ⟨-, hlast⟩ c d ⟨hc, hd, hkey, hne⟩
    obtain ⟨last, hfound⟩ := exists_componentWithKey hc
    have hcpath := hlast c hc last hfound
    have hdpath := hlast d hd last (hkey ▸ hfound)
    exact hne (hcpath.symm.trans hdpath)
  · intro hnone
    refine ⟨by simp [Text.sameIgnoringAsciiCase], fun c hc last hfound => ?_⟩
    obtain ⟨hlast, hkey⟩ := componentWithKey?_eq_some hfound
    by_contra hne
    exact hnone last c ⟨hlast, hc, hkey, hne⟩

end Installer.Package

namespace Installer.Manifest
open Result

variable {m : Manifest} {s : Settings} {p : Package}

/-- A key that is not declared is derived from the key path, in the space of the upgrade code. -/
theorem exists_space_of_auto (h : m.compile s = .ok p) : ∃ space : Guid,
    p.product.upgradeCode = space.text ∧ ∀ c ∈ p.components, c.stability = .auto →
      c.guid = (space.named c.keyPathIdentity).text := by
  obtain ⟨i, expanded, upgradeCode, t, g, -, -, hsettles⟩ := compile_eq_ok h
  obtain ⟨hresolved, -, -⟩ := hsettles.resolved
  refine ⟨upgradeCode, hsettles.upgradeCode_text, fun c hc hauto => ?_⟩
  obtain ⟨d, -, hd⟩ := exists_related hresolved.flip hc
  obtain ⟨guid, hkey, htext⟩ := hd.stability
  rw [hauto] at hkey
  rw [htext, Component.eq_named_of_auto hkey]
  rfl

/-- A rebuild of an unchanged product is accepted exactly if no two components have one key for
different key paths, read back from its text or not. Of two that do, one declares its key, or the
keys derived for the two key paths in the space of the upgrade code are the same. -/
theorem compile_rebuild_accepted_iff (h : m.compile s = .ok p) :
    (p.checkBaseline p = .ok () ↔ ∀ c d, ¬p.KeyIsShared c d) ∧
    (∃ q, Package.ofText p.text = .ok q ∧ p.checkBaseline q = p.checkBaseline p) ∧
    ∀ c d, p.KeyIsShared c d → c.stability = .explicit ∨ d.stability = .explicit ∨
      ∃ space : Guid, p.product.upgradeCode = space.text ∧
        (space.named c.keyPathIdentity).text = (space.named d.keyPathIdentity).text := by
  refine ⟨Package.checkBaseline_self_iff, ⟨p, Package.ofText_text p, rfl⟩, ?_⟩
  intro c d hshared
  obtain ⟨space, hcode, hspace⟩ := exists_space_of_auto h
  cases hc : c.stability with
  | explicit => exact .inl rfl
  | auto =>
    cases hd : d.stability with
    | explicit => exact .inr (.inl rfl)
    | auto =>
      refine .inr (.inr ⟨space, hcode, ?_⟩)
      rw [← hspace c hshared.left hc, ← hspace d hshared.right hd]
      exact hshared.key

/-- An editor of two components that declare one key, each with a file of its own. -/
def twins : Manifest where
  product := {
    name := "Acme Editor"
    manufacturer := "Acme Corp"
    upgradeCode := "3F2504E0-4F89-11D3-9A0C-0305E82C3301"
    productCode := "auto"
    version := "$\x7bversion\x7d"
    language := 1033
    codepage := 1252
    scope := .perMachine
    installLevel := 1
    upgrade := Upgrade.standard
    properties := .empty }
  directories := [⟨"INSTALLFOLDER", "Acme", some "$\x7bprogram_files\x7d", false⟩]
  components := [
    { id := "Main"
      directory := "INSTALLFOLDER"
      guid := "6BA7B810-9DAD-11D1-80B4-00C04FD430C8"
      win64 := none
      items := [.file ⟨"AcmeExe", "bin/acme.exe", none, true⟩]
      integrations := [] },
    { id := "Help"
      directory := "INSTALLFOLDER"
      guid := "6BA7B810-9DAD-11D1-80B4-00C04FD430C8"
      win64 := none
      items := [.file ⟨"AcmeHelp", "bin/help.chm", none, true⟩]
      integrations := [] }]
  features := [⟨"Core", "Acme Editor", "", 1, false, .collapse, ["Main", "Help"], []⟩]
  actions := []
  rules := []

/-- Settings that the editor is built with, again and again. -/
def twinSettings : Settings :=
  ⟨some "x64", "1.0.0", "release", none, none, none, none, none⟩

theorem twins_compile : (twins.compile twinSettings >>= fun p => .ok (p.checkBaseline p)) =
    .ok (.error (.staleStabilityKey "Main" "\x7b6BA7B810-9DAD-11D1-80B4-00C04FD430C8\x7d")) := by
  decide +kernel

/-- The second of the twins takes the key of the first. -/
theorem compile_rebuild_refused_twins : ∃ p, twins.compile twinSettings = .ok p ∧
    p.checkBaseline p =
      .error (.staleStabilityKey "Main" "\x7b6BA7B810-9DAD-11D1-80B4-00C04FD430C8\x7d") := by
  obtain ⟨p, hp, hself⟩ := bind_eq_ok.mp twins_compile
  exact ⟨p, hp, Except.ok.inj hself⟩

theorem compile_rebuild_accepted_iff_twins :
    ∃ p, twins.compile twinSettings = .ok p ∧ ∃ c d, p.KeyIsShared c d := by
  obtain ⟨p, hp, hself⟩ := bind_eq_ok.mp twins_compile
  refine ⟨p, hp, ?_⟩
  by_contra hnone
  have haccepted := (compile_rebuild_accepted_iff hp).1.mpr fun c d hshared => hnone ⟨c, d, hshared⟩
  rw [haccepted] at hself
  cases hself

end Installer.Manifest
