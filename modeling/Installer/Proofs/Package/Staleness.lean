import Installer.Proofs.Package.Series

/-!
# The rule between a package and an earlier one

A key stands for the key paths of the components that have it. Where no key of the earlier package
stands for two, the lookup by key (`componentWithKey?`) comes to a relation between keys and key
paths (`isStale_iff`), and nothing else of the earlier package's components is seen: not their ids,
their order or their items. Main statement: `checkBaseline_exact`.

The lookup by key finds the last component that has it. Where no key stands for two key paths it does
not matter which one is found, and that is the only use of the premise.

**What it does not establish.** Where the earlier package has one key twice, the last component
counts; of this case nothing is said here.
-/

set_option autoImplicit false

namespace Installer.Text

/-- The texts are equal letter by letter, where a capital of ASCII counts as its small letter. -/
def SpellsAlike (a b : String) : Prop :=
  List.Forall₂ (fun c d => c = d ∨ c.toLower = d ∨ c = d.toLower) a.toList b.toList

theorem toNat_toLower (c : Char) :
    c.toLower.toNat = if 65 ≤ c.toNat ∧ c.toNat ≤ 90 then c.toNat + 32 else c.toNat := by
  by_cases h : 65 ≤ c.toNat ∧ c.toNat ≤ 90
  · have hcapital : c.val ≥ 65 ∧ c.val ≤ 90 := h
    have hsmall : c.toLower.val = c.val + 32 := congrArg Char.val (dif_pos hcapital)
    have hroom : c.toNat + 32 < 4294967296 := by omega
    rw [if_pos h, Char.toNat, hsmall, UInt32.toNat_add]
    exact Nat.mod_eq_of_lt hroom
  · rw [if_neg h, show c.toLower = c from dif_neg h]

/-- Two letters have one small letter if one of them is the small letter of the other. -/
theorem toLower_eq_toLower_iff {c d : Char} :
    c.toLower = d.toLower ↔ c = d ∨ c.toLower = d ∨ c = d.toLower := by
  simp only [← Char.toNat_inj, toNat_toLower]
  split <;> split <;> omega

theorem sameIgnoringAsciiCase_iff {a b : String} :
    sameIgnoringAsciiCase a b = true ↔ SpellsAlike a b := by
  unfold sameIgnoringAsciiCase SpellsAlike
  rw [beq_iff_eq]
  generalize a.toList = cs
  generalize b.toList = ds
  induction cs generalizing ds with
  | nil => cases ds <;> simp
  | cons c cs ih =>
    cases ds with
    | nil => simp
    | cons d ds => simp [ih, toLower_eq_toLower_iff]

end Installer.Text

namespace Installer.Package
open Result

variable {p baseline : Package}

/-- The key stands for the key path: a component has both. -/
def StandsFor (p : Package) (guid identity : String) : Prop :=
  ∃ c ∈ p.components, c.guid = guid ∧ c.keyPathIdentity = identity

/-- No key stands for two key paths. -/
def KeysAreUnambiguous (p : Package) : Prop :=
  ∀ guid i j, p.StandsFor guid i → p.StandsFor guid j → i = j

/-- The component's key stands for another key path in the earlier package. -/
def IsMoved (baseline : Package) (c : Component) : Prop :=
  ∃ identity, baseline.StandsFor c.guid identity ∧ identity ≠ c.keyPathIdentity

theorem KeysAreDistinct.unambiguous (h : p.KeysAreDistinct) : p.KeysAreUnambiguous := by
  rintro guid i j ⟨c, hc, hcguid, rfl⟩ ⟨d, hd, hdguid, rfl⟩
  rw [eq_of_guid_eq h hc hd (hcguid.trans hdguid.symm)]

/-- The component that is found by its key shows every key path that the key stands for. -/
theorem isStale_iff (h : baseline.KeysAreUnambiguous) {c : Component} :
    isStale baseline c = true ↔ baseline.IsMoved c := by
  unfold isStale
  rw [Option.any_eq_true]
  constructor
  · rintro ⟨old, hold, hmoved⟩
    obtain ⟨hmem, hguid⟩ := componentWithKey?_eq_some hold
    exact ⟨old.keyPathIdentity, ⟨old, hmem, hguid, rfl⟩, by simpa using hmoved⟩
  · rintro ⟨_, ⟨d, hd, hguid, rfl⟩, hmoved⟩
    obtain ⟨old, hold⟩ := exists_componentWithKey hd
    obtain ⟨hmem, holdguid⟩ := componentWithKey?_eq_some hold
    have hsame : old.keyPathIdentity = d.keyPathIdentity :=
      h d.guid _ _ ⟨old, hmem, holdguid, rfl⟩ ⟨d, hd, rfl, rfl⟩
    rw [hguid] at hold
    refine ⟨old, hold, ?_⟩
    rw [hsame]
    simpa using hmoved

/-- The first component of the package whose key stands for another key path in the earlier one. -/
def IsFirstMoved (p baseline : Package) (c : Component) : Prop :=
  ∃ front back, p.components = front ++ c :: back ∧ (∀ d ∈ front, ¬baseline.IsMoved d) ∧
    baseline.IsMoved c

theorem find?_isStale_eq_some_iff (h : baseline.KeysAreUnambiguous) {c : Component} :
    p.components.find? (isStale baseline) = some c ↔ p.IsFirstMoved baseline c :=
  find?_eq_some_iff_first fun _ _ => isStale_iff h

/-- A package is refused for the upgrade code, or else for its first component that is moved. -/
theorem checkBaseline_eq_error_iff (h : baseline.KeysAreUnambiguous) {v : Violation} :
    p.checkBaseline baseline = .error v ↔
      (¬Text.SpellsAlike p.product.upgradeCode baseline.product.upgradeCode ∧
        v = .upgradeCodeChanged baseline.product.upgradeCode p.product.upgradeCode) ∨
      (Text.SpellsAlike p.product.upgradeCode baseline.product.upgradeCode ∧
        ∃ c, p.IsFirstMoved baseline c ∧ v = .staleStabilityKey c.id c.guid) := by
  unfold checkBaseline
  rw [ite_error_eq_error, Bool.not_eq_true', ← Bool.not_eq_true, Text.sameIgnoringAsciiCase_iff,
    not_not, @eq_comm _ _ v]
  refine or_congr_right (and_congr_right fun _ => ?_)
  simp only [← find?_isStale_eq_some_iff h]
  cases p.components.find? (isStale baseline) with
  | none => simp
  | some c => simp [@eq_comm _ v]

/-- A package is accepted if the upgrade codes are alike and every key that both packages have
stands for one key path in both. -/
theorem checkBaseline_eq_ok_iff_keys (h : baseline.KeysAreUnambiguous) :
    p.checkBaseline baseline = .ok () ↔
      Text.SpellsAlike p.product.upgradeCode baseline.product.upgradeCode ∧
        ∀ guid i j, baseline.StandsFor guid i → p.StandsFor guid j → i = j := by
  rw [checkBaseline_eq_ok_iff, Text.sameIgnoringAsciiCase_iff]
  refine and_congr_right fun _ => ⟨?_, ?_⟩
  · rintro hlast guid i j ⟨d, hd, hdguid, rfl⟩ ⟨c, hc, rfl, rfl⟩
    obtain ⟨old, hold⟩ := exists_componentWithKey hd
    obtain ⟨hmem, hguid⟩ := componentWithKey?_eq_some hold
    have hsame := h d.guid _ _ ⟨d, hd, rfl, rfl⟩ ⟨old, hmem, hguid, rfl⟩
    rw [hdguid] at hold
    exact hsame.trans (hlast c hc old hold)
  · intro hkeys c hc old hold
    obtain ⟨hmem, hguid⟩ := componentWithKey?_eq_some hold
    exact hkeys c.guid _ _ ⟨old, hmem, hguid, rfl⟩ ⟨c, hc, rfl, rfl⟩

/-- Of an earlier package the check sees the upgrade code and the key paths of the keys. -/
theorem checkBaseline_congr {other : Package} (h : baseline.KeysAreUnambiguous)
    (hcode : other.product.upgradeCode = baseline.product.upgradeCode)
    (hkeys : ∀ guid identity, other.StandsFor guid identity ↔ baseline.StandsFor guid identity) :
    p.checkBaseline other = p.checkBaseline baseline := by
  have hother : other.KeysAreUnambiguous := by
    intro guid i j hi hj
    exact h guid i j ((hkeys guid i).mp hi) ((hkeys guid j).mp hj)
  have hstale : isStale other = isStale baseline := by
    funext c
    rw [Bool.eq_iff_iff, isStale_iff hother, isStale_iff h]
    unfold IsMoved
    simp only [hkeys]
  unfold checkBaseline
  rw [hcode, hstale]

/-- Against an earlier package in which no two components have one key, a package is refused for the
upgrade code exactly if the two codes differ by more than the case of ASCII letters; or else for the
first of its components, in its own order, whose key the earlier package has for another key path;
and it is accepted exactly if neither is the case. Which components are new or gone, what their ids
are and in what order the earlier package has them makes no difference. -/
theorem checkBaseline_exact (p : Package) {baseline : Package} (hkeys : baseline.KeysAreDistinct) :
    (∀ v, p.checkBaseline baseline = .error v ↔
      (¬Text.SpellsAlike p.product.upgradeCode baseline.product.upgradeCode ∧
        v = .upgradeCodeChanged baseline.product.upgradeCode p.product.upgradeCode) ∨
      (Text.SpellsAlike p.product.upgradeCode baseline.product.upgradeCode ∧
        ∃ c, p.IsFirstMoved baseline c ∧ v = .staleStabilityKey c.id c.guid)) ∧
    (p.checkBaseline baseline = .ok () ↔
      Text.SpellsAlike p.product.upgradeCode baseline.product.upgradeCode ∧
        ∀ guid i j, baseline.StandsFor guid i → p.StandsFor guid j → i = j) ∧
    ∀ other : Package, other.product.upgradeCode = baseline.product.upgradeCode →
      (∀ guid identity, other.StandsFor guid identity ↔ baseline.StandsFor guid identity) →
        p.checkBaseline other = p.checkBaseline baseline := by
  have hunambiguous := hkeys.unambiguous
  refine ⟨fun v => checkBaseline_eq_error_iff hunambiguous,
    checkBaseline_eq_ok_iff_keys hunambiguous, ?_⟩
  intro other hcode hsame
  exact checkBaseline_congr hunambiguous hcode hsame

/-- A package of components with keys and key paths, under an upgrade code. -/
def sketch (upgradeCode : String) (keys : List (String × String × String)) : Package where
  formatVersion := currentFormat
  product := {
    name := "Acme Editor"
    manufacturer := "Acme Corp"
    upgradeCode
    productCode := "\x7b16623912-2429-52C5-91B9-B25673B222D3\x7d"
    version := "1.0.0"
    platform := .x64
    win64 := true
    programFiles := "ProgramFiles64Folder"
    language := 1033
    codepage := 1252
    scope := .perMachine
    installLevel := 1
    upgrade := Manifest.Upgrade.standard
    properties := .empty
    assets := .empty }
  recorded := []
  directories := []
  components := keys.map fun key =>
    { id := key.1
      directory := "INSTALLFOLDER"
      guid := key.2.1
      stability := .explicit
      win64 := true
      keyPath := key.1
      keyPathIdentity := key.2.2
      items := [] }
  features := []
  defaultFeatures := []
  defaultComponents := []
  actions := []
  steps := []

/-- An earlier package of three components. -/
def sketched : Package := sketch "\x7b3F2504E0-4F89-11D3-9A0C-0305E82C3301\x7d"
  [("Main", "K1", "file|acme|acme.exe"), ("Help", "K2", "file|acme|help.chm"),
    ("Demo", "K3", "file|acme|demo.txt")]

/-- A later one, in which the components have other ids and another order, one is gone, one is new,
and two keys have gone over to other key paths. -/
def resketched : Package := sketch "\x7b3f2504e0-4f89-11d3-9a0c-0305e82c3301\x7d"
  [("Tools", "K4", "file|acme|tools.exe"), ("Manual", "K2", "file|acme|help.chm"),
    ("Samples", "K3", "file|acme|samples.txt"), ("Editor", "K1", "file|acme|editor.exe")]

theorem checkBaseline_exact_resketched : sketched.KeysAreDistinct ∧
    resketched.checkBaseline sketched = .error (.staleStabilityKey "Samples" "K3") ∧
      resketched.checkBaseline { sketched with components := sketched.components.reverse } =
        .error (.staleStabilityKey "Samples" "K3") := by
  have hkeys : sketched.KeysAreDistinct := by
    unfold KeysAreDistinct
    decide
  obtain ⟨herror, -, hcongr⟩ := checkBaseline_exact resketched hkeys
  have hcode : Text.SpellsAlike resketched.product.upgradeCode sketched.product.upgradeCode :=
    Text.sameIgnoringAsciiCase_iff.mp (by decide)
  obtain ⟨c, hfirst, hid, hguid⟩ : ∃ c, resketched.IsFirstMoved sketched c ∧ c.id = "Samples" ∧
      c.guid = "K3" :=
    ⟨_, (find?_isStale_eq_some_iff hkeys.unambiguous).mp rfl, rfl, rfl⟩
  have hrefused : resketched.checkBaseline sketched = .error (.staleStabilityKey "Samples" "K3") :=
    (herror _).mpr (.inr ⟨hcode, c, hfirst, by rw [hid, hguid]⟩)
  refine ⟨hkeys, hrefused, ?_⟩
  rw [hcongr { sketched with components := sketched.components.reverse } rfl, hrefused]
  intro guid identity
  unfold StandsFor
  simp only [List.mem_reverse]

end Installer.Package
