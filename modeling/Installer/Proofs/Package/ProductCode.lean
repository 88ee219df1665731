import Installer.Proofs.Manifest.Expansion
import Installer.Proofs.Package.Succession
import Installer.Proofs.Version

/-!
# Derived product codes

A derived product code stands for the version and the platform, and the name that it is derived from
starts with another word than the identity of any key path. Neither versions nor platforms have a bar
in their texts, so the name tells both (`productIdentity_eq_iff`), and whatever text the key paths
hold, none of them has the name of a product (`productIdentity_ne_identity`). Main statement:
`compile_product_codes_tell`.

**What it does not establish.** Codes that are declared are not told apart by anything. That derived
names which differ have different codes is the premise `Guid.Separates`; no property of the digest is
proved.
-/

set_option autoImplicit false

namespace Installer

theorem version_no_bar (v : Version) : ¬HasBar v.text := by
  intro hbar
  rcases Version.isDigit_or_dot_of_mem_text hbar with hdigit | hdot
  · exact absurd hdigit (by decide)
  · exact absurd hdot (by decide)

/-- The name of a product tells the version and the platform. -/
theorem productIdentity_eq_iff {v w : Version} {x y : Platform} :
    productIdentity v x = productIdentity w y ↔ v = w ∧ x = y := by
  have hproduct : ¬HasBar "product" := by decide
  rw [productIdentity, productIdentity, joinIdentity_cons_eq_iff hproduct hproduct,
    joinIdentity_cons_eq_iff (version_no_bar v) (version_no_bar w)]
  constructor
  · rintro ⟨-, hversion, hplatform⟩
    exact ⟨Version.text_injective hversion, Keyword.spelling_injective hplatform⟩
  · rintro ⟨rfl, rfl⟩
    exact ⟨rfl, rfl, rfl⟩

/-- No key path is identified by the name of a product. -/
theorem productIdentity_ne_identity (v : Version) (x : Platform) (k : KeyPath) :
    productIdentity v x ≠ k.identity := by
  have hproduct : ¬HasBar "product" := by decide
  cases k with
  | file directory name =>
    rw [productIdentity, KeyPath.identity, ne_eq,
      joinIdentity_cons_eq_iff hproduct (by decide : ¬HasBar "file")]
    exact fun h => absurd h.1 (by decide)
  | registry root key name =>
    rw [productIdentity, KeyPath.identity, ne_eq,
      joinIdentity_cons_eq_iff hproduct (by decide : ¬HasBar "registry")]
    exact fun h => absurd h.1 (by decide)

namespace Package
variable {space : Guid} {p q : Package} {v w : Version}

/-- The name that the product code is derived from, if it is. -/
def productName (p : Package) : String :=
  joinIdentity ["product", p.product.version, Keyword.spelling p.product.platform]

/-- All names from which the package derives what it does not declare. -/
def derivedNames (p : Package) : List String := p.productName :: p.derivedIdentities

/-- The package is one of a version, and derives its product code in a space. -/
structure DerivesProduct (space : Guid) (v : Version) (p : Package) : Prop where
  version : p.product.version = v.text
  code : p.product.productCode = (space.named p.productName).text

theorem DerivesProduct.productName_eq (h : p.DerivesProduct space v) :
    p.productName = productIdentity v p.product.platform := by
  rw [productName, h.version, productIdentity]

variable {names : List String}

/-- Two derived product codes in one space are the same exactly for one version and one platform. -/
theorem productCode_eq_iff (hp : p.DerivesProduct space v) (hq : q.DerivesProduct space w)
    (hseparates : space.Separates names) (hpname : p.productName ∈ names)
    (hqname : q.productName ∈ names) : p.product.productCode = q.product.productCode ↔
      v = w ∧ p.product.platform = q.product.platform := by
  rw [hp.code, hq.code, ← productIdentity_eq_iff, ← hp.productName_eq, ← hq.productName_eq]
  constructor
  · exact fun heq => hseparates _ hpname _ hqname (Guid.text_injective heq)
  · exact fun heq => by rw [heq]

/-- A derived product code is no derived key of a component, also not of another package in the
space, if the component is not identified by the name of the product. -/
theorem productCode_ne_guid (hp : p.DerivesProduct space v) (hq : q.DerivesIn space)
    (hseparates : space.Separates names) (hpname : p.productName ∈ names)
    (hqnames : ∀ name ∈ q.derivedIdentities, name ∈ names) {c : Component}
    (hc : c ∈ q.components) (hauto : c.stability = .auto)
    (hother : p.productName ≠ c.keyPathIdentity) : p.product.productCode ≠ c.guid := by
  rw [hp.code, hq.guid c hc hauto]
  intro heq
  exact hother (hseparates _ hpname _ (hqnames _ (keyPathIdentity_mem hc hauto))
    (Guid.text_injective heq))

end Package

namespace Manifest
open Result

variable {m n : Manifest} {s r : Settings} {p q : Package} {space : Guid}

/-- The product code is not expanded. -/
theorem Product.code_of_expandWith {ε : Type} {f : Expander ε} {version : String} {x x' : Product}
    (h : x.expandWith f version = .ok x') : x'.productCode = x.productCode := by
  obtain ⟨_, _, _, _, -, -, -, -, rfl⟩ := expandWith_eq_ok h
  rfl

/-- A product code that is not declared is derived in the space of the upgrade code. -/
theorem derivesProduct_of_settle {i : Injection} (h : m.settle i = .ok p)
    (hauto : isAuto m.product.productCode = true) (hspace : p.product.upgradeCode = space.text) :
    p.DerivesProduct space i.version := by
  obtain ⟨upgradeCode, -, h⟩ := bind_eq_ok.mp h
  obtain ⟨code, hcode, h⟩ := bind_eq_ok.mp h
  obtain ⟨t, -, h⟩ := bind_eq_ok.mp h
  obtain ⟨g, -, h⟩ := bind_eq_ok.mp h
  obtain ⟨schedule, -, h⟩ := bind_eq_ok.mp h
  rw [productCode, if_pos hauto, Except.ok.injEq] at hcode
  cases h
  obtain rfl : upgradeCode = space := Guid.text_injective hspace
  exact ⟨rfl, by rw [← hcode]; rfl⟩

theorem derivesProduct_of_compile (h : m.compile s = .ok p)
    (hauto : isAuto m.product.productCode = true) (hspace : p.product.upgradeCode = space.text) :
    ∃ i, Injection.ofSettings s m.product.version = .ok i ∧ p.product.platform = i.platform ∧
      p.DerivesProduct space i.version := by
  obtain ⟨i, hi, h⟩ := bind_eq_ok.mp h
  obtain ⟨expanded, hexpanded, hsettle⟩ := bind_eq_ok.mp h
  obtain ⟨product, _, _, _, hproduct, -, -, -, hparts⟩ := expandWith_eq_ok_iff.mp hexpanded
  subst hparts
  obtain ⟨upgradeCode, t, g, hsettles⟩ := settle_eq_ok hsettle
  refine ⟨i, hi, hsettles.platform, derivesProduct_of_settle hsettle ?_ hspace⟩
  exact (congrArg isAuto (Product.code_of_expandWith hproduct)).trans hauto

/-- No component of a compiled package is identified by the name of a product. -/
theorem productName_ne_keyPathIdentity (h : m.compile s = .ok p) {v : Version}
    (hq : q.DerivesProduct space v) {c : Package.Component} (hc : c ∈ p.components) :
    q.productName ≠ c.keyPathIdentity := by
  obtain ⟨k, -, hk⟩ := exists_keyPath h hc
  rw [hq.productName_eq, ← hk]
  exact productIdentity_ne_identity v q.product.platform k

/-- Of any two packages with one upgrade code and derived product codes, the codes are the same
exactly if the versions and the platforms are, a version without a revision being none with revision
zero; and neither is the derived key of a component of either package. The premise is that the
derivation keeps all names of the two packages apart. -/
theorem compile_product_codes_tell (hp : m.compile s = .ok p) (hq : n.compile r = .ok q)
    (hcode : q.product.upgradeCode = p.product.upgradeCode)
    (hpauto : isAuto m.product.productCode = true) (hqauto : isAuto n.product.productCode = true)
    (hspace : p.product.upgradeCode = space.text)
    (hseparates : space.Separates (p.derivedNames ++ q.derivedNames)) :
    ∃ i j, Injection.ofSettings s m.product.version = .ok i ∧
      Injection.ofSettings r n.product.version = .ok j ∧
      (p.product.productCode = q.product.productCode ↔
        i.version = j.version ∧ i.platform = j.platform) ∧
      ∀ code ∈ [p.product.productCode, q.product.productCode],
        ∀ c ∈ p.components ++ q.components, c.stability = .auto → code ≠ c.guid := by
  obtain ⟨i, hi, hpplatform, hpproduct⟩ := derivesProduct_of_compile hp hpauto hspace
  obtain ⟨j, hj, hqplatform, hqproduct⟩ :=
    derivesProduct_of_compile hq hqauto (hcode.trans hspace)
  have hpderives := derivesIn_of_compile hp hspace
  have hqderives := derivesIn_of_compile hq (hcode.trans hspace)
  have hpname : p.productName ∈ p.derivedNames ++ q.derivedNames :=
    List.mem_append_left _ List.mem_cons_self
  have hqname : q.productName ∈ p.derivedNames ++ q.derivedNames :=
    List.mem_append_right _ List.mem_cons_self
  have hpnames : ∀ name ∈ p.derivedIdentities, name ∈ p.derivedNames ++ q.derivedNames :=
    fun _ hname => List.mem_append_left _ (List.mem_cons_of_mem _ hname)
  have hqnames : ∀ name ∈ q.derivedIdentities, name ∈ p.derivedNames ++ q.derivedNames :=
    fun _ hname => List.mem_append_right _ (List.mem_cons_of_mem _ hname)
  -- either package may be the one whose code it is, and either the one whose key
  have hapart : ∀ {x : Package} {v : Version}, x.DerivesProduct space v →
      x.productName ∈ p.derivedNames ++ q.derivedNames →
      ∀ c ∈ p.components ++ q.components, c.stability = .auto →
        x.product.productCode ≠ c.guid := by
    intro x v hx hxname c hc hauto
    rcases List.mem_append.mp hc with hc | hc
    · exact Package.productCode_ne_guid hx hpderives hseparates hxname hpnames hc hauto
        (productName_ne_keyPathIdentity hp hx hc)
    · exact Package.productCode_ne_guid hx hqderives hseparates hxname hqnames hc hauto
        (productName_ne_keyPathIdentity hq hx hc)
  refine ⟨i, j, hi, hj, ?_, ?_⟩
  · rw [← hpplatform, ← hqplatform]
    exact Package.productCode_eq_iff hpproduct hqproduct hseparates hpname hqname
  · rw [List.forall_mem_cons, List.forall_mem_singleton]
    exact ⟨hapart hpproduct hpname, hapart hqproduct hqname⟩

/-- The editor with a product code that is derived. -/
def coded : Manifest :=
  { copies with product := { copies.product with productCode := "Auto" } }

/-- The settings of its first build, with a revision in the version. -/
def revisionSettings : Settings := { copySettings with version := "1.0.0.0" }

/-- The name of the product without a revision. -/
def releaseName : String := "product|1.0.0|x64"

/-- The name of the product with a revision. -/
def revisionName : String := "product|1.0.0.0|x64"

/-- What the derivations of a package stand on. -/
def derivationView (p : Package) : String × List String × List KeyOrigin :=
  (p.product.upgradeCode, p.derivedNames, p.components.map (·.stability))

theorem compile_coded : (coded.compile copySettings).map derivationView =
    .ok (copySpace.text, [releaseName, programIdentity, programIdentity, helpIdentity],
      [.auto, .auto, .auto]) := by
  decide +kernel

theorem compile_coded_revision : (coded.compile revisionSettings).map derivationView =
    .ok (copySpace.text, [revisionName, programIdentity, programIdentity, helpIdentity],
      [.auto, .auto, .auto]) := by
  decide +kernel

theorem versions_coded :
    (Injection.ofSettings copySettings coded.product.version).map (·.version) =
      .ok ⟨1, 0, 0, none⟩ ∧
    (Injection.ofSettings revisionSettings coded.product.version).map (·.version) =
      .ok ⟨1, 0, 0, some 0⟩ := by
  decide +kernel

/-- The derivation keeps the names of both builds apart. -/
theorem separates_coded :
    copySpace.Separates [releaseName, revisionName, programIdentity, helpIdentity] :=
  Guid.separates_of_nodup (by decide +kernel)

/-- A revision of zero makes another product code, and neither is the key of a component. -/
theorem compile_product_codes_tell_coded : ∃ p q, coded.compile copySettings = .ok p ∧
    coded.compile revisionSettings = .ok q ∧ p.product.upgradeCode = q.product.upgradeCode ∧
    p.product.productCode ≠ q.product.productCode ∧
    ∃ c ∈ p.components, c.stability = .auto ∧ p.product.productCode ≠ c.guid ∧
      q.product.productCode ≠ c.guid := by
  obtain ⟨p, hp, hpview⟩ := map_eq_ok.mp compile_coded
  obtain ⟨q, hq, hqview⟩ := map_eq_ok.mp compile_coded_revision
  simp only [derivationView, Prod.mk.injEq] at hpview hqview
  obtain ⟨hpcode, hpnames, hporigins⟩ := hpview
  obtain ⟨hqcode, hqnames, -⟩ := hqview
  have hcode : q.product.upgradeCode = p.product.upgradeCode := hqcode.trans hpcode.symm
  have hnames : ∀ name ∈ p.derivedNames ++ q.derivedNames,
      name ∈ [releaseName, revisionName, programIdentity, helpIdentity] := by
    rw [hpnames, hqnames]
    decide
  have hseparates := separates_coded.mono hnames
  obtain ⟨i, j, hi, hj, hcodes, hapart⟩ :=
    compile_product_codes_tell hp hq hcode (by decide) (by decide) hpcode hseparates
  have hversions : i.version ≠ j.version := by
    obtain ⟨i', hi', hrelease⟩ := map_eq_ok.mp versions_coded.1
    obtain ⟨j', hj', hrevision⟩ := map_eq_ok.mp versions_coded.2
    obtain rfl : i = i' := Except.ok.inj (hi.symm.trans hi')
    obtain rfl : j = j' := Except.ok.inj (hj.symm.trans hj')
    rw [hrelease, hrevision]
    decide
  obtain ⟨c, rest, hcomponents, hauto, -⟩ := List.map_eq_cons_iff.mp hporigins
  have hc : c ∈ p.components := by simp [hcomponents]
  refine ⟨p, q, hp, hq, hcode.symm, fun heq => hversions (hcodes.mp heq).1, c, hc, hauto, ?_, ?_⟩
  · exact hapart _ (by simp) c (List.mem_append_left _ hc) hauto
  · exact hapart _ (by simp) c (List.mem_append_left _ hc) hauto

end Manifest
end Installer
