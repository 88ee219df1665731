import Installer.Proofs.Component.KeyPaths
import Installer.Proofs.Package.Compilation

/-!
# Keys that another build leaves as they are

Of all texts that a build expands, keys depend on the names and parents of directories, on the names of
the product and its manufacturer, and on the texts that say where a key path is installed
(`Manifest.KeepsKeys`). Where two builds for one platform expand these to the same, the expanded
manifests are keyed alike, and so are their packages: no version, profile or asset path gets into a key
in another way, nor does the place that a file is taken from. Main statement: `compile_keeps_keys`.

What identifies an item depends on the texts that `Item.KeepsKey` names and on its outline, which
expansion leaves alone. The rest of a component is settled from items that are keyed alike
(`sameKey_of_resolves`).

**What it does not establish.** The premise is on texts after expansion, so it can hold for templates
that differ between builds. That keys change where it fails is not said: a key that is declared stays
anyhow.
-/

set_option autoImplicit false

namespace Installer
open Result

/-! ## Texts that keys depend on -/

section Expansion
variable {ε : Type}

/-- The name that a file is installed under, once its texts are expanded. -/
def FileItem.installedNameWith (f : Expander ε) (x : FileItem) : Except ε String :=
  match x.name with
  | some name => f name
  | none => (f x.source).map fileName

/-- What identifies the item as a key path is expanded to the same. -/
def Item.KeepsKey (f f' : Expander ε) : Item → Prop
  | .file x => x.installedNameWith f' = x.installedNameWith f
  | .registry x => f' x.key = f x.key ∧ f'.optional x.name = f.optional x.name
  | .environment _ | .shortcut _ | .removeFolder _ => True

instance [DecidableEq ε] (f f' : Expander ε) : (i : Item) → Decidable (i.KeepsKey f f')
  | .file _ => inferInstanceAs (Decidable (_ = _))
  | .registry _ => inferInstanceAs (Decidable (_ ∧ _))
  | .environment _ | .shortcut _ | .removeFolder _ => inferInstanceAs (Decidable True)

/-- What the keys of a manifest's components depend on is expanded to the same. -/
structure Manifest.KeepsKeys (f f' : Expander ε) (m : Manifest) : Prop where
  name : f' m.product.name = f m.product.name
  manufacturer : f' m.product.manufacturer = f m.product.manufacturer
  directories : ∀ d ∈ m.directories, f' d.name = f d.name ∧ f'.optional d.parent = f.optional d.parent
  keyPaths : ∀ c ∈ m.components, ∀ i ∈ c.items, i.keyPath = true → i.KeepsKey f f'

variable {f f' : Expander ε}

/-! ## Items -/

namespace Item

theorem id_outline (x : Item) : x.outline.id = x.id := by cases x <;> rfl

theorem keyPath_outline (x : Item) : x.outline.keyPath = x.keyPath := by cases x <;> rfl

theorem canBeKeyPath_outline (x : Item) : x.outline.canBeKeyPath = x.canBeKeyPath := by
  cases x <;> rfl

theorem id_of_expandWith {x y : Item} (h : x.expandWith f = .ok y) : y.id = x.id := by
  rw [← id_outline, outline_of_expandWith h, id_outline]

theorem keyPath_of_expandWith {x y : Item} (h : x.expandWith f = .ok y) :
    y.keyPath = x.keyPath := by
  rw [← keyPath_outline, outline_of_expandWith h, keyPath_outline]

theorem keyPathIdentity?_eq_none {x y : Item} (h : x.expandWith f = .ok y)
    (hx : x.canBeKeyPath = false) (path : String) : y.keyPathIdentity? path = none := by
  have hy : y.canBeKeyPath = false := by
    rw [← canBeKeyPath_outline, outline_of_expandWith h, canBeKeyPath_outline, hx]
  cases y with
  | file | registry => cases hy
  | environment | shortcut | removeFolder => rfl

theorem file_of_expandWith {x : FileItem} {y : Item} (h : expandWith f (.file x) = .ok y) :
    ∃ z, y = .file z ∧ x.installedNameWith f = .ok z.installedName := by
  obtain ⟨id, source, name, keyPath⟩ := x
  obtain ⟨source', hsource, h⟩ := bind_eq_ok.mp h
  obtain ⟨name', hname, h⟩ := bind_eq_ok.mp h
  cases h
  refine ⟨_, rfl, ?_⟩
  cases name with
  | none =>
    cases hname
    exact map_eq_ok.mpr ⟨source', hsource, rfl⟩
  | some name =>
    obtain ⟨text, htext, rfl⟩ := map_eq_ok.mp hname
    exact htext

theorem registry_of_expandWith {x : RegistryValue} {y : Item}
    (h : expandWith f (.registry x) = .ok y) :
    ∃ z, y = .registry z ∧ z.root = x.root ∧ f x.key = .ok z.key ∧
      f.optional x.name = .ok z.name := by
  obtain ⟨key, hkey, h⟩ := bind_eq_ok.mp h
  obtain ⟨name, hname, h⟩ := bind_eq_ok.mp h
  obtain ⟨value, -, h⟩ := bind_eq_ok.mp h
  cases h
  exact ⟨_, rfl, rfl, hkey, hname⟩

theorem keyPathIdentity?_of_expandWith {x y y' : Item} (h : x.expandWith f = .ok y)
    (h' : x.expandWith f' = .ok y') (hkeeps : x.KeepsKey f f') (path : String) :
    y'.keyPathIdentity? path = y.keyPathIdentity? path := by
  cases x with
  | file x =>
    obtain ⟨z, rfl, hname⟩ := file_of_expandWith h
    obtain ⟨z', rfl, hname'⟩ := file_of_expandWith h'
    have hsame : z'.installedName = z.installedName := by
      rw [KeepsKey, hname, hname'] at hkeeps
      exact Except.ok.inj hkeeps
    rw [keyPathIdentity?, keyPathIdentity?, hsame]
  | registry x =>
    obtain ⟨z, rfl, hroot, hkey, hname⟩ := registry_of_expandWith h
    obtain ⟨z', rfl, hroot', hkey', hname'⟩ := registry_of_expandWith h'
    rw [KeepsKey, hkey, hkey', hname, hname'] at hkeeps
    rw [keyPathIdentity?, keyPathIdentity?, hroot', hroot, Except.ok.inj hkeeps.1,
      Except.ok.inj hkeeps.2]
  | environment | shortcut | removeFolder =>
    rw [keyPathIdentity?_eq_none h rfl, keyPathIdentity?_eq_none h' rfl]

theorem keyedAlike_of_expandWith {x y y' : Item} (h : x.expandWith f = .ok y)
    (h' : x.expandWith f' = .ok y') (hkeeps : x.keyPath = true → x.KeepsKey f f') :
    y.KeyedAlike y' where
  id := (id_of_expandWith h').trans (id_of_expandWith h).symm
  keyPath := (keyPath_of_expandWith h').trans (keyPath_of_expandWith h).symm
  identity := fun hmarked =>
    keyPathIdentity?_of_expandWith h h' (hkeeps ((keyPath_of_expandWith h).symm.trans hmarked))

end Item

/-! ## Manifests -/

namespace Manifest

theorem Directory.expandWith_congr {d : Directory}
    (h : f' d.name = f d.name ∧ f'.optional d.parent = f.optional d.parent) :
    d.expandWith f' = d.expandWith f := by
  rw [expandWith, expandWith, h.1, h.2]

theorem Component.keyedAlike_of_expandWith {c d d' : Component} (h : c.expandWith f = .ok d)
    (h' : c.expandWith f' = .ok d')
    (hkeeps : ∀ i ∈ c.items, i.keyPath = true → i.KeepsKey f f') : d.KeyedAlike d' := by
  obtain ⟨items, hitems, h⟩ := bind_eq_ok.mp h
  obtain ⟨intents, hintents, h⟩ := bind_eq_ok.mp h
  obtain ⟨items', hitems', h'⟩ := bind_eq_ok.mp h'
  obtain ⟨intents', hintents', h'⟩ := bind_eq_ok.mp h'
  cases h
  cases h'
  refine ⟨rfl, rfl, rfl, rfl, ?_, ?_⟩
  · refine (forall₂_of_mapM hitems hitems').imp ?_
    rintro y y' ⟨x, hx, hy, hy'⟩
    exact Item.keyedAlike_of_expandWith hy hy' (hkeeps x hx)
  · refine (forall₂_of_mapM hintents hintents').imp ?_
    rintro y y' ⟨x, -, hy, hy'⟩
    rw [Integration.outline_of_expandWith hy, Integration.outline_of_expandWith hy']

/-- The files of a manifest are known without its texts. -/
theorem fileKeys_outline (m : Manifest) : m.outline.fileKeys = m.fileKeys := by
  have hitem (x : Item) : (x.outline.file?.map (·.id)) = x.file?.map (·.id) := by cases x <;> rfl
  simp only [fileKeys, outline, Component.outline, List.flatMap_map, List.filterMap_map,
    Function.comp_def, hitem]

theorem fileKeys_of_expandWith {version : String} {m e : Manifest}
    (h : m.expandWith f version = .ok e) : e.fileKeys = m.fileKeys := by
  rw [← fileKeys_outline, outline_of_expandWith h, fileKeys_outline]

/-- What keys depend on is the same, and the components are keyed alike. -/
structure KeyedAlike (m m' : Manifest) : Prop where
  scope : m'.product.scope = m.product.scope
  name : m'.product.name = m.product.name
  manufacturer : m'.product.manufacturer = m.product.manufacturer
  upgradeCode : m'.product.upgradeCode = m.product.upgradeCode
  fileKeys : m'.fileKeys = m.fileKeys
  directories : m'.directories = m.directories
  components : List.Forall₂ Component.KeyedAlike m.components m'.components

theorem Product.names_expanded {version : String} {x y : Product}
    (h : x.expandWith f version = .ok y) : f x.name = .ok y.name ∧
      f x.manufacturer = .ok y.manufacturer ∧ y.scope = x.scope ∧ y.upgradeCode = x.upgradeCode := by
  obtain ⟨_, _, _, _, hname, hmanufacturer, -, -, rfl⟩ := expandWith_eq_ok h
  exact ⟨hname, hmanufacturer, rfl, rfl⟩

/-- Expansions that keep the keys of a manifest make manifests that are keyed alike. -/
theorem KeepsKeys.keyedAlike {version version' : String} {m e e' : Manifest}
    (hkeeps : m.KeepsKeys f f') (h : m.expandWith f version = .ok e)
    (h' : m.expandWith f' version' = .ok e') : e.KeyedAlike e' := by
  have hfiles := (fileKeys_of_expandWith h').trans (fileKeys_of_expandWith h).symm
  obtain ⟨product, ds, cs, _, hproduct, hds, hcs, -, rfl⟩ := expandWith_eq_ok_iff.mp h
  obtain ⟨product', ds', cs', _, hproduct', hds', hcs', -, rfl⟩ := expandWith_eq_ok_iff.mp h'
  obtain ⟨hname, hmanufacturer, hscope, hcode⟩ := Product.names_expanded hproduct
  obtain ⟨hname', hmanufacturer', hscope', hcode'⟩ := Product.names_expanded hproduct'
  -- directories are expanded in the same way one by one, and so to the same list
  have hsame := mapM_congr fun d hd => Directory.expandWith_congr (hkeeps.directories d hd)
  rw [mapM_eq_ok.mpr hds, mapM_eq_ok.mpr hds'] at hsame
  rw [← mapM_eq_ok] at hcs hcs'
  have hnames := hkeeps.name
  have hmanufacturers := hkeeps.manufacturer
  rw [hname, hname'] at hnames
  rw [hmanufacturer, hmanufacturer'] at hmanufacturers
  constructor
  case scope => exact hscope'.trans hscope.symm
  case name => exact Except.ok.inj hnames
  case manufacturer => exact Except.ok.inj hmanufacturers
  case upgradeCode => exact hcode'.trans hcode.symm
  case fileKeys => exact hfiles
  case directories => exact Except.ok.inj hsame
  case components =>
    refine (forall₂_of_mapM hcs hcs').imp ?_
    rintro d d' ⟨c, hc, hd, hd'⟩
    exact Component.keyedAlike_of_expandWith hd hd' (hkeeps.keyPaths c hc)

end Manifest
end Expansion

/-! ## Packages -/

namespace Manifest

/-- On one platform manifests that are keyed alike are settled to components with the same keys. -/
theorem KeyedAlike.sameKeys {i i' : Injection} {e e' : Manifest} {upgradeCode upgradeCode' : Guid}
    {t t' : DirectoryTree} {g g' : ComponentGraph} {p p' : Package} (hkeyed : e.KeyedAlike e')
    (hplatform : i'.platform = i.platform) (h : Settles i e upgradeCode t g p)
    (h' : Settles i' e' upgradeCode' t' g' p') :
    List.Forall₂ Package.Component.SameKey p.components p'.components := by
  have hcode := h'.code
  have htree := h'.tree
  rw [hkeyed.upgradeCode, h.code] at hcode
  rw [hkeyed.directories, hplatform, h.tree] at htree
  cases hcode
  cases htree
  have hcontext : componentContext i' e' upgradeCode t = componentContext i e upgradeCode t := by
    rw [componentContext, componentContext, hkeyed.scope, hkeyed.name, hkeyed.manufacturer,
      hkeyed.fileKeys, hplatform]
  have hall' := h'.resolved.1
  rw [hcontext] at hall'
  refine (forall₂_square hkeyed.components h.resolved.1 hall').imp ?_
  rintro r r' ⟨c, c', hcc', hr, hr'⟩
  exact Component.sameKey_of_resolves hcc' hr hr'

/-- Where two builds of a manifest for one platform expand to the same what its keys depend on, their
packages have the same keys, component by component. -/
theorem compile_keeps_keys {m : Manifest} {s s' : Settings} {i i' : Injection} {p p' : Package}
    (h : m.compile s = .ok p) (h' : m.compile s' = .ok p')
    (hi : Injection.ofSettings s m.product.version = .ok i)
    (hi' : Injection.ofSettings s' m.product.version = .ok i')
    (hplatform : i'.platform = i.platform) (hkeeps : m.KeepsKeys i.expand i'.expand) :
    List.Forall₂ Package.Component.SameKey p.components p'.components := by
  obtain ⟨j, e, _, _, _, hj, hexpanded, hsettles⟩ := compile_eq_ok h
  obtain ⟨j', e', _, _, _, hj', hexpanded', hsettles'⟩ := compile_eq_ok h'
  cases hi.symm.trans hj
  cases hi'.symm.trans hj'
  exact (hkeeps.keyedAlike hexpanded hexpanded').sameKeys hplatform hsettles hsettles'

/-- An editor whose program comes from the build, with a value that holds the version, and an entry of
the start menu that stands for a component of its own. -/
def injected : Manifest where
  product := {
    name := "Acme Editor"
    manufacturer := "Acme Corp"
    upgradeCode := "3F2504E0-4F89-11D3-9A0C-0305E82C3301"
    productCode := "auto"
    version := "$\x7bversion\x7d"
    language := 1033
    codepage := 1252
    scope := .perMachine
    installLevel := 1
    upgrade := Upgrade.standard
    properties := .empty }
  directories := [⟨"INSTALLFOLDER", "Acme", some "$\x7bprogram_files\x7d", false⟩]
  components := [
    { id := "Main"
      directory := "INSTALLFOLDER"
      guid := "auto"
      win64 := none
      items := [.file ⟨"AcmeExe", "$\x7bbinary\x7d", none, true⟩]
      integrations := [] },
    { id := "Settings"
      directory := "INSTALLFOLDER"
      guid := "auto"
      win64 := some false
      items := [.registry ⟨"Version", .localMachine, "Software\\Acme", some "Version",
        "$\x7bversion\x7d ($\x7bprofile\x7d)", .string, true⟩]
      integrations := [] },
    { id := "Menu"
      directory := "INSTALLFOLDER"
      guid := "auto"
      win64 := none
      items := []
      integrations := [.startMenu
        ⟨"Open", "Acme Editor $\x7bversion\x7d", "AcmeExe", none, none, none, none, true⟩] }]
  features := [⟨"Core", "Acme Editor", "", 1, false, .collapse, ["Main", "Settings", "Menu"], []⟩]
  actions := []
  rules := []

/-- A build for trying the editor out. -/
def trial : Settings :=
  ⟨some "x64", "1.0.0", "debug", some "target/debug/acme.exe", none, none, none, none⟩

/-- A build that takes the program from elsewhere. -/
def release : Settings :=
  ⟨some "amd64", "2.1.0", "release", some "D:\\out\\acme.exe", none, none, none, none⟩

/-- What a build gives, with its version and selector read off. -/
def injectionOf (s : Settings) (version : Version) (selector : String) : Injection where
  platform := .x64
  version := version
  selector := some selector
  versionTemplate := "$\x7bversion\x7d"
  profile := s.profile
  assets := s.assets

theorem compile_keeps_keys_injected : ∃ p p', injected.compile trial = .ok p ∧
    injected.compile release = .ok p' ∧
    List.Forall₂ Package.Component.SameKey p.components p'.components := by
  have htrial : Injection.ofSettings trial injected.product.version =
      .ok (injectionOf trial ⟨1, 0, 0, none⟩ "x64") := by
    decide +kernel
  have hrelease : Injection.ofSettings release injected.product.version =
      .ok (injectionOf release ⟨2, 1, 0, none⟩ "amd64") := by
    decide +kernel
  have hkeeps : injected.KeepsKeys (injectionOf trial ⟨1, 0, 0, none⟩ "x64").expand
      (injectionOf release ⟨2, 1, 0, none⟩ "amd64").expand :=
    ⟨by decide +kernel, by decide +kernel, by decide +kernel, by decide +kernel⟩
  obtain ⟨p, hp⟩ : ∃ p, injected.compile trial = .ok p := exists_of_isOk (by decide +kernel)
  obtain ⟨p', hp'⟩ : ∃ p', injected.compile release = .ok p' := exists_of_isOk (by decide +kernel)
  exact ⟨p, p', hp, hp', compile_keeps_keys hp hp' htrial hrelease rfl hkeeps⟩

end Manifest
end Installer
