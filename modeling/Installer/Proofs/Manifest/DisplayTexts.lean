import Installer.Proofs.Component.Graph
import Installer.Proofs.Feature.Forest
import Installer.Proofs.Manifest.Expansion
import Installer.Proofs.Package.Compilation

/-!
# The texts of a manifest that users read

Wherever a product, a directory, an item or an integration displays a text, the expanded manifest has
the expansion of the declared one (`ShowsExpansions`). Features are not expanded: their titles and
descriptions are the declared ones, in the expanded manifest (`expandWith_displayTexts`) and in the
package (`displayTexts_of_compile`).

**What it does not establish.** That titles of features stay as they are is what happens, and no rule
of templates asks for it. A title is its own expansion if it holds no `$`, and then nothing is to be
seen of the difference.
-/

set_option autoImplicit false

namespace Installer
open Result

/-- The name and the description that an item displays. -/
def Item.displayTexts : Item → List String
  | .shortcut s => s.name :: s.description.toList
  | .file _ | .registry _ | .environment _ | .removeFolder _ => []

/-- The name and the description that an integration displays. -/
def Integration.displayTexts : Integration → List String
  | .path _ => []
  | .fileAssociation a => a.description.toList
  | .startMenu s => s.name :: s.description.toList

def Manifest.Product.displayTexts (p : Manifest.Product) : List String := [p.name, p.manufacturer]

mutual
/-- The titles and descriptions of a feature and of all features in it, depth first. -/
def Manifest.Feature.displayTexts : Manifest.Feature → List String
  | ⟨_, title, description, _, _, _, _, children⟩ => title :: description :: displayTextsOfAll children
/-- The titles and descriptions of several features in their order. -/
def Manifest.Feature.displayTextsOfAll : List Manifest.Feature → List String
  | [] => []
  | f :: rest => f.displayTexts ++ displayTextsOfAll rest
end

def Package.Feature.displayTexts (f : Package.Feature) : List String := [f.title, f.description]

variable {ε : Type} {f : Expander ε}

/-- The texts shown are the expansions of those declared, one by one. -/
def Expander.Gives (f : Expander ε) : (declared shown : List String) → Prop :=
  List.Forall₂ fun text text' => f text = .ok text'

namespace Expander

theorem gives_self_iff {texts : List String} :
    f.Gives texts texts ↔ ∀ text ∈ texts, f text = .ok text :=
  List.forall₂_same

theorem gives_of_optional {text text' : Option String} (h : f.optional text = .ok text') :
    f.Gives text.toList text'.toList := by
  cases text with
  | none =>
    cases h
    exact .nil
  | some text =>
    obtain ⟨text', htext, rfl⟩ := map_eq_ok.mp h
    exact .cons htext .nil

end Expander

theorem Item.gives_displayTexts {x x' : Item} (h : x.expandWith f = .ok x') :
    f.Gives x.displayTexts x'.displayTexts := by
  cases x with
  | shortcut s =>
    obtain ⟨name, hname, h⟩ := bind_eq_ok.mp h
    obtain ⟨description, hdescription, h⟩ := bind_eq_ok.mp h
    obtain ⟨arguments, -, h⟩ := bind_eq_ok.mp h
    cases h
    exact .cons hname (Expander.gives_of_optional hdescription)
  | file s =>
    obtain ⟨source, -, h⟩ := bind_eq_ok.mp h
    obtain ⟨name, -, h⟩ := bind_eq_ok.mp h
    cases h
    exact .nil
  | registry r =>
    obtain ⟨key, -, h⟩ := bind_eq_ok.mp h
    obtain ⟨name, -, h⟩ := bind_eq_ok.mp h
    obtain ⟨value, -, h⟩ := bind_eq_ok.mp h
    cases h
    exact .nil
  | environment e =>
    obtain ⟨value, -, h⟩ := bind_eq_ok.mp h
    cases h
    exact .nil
  | removeFolder r =>
    cases h
    exact .nil

theorem Integration.gives_displayTexts {x x' : Integration} (h : x.expandWith f = .ok x') :
    f.Gives x.displayTexts x'.displayTexts := by
  cases x with
  | path p =>
    cases h
    exact .nil
  | fileAssociation a =>
    obtain ⟨description, hdescription, h⟩ := bind_eq_ok.mp h
    obtain ⟨command, -, h⟩ := bind_eq_ok.mp h
    cases h
    exact Expander.gives_of_optional hdescription
  | startMenu s =>
    obtain ⟨name, hname, h⟩ := bind_eq_ok.mp h
    obtain ⟨description, hdescription, h⟩ := bind_eq_ok.mp h
    cases h
    exact .cons hname (Expander.gives_of_optional hdescription)

namespace Manifest

theorem Product.gives_displayTexts {version : String} {x x' : Product}
    (h : x.expandWith f version = .ok x') : f.Gives x.displayTexts x'.displayTexts := by
  obtain ⟨_, _, _, _, hname, hmanufacturer, -, -, rfl⟩ := expandWith_eq_ok h
  exact .cons hname (.cons hmanufacturer .nil)

theorem Directory.name_of_expandWith {d d' : Directory} (h : d.expandWith f = .ok d') :
    f d.name = .ok d'.name := by
  obtain ⟨name, hname, h⟩ := bind_eq_ok.mp h
  obtain ⟨parent, -, h⟩ := bind_eq_ok.mp h
  cases h
  exact hname

/-- Every item and every integration of a component displays the expansions of its texts. -/
def Component.ShowsExpansions (f : Expander ε) (c c' : Component) : Prop :=
  List.Forall₂ (fun x x' => f.Gives x.displayTexts x'.displayTexts) c.items c'.items ∧
    List.Forall₂ (fun x x' => f.Gives x.displayTexts x'.displayTexts) c.integrations c'.integrations

theorem Component.showsExpansions {c c' : Component} (h : c.expandWith f = .ok c') :
    c.ShowsExpansions f c' := by
  obtain ⟨items, hitems, h⟩ := bind_eq_ok.mp h
  obtain ⟨integrations, hintegrations, h⟩ := bind_eq_ok.mp h
  cases h
  exact ⟨(mapM_eq_ok.mp hitems).imp fun _ _ => Item.gives_displayTexts,
    (mapM_eq_ok.mp hintegrations).imp fun _ _ => Integration.gives_displayTexts⟩

/-- Everything but the features displays the expansions of the declared texts. -/
structure ShowsExpansions (f : Expander ε) (m expanded : Manifest) : Prop where
  product : f.Gives m.product.displayTexts expanded.product.displayTexts
  directories : f.Gives (m.directories.map (·.name)) (expanded.directories.map (·.name))
  components : List.Forall₂ (Component.ShowsExpansions f) m.components expanded.components

theorem features_of_expandWith {version : String} {m expanded : Manifest}
    (h : m.expandWith f version = .ok expanded) : expanded.features = m.features := by
  obtain ⟨_, _, _, _, -, -, -, -, rfl⟩ := expandWith_eq_ok_iff.mp h
  rfl

/-- The parts of a manifest other than features display expansions. -/
theorem showsExpansions {version : String} {m expanded : Manifest}
    (h : m.expandWith f version = .ok expanded) : ShowsExpansions f m expanded := by
  obtain ⟨product, directories, components, actions, hproduct, hdirectories, hcomponents, -, rfl⟩ :=
    expandWith_eq_ok_iff.mp h
  constructor
  case product => exact Product.gives_displayTexts hproduct
  case directories =>
    apply List.forall₂_map_left_iff.mpr
    apply List.forall₂_map_right_iff.mpr
    exact hdirectories.imp fun _ _ => Directory.name_of_expandWith
  case components => exact hcomponents.imp fun _ _ => Component.showsExpansions

/-- What users read in an expanded manifest is the expansion of the declared texts, except in features,
which are as declared: there it is so exactly if every title and description is its own expansion. -/
theorem expandWith_displayTexts {i : Injection} {version : String} {m expanded : Manifest}
    (h : m.expandWith i.expand version = .ok expanded) :
    ShowsExpansions i.expand m expanded ∧ expanded.features = m.features ∧
      (Expander.Gives i.expand (Feature.displayTextsOfAll m.features)
          (Feature.displayTextsOfAll expanded.features) ↔
        ∀ text ∈ Feature.displayTextsOfAll m.features, i.expand text = .ok text) := by
  have hfeatures := features_of_expandWith h
  refine ⟨showsExpansions h, hfeatures, ?_⟩
  rw [hfeatures]
  exact Expander.gives_self_iff

/-- An editor with a start menu entry, whose one feature has another in it. -/
def titled (title : String) : Manifest where
  product := {
    name := "Acme Editor $\x7bversion\x7d"
    manufacturer := "Acme Corp"
    upgradeCode := "3F2504E0-4F89-11D3-9A0C-0305E82C3301"
    productCode := "6B29FC40-CA47-1067-B31D-00DD010662DA"
    version := "$\x7bversion\x7d"
    language := 1033
    codepage := 1252
    scope := .perMachine
    installLevel := 1
    upgrade := Upgrade.standard
    properties := .ofList [] }
  directories := [⟨"INSTALLFOLDER", "Acme $\x7bversion\x7d", none, false⟩]
  components := [{
    id := "Main"
    directory := "INSTALLFOLDER"
    guid := "A0EEBC99-9C0B-4EF8-BB6D-6BB9BD380A11"
    win64 := none
    items := [.file ⟨"AcmeExe", "bin/acme.exe", none, true⟩]
    integrations := [.startMenu ⟨"AcmeStart", "Acme $\x7bversion\x7d", "AcmeExe", none, none, none,
      some "Costs $5", false⟩] }]
  features := [⟨"Core", "Core", "", 1, false, .expand, ["Main"],
    [⟨"Extras", title, "", 1, true, .expand, [], []⟩]⟩]
  actions := []
  rules := []

/-- The settings of its first build. -/
def firstBuild : Settings := ⟨some "x64", "1.0.0", "release", none, none, none, none, none⟩

/-- What they settle. -/
def firstInjection : Injection where
  platform := .x64
  version := ⟨1, 0, 0, none⟩
  selector := some "x64"
  versionTemplate := "$\x7bversion\x7d"
  profile := "release"
  assets := firstBuild.assets

theorem expandWith_displayTexts_titled : ∃ expanded,
    (titled "Extras for $5").expandWith firstInjection.expand "1.0.0" = .ok expanded ∧
      ShowsExpansions firstInjection.expand (titled "Extras for $5") expanded ∧
      Expander.Gives firstInjection.expand (Feature.displayTextsOfAll (titled "Extras for $5").features)
        (Feature.displayTextsOfAll expanded.features) := by
  have hmade : ((titled "Extras for $5").expandWith firstInjection.expand "1.0.0").isOk = true := by
    decide +kernel
  obtain ⟨expanded, hexpanded⟩ := exists_of_isOk hmade
  obtain ⟨hshows, -, hfeatures⟩ := expandWith_displayTexts hexpanded
  exact ⟨expanded, hexpanded, hshows, hfeatures.mpr (by decide +kernel)⟩

/-! ## Features in the package -/

section Listing
open Installer.Feature (listOne listAll)

variable {installLevel : UInt16}

mutual
/-- The listing of a feature displays what the feature and those in it declare. -/
theorem displayTexts_listOne {outer : Option String} {byDefault : Bool} : ∀ f : Feature,
    (listOne installLevel outer byDefault f).flatMap Package.Feature.displayTexts = f.displayTexts
  | ⟨id, title, description, level, allowAbsent, display, components, children⟩ => by
    rw [listOne, Feature.displayTexts, List.flatMap_cons, displayTexts_listAll children]
    rfl
theorem displayTexts_listAll {outer : Option String} {byDefault : Bool} : ∀ fs : List Feature,
    (listAll installLevel outer byDefault fs).flatMap Package.Feature.displayTexts =
      Feature.displayTextsOfAll fs
  | [] => by
    rw [listAll, Feature.displayTextsOfAll, List.flatMap_nil]
  | f :: rest => by
    rw [listAll, Feature.displayTextsOfAll, List.flatMap_append, displayTexts_listOne f,
      displayTexts_listAll rest]
end

end Listing

/-- The features of a package display the texts that the manifest declares, templates and all. -/
theorem displayTexts_of_compile {m : Manifest} {s : Settings} {p : Package}
    (h : m.compile s = .ok p) :
    p.features.flatMap Package.Feature.displayTexts = Feature.displayTextsOfAll m.features := by
  obtain ⟨i, expanded, upgradeCode, t, g, hi, hexpanded, hsettles⟩ := compile_eq_ok h
  obtain ⟨-, hlist, -⟩ := ComponentGraph.make_eq_ok_iff.mp hsettles.graph
  rw [hsettles.features, (Feature.list_eq_ok_iff.mp hlist).1, displayTexts_listAll,
    features_of_expandWith hexpanded]

/-- The title of a feature, as a template. -/
def extras : String := "Extras of $\x7bversion\x7d"

/-- A template in the title of a feature that lies in another reaches the package as it is. -/
theorem compile_shows_template :
    Injection.ofSettings firstBuild (titled extras).product.version = .ok firstInjection ∧
    firstInjection.expand extras = .ok "Extras of 1.0.0" ∧
    (∃ expanded, (titled extras).expandWith firstInjection.expand "1.0.0" = .ok expanded ∧
      ¬Expander.Gives firstInjection.expand (Feature.displayTextsOfAll (titled extras).features)
        (Feature.displayTextsOfAll expanded.features)) ∧
    ∃ p, (titled extras).compile firstBuild = .ok p ∧
      extras ∈ p.features.flatMap Package.Feature.displayTexts := by
  have hextras : firstInjection.expand extras = .ok "Extras of 1.0.0" := by decide +kernel
  have hmem : extras ∈ Feature.displayTextsOfAll (titled extras).features := by decide
  refine ⟨by decide +kernel, hextras, ?_, ?_⟩
  · have hmade : ((titled extras).expandWith firstInjection.expand "1.0.0").isOk = true := by
      decide +kernel
    obtain ⟨expanded, hexpanded⟩ := exists_of_isOk hmade
    refine ⟨expanded, hexpanded, fun hgives => ?_⟩
    rw [features_of_expandWith hexpanded] at hgives
    have hself := Expander.gives_self_iff.mp hgives extras hmem
    rw [hextras] at hself
    exact absurd (Except.ok.inj hself) (by decide)
  · have hmade : ((titled extras).compile firstBuild).isOk = true := by decide +kernel
    obtain ⟨p, hp⟩ := exists_of_isOk hmade
    refine ⟨p, hp, ?_⟩
    rw [displayTexts_of_compile hp]
    exact hmem

end Manifest
end Installer
