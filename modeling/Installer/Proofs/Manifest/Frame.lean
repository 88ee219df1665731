import Installer.Proofs.Manifest.DisplayTexts

/-!
# What expansion touches, and what it leaves

The texts of a manifest that may hold templates stand in an order (`Manifest.templates`); expansion goes
through them in this order and ends at the first that has no expansion (`map_templates`). What is left of
a manifest without them is its outline (`Manifest.outline`): ids, references and rules, and which items
and integrations there are. Expansion does not change it (`outline_of_expandWith`).

Each part of a manifest has its templates and its outline, with one lemma for what expansion does to
the first and one for the second. They are put together in the order in which expansion goes
(`Expander.map_flatMap`).

**What it does not establish.** Which texts may hold templates is read off `Manifest.templates`;
features have none there. An expanded text may look like a template again, and is not expanded again.
-/

set_option autoImplicit false

namespace Installer
open Result

variable {ε : Type} {f : Expander ε}

/-! ## Texts that may hold templates -/

def Item.templates : Item → List String
  | .file x => x.source :: x.name.toList
  | .registry x => x.key :: (x.name.toList ++ [x.value])
  | .environment x => [x.value]
  | .shortcut x => x.name :: (x.description.toList ++ x.arguments.toList)
  | .removeFolder _ => []

def Integration.templates : Integration → List String
  | .path _ => []
  | .fileAssociation x => x.description.toList ++ x.command.toList
  | .startMenu x => x.name :: x.description.toList

/-- The texts under the names of a dictionary, in the order of the names. -/
def Dictionary.texts (d : Dictionary) : List String := d.entries.map (·.2)

namespace Manifest

def Product.templates (p : Product) : List String :=
  [p.name, p.manufacturer, p.upgrade.downgradeMessage] ++ p.properties.texts

def Directory.templates (d : Directory) : List String := d.name :: d.parent.toList

/-- Those of the items, and then those of the integrations. -/
def Component.templates (c : Component) : List String :=
  c.items.flatMap Item.templates ++ c.integrations.flatMap Integration.templates

def Action.templates (a : Action) : List String := [a.arguments]

/-- The texts of a manifest that may hold templates, in the order in which they are expanded. -/
def templates (m : Manifest) : List String :=
  m.product.templates ++ (m.directories.flatMap Directory.templates ++
    (m.components.flatMap Component.templates ++ m.actions.flatMap Action.templates))

end Manifest

/-! ## Expansion goes through the templates in their order -/

theorem Expander.map_optional (text : Option String) :
    (f.optional text).map Option.toList = text.toList.mapM f := by
  cases text with
  | none => rfl
  | some text =>
    show ((f text).map some).map Option.toList = [text].mapM f
    cases h : f text <;> simp [h, Except.map]

theorem Item.map_templates (x : Item) :
    (x.expandWith f).map templates = x.templates.mapM f := by
  cases x with
  | file x =>
    simp only [expandWith, templates, List.mapM_cons, ← Expander.map_optional, map_bind, map_andThen]
    rfl
  | registry x =>
    simp only [expandWith, templates, List.mapM_cons, List.mapM_append, List.mapM_nil,
      ← Expander.map_optional, map_bind, map_andThen, bind_assoc, pure_bind]
    rfl
  | environment x =>
    simp only [expandWith, templates, List.mapM_cons, List.mapM_nil, pure_bind, map_bind]
    rfl
  | shortcut x =>
    simp only [expandWith, templates, List.mapM_cons, List.mapM_append, ← Expander.map_optional,
      map_bind, map_andThen, bind_assoc, pure_bind]
    rfl
  | removeFolder x => rfl

theorem Integration.map_templates (x : Integration) :
    (x.expandWith f).map templates = x.templates.mapM f := by
  cases x with
  | path x => rfl
  | fileAssociation x =>
    simp only [expandWith, templates, List.mapM_append, ← Expander.map_optional, map_bind, map_andThen]
    rfl
  | startMenu x =>
    simp only [expandWith, templates, List.mapM_cons, ← Expander.map_optional, map_bind, map_andThen]
    rfl

/-- Where each element gives the expansions of its texts, a list gives those of all its texts. -/
theorem Expander.map_flatMap {α β : Type} {g : α → Except ε β} {texts : α → List String}
    {texts' : β → List String} (h : ∀ a, (g a).map texts' = (texts a).mapM f) (as : List α) :
    (as.mapM g).map (·.flatMap texts') = (as.flatMap texts).mapM f := by
  induction as with
  | nil => rfl
  | cons a as ih =>
    rw [List.mapM_cons, List.flatMap_cons, List.mapM_append, ← h, ← ih]
    simp only [map_bind, map_andThen]
    rfl

theorem Dictionary.map_texts (d : Dictionary) : (d.mapM f).map texts = d.texts.mapM f := by
  have hentry (e : String × String) :
      (do return (e.1, ← f e.2) : Except ε (String × String)).map (fun e => [e.2]) = [e.2].mapM f := by
    simp only [List.mapM_cons, List.mapM_nil, pure_bind, map_bind]
    rfl
  have hentries := Expander.map_flatMap hentry d.entries
  simp only [← List.map_eq_flatMap, ← entries_mapM] at hentries
  rw [texts, ← hentries]
  cases d.mapM f <;> rfl

namespace Manifest

theorem Product.map_templates (version : String) (p : Product) :
    (p.expandWith f version).map templates = p.templates.mapM f := by
  simp only [expandWith, templates, List.mapM_append, List.mapM_cons, List.mapM_nil,
    ← Dictionary.map_texts, map_bind, map_andThen, bind_assoc, pure_bind]
  rfl

theorem Directory.map_templates (d : Directory) :
    (d.expandWith f).map templates = d.templates.mapM f := by
  simp only [expandWith, templates, List.mapM_cons, ← Expander.map_optional, map_bind, map_andThen]
  rfl

theorem Component.map_templates (c : Component) :
    (c.expandWith f).map templates = c.templates.mapM f := by
  simp only [expandWith, templates, List.mapM_append, ← Expander.map_flatMap Item.map_templates,
    ← Expander.map_flatMap Integration.map_templates, map_bind, map_andThen]
  rfl

theorem Action.map_templates (a : Action) :
    (a.expandWith f).map templates = a.templates.mapM f := by
  simp only [expandWith, templates, List.mapM_cons, List.mapM_nil, pure_bind, map_bind]
  rfl

/-- The templates of an expanded manifest are the expansions of the declared ones, and the first that
has none decides how expansion fails. -/
theorem map_templates (version : String) (m : Manifest) :
    (m.expandWith f version).map templates = m.templates.mapM f := by
  simp only [expandWith, templates, List.mapM_append, ← Product.map_templates version,
    ← Expander.map_flatMap Directory.map_templates, ← Expander.map_flatMap Component.map_templates,
    ← Expander.map_flatMap Action.map_templates, map_bind, map_andThen, bind_assoc, pure_bind]
  rfl

end Manifest

/-! ## What is left without the texts -/

/-- The item with its templates blank. -/
def Item.outline : Item → Item
  | .file x => .file { x with source := "", name := x.name.map fun _ => "" }
  | .registry x => .registry { x with key := "", name := x.name.map fun _ => "", value := "" }
  | .environment x => .environment { x with value := "" }
  | .shortcut x => .shortcut { x with
      name := ""
      description := x.description.map fun _ => ""
      arguments := x.arguments.map fun _ => "" }
  | .removeFolder x => .removeFolder x

def Integration.outline : Integration → Integration
  | .path x => .path x
  | .fileAssociation x => .fileAssociation { x with
      description := x.description.map fun _ => ""
      command := x.command.map fun _ => "" }
  | .startMenu x => .startMenu { x with name := "", description := x.description.map fun _ => "" }

/-- The names of a dictionary without their texts. -/
def Dictionary.outline (d : Dictionary) : Dictionary where
  entries := d.names.map fun name => (name, "")
  ascending := by
    rw [names, List.map_map]
    exact List.pairwise_map.mpr d.ascending

namespace Manifest

/-- The product with its templates blank, and without the version, which the build settles. -/
def Product.outline (p : Product) : Product :=
  { p with
    name := ""
    manufacturer := ""
    version := ""
    upgrade := { p.upgrade with downgradeMessage := "" }
    properties := p.properties.outline }

def Directory.outline (d : Directory) : Directory :=
  { d with name := "", parent := d.parent.map fun _ => "" }

def Component.outline (c : Component) : Component :=
  { c with items := c.items.map Item.outline, integrations := c.integrations.map Integration.outline }

def Action.outline (a : Action) : Action := { a with arguments := "" }

/-- The manifest with every template blank; its features and rules are all there. -/
def outline (m : Manifest) : Manifest :=
  { m with
    product := m.product.outline
    directories := m.directories.map Directory.outline
    components := m.components.map Component.outline
    actions := m.actions.map Action.outline }

end Manifest

theorem Expander.blank_of_optional {text text' : Option String} (h : f.optional text = .ok text') :
    (text'.map fun _ => "") = text.map fun _ => "" := by
  cases text with
  | none =>
    cases h
    rfl
  | some text =>
    obtain ⟨text', -, rfl⟩ := map_eq_ok.mp h
    rfl

theorem Item.outline_of_expandWith {x x' : Item} (h : x.expandWith f = .ok x') :
    x'.outline = x.outline := by
  cases x with
  | file x =>
    obtain ⟨source, -, h⟩ := bind_eq_ok.mp h
    obtain ⟨name, hname, h⟩ := bind_eq_ok.mp h
    cases h
    simp only [outline, Expander.blank_of_optional hname]
  | registry x =>
    obtain ⟨key, -, h⟩ := bind_eq_ok.mp h
    obtain ⟨name, hname, h⟩ := bind_eq_ok.mp h
    obtain ⟨value, -, h⟩ := bind_eq_ok.mp h
    cases h
    simp only [outline, Expander.blank_of_optional hname]
  | environment x =>
    obtain ⟨value, -, h⟩ := bind_eq_ok.mp h
    cases h
    rfl
  | shortcut x =>
    obtain ⟨name, -, h⟩ := bind_eq_ok.mp h
    obtain ⟨description, hdescription, h⟩ := bind_eq_ok.mp h
    obtain ⟨arguments, harguments, h⟩ := bind_eq_ok.mp h
    cases h
    simp only [outline, Expander.blank_of_optional hdescription,
      Expander.blank_of_optional harguments]
  | removeFolder x =>
    cases h
    rfl

theorem Integration.outline_of_expandWith {x x' : Integration} (h : x.expandWith f = .ok x') :
    x'.outline = x.outline := by
  cases x with
  | path x =>
    cases h
    rfl
  | fileAssociation x =>
    obtain ⟨description, hdescription, h⟩ := bind_eq_ok.mp h
    obtain ⟨command, hcommand, h⟩ := bind_eq_ok.mp h
    cases h
    simp only [outline, Expander.blank_of_optional hdescription,
      Expander.blank_of_optional hcommand]
  | startMenu x =>
    obtain ⟨name, -, h⟩ := bind_eq_ok.mp h
    obtain ⟨description, hdescription, h⟩ := bind_eq_ok.mp h
    cases h
    simp only [outline, Expander.blank_of_optional hdescription]

theorem Dictionary.outline_of_mapM {d d' : Dictionary} (h : d.mapM f = .ok d') :
    d'.outline = d.outline := by
  apply Dictionary.ext
  show d'.names.map _ = d.names.map _
  rw [names_of_mapM h]

namespace Manifest

theorem Product.outline_of_expandWith {version : String} {p p' : Product}
    (h : p.expandWith f version = .ok p') : p'.outline = p.outline := by
  obtain ⟨_, _, _, _, -, -, -, hproperties, rfl⟩ := expandWith_eq_ok h
  simp only [outline, Dictionary.outline_of_mapM hproperties]

theorem Directory.outline_of_expandWith {d d' : Directory} (h : d.expandWith f = .ok d') :
    d'.outline = d.outline := by
  obtain ⟨name, -, h⟩ := bind_eq_ok.mp h
  obtain ⟨parent, hparent, h⟩ := bind_eq_ok.mp h
  cases h
  simp only [outline, Expander.blank_of_optional hparent]

theorem Component.outline_of_expandWith {c c' : Component} (h : c.expandWith f = .ok c') :
    c'.outline = c.outline := by
  obtain ⟨items, hitems, h⟩ := bind_eq_ok.mp h
  obtain ⟨integrations, hintegrations, h⟩ := bind_eq_ok.mp h
  cases h
  have hitems := map_eq_map_of_related (mapM_eq_ok.mp hitems) fun _ _ => Item.outline_of_expandWith
  have hintegrations := map_eq_map_of_related (mapM_eq_ok.mp hintegrations) fun _ _ =>
    Integration.outline_of_expandWith
  simp only [outline, hitems, hintegrations]

theorem Action.outline_of_expandWith {a a' : Action} (h : a.expandWith f = .ok a') :
    a'.outline = a.outline := by
  obtain ⟨arguments, -, h⟩ := bind_eq_ok.mp h
  cases h
  rfl

theorem version_of_expandWith {version : String} {m m' : Manifest}
    (h : m.expandWith f version = .ok m') : m'.product.version = version := by
  obtain ⟨product, _, _, _, hproduct, -, -, -, rfl⟩ := expandWith_eq_ok_iff.mp h
  obtain ⟨_, _, _, _, -, -, -, -, rfl⟩ := Product.expandWith_eq_ok hproduct
  rfl

/-- Expansion leaves all but the templates and the version as it is. -/
theorem outline_of_expandWith {version : String} {m m' : Manifest}
    (h : m.expandWith f version = .ok m') : m'.outline = m.outline := by
  obtain ⟨product, directories, components, actions, hproduct, hdirectories, hcomponents, hactions,
    rfl⟩ := expandWith_eq_ok_iff.mp h
  have hdirectories := map_eq_map_of_related hdirectories fun _ _ => Directory.outline_of_expandWith
  have hcomponents := map_eq_map_of_related hcomponents fun _ _ => Component.outline_of_expandWith
  have hactions := map_eq_map_of_related (mapM_eq_ok.mp hactions) fun _ _ =>
    Action.outline_of_expandWith
  simp only [outline, Product.outline_of_expandWith hproduct, hdirectories, hcomponents, hactions]

/-- An expanded manifest is the declared one with the expansions of its templates and the version of the
build in their places: all else is as declared. There is none exactly if some template has no expansion,
and then it is the first of these that decides. -/
theorem expandWith_frame {i : Injection} {m : Manifest} :
    (∀ m', m.expandWith i.expand i.version.text = .ok m' →
      m'.outline = m.outline ∧ m'.product.version = i.version.text ∧
        m.templates.mapM i.expand = .ok m'.templates) ∧
    ((∃ v, m.expandWith i.expand i.version.text = .error v) ↔
      ∃ text ∈ m.templates, ∃ v, i.expand text = .error v) ∧
    ∀ v, m.expandWith i.expand i.version.text = .error v ↔
      ∃ front text back, m.templates = front ++ text :: back ∧
        (∀ t ∈ front, ∃ t', i.expand t = .ok t') ∧ i.expand text = .error v := by
  have htemplates := map_templates (f := i.expand) i.version.text m
  have hfails {v : Violation} : m.expandWith i.expand i.version.text = .error v ↔
      m.templates.mapM i.expand = .error v := by
    rw [← htemplates, map_eq_error]
  refine ⟨fun m' h => ⟨outline_of_expandWith h, version_of_expandWith h, ?_⟩, ?_, fun v => ?_⟩
  · rw [← htemplates, h]
    rfl
  · simp only [hfails]
    exact exists_mapM_error_iff
  · rw [hfails]
    exact mapM_eq_error_iff

/-- The editor with an unknown name in the name of its directory, and with arguments that break off. -/
def mislabelled : Manifest :=
  { titled "Extras" with
    directories := [⟨"INSTALLFOLDER", "Acme $\x7bedition\x7d", none, false⟩]
    actions := [⟨"Configure", "AcmeExe", .immediate, true, none, "--set $\x7b"⟩] }

theorem expandWith_frame_mislabelled :
    (∃ expanded, (titled "Extras").expandWith firstInjection.expand "1.0.0" = .ok expanded ∧
      expanded.outline = (titled "Extras").outline) ∧
    mislabelled.expandWith firstInjection.expand "1.0.0" =
      .error (.malformedTemplate "Acme $\x7bedition\x7d" (.unknownName "edition")) := by
  constructor
  · have hmade : ((titled "Extras").expandWith firstInjection.expand "1.0.0").isOk = true := by
      decide +kernel
    obtain ⟨expanded, hexpanded⟩ := exists_of_isOk hmade
    exact ⟨expanded, hexpanded, (expandWith_frame.1 expanded hexpanded).1⟩
  · have hfront : (mislabelled.templates.take 3).all
        (fun text => (firstInjection.expand text).isOk) = true := by
      decide +kernel
    exact (expandWith_frame.2.2 _).mpr ⟨mislabelled.templates.take 3, "Acme $\x7bedition\x7d",
      mislabelled.templates.drop 4, by decide +kernel,
      fun text htext => exists_of_isOk (List.all_eq_true.mp hfront text htext), by decide +kernel⟩

end Manifest
end Installer
