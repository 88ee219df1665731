import Installer.Proofs.Injection
import Installer.Proofs.Manifest.Frame
import Installer.Proofs.Version

/-!
# Recorded variables and what their names stand for

A name stands for a text exactly if the text is recorded as the value of a variable with the name, or the
name is that of an asset and the text its path (`meaning_eq_value_iff`). So a reference to a recorded
variable expands to the recorded value, by itself and within a template (`expand_within`). The version
is the one that its template came to with the version that was injected; what is recorded of it, and
what `version` stands for from then on, is its text, which is read as it. Main statement:
`recorded_agree`.

**What it does not establish.** The recorded version need not be the text that was injected: that one
may have zeros in front or stand in a template. The paths of assets have names too, and are recorded
in another place.
-/

set_option autoImplicit false

namespace Installer

namespace Template
open Result

variable {meaning : String → Meaning}

/-- Templates of which the first does not end in `$` expand one after the other. -/
theorem expand_append {a b x y : String} (ha : expand meaning a = .ok x)
    (hend : a.toList.getLast? ≠ some '$') (hb : expand meaning b = .ok y) :
    expand meaning (a ++ b) = .ok (x ++ y) := by
  rw [expand_eq_ok_iff] at ha hb ⊢
  rw [String.toList_append, String.toList_append, expandChars_append ha hend, hb]
  rfl

/-- A reference ends in a brace. -/
theorem getLast?_reference (name : String) : (reference name).toList.getLast? ≠ some '$' := by
  have hchars : (reference name).toList = ('$' :: '\x7b' :: name.toList) ++ ['\x7d'] := by
    simp [reference, String.toList_append]
  rw [hchars, List.getLast?_concat]
  decide

end Template

namespace Injection
open Result

variable {s : Settings} {versionTemplate : String} {i : Injection}

/-! ## What names stand for -/

/-- Where each key has one entry, the entry under a key is found. -/
theorem lookup_eq_some_iff_mem {β : Type} {entries : List (String × β)}
    (h : (entries.map Prod.fst).Nodup) {name : String} {b : β} :
    entries.lookup name = some b ↔ (name, b) ∈ entries := by
  rw [List.lookup_eq_some_iff]
  constructor
  · rintro ⟨front, back, rfl, -⟩
    simp
  · intro hmem
    obtain ⟨front, back, rfl⟩ := List.append_of_mem hmem
    refine ⟨front, back, rfl, fun entry hentry => ?_⟩
    rw [List.map_append, List.nodup_append] at h
    rw [bne_iff_ne]
    exact fun heq => h.2.2 _ (List.mem_map_of_mem hentry) name (by simp) heq.symm

/-- The values that a build has settled itself, under the names that templates use. -/
def settled (i : Injection) : List (String × Option String) :=
  [("version", some i.version.text), ("platform", some (Keyword.spelling i.platform)),
    ("win64", some (yesNo i.platform.isWin64)), ("program_files", some i.platform.programFiles.id),
    ("profile", some i.profile)]

theorem meaning_eq_value_iff_lookup {name text : String} :
    i.meaning name = .value text ↔ (i.settled ++ i.assets).lookup name = some (some text) := by
  rw [meaning, meaningWith, settled]
  split <;> next hlookup => rw [hlookup]; simp

/-- What is recorded is what is settled, in another order. -/
theorem settled_perm (i : Injection) :
    i.settled.Perm (i.recorded.map fun v => (v.name, some v.value)) :=
  (@List.perm_middle _ ("version", some i.version.text) [("platform", some (Keyword.spelling i.platform)),
    ("win64", some (yesNo i.platform.isWin64)), ("program_files", some i.platform.programFiles.id)]
    [("profile", some i.profile)]).symm

theorem mem_settled_iff {name text : String} :
    (name, some text) ∈ i.settled ↔ ∃ v ∈ i.recorded, v.name = name ∧ v.value = text := by
  rw [i.settled_perm.mem_iff, List.mem_map]
  simp only [Prod.mk.injEq, Option.some.injEq]

/-- A name stands for a text if this is recorded under the name or is the path of the asset with the
name, and for no other. -/
theorem meaning_eq_value_iff (h : ofSettings s versionTemplate = .ok i) {name text : String} :
    i.meaning name = .value text ↔
      (∃ v ∈ i.recorded, v.name = name ∧ v.value = text) ∨ (name, some text) ∈ s.assets := by
  have hnodup : ((i.settled ++ i.assets).map Prod.fst).Nodup := by
    have hnames : names.Nodup := by decide
    rw [assets_of_ofSettings h]
    exact hnames
  rw [meaning_eq_value_iff_lookup, lookup_eq_some_iff_mem hnodup, List.mem_append, mem_settled_iff,
    assets_of_ofSettings h]

/-! ## References to recorded variables -/

/-- A reference to a recorded variable expands to the recorded value. -/
theorem expand_recorded (h : ofSettings s versionTemplate = .ok i) {v : Variable}
    (hv : v ∈ i.recorded) : i.expand (Template.reference v.name) = .ok v.value := by
  have hmeaning := (meaning_eq_value_iff h).mpr (.inl ⟨v, hv, rfl, rfl⟩)
  obtain ⟨hempty, hbrace⟩ := isReference_of_mem_names v.name (mem_names_of_meaning h hmeaning)
  exact Template.expand_reference hmeaning hempty hbrace

/-- Within a template it does so whatever stands around it. -/
theorem expand_within (h : ofSettings s versionTemplate = .ok i) {v : Variable} (hv : v ∈ i.recorded)
    {a b x y : String} (ha : i.expand a = .ok x) (hend : a.toList.getLast? ≠ some '$')
    (hb : i.expand b = .ok y) :
    i.expand (a ++ (Template.reference v.name ++ b)) = .ok (x ++ (v.value ++ y)) :=
  Template.expand_append ha hend
    (Template.expand_append (expand_recorded h hv) (Template.getLast?_reference v.name) hb)

/-! ## The version -/

/-- The version is the one that its template comes to with the version that was injected. -/
theorem version_of_ofSettings (h : ofSettings s versionTemplate = .ok i) :
    ∃ text, Template.expand (meaningWith (Text.trim s.version) i.platform i.profile i.assets)
      versionTemplate = .ok text ∧ Version.parse text = .ok i.version := by
  obtain ⟨platform, -, h⟩ := bind_eq_ok.mp h
  obtain ⟨text, htext, h⟩ := bind_eq_ok.mp h
  obtain ⟨version, hversion, h⟩ := bind_eq_ok.mp h
  cases h
  cases hparse : Version.parse text with
  | error fault =>
    rw [hparse] at hversion
    cases hversion
  | ok parsed =>
    rw [hparse] at hversion
    cases hversion
    exact ⟨text, htext, hparse⟩

theorem version_mem_recorded (i : Injection) :
    ⟨"version", i.version.text, s!"template = {i.versionTemplate}"⟩ ∈ i.recorded := by
  simp [recorded]

/-- In an expanded manifest the value of a recorded variable stands where there was a reference to it. -/
theorem references_of_expandWith (h : ofSettings s versionTemplate = .ok i) {m m' : Manifest}
    (hm : m.expandWith i.expand i.version.text = .ok m') :
    List.Forall₂ (fun template text => ∀ v ∈ i.recorded,
      template = Template.reference v.name → text = v.value) m.templates m'.templates := by
  have htemplates : m.templates.mapM i.expand = .ok m'.templates := by
    rw [← Manifest.map_templates i.version.text, hm]
    rfl
  refine (mapM_eq_ok.mp htemplates).imp fun template text htext v hv heq => ?_
  rw [heq, expand_recorded h hv] at htext
  exact (Except.ok.inj htext).symm

/-- What the names of a build stand for is what is recorded of it, and the paths of its assets. A
reference to a recorded variable expands to the recorded value, by itself, within a template and in a
manifest. For `version` this is the text of the build's version, which is read as that version,
whatever text the version template came to with the version that was injected. -/
theorem recorded_agree (h : ofSettings s versionTemplate = .ok i) :
    (∀ name text, i.meaning name = .value text ↔
      (∃ v ∈ i.recorded, v.name = name ∧ v.value = text) ∨ (name, some text) ∈ s.assets) ∧
    (∀ v ∈ i.recorded, i.expand (Template.reference v.name) = .ok v.value ∧
      ∀ a b x y, i.expand a = .ok x → a.toList.getLast? ≠ some '$' → i.expand b = .ok y →
        i.expand (a ++ (Template.reference v.name ++ b)) = .ok (x ++ (v.value ++ y))) ∧
    (i.expand (Template.reference "version") = .ok i.version.text ∧
      Version.parse i.version.text = .ok i.version ∧
      ∃ text, Template.expand (meaningWith (Text.trim s.version) i.platform i.profile i.assets)
        versionTemplate = .ok text ∧ Version.parse text = .ok i.version) ∧
    ∀ m m' : Manifest, m.expandWith i.expand i.version.text = .ok m' →
      m'.product.version = i.version.text ∧
      List.Forall₂ (fun template text => ∀ v ∈ i.recorded,
        template = Template.reference v.name → text = v.value) m.templates m'.templates := by
  have hversion := expand_recorded h i.version_mem_recorded
  refine ⟨fun name text => meaning_eq_value_iff h, fun v hv => ⟨expand_recorded h hv, ?_⟩,
    ⟨hversion, i.version.parse_text, version_of_ofSettings h⟩, fun m m' hm => ⟨?_, ?_⟩⟩
  · exact fun a b x y => expand_within h hv
  · exact Manifest.version_of_expandWith hm
  · exact references_of_expandWith h hm

/-- Settings with white space around the values, and zeros in front of the version. -/
def padded : Settings where
  platform := some " AMD64 "
  version := " 01.2\t"
  profile := " release "
  binary := none
  icon := some "$\x7bversion\x7d.ico"
  license := none
  banner := none
  dialog := none

/-- What they settle with the version `01.2.007`. -/
def trimmed : Injection where
  platform := .x64
  version := ⟨1, 2, 7, none⟩
  selector := some "AMD64"
  versionTemplate := "$\x7bversion\x7d.007"
  profile := "release"
  assets := padded.assets

theorem recorded_agree_trimmed :
    ofSettings padded "$\x7bversion\x7d.007" = .ok trimmed ∧
    trimmed.recorded.map (fun v => (v.name, v.value)) =
      [("platform", "x64"), ("win64", "yes"), ("program_files", "ProgramFiles64Folder"),
        ("version", "1.2.7"), ("profile", "release")] ∧
    (∀ v ∈ trimmed.recorded, trimmed.expand (Template.reference v.name) = .ok v.value) ∧
    trimmed.expand "v$\x7bversion\x7d$$\x7b" = .ok "v1.2.7$\x7b" ∧
    trimmed.expand "$\x7bversion\x7d" = .ok "1.2.7" := by
  have hsettled : ofSettings padded "$\x7bversion\x7d.007" = .ok trimmed := by decide +kernel
  obtain ⟨-, hrecorded, ⟨hversion, -, -⟩, -⟩ := recorded_agree hsettled
  refine ⟨hsettled, by decide +kernel, fun v hv => (hrecorded v hv).1, ?_, hversion⟩
  exact (hrecorded _ trimmed.version_mem_recorded).2 "v" "$$\x7b" "v" "$\x7b" (by decide +kernel)
    (by decide) (by decide +kernel)

end Injection
end Installer
