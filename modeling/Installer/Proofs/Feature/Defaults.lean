import Installer.Proofs.Feature.Flattening

/-!
# What is installed by default

A tree marks a feature by what it has marked around it, one feature after another. In the end the
marked ones are those whose own level and all levels around them are up to the install level
(`installed`), and the components that come with them are the ones they name. A higher install level
takes nothing away. Main statement: `build_defaults`.

**What it does not establish.** It is what the listing says, not what an installer does with it. A
component may be named by several features, and is there by default if one of them is.
-/

set_option autoImplicit false

namespace Installer.Feature

/-- The features of a forest that are installed at an install level, depth first. -/
def installed (installLevel : UInt16) (forest : List Manifest.Feature) : List Place :=
  (places forest).filter (·.IsInstalled installLevel)

/-- The features and components that a listing of a forest has for installed by default are those of
an install level. -/
structure HasDefaults (installLevel : UInt16) (forest : List Manifest.Feature)
    (listing : List Package.Feature) : Prop where
  marked : List.Forall₂
    (fun p f => f.id = p.feature.id ∧ (f.byDefault = true ↔ p.IsInstalled installLevel))
    (places forest) listing
  features : (defaults listing).map (·.id) = (installed installLevel forest).map (·.feature.id)
  /-- In the order in which the features name them first. -/
  components : Distinct.AreFirsts ((installed installLevel forest).flatMap (·.feature.components))
    (defaultComponents listing)

variable {installLevel higher : UInt16} {forest : List Manifest.Feature}

theorem defaults_entries (ps : List Place) : defaults (ps.map (·.entry installLevel)) =
    (ps.filter (·.IsInstalled installLevel)).map (·.entry installLevel) :=
  List.filter_map

theorem hasDefaults_of_flattens {listing : List Package.Feature}
    (h : Flattens installLevel forest listing) : HasDefaults installLevel forest listing := by
  obtain ⟨rfl, -, -⟩ := h
  constructor
  case marked =>
    rw [List.forall₂_map_right_iff, List.forall₂_same]
    exact fun p _ => ⟨rfl, decide_eq_true_iff⟩
  case features => rw [defaults_entries, map_id_entry, installed]
  case components =>
    rw [defaultComponents, defaults_entries, named_entries]
    exact Distinct.areFirsts_firsts _

/-- What is installed at a level is installed at higher ones as well. -/
theorem installed_sublist (hle : installLevel ≤ higher) (forest : List Manifest.Feature) :
    (installed installLevel forest).Sublist (installed higher forest) :=
  List.monotone_filter_right _ fun _ h => by
    rw [decide_eq_true_iff] at h ⊢
    exact h.mono hle

/-- At a higher install level what is installed by default is listed as before. -/
theorem entry_of_le (hle : installLevel ≤ higher) {p : Place} (h : p.IsInstalled installLevel) :
    p.entry higher = p.entry installLevel := by
  rw [Place.entry, Place.entry, decide_eq_true h, decide_eq_true (h.mono hle)]

theorem defaults_sublist (hle : installLevel ≤ higher) (forest : List Manifest.Feature) :
    (defaults ((places forest).map (·.entry installLevel))).Sublist
      (defaults ((places forest).map (·.entry higher))) := by
  rw [defaults_entries, defaults_entries]
  -- entries may differ between the levels, but not those of what is installed at the lower one
  have hsame : (installed installLevel forest).map (·.entry installLevel) =
      (installed installLevel forest).map (·.entry higher) :=
    List.map_congr_left fun p hp =>
      (entry_of_le hle (decide_eq_true_iff.mp (List.mem_filter.mp hp).2)).symm
  rw [← installed, ← installed, hsame]
  exact (installed_sublist hle forest).map _

theorem defaultComponents_subset {listing listing' : List Package.Feature}
    (h : (defaults listing).Sublist (defaults listing')) :
    defaultComponents listing ⊆ defaultComponents listing' := by
  intro c hc
  rw [defaultComponents, Distinct.mem_firsts, named, List.mem_flatMap] at hc ⊢
  obtain ⟨f, hf, hcf⟩ := hc
  exact ⟨f, h.subset hf, hcf⟩

end Installer.Feature

namespace Installer.FeatureTree
open Feature

/-- A tree has for installed by default what is installed at its install level, and at a higher one
no feature and no component goes missing. -/
theorem build_defaults {installLevel : UInt16} {known : List String}
    {forest : List Manifest.Feature} {t : FeatureTree}
    (h : build installLevel known forest = .ok t) :
    HasDefaults installLevel forest t.listing ∧
      ∀ higher, installLevel ≤ higher → ∃ t', build higher known forest = .ok t' ∧
        (defaults t.listing).Sublist (defaults t'.listing) ∧
        defaultComponents t.listing ⊆ defaultComponents t'.listing := by
  have hflat := flattens_of_build h
  refine ⟨hasDefaults_of_flattens hflat, fun higher hle => ?_⟩
  have hhigher : ∃ t', build higher known forest = .ok t' :=
    exists_build_iff.mpr (exists_build_iff.mp ⟨t, h⟩)
  obtain ⟨t', ht'⟩ := hhigher
  have hkept : (defaults t.listing).Sublist (defaults t'.listing) := by
    rw [hflat.order, (flattens_of_build ht').order]
    exact defaults_sublist hle forest
  exact ⟨t', ht', hkept, defaultComponents_subset hkept⟩

/-- A feature of level one inside one of level three, and one that is never installed. -/
def stepped : List Manifest.Feature := [
  ⟨"Core", "Core", "", 1, false, .collapse, ["Main"], [
    ⟨"Editor", "Editor", "Edits", 3, true, .expand, ["Themes", "Main"], [
      ⟨"Viewer", "Viewer", "", 1, true, .hidden, ["Help"], []⟩]⟩,
    ⟨"Manual", "Manual", "", 1, true, .expand, ["Help", "Main"], []⟩]⟩,
  ⟨"Extras", "Extras", "", 0, true, .collapse, ["Themes"], []⟩]

theorem build_defaults_stepped : ∃ t t', build 1 ["Main", "Themes", "Help"] stepped = .ok t ∧
    build 3 ["Main", "Themes", "Help"] stepped = .ok t' ∧ HasDefaults 1 stepped t.listing ∧
    HasDefaults 3 stepped t'.listing ∧ (defaults t.listing).Sublist (defaults t'.listing) := by
  obtain ⟨t, ht⟩ := Result.exists_of_isOk
    (show (build 1 ["Main", "Themes", "Help"] stepped).isOk = true by decide)
  obtain ⟨hdefaults, hhigher⟩ := build_defaults ht
  obtain ⟨t', ht', hkept, -⟩ := hhigher 3 (by decide)
  exact ⟨t, t', ht, ht', hdefaults, (build_defaults ht').1, hkept⟩

example : (build 1 ["Main", "Themes", "Help"] stepped).map (defaultComponents ·.listing) =
    .ok ["Main", "Help"] := by decide

end Installer.FeatureTree
