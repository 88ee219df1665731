import Installer.Proofs.Feature.Nesting

/-!
# When a forest is put into a tree, and what the tree lists

A forest is put into a tree exactly if the ids at all depths differ and every component that is named
anywhere is known (`IsSound`). The rule that is reported otherwise is the one that the first feature
breaks which breaks any, depth first (`Fault`). The listing of the tree has an entry for each feature,
from which the forest can be put together again. Main statement: `build_flattens`.

Putting features into a tree is listing and checking them (`list_eq`), and a listing is a map over
places (`listAll_eq_map_places`). What is left is a check from the front of a list, by induction on
the places.

**What it does not establish.** Levels, titles and descriptions are in the listing as they are
declared; that they make sense is not asked.
-/

set_option autoImplicit false

namespace Installer.Feature
open Result

/-- Features with ids of their own, which name known components only. -/
structure IsSound (known : List String) (ps : List Place) : Prop where
  ids : (ps.map (·.feature.id)).Nodup
  components : ∀ p ∈ ps, ∀ c ∈ p.feature.components, c ∈ known

/-- The rule that a feature breaks after those with the ids `earlier`: it repeats one of the ids, or
else it names a component that is not known, and this one first. -/
inductive Fault (known earlier : List String) (f : Manifest.Feature) : Violation → Prop
  | repeated : f.id ∈ earlier → Fault known earlier f (.duplicateFeatureId f.id)
  | unknown {front back : List String} {c : String} : f.id ∉ earlier →
    f.components = front ++ c :: back → (∀ b ∈ front, b ∈ known) → c ∉ known →
    Fault known earlier f (.unresolvedComponent f.id c)

mutual
/-- How many features a feature is, with those in it. -/
def countOne : Manifest.Feature → Nat
  | ⟨_, _, _, _, _, _, _, children⟩ => countAll children + 1
/-- How many features there are at all depths. -/
def countAll : List Manifest.Feature → Nat
  | [] => 0
  | f :: rest => countOne f + countAll rest
end

mutual
theorem length_placesOne (around : List Manifest.Feature) : ∀ f : Manifest.Feature,
    (placesOne around f).length = countOne f
  | ⟨id, title, description, level, allowAbsent, display, components, children⟩ => by
    rw [placesOne, countOne, List.length_cons, length_placesAll]
theorem length_placesAll (around : List Manifest.Feature) : ∀ fs : List Manifest.Feature,
    (placesAll around fs).length = countAll fs
  | [] => by
    rw [placesAll, countAll]
    rfl
  | f :: rest => by
    rw [placesAll, countAll, List.length_append, length_placesOne, length_placesAll]
end

/-- The listing of a tree that a forest has been put into: its features depth first, each with the
feature that it lies in, and by those put together again to the forest. -/
structure Flattens (installLevel : UInt16) (forest : List Manifest.Feature)
    (listing : List Package.Feature) : Prop where
  order : listing = (places forest).map (·.entry installLevel)
  size : listing.length = countAll forest
  regrouped : regroup? listing = some forest

section Checks
variable {installLevel : UInt16} {known : List String}

theorem check_entries_eq_ok_iff {ps : List Place} :
    check known [] (ps.map (·.entry installLevel)) = .ok () ↔ IsSound known ps := by
  rw [check_eq_ok_iff, map_id_entry]
  constructor
  · exact fun ⟨⟨hids, _⟩, hcomponents⟩ => ⟨hids, List.forall_mem_map.mp hcomponents⟩
  · exact fun ⟨hids, hcomponents⟩ =>
      ⟨⟨hids, fun _ _ => List.not_mem_nil⟩, List.forall_mem_map.mpr hcomponents⟩

theorem find?_unknown_eq_some_iff {cs : List String} {c : String} :
    (cs.find? fun c => !known.contains c) = some c ↔ ∃ front back, cs = front ++ c :: back ∧
      (∀ b ∈ front, b ∈ known) ∧ c ∉ known := by
  rw [find?_eq_some_iff_first (P := (· ∉ known)) fun c _ => by simp]
  simp only [Decidable.not_not]

/-- The check of one feature fails by the rule that the feature breaks. -/
theorem check_entry_eq_error_iff {earlier : List String} {p : Place} {v : Violation} :
    check known earlier [p.entry installLevel] = .error v ↔ Fault known earlier p.feature v := by
  have hid : (p.entry installLevel).id = p.feature.id := rfl
  have hcomponents : (p.entry installLevel).components = p.feature.components := rfl
  rw [check, hid, hcomponents]
  by_cases htaken : p.feature.id ∈ earlier
  · rw [if_pos (List.contains_iff_mem.mpr htaken)]
    constructor
    · rintro ⟨⟩
      exact .repeated htaken
    · rintro (_ | ⟨hnew, -, -, -⟩)
      · rfl
      · exact absurd htaken hnew
  · rw [if_neg (mt List.contains_iff_mem.mp htaken)]
    constructor
    · intro h
      split at h
      · next c hfirst =>
        cases h
        obtain ⟨front, back, hsplit, hfront, hc⟩ := find?_unknown_eq_some_iff.mp hfirst
        exact .unknown htaken hsplit hfront hc
      · cases h
    · rintro (hearlier | ⟨-, hsplit, hfront, hc⟩)
      · exact absurd hearlier htaken
      · rw [find?_unknown_eq_some_iff.mpr ⟨_, _, hsplit, hfront, hc⟩]

theorem check_cons_entry {earlier : List String} (p : Place) (ps : List Place) :
    check known earlier ((p :: ps).map (·.entry installLevel)) =
      check known earlier [p.entry installLevel] >>= fun _ =>
        check known (earlier ++ [p.feature.id]) (ps.map (·.entry installLevel)) := by
  rw [List.map_cons, ← List.singleton_append, check_append]
  rfl

/-- The check of a listing fails by the rule that the first feature breaks which breaks any. -/
theorem check_entries_eq_error_iff {ps : List Place} {v : Violation} {earlier : List String} :
    check known earlier (ps.map (·.entry installLevel)) = .error v ↔
      ∃ front p back, ps = front ++ p :: back ∧
        check known earlier (front.map (·.entry installLevel)) = .ok () ∧
        Fault known (earlier ++ front.map (·.feature.id)) p.feature v := by
  constructor
  · intro h
    induction ps generalizing earlier with
    | nil => cases h
    | cons p ps ih =>
      rw [check_cons_entry, bind_eq_error, check_entry_eq_error_iff] at h
      -- the first feature is at fault, or the fault is in the rest, to which its id comes earlier
      rcases h with hfault | ⟨_, hp, hrest⟩
      · exact ⟨[], p, ps, rfl, rfl, by rwa [List.map_nil, List.append_nil]⟩
      · obtain ⟨front, q, back, rfl, hfront, hfault⟩ := ih hrest
        refine ⟨p :: front, q, back, rfl, by rw [check_cons_entry, hp, ok_bind, hfront], ?_⟩
        rwa [List.append_assoc] at hfault
  · rintro ⟨front, p, back, rfl, hfront, hfault⟩
    rw [List.map_append, check_append, hfront, ok_bind, map_id_entry, check_cons_entry,
      check_entry_eq_error_iff.mpr hfault, error_bind]

/-- A forest is listed if it is sound, by the entries of its places. -/
theorem list_eq_ok_iff_isSound {forest : List Manifest.Feature} {listing : List Package.Feature} :
    list installLevel known forest = .ok listing ↔
      listing = (places forest).map (·.entry installLevel) ∧ IsSound known (places forest) := by
  rw [list_eq_ok_iff, listAll_eq]
  refine and_congr_right ?_
  rintro rfl
  exact check_entries_eq_ok_iff

theorem list_eq_error_iff {forest : List Manifest.Feature} {v : Violation} :
    list installLevel known forest = .error v ↔
      ∃ front p back, places forest = front ++ p :: back ∧ IsSound known front ∧
        Fault known (front.map (·.feature.id)) p.feature v := by
  have hcheck : list installLevel known forest = .error v ↔
      check known [] ((places forest).map (·.entry installLevel)) = .error v := by
    rw [list_eq, listAll_eq]
    exact map_eq_error
  rw [hcheck, check_entries_eq_error_iff]
  simp only [check_entries_eq_ok_iff, List.nil_append]

theorem flattens_of_list {forest : List Manifest.Feature} {listing : List Package.Feature}
    (h : list installLevel known forest = .ok listing) : Flattens installLevel forest listing := by
  have horder := (list_eq_ok_iff_isSound.mp h).1
  refine ⟨horder, ?_, regroup?_eq h⟩
  rw [horder, List.length_map, places, length_placesAll]

end Checks

end Installer.Feature

namespace Installer.FeatureTree
open Feature Result

variable {installLevel : UInt16} {known : List String} {forest : List Manifest.Feature}

theorem list_eq_ok_of_build {t : FeatureTree} (h : build installLevel known forest = .ok t) :
    list installLevel known forest = .ok t.listing :=
  map_eq_ok.mpr ⟨t, h, rfl⟩

theorem exists_build_iff :
    (∃ t, build installLevel known forest = .ok t) ↔ IsSound known (places forest) := by
  constructor
  · rintro ⟨t, ht⟩
    exact (list_eq_ok_iff_isSound.mp (list_eq_ok_of_build ht)).2
  · intro hsound
    obtain ⟨t, ht, -⟩ := map_eq_ok.mp (list_eq_ok_iff_isSound.mpr ⟨rfl, hsound⟩)
    exact ⟨t, ht⟩

theorem flattens_of_build {t : FeatureTree} (h : build installLevel known forest = .ok t) :
    Flattens installLevel forest t.listing :=
  flattens_of_list (list_eq_ok_of_build h)

/-- A forest is put into a tree exactly if it is sound. Otherwise the first feature that breaks a
rule after features that are sound is reported. The listing of a tree is the forest, flattened. -/
theorem build_flattens (installLevel : UInt16) (known : List String)
    (forest : List Manifest.Feature) :
    ((∃ t, build installLevel known forest = .ok t) ↔ IsSound known (places forest)) ∧
    (∀ v, build installLevel known forest = .error v ↔
      ∃ front p back, places forest = front ++ p :: back ∧ IsSound known front ∧
        Fault known (front.map (·.feature.id)) p.feature v) ∧
    ∀ t, build installLevel known forest = .ok t → Flattens installLevel forest t.listing := by
  refine ⟨exists_build_iff, fun v => ?_, fun t ht => flattens_of_build ht⟩
  rw [← list_eq_error_iff]
  exact map_eq_error.symm

/-- Features three deep and side by side, of which one names a component twice. -/
def nested : List Manifest.Feature := [
  ⟨"Core", "Core", "", 1, false, .collapse, ["Main"], [
    ⟨"Editor", "Editor", "Edits", 3, true, .expand, ["Main", "Main"], [
      ⟨"Viewer", "Viewer", "", 1, true, .hidden, [], []⟩]⟩,
    ⟨"Manual", "Manual", "", 1, true, .expand, ["Main"], []⟩]⟩,
  ⟨"Extras", "Extras", "", 0, true, .collapse, [], []⟩]

theorem build_flattens_nested :
    ∃ t, build 1 ["Main"] nested = .ok t ∧ Flattens 1 nested t.listing := by
  obtain ⟨hsound, -, hflat⟩ := build_flattens 1 ["Main"] nested
  obtain ⟨t, ht⟩ := hsound.mpr ⟨by decide, by decide⟩
  exact ⟨t, ht, hflat t ht⟩

end Installer.FeatureTree
