import Installer.Proofs.Feature.Tree

/-!
# The features of a forest with those around them

A feature has its place in a forest by all the features that it is declared in. The places of a forest
are met depth first, each before those inside it, and every one has its entry in the listing of the
forest (`listAll_eq_map_places`): by the place alone it is settled in which feature it lies and whether
it is installed by default.
-/

set_option autoImplicit false

namespace Installer.Feature

/-- A feature of a forest, and those around it, the innermost first. -/
structure Place where
  feature : Manifest.Feature
  around : List Manifest.Feature

mutual
/-- A feature and all features in it, depth first, inside the features `around`. -/
def placesOne (around : List Manifest.Feature) : Manifest.Feature → List Place
  | f@⟨_, _, _, _, _, _, _, children⟩ => ⟨f, around⟩ :: placesAll (f :: around) children
/-- Several features in their order. -/
def placesAll (around : List Manifest.Feature) : List Manifest.Feature → List Place
  | [] => []
  | f :: rest => placesOne around f ++ placesAll around rest
end

/-- All features of a forest at all depths, each before those in it. -/
def places (forest : List Manifest.Feature) : List Place := placesAll [] forest

/-- What a listing has for a feature inside the one with the id `outer`. -/
def entry (installLevel : UInt16) (outer : Option String) (byDefault : Bool)
    (f : Manifest.Feature) : Package.Feature :=
  ⟨f.id, f.title, f.description, outer, f.level, f.allowAbsent, f.display, f.components,
    byDefault && isInstalled installLevel f.level⟩

theorem entry_id (installLevel : UInt16) (outer : Option String) (byDefault : Bool)
    (f : Manifest.Feature) : (entry installLevel outer byDefault f).id = f.id := rfl

theorem listOne_eq (installLevel : UInt16) (outer : Option String) (byDefault : Bool)
    (f : Manifest.Feature) :
    listOne installLevel outer byDefault f = entry installLevel outer byDefault f ::
      listAll installLevel (some f.id) (entry installLevel outer byDefault f).byDefault
        f.children := by
  cases f
  rw [listOne]
  rfl

namespace Place
variable (installLevel : UInt16) (p : Place)

/-- The id of the feature right around it. -/
def parent : Option String := p.around.head?.map (·.id)

/-- Its own level and those of all features around it are from one up to the install level. -/
def IsInstalled : Prop := ∀ f ∈ p.feature :: p.around, 0 < f.level ∧ f.level ≤ installLevel

instance : Decidable (p.IsInstalled installLevel) :=
  inferInstanceAs (Decidable (∀ f ∈ p.feature :: p.around, 0 < f.level ∧ f.level ≤ installLevel))

/-- What the listing of the forest has for it. -/
def entry : Package.Feature :=
  ⟨p.feature.id, p.feature.title, p.feature.description, p.parent, p.feature.level,
    p.feature.allowAbsent, p.feature.display, p.feature.components, p.IsInstalled installLevel⟩

variable {installLevel p}

theorem IsInstalled.mono {higher : UInt16} (hle : installLevel ≤ higher)
    (h : p.IsInstalled installLevel) : p.IsInstalled higher :=
  fun f hf => ⟨(h f hf).1, UInt16.le_trans (h f hf).2 hle⟩

/-- What is installed inside a feature is what has a level for it there, if the feature is. -/
theorem decide_isInstalled (f : Manifest.Feature) (around : List Manifest.Feature) :
    decide (IsInstalled installLevel ⟨f, around⟩) =
      (around.all (fun g => isInstalled installLevel g.level) &&
        isInstalled installLevel f.level) := by
  rw [Bool.eq_iff_iff, decide_eq_true_iff, IsInstalled, List.forall_mem_cons, Bool.and_comm]
  simp [isInstalled]

end Place

section Entries
variable {installLevel : UInt16}

mutual
theorem listOne_eq_map_places (around : List Manifest.Feature) : ∀ f : Manifest.Feature,
    listOne installLevel (around.head?.map (·.id))
        (around.all fun g => isInstalled installLevel g.level) f =
      (placesOne around f).map (·.entry installLevel)
  | ⟨id, title, description, level, allowAbsent, display, components, children⟩ => by
    rw [listOne_eq, placesOne, List.map_cons, ← listAll_eq_map_places, Place.entry,
      Place.decide_isInstalled, List.all_cons, Bool.and_comm (isInstalled installLevel _)]
    rfl
/-- Every place has its entry in the listing. -/
theorem listAll_eq_map_places (around : List Manifest.Feature) : ∀ fs : List Manifest.Feature,
    listAll installLevel (around.head?.map (·.id))
        (around.all fun g => isInstalled installLevel g.level) fs =
      (placesAll around fs).map (·.entry installLevel)
  | [] => by
    rw [listAll, placesAll]
    rfl
  | f :: rest => by
    rw [listAll, placesAll, List.map_append, listOne_eq_map_places, listAll_eq_map_places]
end

/-- A forest is listed by the entries of its places. -/
theorem listAll_eq (forest : List Manifest.Feature) :
    listAll installLevel none true forest = (places forest).map (·.entry installLevel) :=
  listAll_eq_map_places [] forest

theorem map_id_entry (ps : List Place) :
    (ps.map (·.entry installLevel)).map (·.id) = ps.map (·.feature.id) :=
  List.map_map

theorem named_entries (ps : List Place) :
    named (ps.map (·.entry installLevel)) = ps.flatMap (·.feature.components) :=
  List.flatMap_map ..

end Entries

end Installer.Feature
