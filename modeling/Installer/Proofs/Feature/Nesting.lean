import Installer.Proofs.Feature.Forest
import Installer.Proofs.Feature.Places
import Installer.Proofs.Wix.Nesting

/-!
# Listings of features, put together again by their parents

A walk over a listing takes in every place the features that name it as their parent, in the order of
the listing. Of a listing that passes its check it makes the forest that has been listed
(`nests_of_list`, `regroup?_eq`): every part of such a listing has all that lies in its own features
(`IsWhole`).

Listings that no forest has made are not looked at; a walk over one need not come to an end.
-/

set_option autoImplicit false

namespace Installer.Feature
open Wix (Nests featuresIn)

/-- The declaration of a listed feature, from those of the features in it. -/
def asDeclared (f : Package.Feature) (inner : List Manifest.Feature) : Manifest.Feature :=
  ⟨f.id, f.title, f.description, f.level, f.allowAbsent, f.display, f.components, inner⟩

/-- The forest of a listing: the features without a parent, and in each those that name it. -/
def regroup? (listing : List Package.Feature) : Option (List Manifest.Feature) :=
  Wix.nest (featuresIn listing) (fun f => some f.id) asDeclared listing.length none

section Parts
variable {installLevel : UInt16}

theorem featuresIn_append (front rest : List Package.Feature) (place : Option String) :
    featuresIn (front ++ rest) place = featuresIn front place ++ featuresIn rest place :=
  List.filter_append ..

theorem featuresIn_cons_of_ne {f : Package.Feature} {rest : List Package.Feature}
    {place : Option String} (h : f.parent ≠ place) :
    featuresIn (f :: rest) place = featuresIn rest place :=
  List.filter_cons_of_neg (by simpa using h)

mutual
/-- In a place that is none of its own features, a feature lies if it is inside that place. -/
theorem featuresIn_listOne {outer place : Option String} {byDefault : Bool} :
    ∀ f : Manifest.Feature,
      (∀ id ∈ (listOne installLevel outer byDefault f).map (·.id), place ≠ some id) →
        featuresIn (listOne installLevel outer byDefault f) place =
          if outer = place then [entry installLevel outer byDefault f] else []
  | ⟨id, title, description, level, allowAbsent, display, components, children⟩, h => by
    rw [listOne] at h ⊢
    obtain ⟨hid, hchildren⟩ := List.forall_mem_cons.mp h
    have hinner := featuresIn_listAll children hchildren
    rw [if_neg (Ne.symm hid)] at hinner
    split
    · next hplace =>
      rw [featuresIn, List.filter_cons_of_pos (by simpa using hplace)]
      exact congrArg _ hinner
    · next hplace => rw [featuresIn_cons_of_ne hplace, hinner]
theorem featuresIn_listAll {outer place : Option String} {byDefault : Bool} :
    ∀ fs : List Manifest.Feature,
      (∀ id ∈ (listAll installLevel outer byDefault fs).map (·.id), place ≠ some id) →
        featuresIn (listAll installLevel outer byDefault fs) place =
          if outer = place then fs.map (entry installLevel outer byDefault) else []
  | [], _ => by
    rw [listAll]
    simp [featuresIn]
  | f :: rest, h => by
    rw [listAll, List.map_append, List.forall_mem_append] at h
    rw [listAll, featuresIn_append, featuresIn_listOne f h.1, featuresIn_listAll rest h.2]
    split <;> rfl
end

/-- A part of a listing has nothing in places that are neither its own nor the one around it. -/
def KeepsTo (part : List Package.Feature) (outer : Option String) : Prop :=
  ∀ place, outer ≠ place → (∀ id ∈ part.map (·.id), place ≠ some id) → featuresIn part place = []

theorem keepsTo_listAll (outer : Option String) (byDefault : Bool) (fs : List Manifest.Feature) :
    KeepsTo (listAll installLevel outer byDefault fs) outer :=
  fun _ hplace hids => by rw [featuresIn_listAll fs hids, if_neg hplace]

/-- A part of a listing, inside `outer`, that says of each of its features all that lies in it. -/
structure IsWhole (all part : List Package.Feature) (outer : Option String) : Prop where
  nodup : (part.map (·.id)).Nodup
  outside : ∀ id ∈ part.map (·.id), outer ≠ some id
  complete : ∀ id ∈ part.map (·.id), featuresIn all (some id) = featuresIn part (some id)

/-- Of a whole part that starts with a feature, what is inside the feature is whole and is all that
lies in it, and what comes next is whole. -/
theorem IsWhole.uncons {all inside next : List Package.Feature} {f : Package.Feature}
    (h : IsWhole all (f :: (inside ++ next)) f.parent) (hinside : KeepsTo inside (some f.id))
    (hnext : KeepsTo next f.parent) :
    featuresIn all (some f.id) = featuresIn inside (some f.id) ∧
      IsWhole all inside (some f.id) ∧ IsWhole all next f.parent := by
  obtain ⟨hnodup, houtside, hcomplete⟩ := h
  simp only [List.map_cons, List.map_append, List.forall_mem_cons, List.forall_mem_append]
    at houtside hcomplete
  simp only [List.map_cons, List.map_append, List.nodup_cons, List.nodup_append, List.mem_append,
    not_or] at hnodup
  obtain ⟨⟨hfInside, hfNext⟩, hnodupInside, hnodupNext, hapart⟩ := hnodup
  obtain ⟨hf, houtsideInside, houtsideNext⟩ := houtside
  have hne {id : String} {ids : List String} (hid : id ∉ ids) : ∀ x ∈ ids, some id ≠ some x :=
    fun x hx heq => hid (Option.some.inj heq ▸ hx)
  -- of a place that one half keeps to, the other has nothing
  have hall {id : String} (hid : f.parent ≠ some id) : featuresIn (f :: (inside ++ next)) (some id) =
      featuresIn inside (some id) ++ featuresIn next (some id) := by
    rw [featuresIn_cons_of_ne hid, featuresIn_append]
  have hall_inside {id : String} (hid : f.parent ≠ some id) (hnew : id ∉ next.map (·.id)) :
      featuresIn (f :: (inside ++ next)) (some id) = featuresIn inside (some id) := by
    rw [hall hid, hnext _ hid (hne hnew), List.append_nil]
  have hall_next {id : String} (hid : f.parent ≠ some id) (hother : f.id ≠ id)
      (hnew : id ∉ inside.map (·.id)) :
      featuresIn (f :: (inside ++ next)) (some id) = featuresIn next (some id) := by
    rw [hall hid, hinside _ (by simpa using hother) (hne hnew), List.nil_append]
  refine ⟨?_, ⟨hnodupInside, hne hfInside, fun id hid => ?_⟩,
    ⟨hnodupNext, houtsideNext, fun id hid => ?_⟩⟩
  · rw [hcomplete.1, hall_inside hf hfNext]
  · rw [hcomplete.2.1 id hid,
      hall_inside (houtsideInside id hid) fun hmem => hapart id hid id hmem rfl]
  · rw [hcomplete.2.2 id hid, hall_next (houtsideNext id hid) (fun heq => hfNext (heq ▸ hid))
      fun hmem => hapart id hmem id hid rfl]

/-- The walk over a whole part makes the declared features. -/
theorem nests_listAll {all : List Package.Feature} {outer : Option String} {byDefault : Bool} :
    ∀ fs : List Manifest.Feature,
      IsWhole all (listAll installLevel outer byDefault fs) outer →
        Nests (featuresIn all) (fun f => some f.id) asDeclared
          (fs.map (entry installLevel outer byDefault)) fs
  | [], _ => .nil
  | ⟨id, title, description, level, allowAbsent, display, components, children⟩ :: rest, h => by
    rw [listAll, listOne_eq, List.cons_append] at h
    obtain ⟨hchildren, hinside, hnext⟩ := h.uncons (keepsTo_listAll _ _ _) (keepsTo_listAll _ _ _)
    have hinner := nests_listAll children hinside
    rw [featuresIn_listAll _ hinside.outside, entry_id, if_pos rfl] at hchildren
    rw [← hchildren] at hinner
    exact .cons hinner (nests_listAll rest hnext)

/-- A listing that passes its check is whole. -/
theorem isWhole_of_list {known : List String} {forest : List Manifest.Feature}
    {listing : List Package.Feature}
    (h : list installLevel known forest = .ok listing) :
    listing = listAll installLevel none true forest ∧ IsWhole listing listing none := by
  obtain ⟨hlisting, hcheck⟩ := list_eq_ok_iff.mp h
  refine ⟨hlisting, (check_eq_ok_iff.mp hcheck).1.1, ?_, fun _ _ => rfl⟩
  exact fun id _ => (Option.some_ne_none id).symm

/-- The walk over the listing of a forest makes the forest. -/
theorem nests_of_list {known : List String} {forest : List Manifest.Feature}
    {listing : List Package.Feature} (h : list installLevel known forest = .ok listing) :
    Nests (featuresIn listing) (fun f => some f.id) asDeclared (featuresIn listing none) forest := by
  obtain ⟨hlisting, hwhole⟩ := isWhole_of_list h
  have hrow : featuresIn listing none = forest.map (entry installLevel none true) := by
    rw [hlisting, featuresIn_listAll forest fun id _ => (Option.some_ne_none id).symm, if_pos rfl]
  rw [hrow]
  exact nests_listAll forest (hlisting ▸ hwhole)

/-- A listed forest is its listing, put together again. -/
theorem regroup?_eq {known : List String} {forest : List Manifest.Feature}
    {listing : List Package.Feature} (h : list installLevel known forest = .ok listing) :
    regroup? listing = some forest := by
  have hnest := (Wix.nests_iff _ (Wix.id_mem_of_mem_featuresIn listing)).mp (nests_of_list h)
  rwa [List.length_map] at hnest

end Parts

end Installer.Feature
