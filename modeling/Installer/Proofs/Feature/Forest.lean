import Installer.Proofs.Feature.Tree

/-!
# Listings of feature forests

A listing passes its check exactly if its ids are new and it names known components
(`check_eq_ok_iff`), in whatever order the components are known (`list_congr`). In the listing of a
forest every feature comes after the one that it lies in (`parent_before`).

**What it does not establish.** A listing that is read from a file need not be that of a forest: there
a feature may come before the one that it lies in, or lie in itself.
-/

set_option autoImplicit false

namespace Installer.Feature
open Result

theorem check_eq_ok_iff {known : List String} {listing : List Package.Feature}
    {earlier : List String} : check known earlier listing = .ok () ↔
      ((listing.map (·.id)).Nodup ∧ ∀ id ∈ listing.map (·.id), id ∉ earlier) ∧
        ∀ f ∈ listing, ∀ c ∈ f.components, c ∈ known := by
  induction listing generalizing earlier with
  | nil => simp [check]
  | cons f rest ih =>
    rw [check, ← Distinct.firstTaken?_eq_none_iff, List.map_cons, Distinct.firstTaken?,
      List.forall_mem_cons]
    by_cases hid : f.id ∈ earlier
    · simp [hid]
    · simp only [List.contains_eq_mem, hid, decide_false, Bool.false_eq_true, ↓reduceIte]
      split
      · next c hc =>
        have hunknown := List.find?_some hc
        have hnamed := List.mem_of_find?_eq_some hc
        constructor
        · rintro ⟨⟩
        · rintro ⟨-, hknown, -⟩
          simp [hknown c hnamed] at hunknown
      · next hnone =>
        have hknown : ∀ c ∈ f.components, c ∈ known := fun c hc => by
          simpa using List.find?_eq_none.mp hnone c hc
        rw [ih, Distinct.firstTaken?_eq_none_iff]
        exact and_congr_right fun _ => (and_iff_right hknown).symm

/-- A forest is listed exactly if its listing passes its check. -/
theorem list_eq_ok_iff {installLevel : UInt16} {known : List String}
    {forest : List Manifest.Feature} {listing : List Package.Feature} :
    list installLevel known forest = .ok listing ↔
      listing = listAll installLevel none true forest ∧ check known [] listing = .ok () := by
  rw [list_eq, check_bind_eq_ok]
  constructor
  · rintro ⟨hcheck, hdone⟩
    cases hdone
    exact ⟨rfl, hcheck⟩
  · rintro ⟨rfl, hcheck⟩
    exact ⟨hcheck, rfl⟩

/-- Features are listed by the components that are known, in whatever order they are. -/
theorem list_congr {installLevel : UInt16} {known known' : List String}
    (h : ∀ name, name ∈ known' ↔ name ∈ known) (forest : List Manifest.Feature) :
    list installLevel known' forest = list installLevel known forest := by
  have hcheck : ∀ (listing : List Package.Feature) (earlier : List String),
      check known' earlier listing = check known earlier listing := by
    intro listing
    induction listing with
    | nil => exact fun _ => rfl
    | cons f rest ih =>
      intro earlier
      rw [check, check, contains_congr h, ih]
  rw [list_eq, list_eq, hcheck]

/-! ## Parents -/

/-- Every feature lies in one with an id among `seen`, or in one that comes before it. -/
def ParentsFirst (seen : List String) : List Package.Feature → Prop
  | [] => True
  | f :: rest => (∀ parent ∈ f.parent, parent ∈ seen) ∧ ParentsFirst (f.id :: seen) rest

theorem ParentsFirst.mono : ∀ {listing : List Package.Feature} {seen more : List String},
    ParentsFirst seen listing → seen ⊆ more → ParentsFirst more listing
  | [], _, _, _, _ => trivial
  | _ :: _, _, _, ⟨hparent, hrest⟩, hsub =>
    ⟨fun parent hp => hsub (hparent parent hp), hrest.mono (List.cons_subset_cons _ hsub)⟩

theorem ParentsFirst.append : ∀ {front back : List Package.Feature} {seen : List String},
    ParentsFirst seen front → ParentsFirst seen back → ParentsFirst seen (front ++ back)
  | [], _, _, _, hback => hback
  | f :: _, _, seen, ⟨hparent, hfront⟩, hback =>
    ⟨hparent, hfront.append (hback.mono (List.subset_cons_self f.id seen))⟩

/-- A parent is seen before or comes before. -/
theorem ParentsFirst.before : ∀ {front : List Package.Feature} {f : Package.Feature}
    {back : List Package.Feature} {seen : List String},
    ParentsFirst seen (front ++ f :: back) → ∀ parent ∈ f.parent,
      parent ∈ seen ∨ parent ∈ front.map (·.id)
  | [], _, _, _, ⟨hparent, _⟩, parent, hp => .inl (hparent parent hp)
  | e :: _, _, _, _, ⟨_, hrest⟩, parent, hp => by
    rcases hrest.before parent hp with h | h
    · rcases List.mem_cons.mp h with rfl | h
      · exact .inr List.mem_cons_self
      · exact .inl h
    · exact .inr (List.mem_cons_of_mem e.id h)

section Listing
variable {installLevel : UInt16}

mutual
/-- Inside a feature that is seen, a listed feature comes before those in it. -/
theorem parentsFirst_listOne {outer : Option String} {byDefault : Bool} {seen : List String}
    (houter : ∀ parent ∈ outer, parent ∈ seen) : ∀ f : Manifest.Feature,
      ParentsFirst seen (listOne installLevel outer byDefault f)
  | ⟨id, _, _, _, _, _, _, children⟩ => by
    rw [listOne]
    refine ⟨houter, parentsFirst_listAll (fun parent hp => ?_) children⟩
    cases hp
    exact List.mem_cons_self
theorem parentsFirst_listAll {outer : Option String} {byDefault : Bool} {seen : List String}
    (houter : ∀ parent ∈ outer, parent ∈ seen) : ∀ fs : List Manifest.Feature,
      ParentsFirst seen (listAll installLevel outer byDefault fs)
  | [] => by
    rw [listAll]
    trivial
  | f :: rest => by
    rw [listAll]
    exact (parentsFirst_listOne houter f).append (parentsFirst_listAll houter rest)
end

/-- In a listing every feature comes after the one that it lies in. -/
theorem parent_before {known : List String} {forest : List Manifest.Feature}
    {listing : List Package.Feature} (h : list installLevel known forest = .ok listing)
    {front back : List Package.Feature} {f : Package.Feature} (hf : listing = front ++ f :: back)
    {parent : String} (hparent : f.parent = some parent) : parent ∈ front.map (·.id) := by
  have hfirst : ParentsFirst [] listing := by
    rw [(list_eq_ok_iff.mp h).1]
    exact parentsFirst_listAll (fun parent hp => by cases hp) forest
  rw [hf] at hfirst
  rcases hfirst.before parent hparent with hseen | hbefore
  · cases hseen
  · exact hbefore

end Listing
end Installer.Feature
