import Installer.Feature.Forest
import Installer.Proofs.Result

/-!
# Trees of features, and what they list

The features of a forest are listed depth first, each before those in it (`listAll`), and a listing is
checked from its first feature on (`check`). Putting features into a tree does both at once: one
insertion after another, the tree grows by the listing, or the first fault of the listing ends it
(`grows_insertAll`). So the list of a forest is its checked listing (`list_eq`).

What comes of a part of the listing is a relation between trees (`Grows`): one node more is one step
(`grows_add`), and steps follow each other by `Grows.bind`, along the recursion over features and
those in them.
-/

set_option autoImplicit false

namespace Installer
open Result

namespace Feature

mutual
/-- A feature and all features in it, depth first, inside a feature `parent` that is installed by
default or not. -/
def listOne (installLevel : UInt16) (parent : Option String) (parentByDefault : Bool) :
    Manifest.Feature → List Package.Feature
  | ⟨id, title, description, level, allowAbsent, display, components, children⟩ =>
    let byDefault := parentByDefault && isInstalled installLevel level
    ⟨id, title, description, parent, level, allowAbsent, display, components, byDefault⟩ ::
      listAll installLevel (some id) byDefault children
/-- Several features in their order. -/
def listAll (installLevel : UInt16) (parent : Option String) (parentByDefault : Bool) :
    List Manifest.Feature → List Package.Feature
  | [] => []
  | f :: rest =>
    listOne installLevel parent parentByDefault f ++
      listAll installLevel parent parentByDefault rest
end

/-- Checks features in the order of a listing, after features with the ids `earlier`. -/
def check (known : List String) (earlier : List String) :
    List Package.Feature → Except Violation Unit
  | [] => .ok ()
  | f :: rest =>
    if earlier.contains f.id then .error (.duplicateFeatureId f.id)
    else
      match f.components.find? fun c => !known.contains c with
      | some c => .error (.unresolvedComponent f.id c)
      | none => check known (f.id :: earlier) rest

variable {known : List String}

/-- It does not matter in which order the earlier features were met. -/
theorem check_congr {earlier earlier' : List String}
    (h : ∀ id, id ∈ earlier' ↔ id ∈ earlier) (listing : List Package.Feature) :
    check known earlier' listing = check known earlier listing := by
  induction listing generalizing earlier earlier' with
  | nil => rfl
  | cons f rest ih =>
    have hnext : ∀ id, id ∈ f.id :: earlier' ↔ id ∈ f.id :: earlier := by simp [h]
    rw [check, check, contains_congr h, ih hnext]

/-- What comes later is checked after all that comes before. -/
theorem check_append {front back : List Package.Feature} {earlier : List String} :
    check known earlier (front ++ back) =
      check known earlier front >>= fun _ => check known (earlier ++ front.map (·.id)) back := by
  induction front generalizing earlier with
  | nil => simp [check]
  | cons f front ih =>
    rw [List.cons_append, check, check]
    split
    · rfl
    · split
      · rfl
      · rw [ih]
        refine congrArg _ (funext fun _ => check_congr (fun id => ?_) back)
        simp [or_left_comm]

end Feature

namespace FeatureTree
open Feature (check listOne listAll isInstalled)

variable {known : List String} {t t' : FeatureTree}

/-- Every feature lies in one of the tree, or in none. -/
def IsClosed (t : FeatureTree) : Prop :=
  ∀ node ∈ t.nodes, ∀ p ∈ node.parent, p < t.nodes.length

theorem isClosed_empty : empty.IsClosed := fun _ h => absurd h List.not_mem_nil

/-- What a tree lists for one of its nodes. -/
def entryOf (t : FeatureTree) (node : FeatureNode) : Package.Feature :=
  ⟨node.id, node.title, node.description, node.parent.map t.idAt, node.level, node.allowAbsent,
    node.display, node.components, node.byDefault⟩

theorem listing_eq (t : FeatureTree) : t.listing = t.nodes.map t.entryOf := rfl

theorem ids_of_listing (t : FeatureTree) : t.listing.map (·.id) = t.ids := by
  rw [listing_eq, List.map_map]
  rfl

/-! ## One more node -/

section Push
variable {node : FeatureNode}

/-- A node that is in the tree already is found as before. -/
theorem getElem?_of_kept (h : t.nodes <+: t'.nodes) {p : Nat} (hp : p < t.nodes.length) :
    t'.nodes[p]? = t.nodes[p]? := by
  obtain ⟨more, hmore⟩ := h
  rw [← hmore, List.getElem?_append_left hp]

theorem map_idAt_of_kept (h : t.nodes <+: t'.nodes) {parent : Option Nat}
    (hparent : ∀ p ∈ parent, p < t.nodes.length) : parent.map t'.idAt = parent.map t.idAt :=
  Option.map_congr fun p hp => by rw [idAt, idAt, getElem?_of_kept h (hparent p hp)]

theorem all_isDefaultAt_of_kept (h : t.nodes <+: t'.nodes) {parent : Option Nat}
    (hparent : ∀ p ∈ parent, p < t.nodes.length) :
    parent.all t'.isDefaultAt = parent.all t.isDefaultAt := by
  cases parent with
  | none => rfl
  | some p =>
    rw [Option.all_some, Option.all_some, isDefaultAt, isDefaultAt,
      getElem?_of_kept h (hparent p rfl)]

theorem keeps_push : t.nodes <+: (t.push node).nodes := List.prefix_append ..

theorem length_push : (t.push node).nodes.length = t.nodes.length + 1 := by simp [push]

/-- The node that is pushed stands where the tree has ended. -/
theorem parent_lt_push (node : FeatureNode) :
    ∀ p ∈ some t.nodes.length, p < (t.push node).nodes.length := by
  simp [length_push]

theorem idAt_push : (t.push node).idAt t.nodes.length = node.id := by simp [idAt, push]

theorem isDefaultAt_push : (t.push node).isDefaultAt t.nodes.length = node.byDefault := by
  simp [isDefaultAt, push]

variable (ht : t.IsClosed) (hnode : ∀ p ∈ node.parent, p < t.nodes.length)

include ht hnode

theorem isClosed_push : (t.push node).IsClosed := by
  intro x hx p hp
  rw [length_push]
  rcases List.mem_append.mp hx with hx | hx
  · exact Nat.lt_succ_of_lt (ht x hx p hp)
  · obtain rfl := List.mem_singleton.mp hx
    exact Nat.lt_succ_of_lt (hnode p hp)

theorem listing_push : (t.push node).listing = t.listing ++ [t.entryOf node] := by
  have hkept : ∀ x ∈ t.nodes ++ [node], (t.push node).entryOf x = t.entryOf x := by
    intro x hx
    have hparent : ∀ p ∈ x.parent, p < t.nodes.length := by
      rcases List.mem_append.mp hx with hx | hx
      · exact ht x hx
      · obtain rfl := List.mem_singleton.mp hx
        exact hnode
    rw [entryOf, entryOf, map_idAt_of_kept keeps_push hparent]
  exact (List.map_congr_left hkept).trans List.map_append

end Push

/-! ## A run of insertions -/

/-- What comes of putting the features of the listing `part` into a tree: the fault that their check
finds, or else a tree that lists them after what it has listed before. -/
inductive Grows (known : List String) (t : FeatureTree) (part : List Package.Feature) :
    Except Violation FeatureTree → Prop
  | failed {v : Violation} : check known t.ids part = .error v → Grows known t part (.error v)
  | grown {t' : FeatureTree} : check known t.ids part = .ok () → t'.IsClosed →
    t.nodes <+: t'.nodes → t'.listing = t.listing ++ part → Grows known t part (.ok t')

theorem grows_nil (ht : t.IsClosed) : Grows known t [] (.ok t) :=
  .grown rfl ht List.prefix_rfl (List.append_nil _).symm

/-- The features of a second part are put into the tree that the first has made. -/
theorem Grows.bind {part more : List Package.Feature} {x : Except Violation FeatureTree}
    {f : FeatureTree → Except Violation FeatureTree} (h : Grows known t part x)
    (hf : ∀ grown : FeatureTree, x = .ok grown → grown.IsClosed → t.nodes <+: grown.nodes →
      Grows known grown more (f grown)) : Grows known t (part ++ more) (x >>= f) := by
  cases h with
  | failed hfault => exact .failed (by rw [Feature.check_append, hfault]; rfl)
  | @grown grown hpart hclosed hkeeps hlisting =>
    have hids : grown.ids = t.ids ++ part.map (·.id) := by
      rw [← ids_of_listing, hlisting, List.map_append, ids_of_listing]
    have hcheck : check known t.ids (part ++ more) = check known grown.ids more := by
      rw [Feature.check_append, hpart, hids]
      rfl
    have hmore := hf grown rfl hclosed hkeeps
    rw [ok_bind]
    cases hrest : f grown with
    | error v =>
      rw [hrest] at hmore
      cases hmore with
      | failed hfault => exact .failed (hcheck.trans hfault)
    | ok last =>
      rw [hrest] at hmore
      cases hmore with
      | grown hok hclosed' hkeeps' hlisting' =>
        refine .grown (hcheck.trans hok) hclosed' (hkeeps.trans hkeeps') ?_
        rw [hlisting', hlisting, List.append_assoc]

section Insertion
variable {installLevel : UInt16} {parent : Option Nat}

/-- The node of a feature that lies in the one at `parent`, or in none. -/
def nodeFor (installLevel : UInt16) (t : FeatureTree) (parent : Option Nat) (f : Manifest.Feature) :
    FeatureNode :=
  ⟨f.id, f.title, f.description, parent, f.level, f.allowAbsent, f.display, f.components,
    parent.all t.isDefaultAt && isInstalled installLevel f.level⟩

/-- A feature is put into a tree by its node, unless the check of it finds a fault. -/
theorem add_eq (f : Manifest.Feature) : t.add installLevel known parent f =
    (check known t.ids [t.entryOf (nodeFor installLevel t parent f)]).map fun _ =>
      t.push (nodeFor installLevel t parent f) := by
  have hid : (t.entryOf (nodeFor installLevel t parent f)).id = f.id := rfl
  have hcomponents : (t.entryOf (nodeFor installLevel t parent f)).components = f.components := rfl
  rw [add, check, hid, hcomponents]
  by_cases htaken : t.ids.contains f.id
  · rw [if_pos htaken, if_pos htaken]
    rfl
  · rw [if_neg htaken, if_neg htaken]
    cases f.components.find? fun c => !known.contains c <;> rfl

theorem grows_add (ht : t.IsClosed) (hparent : ∀ p ∈ parent, p < t.nodes.length)
    (f : Manifest.Feature) : Grows known t [t.entryOf (nodeFor installLevel t parent f)]
      (t.add installLevel known parent f) := by
  rw [add_eq]
  cases hcheck : check known t.ids [t.entryOf (nodeFor installLevel t parent f)] with
  | error v => exact .failed hcheck
  | ok =>
    have hnode : ∀ p ∈ (nodeFor installLevel t parent f).parent, p < t.nodes.length := hparent
    exact .grown hcheck (isClosed_push ht hnode) keeps_push (listing_push ht hnode)

mutual
/-- Putting a feature with those in it into a tree grows it by their listing. -/
theorem grows_insert : ∀ (f : Manifest.Feature) {t : FeatureTree} {parent : Option Nat},
    t.IsClosed → (∀ p ∈ parent, p < t.nodes.length) →
      Grows known t (listOne installLevel (parent.map t.idAt) (parent.all t.isDefaultAt) f)
        (insert installLevel known parent f t)
  | ⟨id, title, description, level, allowAbsent, display, components, children⟩, t, parent,
      ht, hparent => by
    have hfirst : Grows known t _ (t.add installLevel known parent
        ⟨id, title, description, level, allowAbsent, display, components, children⟩) :=
      grows_add ht hparent _
    rw [insert, listOne]
    refine hfirst.bind fun grown hgrown hclosed _ => ?_
    rw [add_eq] at hgrown
    obtain ⟨_, -, rfl⟩ := map_eq_ok.mp hgrown
    -- the features inside lie in the node that has just been put there
    have hall := grows_insertAll children hclosed (parent_lt_push _)
    rwa [Option.map_some, Option.all_some, idAt_push, isDefaultAt_push] at hall
/-- Putting several features into a tree grows it by their listing. -/
theorem grows_insertAll : ∀ (fs : List Manifest.Feature) {t : FeatureTree} {parent : Option Nat},
    t.IsClosed → (∀ p ∈ parent, p < t.nodes.length) →
      Grows known t (listAll installLevel (parent.map t.idAt) (parent.all t.isDefaultAt) fs)
        (insertAll installLevel known parent fs t)
  | [], t, parent, ht, _ => by
    rw [insertAll, listAll]
    exact grows_nil ht
  | f :: rest, t, parent, ht, hparent => by
    rw [insertAll, listAll]
    refine (grows_insert f ht hparent).bind fun grown _ hclosed hkeeps => ?_
    rw [← map_idAt_of_kept hkeeps hparent, ← all_isDefaultAt_of_kept hkeeps hparent]
    exact grows_insertAll rest hclosed fun p hp =>
      Nat.lt_of_lt_of_le (hparent p hp) hkeeps.length_le
end

end Insertion

end FeatureTree

namespace Feature

/-- The list of a forest is its depth-first listing, once that has passed its check. -/
theorem list_eq (installLevel : UInt16) (known : List String) (forest : List Manifest.Feature) :
    list installLevel known forest = do
      check known [] (listAll installLevel none true forest)
      return listAll installLevel none true forest := by
  have hgrows : FeatureTree.Grows known .empty (listAll installLevel none true forest)
      (FeatureTree.build installLevel known forest) :=
    FeatureTree.grows_insertAll forest FeatureTree.isClosed_empty fun _ h =>
      absurd h (Option.not_mem_none _)
  rw [list]
  cases hbuild : FeatureTree.build installLevel known forest with
  | error v =>
    rw [hbuild] at hgrows
    cases hgrows with
    | failed hfault =>
      rw [show check known [] _ = _ from hfault]
      rfl
  | ok t =>
    rw [hbuild] at hgrows
    cases hgrows with
    | grown hok _ _ hlisting =>
      rw [show check known [] _ = _ from hok, map_eq_ok.mpr ⟨t, rfl, hlisting⟩]
      rfl

end Feature
end Installer
