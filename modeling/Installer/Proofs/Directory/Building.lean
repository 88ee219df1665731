import Installer.Directory.Tree
import Installer.Distinct
import Installer.Proofs.Result

/-!
# How a tree is put together

The nodes are put in first and then put below their parents, both in their order. A node keeps those
below it in a list of its own, besides the parent that they keep. The two agree at any time
(`IsTidy`): a node that is put in lies nowhere and has nothing below it, and one that is put below
another comes after all that lie there, since they are put there in their order (`IsTidy.link`).

So a tree that is made is told by its directories without their lists, and these are what the
declarations say one by one (`ofDeclaration`). Main statement: `exists_make_eq`. Whether the parents
lead to the root is not looked at here.

Each pass is followed by induction on the declarations, with the tree left open (`exists_register`,
`exists_linkAll`); a declaration that is refused ends it with the same violation (`register_eq_error`,
`linkAll_eq_error`).
-/

set_option autoImplicit false

namespace Installer.DirectoryTree
open Result

/-! ## Positions of ids -/

/-- An id has a position exactly if it is in the list. -/
theorem lastPosition?_isSome_iff {ids : List String} {id : String} :
    (lastPosition? ids id).isSome ↔ id ∈ ids := by
  rw [lastPosition?, Option.isSome_map, List.getLast?_isSome, ne_eq, List.filter_eq_nil_iff]
  push Not
  constructor
  · rintro ⟨⟨name, position⟩, hmem, hname⟩
    obtain rfl : name = id := by simpa using hname
    exact List.fst_mem_of_mem_zipIdx hmem
  · intro hmem
    obtain ⟨position, hposition, rfl⟩ := List.mem_iff_getElem.mp hmem
    exact ⟨(ids[position], position), List.mem_zipIdx_iff_getElem?.mpr (by simp), by simp⟩

/-- An id stands at its position. -/
theorem getElem?_of_lastPosition? {ids : List String} {id : String} {p : Nat}
    (h : lastPosition? ids id = some p) : ids[p]? = some id := by
  obtain ⟨⟨name, position⟩, hlast, rfl⟩ := Option.map_eq_some_iff.mp h
  obtain ⟨hmem, hname⟩ := List.mem_filter.mp (List.mem_of_getLast? hlast)
  rw [← of_decide_eq_true hname]
  exact List.mem_zipIdx_iff_getElem?.mp hmem

/-- Ids that follow change nothing of an id that is not among them. -/
theorem lastPosition?_append_left {ids more : List String} {id : String} (h : id ∉ more) :
    lastPosition? (ids ++ more) id = lastPosition? ids id := by
  have hmore : (more.zipIdx ids.length).filter (·.1 = id) = [] := by
    refine List.filter_eq_nil_iff.mpr ?_
    rintro ⟨name, position⟩ hmem
    have hname := List.fst_mem_of_mem_zipIdx hmem
    simpa using fun heq : name = id => h (heq ▸ hname)
  rw [lastPosition?, lastPosition?, List.zipIdx_append, Nat.zero_add, List.filter_append, hmore,
    List.append_nil]

theorem contains_iff {t : DirectoryTree} {id : String} : t.contains id ↔ id ∈ t.ids :=
  lastPosition?_isSome_iff

/-! ## One node more, and one node below another -/

section Steps
variable {t : DirectoryTree} {id name : String} {standard grouping : Bool} {c p q : Nat}

theorem length_entries (t : DirectoryTree) : t.entries.length = t.nodes.length := List.length_map _

@[simp] theorem entries_insert : (t.insert id name standard grouping).entries =
    t.entries ++ [⟨id, name, none, standard, grouping⟩] := by
  simp [insert, entries]

theorem parentOf?_insert :
    (t.insert id name standard grouping).parentOf? p = t.parentOf? p := by
  rw [parentOf?, parentOf?, entries_insert, List.getElem?_append]
  split
  · rfl
  · next hp =>
    rw [List.getElem?_eq_none (Nat.le_of_not_lt hp)]
    cases p - t.entries.length <;> rfl

theorem children_insert :
    (t.insert id name standard grouping).children p = t.children p := by
  rw [children, children, insert, List.getElem?_append]
  split
  · rfl
  · next hp =>
    rw [List.getElem?_eq_none (Nat.le_of_not_lt hp)]
    cases p - t.nodes.length <;> rfl

theorem entries_link : (t.link c q).entries =
    t.entries.modify c fun entry => { entry with parent := some q } := by
  refine List.ext_getElem? fun p => ?_
  simp only [entries, link, List.getElem?_map, List.getElem?_modify]
  by_cases hc : c = p
  · by_cases hq : q = p <;> simp [hc, hq, Function.comp_def]
  · by_cases hq : q = p <;> simp [hc, hq, Function.comp_def]

theorem ids_link : (t.link c q).ids = t.ids := by
  refine List.ext_getElem? fun p => ?_
  rw [ids, ids, entries_link, List.getElem?_map, List.getElem?_map, List.getElem?_modify]
  by_cases hc : c = p <;> simp [hc, Function.comp_def]

theorem parentOf?_link (hc : c < t.entries.length) :
    (t.link c q).parentOf? p = if p = c then some q else t.parentOf? p := by
  rw [parentOf?, parentOf?, entries_link, List.getElem?_modify]
  by_cases h : p = c
  · simp [h, List.getElem?_eq_getElem hc]
  · simp [h, Ne.symm h]

theorem children_link (hq : q < t.entries.length) :
    (t.link c q).children p = if p = q then t.children q ++ [c] else t.children p := by
  rw [length_entries] at hq
  rw [children, children, children, link, List.getElem?_modify, List.getElem?_modify]
  by_cases h : p = q
  · by_cases hc : c = q <;> simp [h, hc, List.getElem?_eq_getElem hq]
  · by_cases hc : c = p
    · cases t.nodes[p]? <;> simp [h, Ne.symm h, hc]
    · simp [h, Ne.symm h, hc]

end Steps

/-! ## Lists that agree with the parents -/

/-- In the list of a node are those that have it as their parent, as they were put in. -/
structure IsTidy (t : DirectoryTree) : Prop where
  mem : ∀ {p c : Nat}, c ∈ t.children p ↔ t.parentOf? c = some p
  ascending : ∀ p, (t.children p).Pairwise (· < ·)

namespace IsTidy
variable {t : DirectoryTree} (h : t.IsTidy)

theorem empty : IsTidy ⟨[]⟩ := ⟨by simp [children, parentOf?, entries], fun _ => .nil⟩

include h

theorem insert (id name : String) (standard grouping : Bool) :
    (t.insert id name standard grouping).IsTidy where
  mem := by
    intro p c
    rw [children_insert, parentOf?_insert, h.mem]
  ascending p := by
    rw [children_insert]
    exact h.ascending p

/-- A node is put below another when all before it are in their places and those after it are not. -/
theorem link {c q : Nat} (hc : c < t.entries.length) (hq : q < t.entries.length)
    (hfree : ∀ p, c ≤ p → t.parentOf? p = none) : (t.link c q).IsTidy where
  mem := by
    intro p x
    rw [children_link hq, parentOf?_link hc]
    by_cases hp : p = q
    · by_cases hx : x = c
      · simp [hp, hx]
      · simp [hp, hx, h.mem]
    · by_cases hx : x = c
      · simp [hp, Ne.symm hp, hx, h.mem, hfree c (Nat.le_refl c)]
      · simp [hp, hx, h.mem]
  ascending p := by
    rw [children_link hq]
    split
    · refine List.pairwise_append.mpr ⟨h.ascending q, List.pairwise_singleton _ _, fun x hx y hy => ?_⟩
      rw [List.mem_singleton.mp hy]
      by_contra hle
      have hparent := h.mem.mp hx
      rw [hfree x (Nat.le_of_not_lt hle)] at hparent
      cases hparent
    · exact h.ascending p

end IsTidy

/-! ## What is there before any is declared -/

def rootEntry : DirectoryEntry :=
  ⟨StandardFolder.targetDir.id, "SourceDir", none, true, false⟩

/-- The directories that are there before any is declared. -/
def seeds (base : StandardFolder) : List DirectoryEntry :=
  rootEntry :: (standardFolders base).map fun f => ⟨f.id, f.id, some root, true, false⟩

/-- The ids of the nodes that are there before any is declared. -/
def seedIds (base : StandardFolder) : List String := (seeds base).map (·.id)

/-- The folders that a platform starts with are different. -/
theorem nodup_seedIds (platform : Platform) : (seedIds platform.programFiles).Nodup := by
  cases platform <;> decide

theorem ids_seed (base : StandardFolder) : (seed base).ids = seedIds base := rfl

/-- Folders that are put in and below the root one after another leave a tree tidy. -/
theorem isTidy_foldl_folders (folders : List StandardFolder) {t : DirectoryTree} (ht : t.IsTidy)
    (hroot : root < t.entries.length) : (folders.foldl (fun t folder =>
      (t.insert folder.id folder.id true false).link t.nodes.length root) t).IsTidy := by
  induction folders generalizing t with
  | nil => exact ht
  | cons folder rest ih =>
    have hnew : t.nodes.length < (t.insert folder.id folder.id true false).entries.length := by
      simp [length_entries]
    have hfree : ∀ p, t.nodes.length ≤ p →
        (t.insert folder.id folder.id true false).parentOf? p = none := by
      intro p hp
      rw [parentOf?_insert, parentOf?, List.getElem?_eq_none (by rwa [length_entries])]
      rfl
    have hroot' := Nat.lt_of_le_of_lt (Nat.zero_le _) hnew
    refine ih ((ht.insert folder.id folder.id true false).link hnew hroot' hfree) ?_
    rw [entries_link, List.length_modify]
    exact hroot'

theorem isTidy_seed (base : StandardFolder) : (seed base).IsTidy :=
  isTidy_foldl_folders _ (IsTidy.empty.insert _ _ _ _) Nat.zero_lt_one

/-! ## Declared directories -/

/-- A declared directory that lies nowhere yet. -/
def unplaced (d : Manifest.Directory) : DirectoryEntry := ⟨d.id, d.name, none, false, d.grouping⟩

/-- The directory of a declaration, in a tree with the ids `ids`. -/
def ofDeclaration (ids : List String) (d : Manifest.Directory) :
    Except Violation DirectoryEntry :=
  match d.parent with
  | none => .ok ⟨d.id, d.name, some root, false, d.grouping⟩
  | some parent =>
    match lastPosition? ids parent with
    | some p => .ok ⟨d.id, d.name, some p, false, d.grouping⟩
    | none => .error (.danglingParent d.id parent)

section Passes
variable {t : DirectoryTree} {ds : List Manifest.Directory}

/-- The directory of a declaration lies in the parent that is found for it. -/
theorem ofDeclaration_ids (d : Manifest.Directory) : ofDeclaration t.ids d =
    (t.parentFor d).map fun q => ⟨d.id, d.name, some q, false, d.grouping⟩ := by
  rw [ofDeclaration, parentFor]
  cases d.parent with
  | none => rfl
  | some parent =>
    dsimp only
    rw [position?]
    cases lastPosition? t.ids parent <;> rfl

theorem lt_of_parentFor {d : Manifest.Directory} {q : Nat} (h : t.parentFor d = .ok q)
    (hroot : root < t.entries.length) : q < t.entries.length := by
  rw [parentFor] at h
  split at h
  · cases h
    exact hroot
  · split at h
    · next hposition =>
      cases h
      have hlt := (List.getElem?_eq_some_iff.mp (getElem?_of_lastPosition? hposition)).1
      rwa [ids, List.length_map] at hlt
    · cases h

/-- The first declaration whose id is taken is refused. -/
theorem register_eq_error {id : String}
    (h : Distinct.firstTaken? t.ids (ds.map (·.id)) = some id) :
    t.register ds = .error (.duplicateDirectoryId id) := by
  induction ds generalizing t with
  | nil => cases h
  | cons d rest ih =>
    rw [List.map_cons, Distinct.firstTaken?] at h
    rw [register]
    by_cases htaken : d.id ∈ t.ids
    · rw [if_pos (by simpa using htaken)] at h
      rw [if_pos (contains_iff.mpr htaken), Option.some.inj h]
    · rw [if_neg (by simpa using htaken)] at h
      rw [if_neg (by simpa [contains_iff] using htaken)]
      refine ih ((Distinct.firstTaken?_congr fun name => ?_).trans h)
      simp [ids, or_comm]

/-- Where no id is taken the declared directories are put in. -/
theorem exists_register (htidy : t.IsTidy)
    (h : Distinct.firstTaken? t.ids (ds.map (·.id)) = none) :
    ∃ t', t.register ds = .ok t' ∧ t'.entries = t.entries ++ ds.map unplaced ∧ t'.IsTidy := by
  induction ds generalizing t with
  | nil => exact ⟨t, rfl, by simp, htidy⟩
  | cons d rest ih =>
    rw [List.map_cons, Distinct.firstTaken?] at h
    by_cases htaken : d.id ∈ t.ids
    · rw [if_pos (by simpa using htaken)] at h
      cases h
    · rw [if_neg (by simpa using htaken)] at h
      obtain ⟨t', hregister, hentries, htidy'⟩ := ih (htidy.insert d.id d.name false d.grouping)
        ((Distinct.firstTaken?_congr fun name => by simp [ids, or_comm]).trans h)
      refine ⟨t', ?_, ?_, htidy'⟩
      · rw [register, if_neg (by simpa [contains_iff] using htaken), hregister]
      · rw [hentries, entries_insert, List.append_assoc]
        rfl

/-- The first declaration with an unknown parent is refused. -/
theorem linkAll_eq_error {v : Violation} {p : Nat}
    (h : ds.mapM (ofDeclaration t.ids) = .error v) : t.linkAll p ds = .error v := by
  induction ds generalizing t p with
  | nil => cases h
  | cons d rest ih =>
    rw [List.mapM_cons, ofDeclaration_ids] at h
    rw [linkAll]
    cases hparent : t.parentFor d with
    | error e =>
      rw [hparent] at h
      cases h
      rfl
    | ok q =>
      rw [hparent] at h
      have hrest : rest.mapM (ofDeclaration (t.link p q).ids) = .error v := by
        rw [ids_link]
        rcases bind_eq_error.mp h with h | ⟨_, h, hrest⟩
        · cases h
        · rcases bind_eq_error.mp hrest with hrest | ⟨_, -, hdone⟩
          · exact hrest
          · cases hdone
      exact ih hrest

theorem modify_append_cons {α : Type} (front rest : List α) (a : α) (f : α → α) :
    (front ++ a :: rest).modify front.length f = front ++ f a :: rest :=
  List.modifyTailIdx_add (List.modifyHead f) 0 front (a :: rest)

/-- Where all parents are known the declared directories are put below them. -/
theorem exists_linkAll {front nodes : List DirectoryEntry} (htidy : t.IsTidy)
    (ht : t.entries = front ++ ds.map unplaced)
    (h : ds.mapM (ofDeclaration t.ids) = .ok nodes) :
    ∃ t', t.linkAll front.length ds = .ok t' ∧ t'.entries = front ++ nodes ∧ t'.IsTidy := by
  induction ds generalizing t front nodes with
  | nil =>
    cases h
    exact ⟨t, rfl, ht, htidy⟩
  | cons d rest ih =>
    rw [List.mapM_cons, ofDeclaration_ids] at h
    obtain ⟨_, hnode, h⟩ := bind_eq_ok.mp h
    obtain ⟨q, hparent, rfl⟩ := map_eq_ok.mp hnode
    obtain ⟨more, hmore, h⟩ := bind_eq_ok.mp h
    cases h
    have hlt : front.length < t.entries.length := by simp [ht]
    have hfree : ∀ p, front.length ≤ p → t.parentOf? p = none := by
      intro p hp
      rw [parentOf?, ht, List.getElem?_append_right hp, List.getElem?_map]
      cases (d :: rest)[p - front.length]? <;> rfl
    have hlinked := htidy.link hlt (lt_of_parentFor hparent (Nat.zero_lt_of_lt hlt)) hfree
    have hentries : (t.link front.length q).entries =
        (front ++ [⟨d.id, d.name, some q, false, d.grouping⟩]) ++ rest.map unplaced := by
      rw [entries_link, ht, List.map_cons, modify_append_cons, unplaced]
      simp
    obtain ⟨t', hall, hentries', htidy'⟩ := ih hlinked hentries (by rwa [ids_link])
    refine ⟨t', ?_, by simpa using hentries', htidy'⟩
    rw [linkAll, hparent, ok_bind]
    simpa using hall

end Passes

/-! ## Both passes -/

section Make
variable {base : StandardFolder} {declared : List Manifest.Directory}

theorem make_of_taken {id : String}
    (h : Distinct.firstTaken? (seedIds base) (declared.map (·.id)) = some id) :
    make base declared = .error (.duplicateDirectoryId id) := by
  rw [make, register_eq_error ((ids_seed base).symm ▸ h), error_bind]

variable (hnew : Distinct.firstTaken? (seedIds base) (declared.map (·.id)) = none)

include hnew

/-- What there is after the first pass. -/
theorem exists_registered : ∃ t, (seed base).register declared = .ok t ∧
    t.entries = seeds base ++ declared.map unplaced ∧ t.IsTidy ∧
      t.ids = seedIds base ++ declared.map (·.id) := by
  obtain ⟨t, hregister, hentries, htidy⟩ := exists_register (isTidy_seed base) hnew
  refine ⟨t, hregister, hentries, htidy, ?_⟩
  rw [ids, hentries, List.map_append, List.map_map]
  rfl

theorem make_of_unknown {v : Violation}
    (h : declared.mapM (ofDeclaration (seedIds base ++ declared.map (·.id))) = .error v) :
    make base declared = .error v := by
  obtain ⟨t, hregister, -, -, hids⟩ := exists_registered hnew
  rw [make, hregister, ok_bind, linkAll_eq_error (hids.symm ▸ h), error_bind]

/-- Where the ids are new and all parents are known, the tree has the standard folders and a directory
for each declaration, and it is made if none of them is astray. -/
theorem exists_make_eq {nodes : List DirectoryEntry}
    (h : declared.mapM (ofDeclaration (seedIds base ++ declared.map (·.id))) = .ok nodes) :
    ∃ t : DirectoryTree, t.entries = seeds base ++ nodes ∧ t.IsTidy ∧
      make base declared = t.checkRooted := by
  obtain ⟨registered, hregister, hentries, htidy, hids⟩ := exists_registered hnew
  obtain ⟨t, hlink, hentries', htidy'⟩ := exists_linkAll htidy hentries (hids.symm ▸ h)
  refine ⟨t, hentries', htidy', ?_⟩
  have hlength : (seed base).nodes.length = (seeds base).length := rfl
  rw [make, hregister, ok_bind, hlength, hlink, ok_bind]

end Make

end Installer.DirectoryTree
