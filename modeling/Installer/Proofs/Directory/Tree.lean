import Installer.Proofs.Directory.Building

/-!
# Trees that declarations make

A tree is made if the declared ids are new, every parent is known and no node is astray
(`exists_nodes_of_make`). Its ids are then those of the standard folders and the declared ones
(`ids_of_make`), all different, and the parents lead from every listed directory to the target
directory through listed ones (`exists_parent_leads`). Paths are found in the listing
(`path_of_listing`).

That the ids differ, and that paths are found, takes seeds whose ids differ. They do for the folders
of every platform (`nodup_seedIds`), not for the target directory as the base.
-/

set_option autoImplicit false

namespace Installer.DirectoryTree
open Result

/-! ## Making a tree -/

section Make
variable {base : StandardFolder} {declared : List Manifest.Directory} {t : DirectoryTree}

theorem checkRooted_eq_ok_iff {t t' : DirectoryTree} :
    t.checkRooted = .ok t' ↔ t.stray? = none ∧ t = t' := by
  rw [checkRooted]
  cases t.stray? <;> simp

/-- A tree is made of the standard folders and a directory for each declaration. -/
theorem exists_nodes_of_make (h : make base declared = .ok t) :
    ((declared.map (·.id)).Nodup ∧ ∀ id ∈ declared.map (·.id), id ∉ seedIds base) ∧
      ∃ nodes, declared.mapM (ofDeclaration (seedIds base ++ declared.map (·.id))) = .ok nodes ∧
        t.entries = seeds base ++ nodes ∧ t.IsTidy ∧ t.stray? = none := by
  rw [← Distinct.firstTaken?_eq_none_iff]
  cases hnew : Distinct.firstTaken? (seedIds base) (declared.map (·.id)) with
  | some id =>
    rw [make_of_taken hnew] at h
    cases h
  | none =>
    refine ⟨rfl, ?_⟩
    cases hnodes : declared.mapM (ofDeclaration (seedIds base ++ declared.map (·.id))) with
    | error v =>
      rw [make_of_unknown hnew hnodes] at h
      cases h
    | ok nodes =>
      obtain ⟨t', hentries, htidy, hmake⟩ := exists_make_eq hnew hnodes
      obtain ⟨hstray, rfl⟩ := checkRooted_eq_ok_iff.mp (hmake.symm.trans h)
      exact ⟨nodes, rfl, hentries, htidy, hstray⟩

/-- A declaration's node has its id. -/
theorem id_of_ofDeclaration {ids : List String} {d : Manifest.Directory} {node : DirectoryEntry}
    (h : ofDeclaration ids d = .ok node) : node.id = d.id := by
  rw [ofDeclaration] at h
  split at h
  · cases h
    rfl
  · split at h
    · cases h
      rfl
    · cases h

theorem ids_of_nodes {ids : List String} {nodes : List DirectoryEntry}
    (h : declared.mapM (ofDeclaration ids) = .ok nodes) (ht : t.entries = seeds base ++ nodes) :
    t.ids = seedIds base ++ declared.map (·.id) := by
  rw [DirectoryTree.ids, ht, List.map_append, seedIds,
    map_eq_map_of_related (mapM_eq_ok.mp h) fun _ _ => id_of_ofDeclaration]

theorem ids_of_make (h : make base declared = .ok t) :
    t.ids = seedIds base ++ declared.map (·.id) := by
  obtain ⟨-, nodes, hnodes, ht, -⟩ := exists_nodes_of_make h
  exact ids_of_nodes hnodes ht

/-- The root comes first. -/
theorem entries_of_make (h : make base declared = .ok t) :
    t.entries = rootEntry :: t.entries.tail := by
  obtain ⟨-, nodes, -, ht, -⟩ := exists_nodes_of_make h
  rw [ht]
  rfl

theorem ids_eq_cons (h : make base declared = .ok t) :
    t.ids = StandardFolder.targetDir.id :: t.listing.map (·.id) := by
  rw [ids, entries_of_make h, listing, List.map_map]
  rfl

/-- The listing has the standard folders and after them the declared directories. -/
theorem ids_of_listing (h : make base declared = .ok t) : t.listing.map (·.id) =
    (standardFolders base).map (·.id) ++ declared.map (·.id) := by
  have hids := (ids_eq_cons h).symm.trans (ids_of_make h)
  rw [seedIds, seeds, List.map_cons, List.map_map, List.cons_append] at hids
  exact (List.cons.inj hids).2

theorem nodup_ids (hseeds : (seedIds base).Nodup) (h : make base declared = .ok t) :
    t.ids.Nodup := by
  obtain ⟨⟨hdeclared, hnew⟩, -⟩ := exists_nodes_of_make h
  rw [ids_of_make h]
  exact List.nodup_append.mpr
    ⟨hseeds, hdeclared, fun id hseed _ hid heq => hnew _ hid (heq ▸ hseed)⟩

end Make

/-! ## The way to the root -/

/-- The parents lead from a node to the root. -/
inductive Rooted (t : DirectoryTree) : Nat → Prop
  | here : Rooted t root
  | step {p q : Nat} : t.parentOf? p = some q → Rooted t q → Rooted t p

/-- A walk that meets the root shows that its start is rooted. -/
theorem rooted_of_mem_climb {t : DirectoryTree} : ∀ {n p : Nat}, root ∈ t.climb n p → t.Rooted p
  | 0, _, h => by cases h
  | n + 1, p, h => by
    rw [climb] at h
    cases hparent : t.parentOf? p with
    | none =>
      rw [hparent] at h
      cases h
    | some q =>
      rw [hparent] at h
      rcases List.mem_cons.mp h with rfl | h
      · exact .step hparent .here
      · exact .step hparent (rooted_of_mem_climb h)

theorem rooted_of_stray {t : DirectoryTree} (h : t.stray? = none) {p : Nat}
    (hp : p < t.entries.length) : t.Rooted p := by
  have hkept := List.find?_eq_none.mp h p (List.mem_range.mpr hp)
  by_cases hroot : p = root
  · exact hroot ▸ .here
  · exact rooted_of_mem_climb (by simpa [hroot, ancestors] using hkept)

/-- The parents lead from a directory to the target directory, through listed directories. -/
inductive Leads (directories : List Package.Directory) : String → Prop
  | target : Leads directories StandardFolder.targetDir.id
  | step {d : Package.Directory} {parent : String} : d ∈ directories → d.parent = some parent →
      Leads directories parent → Leads directories d.id

section Listing
variable {base : StandardFolder} {declared : List Manifest.Directory} {t : DirectoryTree}

/-- Every listed directory is that of a node other than the root. -/
theorem exists_node {d : Package.Directory} (hd : d ∈ t.listing) :
    ∃ p node, t.entries[p + 1]? = some node ∧ d.id = node.id ∧ d.parent = node.parent.map t.idAt := by
  obtain ⟨node, hnode, rfl⟩ := List.mem_map.mp hd
  obtain ⟨p, hp⟩ := List.mem_iff_getElem?.mp hnode
  exact ⟨p, node, by rwa [List.getElem?_tail] at hp, rfl, rfl⟩

theorem exists_listed {p : Nat} {node : DirectoryEntry} (hnode : t.entries[p + 1]? = some node) :
    ∃ d ∈ t.listing, d.id = node.id ∧ d.parent = node.parent.map t.idAt := by
  refine ⟨_, List.mem_map_of_mem (List.mem_iff_getElem?.mpr ⟨p, ?_⟩), rfl, rfl⟩
  rwa [List.getElem?_tail]

/-- A rooted node leads to the target directory by its id. -/
theorem Rooted.leads (h : make base declared = .ok t) {p : Nat} (hp : t.Rooted p) :
    Leads t.listing (t.idAt p) := by
  have hroot : t.entries[0]? = some rootEntry := by
    rw [entries_of_make h]
    rfl
  induction hp with
  | here =>
    rw [idAt, root, hroot]
    exact .target
  | @step p q hparent _ ih =>
    obtain ⟨node, hnode, hq⟩ := Option.bind_eq_some_iff.mp hparent
    cases p with
    | zero =>
      rw [hroot] at hnode
      cases hnode
      cases hq
    | succ p =>
      obtain ⟨d, hd, hid, hof⟩ := exists_listed hnode
      rw [hq] at hof
      rw [idAt, hnode, Option.elim_some, ← hid]
      exact .step hd hof ih

/-- Every listed directory has a parent, from which the parents lead to the target directory. -/
theorem exists_parent_leads (h : make base declared = .ok t) {d : Package.Directory}
    (hd : d ∈ t.listing) : ∃ parent, d.parent = some parent ∧ Leads t.listing parent := by
  obtain ⟨-, nodes, -, -, -, hstray⟩ := exists_nodes_of_make h
  obtain ⟨p, node, hnode, -, hof⟩ := exists_node hd
  have hp : p + 1 < t.entries.length := (List.getElem?_eq_some_iff.mp hnode).1
  cases rooted_of_stray hstray hp with
  | step hparent hrooted =>
    rw [parentOf?, hnode, Option.bind_some] at hparent
    rw [hparent] at hof
    exact ⟨_, hof, hrooted.leads h⟩

/-! ## Paths -/

/-- An id that comes first, and not again, stands for the first position. -/
theorem lastPosition?_cons {ids : List String} {id : String} (h : id ∉ ids) :
    lastPosition? (id :: ids) id = some 0 := by
  rw [← List.singleton_append, lastPosition?_append_left h]
  simp [lastPosition?]

/-- The path of the target directory is empty. -/
theorem path?_target (hseeds : (seedIds base).Nodup) (h : make base declared = .ok t) :
    t.path? StandardFolder.targetDir.id = some "" := by
  have hids := nodup_ids hseeds h
  have hroot : t.entries[0]? = some rootEntry := by
    rw [entries_of_make h]
    rfl
  rw [ids_eq_cons h, List.nodup_cons] at hids
  rw [path?, position?, ids_eq_cons h, lastPosition?_cons hids.1, Option.map_some, pathAt,
    List.filterMap_cons, hroot]
  rfl

/-- The listing tells every path: a directory that is not listed has none, or an empty one. -/
theorem path_of_listing (hseeds : (seedIds base).Nodup) (h : make base declared = .ok t)
    (directory : String) : (t.listing.find? (·.id = directory)).elim "" (·.path) =
      (t.path? directory).getD "" := by
  cases hfind : t.listing.find? (·.id = directory) with
  | some d =>
    have hid : d.id = directory := by simpa using List.find?_some hfind
    obtain ⟨node, -, rfl⟩ := List.mem_map.mp (List.mem_of_find?_eq_some hfind)
    rw [← hid]
    rfl
  | none =>
    have hunlisted : directory ∉ t.listing.map (·.id) := by
      intro hmem
      obtain ⟨d, hd, hid⟩ := List.mem_map.mp hmem
      simpa [hid] using List.find?_eq_none.mp hfind d hd
    by_cases htarget : directory = StandardFolder.targetDir.id
    · rw [htarget, path?_target hseeds h]
      rfl
    · have hunknown : directory ∉ t.ids := by
        rw [ids_eq_cons h]
        simp [htarget, hunlisted]
      have hposition : t.position? directory = none := by
        rw [← contains_iff] at hunknown
        simpa [contains] using hunknown
      rw [path?, hposition]
      rfl

end Listing
end Installer.DirectoryTree
