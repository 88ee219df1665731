import Mathlib.Data.List.Forall2
import Mathlib.Data.List.Nodup
import Mathlib.Data.List.Perm.Basic
import Installer.Proofs.Directory.Rootedness

/-!
# Trees of declarations in another order

The nodes stand at other positions then, and a node tells its parent by the position. Otherwise the
tree is the same (`Renumbers`): the ways to the root, and with them the paths, are those of the other
tree in the new numbers, and the same directories are listed. Main statement: `exists_renumbers`.

**What it does not establish.** It takes seeds whose ids differ. Child lists are left out of
`Renumbers`, since their order is that of the declarations.
-/

set_option autoImplicit false

namespace Installer.DirectoryTree
open Result

/-! ## Positions of ids that are different -/

/-- No id stands at two positions. -/
theorem eq_of_getElem?_eq {ids : List String} (hids : ids.Nodup) {id : String} {p q : Nat}
    (hp : ids[p]? = some id) (hq : ids[q]? = some id) : p = q :=
  (List.getElem?_inj (List.getElem?_eq_some_iff.mp hp).1 hids).mp (hp.trans hq.symm)

/-- An id that stands once has the position where it stands. -/
theorem lastPosition?_eq_some_iff {ids : List String} (hids : ids.Nodup) {id : String} {p : Nat} :
    lastPosition? ids id = some p ↔ ids[p]? = some id := by
  refine ⟨getElem?_of_lastPosition?, fun hp => ?_⟩
  obtain ⟨q, hq⟩ := Option.isSome_iff_exists.mp
    (lastPosition?_isSome_iff.mpr (List.mem_of_getElem? hp))
  rw [hq, eq_of_getElem?_eq hids hp (getElem?_of_lastPosition? hq)]

/-- The id of a node stands where the node does. -/
theorem id_of_getElem? {t : DirectoryTree} {p : Nat} {node : DirectoryEntry}
    (h : t.entries[p]? = some node) : t.ids[p]? = some node.id := by
  rw [DirectoryTree.ids, List.getElem?_map, h, Option.map_some]

/-! ## Trees in other numbers -/

/-- A node with the position of its parent in other numbers. -/
def renumber (σ : Nat → Nat) (node : DirectoryEntry) : DirectoryEntry :=
  { node with parent := node.parent.map σ }

/-- The nodes of the one tree stand in the other at the positions that `σ` says. -/
structure Renumbers (σ : Nat → Nat) (t t' : DirectoryTree) : Prop where
  entries : t'.entries.Perm (t.entries.map (renumber σ))
  nodup : t.ids.Nodup
  place : ∀ {p : Nat} {node : DirectoryEntry}, t.entries[p]? = some node →
    t'.entries[σ p]? = some (renumber σ node)
  /-- Parents are nodes of the tree. -/
  bound : ∀ {p q : Nat}, t.parentOf? p = some q → q < t.entries.length
  root : σ root = root

theorem segments_renumber (σ : Nat → Nat) (nodes : List DirectoryEntry) :
    segments (nodes.map (renumber σ)) = segments nodes := by
  induction nodes with
  | nil => rfl
  | cons node above ih =>
    have hparent : (renumber σ node).parent.isNone = node.parent.isNone := Option.isNone_map ..
    rw [List.map_cons, segments, segments, ih, hparent]
    rfl

namespace Renumbers
variable {σ : Nat → Nat} {t t' : DirectoryTree} (h : Renumbers σ t t')

include h

theorem ids : t'.ids.Perm t.ids := by
  have hids := h.entries.map (·.id)
  rwa [List.map_map] at hids

theorem length_eq : t'.entries.length = t.entries.length := by
  rw [h.entries.length_eq, List.length_map]

/-- An id has its position in the new numbers. -/
theorem position?_eq (id : String) : t'.position? id = (t.position? id).map σ := by
  cases hposition : t.position? id with
  | none =>
    have hunknown : ¬ t'.contains id := by
      rw [contains_iff, h.ids.mem_iff, ← contains_iff, contains, hposition]
      exact Bool.false_ne_true
    simpa [contains] using hunknown
  | some p =>
    have hp := (lastPosition?_eq_some_iff h.nodup).mp hposition
    obtain ⟨node, hnode, rfl⟩ := Option.map_eq_some_iff.mp ((List.getElem?_map ..).symm.trans hp)
    have hid := id_of_getElem? (h.place hnode)
    exact (lastPosition?_eq_some_iff (h.ids.nodup_iff.mpr h.nodup)).mpr hid

variable {p : Nat} (hp : p < t.entries.length)

include hp

theorem idAt_eq : t'.idAt (σ p) = t.idAt p := by
  rw [idAt, idAt, h.place (List.getElem?_eq_getElem hp), List.getElem?_eq_getElem hp]
  rfl

theorem parentOf?_eq : t'.parentOf? (σ p) = (t.parentOf? p).map σ := by
  rw [parentOf?, parentOf?, h.place (List.getElem?_eq_getElem hp), List.getElem?_eq_getElem hp]
  rfl

omit hp in
/-- On the way to the root are nodes of the tree. -/
theorem forall_mem_climb (n p : Nat) : ∀ q ∈ t.climb n p, q < t.entries.length := by
  induction n generalizing p with
  | zero => exact fun q hq => absurd hq List.not_mem_nil
  | succ n ih =>
    rw [climb]
    cases hparent : t.parentOf? p with
    | none => exact fun q hq => absurd hq List.not_mem_nil
    | some q => exact List.forall_mem_cons.mpr ⟨h.bound hparent, ih q⟩

omit hp in
/-- The way to the root is the same in the new numbers. -/
theorem climb_eq (n : Nat) {p : Nat} (hp : p < t.entries.length) :
    t'.climb n (σ p) = (t.climb n p).map σ := by
  induction n generalizing p with
  | zero => rfl
  | succ n ih =>
    rw [climb, climb, h.parentOf?_eq hp]
    cases hparent : t.parentOf? p with
    | none => rfl
    | some q =>
      rw [Option.map_some, Option.elim_some, Option.elim_some, List.map_cons, ih (h.bound hparent)]

theorem ancestors_eq : t'.ancestors (σ p) = (t.ancestors p).map σ := by
  rw [ancestors, ancestors, h.length_eq, h.climb_eq _ hp]

omit hp in
theorem filterMap_entries {ps : List Nat} (hps : ∀ p ∈ ps, p < t.entries.length) :
    (ps.map σ).filterMap (t'.entries[·]?) = (ps.filterMap (t.entries[·]?)).map (renumber σ) := by
  rw [List.filterMap_map, List.map_filterMap]
  refine List.filterMap_congr fun p hp => ?_
  have hnode := List.getElem?_eq_getElem (hps p hp)
  rw [hnode, Function.comp_apply, h.place hnode, Option.map_some]

theorem pathAt_eq : t'.pathAt (σ p) = t.pathAt p := by
  rw [pathAt, pathAt, h.ancestors_eq hp, ← List.map_cons, h.filterMap_entries, segments_renumber]
  exact List.forall_mem_cons.mpr ⟨hp, h.forall_mem_climb _ _⟩

omit hp in
theorem path?_eq (id : String) : t'.path? id = t.path? id := by
  rw [path?, path?, h.position?_eq]
  cases hposition : t.position? id with
  | none => rfl
  | some p =>
    rw [Option.map_some, Option.map_some, Option.map_some,
      h.pathAt_eq (lt_of_position? hposition)]

omit hp in
/-- Every position of the other tree is the new number of one. -/
theorem exists_position {q : Nat} (hq : q < t'.entries.length) :
    ∃ p, p < t.entries.length ∧ σ p = q := by
  obtain ⟨node, hnode, hrenumbered⟩ :=
    List.mem_map.mp (h.entries.mem_iff.mp (List.getElem_mem hq))
  obtain ⟨p, hp⟩ := List.mem_iff_getElem?.mp hnode
  have hplace := h.place hp
  rw [hrenumbered] at hplace
  refine ⟨p, (List.getElem?_eq_some_iff.mp hp).1,
    eq_of_getElem?_eq (h.ids.nodup_iff.mpr h.nodup) (id_of_getElem? hplace) (id_of_getElem? ?_)⟩
  exact List.getElem?_eq_getElem hq

omit hp in
/-- No node is astray in the new numbers. -/
theorem stray?_eq_none (hstray : t.stray? = none) : t'.stray? = none := by
  refine List.find?_eq_none.mpr fun q hq => ?_
  obtain ⟨p, hp, rfl⟩ := h.exists_position (List.mem_range.mp hq)
  have hkept := List.find?_eq_none.mp hstray p (List.mem_range.mpr hp)
  rw [h.ancestors_eq hp]
  by_cases hroot : p = DirectoryTree.root
  · simp [hroot, h.root]
  · have hmem : DirectoryTree.root ∈ t.ancestors p := by simpa [hroot] using hkept
    have hreached := List.mem_map_of_mem (f := σ) hmem
    rw [h.root] at hreached
    simp [hreached]

omit hp in
/-- The same directories are listed. -/
theorem listing_perm (hroot : t.entries = rootEntry :: t.entries.tail)
    (hroot' : t'.entries = rootEntry :: t'.entries.tail) : t'.listing.Perm t.listing := by
  have hnodes := h.entries
  rw [hroot, hroot', List.map_cons] at hnodes
  have htail := List.Perm.cons_inv hnodes
  rw [listing, listing]
  refine (htail.map _).trans (.of_eq ?_)
  rw [List.map_map]
  refine List.map_congr_left fun node hnode => ?_
  have hparent : (node.parent.map σ).map t'.idAt = node.parent.map t.idAt := by
    rw [Option.map_map]
    refine Option.map_congr fun q hq => h.idAt_eq ?_
    obtain ⟨p, hp⟩ := List.mem_iff_getElem?.mp (List.mem_of_mem_tail hnode)
    exact h.bound (Option.bind_eq_some_iff.mpr ⟨node, hp, hq⟩)
  simp only [Function.comp_apply, renumber, hparent, h.path?_eq]

end Renumbers

/-! ## Declarations in another order -/

/-- Where the ids of a list stand in another with the same ids. -/
theorem exists_positions {ids ids' : List String} (h : ids'.Perm ids) :
    ∃ σ : Nat → Nat, ∀ p id, ids[p]? = some id → ids'[σ p]? = some id := by
  refine ⟨fun p => ids'.idxOf (ids[p]?.getD ""), fun p id hp => ?_⟩
  simp only [hp, Option.getD_some]
  exact List.getElem?_idxOf (h.mem_iff.mpr (List.mem_of_getElem? hp))

/-- The node of a declaration lies in the node of its parent. -/
theorem ofDeclaration_eq_ok_iff {ids : List String} (hids : ids.Nodup)
    (hroot : ids[root]? = some StandardFolder.targetDir.id) {d : Manifest.Directory}
    {node : DirectoryEntry} : ofDeclaration ids d = .ok node ↔
      ∃ p, ids[p]? = some (d.parent.getD StandardFolder.targetDir.id) ∧
        node = ⟨d.id, d.name, some p, false, d.grouping⟩ := by
  rw [ofDeclaration]
  simp only [← lastPosition?_eq_some_iff hids] at hroot ⊢
  cases d.parent with
  | none => simp [hroot, eq_comm]
  | some parent =>
    rw [Option.getD_some]
    cases hposition : lastPosition? ids parent with
    | none => simp [hposition]
    | some p => simp [hposition, eq_comm]

/-- Where the ids go over to other places, a declaration makes its node in the new numbers. -/
theorem ofDeclaration_renumber {ids ids' : List String} {σ : Nat → Nat} (hids : ids.Nodup)
    (hids' : ids'.Nodup) (hσ : ∀ p id, ids[p]? = some id → ids'[σ p]? = some id)
    (hroot : ids[root]? = some StandardFolder.targetDir.id)
    (hroot' : ids'[root]? = some StandardFolder.targetDir.id) {d : Manifest.Directory}
    {node : DirectoryEntry} (h : ofDeclaration ids d = .ok node) :
    ofDeclaration ids' d = .ok (renumber σ node) := by
  obtain ⟨p, hp, rfl⟩ := (ofDeclaration_eq_ok_iff hids hroot).mp h
  exact (ofDeclaration_eq_ok_iff hids' hroot').mpr ⟨σ p, hσ p _ hp, rfl⟩

section Make
variable {base : StandardFolder} {declared declared' : List Manifest.Directory}
  {t : DirectoryTree} {σ : Nat → Nat}

theorem getElem?_root (base : StandardFolder) (more : List String) :
    (seedIds base ++ more)[root]? = some StandardFolder.targetDir.id := rfl

/-- Where ids go over to the same ids, a node that is there under its id is there at its number. -/
theorem place_of_entries {t' : DirectoryTree} (hnodes : t'.entries.Perm (t.entries.map (renumber σ)))
    (hnodup : t'.ids.Nodup) (hσ : ∀ p id, t.ids[p]? = some id → t'.ids[σ p]? = some id) {p : Nat}
    {node : DirectoryEntry} (hp : t.entries[p]? = some node) :
    t'.entries[σ p]? = some (renumber σ node) := by
  have hmem : renumber σ node ∈ t'.entries :=
    hnodes.mem_iff.mpr (List.mem_map_of_mem (List.mem_of_getElem? hp))
  obtain ⟨q, hq⟩ := List.mem_iff_getElem?.mp hmem
  have hid := id_of_getElem? hq
  rw [eq_of_getElem?_eq hnodup (hσ p node.id (id_of_getElem? hp)) hid]
  exact hq

theorem map_renumber_seeds (hroot : σ root = root) :
    (seeds base).map (renumber σ) = seeds base := by
  simp [seeds, rootEntry, renumber, hroot]

/-- In another order, with the ids at other places, declarations make the same directories in the new
numbers. -/
theorem exists_nodes_perm {ids ids' : List String} (hids : ids.Nodup) (hids' : ids'.Nodup)
    (hσ : ∀ p id, ids[p]? = some id → ids'[σ p]? = some id)
    (hroot : ids[root]? = some StandardFolder.targetDir.id)
    (hroot' : ids'[root]? = some StandardFolder.targetDir.id) (hperm : declared'.Perm declared)
    {nodes : List DirectoryEntry} (h : declared.mapM (ofDeclaration ids) = .ok nodes) :
    ∃ nodes', declared'.mapM (ofDeclaration ids') = .ok nodes' ∧
      nodes'.Perm (nodes.map (renumber σ)) := by
  have hrenumbered : List.Forall₂ (fun d node => ofDeclaration ids' d = .ok node) declared
      (nodes.map (renumber σ)) :=
    List.forall₂_map_right_iff.mpr <| (mapM_eq_ok.mp h).imp fun _ _ hd =>
      ofDeclaration_renumber hids hids' hσ hroot hroot' hd
  obtain ⟨nodes', hmade, hnodes⟩ := List.perm_comp_forall₂ hperm hrenumbered
  exact ⟨nodes', mapM_eq_ok.mpr hmade, hnodes⟩

/-- Declarations in another order make the tree in other numbers. -/
theorem exists_renumbers (hseeds : (seedIds base).Nodup) (h : make base declared = .ok t)
    (hperm : declared'.Perm declared) :
    ∃ σ t', make base declared' = .ok t' ∧ Renumbers σ t t' := by
  obtain ⟨⟨hdistinct, hnew⟩, nodes, hnodes, ht, -, hstray⟩ := exists_nodes_of_make h
  have hids := ids_of_nodes hnodes ht
  have hnodup := nodup_ids hseeds h
  have hids' : (seedIds base ++ declared'.map (·.id)).Perm t.ids := by
    rw [hids]
    exact (hperm.map _).append_left _
  have hnodup' := hids'.nodup_iff.mpr hnodup
  obtain ⟨σ, hσ⟩ := exists_positions hids'
  have hroot : σ root = root :=
    eq_of_getElem?_eq hnodup' (hσ root _ (hids ▸ getElem?_root base _)) (getElem?_root base _)
  obtain ⟨nodes', hnodes', hmade⟩ := exists_nodes_perm hnodup hnodup' hσ
    (hids ▸ getElem?_root base _) (getElem?_root base _) hperm (hids ▸ hnodes)
  have hnew' : Distinct.firstTaken? (seedIds base) (declared'.map (·.id)) = none :=
    Distinct.firstTaken?_eq_none_iff.mpr ⟨(hperm.map _).nodup_iff.mpr hdistinct,
      fun id hid => hnew id ((hperm.map _).mem_iff.mp hid)⟩
  obtain ⟨t', ht', -, hmake⟩ := exists_make_eq hnew' hnodes'
  have hentries : t'.entries.Perm (t.entries.map (renumber σ)) := by
    rw [ht', ht, List.map_append, map_renumber_seeds hroot]
    exact hmade.append_left _
  have hrenumbers : Renumbers σ t t' := by
    refine ⟨hentries, hnodup, ?_, (arranges_of_make h).isLinked.bound, hroot⟩
    rw [← ids_of_nodes hnodes' ht'] at hσ hnodup'
    exact place_of_entries hentries hnodup' hσ
  have hrooted := checkRooted_eq_ok_iff.mpr ⟨hrenumbers.stray?_eq_none hstray, rfl⟩
  exact ⟨σ, t', hmake.trans hrooted, hrenumbers⟩

end Make

end Installer.DirectoryTree
