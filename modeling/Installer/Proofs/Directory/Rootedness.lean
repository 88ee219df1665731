import Installer.Proofs.Directory.Ways

/-!
# Which declarations make a tree

Declarations make a tree exactly if their ids are new, the parents that they name are known, and from
each of them the parents lead to the target directory (`IsRooted`). All of this is said of ids and not
of nodes. A node is rooted exactly if its id leads to the target directory (`Arranges.rooted_iff`), so
that the first node that is astray is that of the first such declaration. Otherwise the first
declaration that is against a rule is reported (`Breaks`): an id that is taken before a parent that is
unknown, and that before a parent from which no way leads to the root. Main statement: `make_exact`.

Any standard folder may be the base, the target directory among them.
-/

set_option autoImplicit false

namespace Installer.DirectoryTree
open Result

/-! ## What declarations have to keep -/

/-- The ids differ from each other and from those that are there before any is declared. -/
def AreNew (base : StandardFolder) (ds : List Manifest.Directory) : Prop :=
  (ds.map (·.id)).Nodup ∧ ∀ d ∈ ds, d.id ∉ seedIds base

/-- An id that is there, before any is declared or by a declaration at any place. -/
def IsKnown (base : StandardFolder) (declared : List Manifest.Directory) (id : String) : Prop :=
  id ∈ seedIds base ∨ ∃ d ∈ declared, d.id = id

/-- A directory names no parent or a known one. -/
def HasParent (base : StandardFolder) (declared : List Manifest.Directory)
    (d : Manifest.Directory) : Prop :=
  ∀ parent ∈ d.parent, IsKnown base declared parent

/-- From a directory the parents lead to the target directory. -/
inductive Reaches (base : StandardFolder) (declared : List Manifest.Directory) : String → Prop
  | target : Reaches base declared StandardFolder.targetDir.id
  | standard {folder : StandardFolder} :
      folder ∈ standardFolders base → Reaches base declared folder.id
  | declared {d : Manifest.Directory} : d ∈ declared →
      Reaches base declared (d.parent.getD StandardFolder.targetDir.id) → Reaches base declared d.id

/-- Declarations that make a tree. -/
structure IsRooted (base : StandardFolder) (declared : List Manifest.Directory) : Prop where
  new : AreNew base declared
  known : ∀ d ∈ declared, HasParent base declared d
  reaches : ∀ d ∈ declared, Reaches base declared d.id

/-- What is reported of declarations that make no tree. A parent is looked at only if all ids are new,
and where the parents lead only if all are known; then the first declaration counts. -/
inductive Breaks (base : StandardFolder) (declared : List Manifest.Directory) : Violation → Prop
  | taken {front back : List Manifest.Directory} {d : Manifest.Directory} :
      declared = front ++ d :: back → AreNew base front →
      (d.id ∈ seedIds base ∨ ∃ earlier ∈ front, earlier.id = d.id) →
      Breaks base declared (.duplicateDirectoryId d.id)
  | unknownParent {front back : List Manifest.Directory} {d : Manifest.Directory} {parent : String} :
      AreNew base declared →
      declared = front ++ d :: back → (∀ earlier ∈ front, HasParent base declared earlier) →
      d.parent = some parent → ¬ IsKnown base declared parent →
      Breaks base declared (.danglingParent d.id parent)
  | unrooted {front back : List Manifest.Directory} {d : Manifest.Directory} {parent : String} :
      AreNew base declared → (∀ d ∈ declared, HasParent base declared d) →
      declared = front ++ d :: back → (∀ earlier ∈ front, Reaches base declared earlier.id) →
      d.parent = some parent → ¬ Reaches base declared d.id →
      Breaks base declared (.danglingParent d.id parent)

variable {base : StandardFolder} {declared : List Manifest.Directory} {t : DirectoryTree}

theorem areNew_iff {ds : List Manifest.Directory} :
    AreNew base ds ↔ Distinct.firstTaken? (seedIds base) (ds.map (·.id)) = none := by
  rw [Distinct.firstTaken?_eq_none_iff, List.forall_mem_map]
  rfl

theorem mem_seedIds {folder : StandardFolder} (h : folder ∈ standardFolders base) :
    folder.id ∈ seedIds base := by
  rw [seedIds, seeds, List.map_cons, List.map_map]
  exact List.mem_cons_of_mem _ (List.mem_map_of_mem h)

theorem isKnown_iff {id : String} :
    IsKnown base declared id ↔ id ∈ seedIds base ++ declared.map (·.id) := by
  rw [List.mem_append, List.mem_map, IsKnown]

/-! ## The nodes of declarations -/

theorem exists_id {p : Nat} (hp : p < t.entries.length) : ∃ id, t.ids[p]? = some id := by
  rw [ids, List.getElem?_map, List.getElem?_eq_getElem hp]
  exact ⟨_, rfl⟩

theorem lt_of_id {p : Nat} {id : String} (hp : t.ids[p]? = some id) : p < t.entries.length := by
  have hlt := (List.getElem?_eq_some_iff.mp hp).1
  rwa [ids, List.length_map] at hlt

theorem lt_of_position? {p : Nat} {id : String} (hp : t.position? id = some p) :
    p < t.entries.length :=
  lt_of_id (getElem?_of_lastPosition? hp)

theorem idAt_of_id {p : Nat} {id : String} (hp : t.ids[p]? = some id) : t.idAt p = id := by
  rw [ids, List.getElem?_map, Option.map_eq_some_iff] at hp
  obtain ⟨node, hnode, rfl⟩ := hp
  rw [idAt, hnode, Option.elim_some]

/-- Where an id stands is a node with it. -/
theorem exists_node_of_id {p : Nat} {id : String} (hp : t.ids[p]? = some id) :
    ∃ node, t.entries[p]? = some node ∧ node.id = id := by
  rwa [ids, List.getElem?_map, Option.map_eq_some_iff] at hp

/-- The position of the directory that a declared one lies in. -/
def parentPosition? (t : DirectoryTree) (d : Manifest.Directory) : Option Nat :=
  d.parent.elim (some root) t.position?

/-- The tree has the standard folders and a directory for each declaration, all with ids of their own
but for the standard folders. Whether the parents lead to the root is left open. -/
structure Arranges (base : StandardFolder) (declared : List Manifest.Directory) (t : DirectoryTree) :
    Prop where
  new : AreNew base declared
  entries : ∃ nodes, declared.mapM (ofDeclaration (seedIds base ++ declared.map (·.id))) = .ok nodes ∧
    t.entries = seeds base ++ nodes
  tidy : t.IsTidy

/-- A node lies in the parent that its declaration names. -/
theorem ofDeclaration_eq_ok {d : Manifest.Directory} {node : DirectoryEntry}
    (h : ofDeclaration t.ids d = .ok node) :
    ∃ q, t.parentPosition? d = some q ∧ node = ⟨d.id, d.name, some q, false, d.grouping⟩ := by
  unfold ofDeclaration at h
  unfold parentPosition?
  cases hparent : d.parent with
  | none =>
    rw [hparent] at h
    cases h
    exact ⟨root, rfl, rfl⟩
  | some parent =>
    rw [hparent] at h
    cases hposition : t.position? parent with
    | none =>
      unfold position? at hposition
      simp only [hposition] at h
      cases h
    | some q =>
      unfold position? at hposition
      simp only [hposition] at h
      cases h
      exact ⟨q, hposition, rfl⟩

/-- A declaration has no node exactly if it names a parent that is not there. -/
theorem ofDeclaration_eq_error_iff {ids : List String} {d : Manifest.Directory} {v : Violation} :
    ofDeclaration ids d = .error v ↔
      ∃ parent, d.parent = some parent ∧ parent ∉ ids ∧ v = .danglingParent d.id parent := by
  unfold ofDeclaration
  cases d.parent with
  | none => simp
  | some parent =>
    simp only [Option.some.injEq, exists_eq_left', ← lastPosition?_isSome_iff]
    cases lastPosition? ids parent with
    | none => simp [eq_comm]
    | some q => simp

theorem exists_ofDeclaration_iff {d : Manifest.Directory} :
    (∃ node, ofDeclaration (seedIds base ++ declared.map (·.id)) d = .ok node) ↔
      HasParent base declared d := by
  constructor
  · rintro ⟨node, hnode⟩ parent hparent
    by_contra hunknown
    rw [isKnown_iff] at hunknown
    rw [ofDeclaration_eq_error_iff.mpr ⟨parent, hparent, hunknown, rfl⟩] at hnode
    cases hnode
  · intro h
    cases hnode : ofDeclaration (seedIds base ++ declared.map (·.id)) d with
    | ok node => exact ⟨node, rfl⟩
    | error v =>
      obtain ⟨parent, hparent, hunknown, -⟩ := ofDeclaration_eq_error_iff.mp hnode
      exact absurd (isKnown_iff.mp (h parent hparent)) hunknown

namespace Arranges
variable (h : Arranges base declared t)

include h

theorem ids_eq : t.ids = seedIds base ++ declared.map (·.id) := by
  obtain ⟨nodes, hnodes, ht⟩ := h.entries
  exact ids_of_nodes hnodes ht

/-- The known ids are those that stand for a node. -/
theorem isSome_position?_iff {id : String} : (t.position? id).isSome ↔ IsKnown base declared id := by
  rw [position?, lastPosition?_isSome_iff, h.ids_eq, isKnown_iff]

theorem getElem?_root : t.entries[root]? = some rootEntry := by
  obtain ⟨nodes, -, ht⟩ := h.entries
  rw [ht]
  rfl

theorem id_root : t.ids[root]? = some StandardFolder.targetDir.id := by
  rw [h.ids_eq]
  rfl

/-- A node is the root, a standard folder, or that of a declaration. -/
theorem node_cases {p : Nat} {node : DirectoryEntry} (hp : t.entries[p]? = some node) :
    (p = root ∧ node = rootEntry) ∨
      (∃ folder ∈ standardFolders base, node = ⟨folder.id, folder.id, some root, true, false⟩) ∨
      ∃ d ∈ declared, ∃ q, t.parentPosition? d = some q ∧
        node = ⟨d.id, d.name, some q, false, d.grouping⟩ := by
  have hids := h.ids_eq
  obtain ⟨nodes, hnodes, ht⟩ := h.entries
  cases p with
  | zero =>
    have hnode : some rootEntry = some node := h.getElem?_root.symm.trans hp
    exact .inl ⟨rfl, (Option.some.inj hnode).symm⟩
  | succ p =>
    rw [ht, seeds, List.cons_append, List.getElem?_cons_succ] at hp
    rcases List.mem_append.mp (List.mem_of_getElem? hp) with hseed | hdeclared
    · obtain ⟨folder, hfolder, rfl⟩ := List.mem_map.mp hseed
      exact .inr (.inl ⟨folder, hfolder, rfl⟩)
    · obtain ⟨d, hd, hnode⟩ := exists_of_mem_result hnodes hdeclared
      rw [← hids] at hnode
      exact .inr (.inr ⟨d, hd, ofDeclaration_eq_ok hnode⟩)

/-- Where the id of a declaration stands is its node. -/
theorem node_of_declared {d : Manifest.Directory} (hd : d ∈ declared) {p : Nat}
    (hp : t.ids[p]? = some d.id) : ∃ q, t.parentPosition? d = some q ∧
      t.entries[p]? = some ⟨d.id, d.name, some q, false, d.grouping⟩ := by
  obtain ⟨node, hnode, hid⟩ := exists_node_of_id hp
  rcases h.node_cases hnode with ⟨-, rfl⟩ | ⟨folder, hfolder, rfl⟩ | ⟨d', hd', q, hq, rfl⟩
  · exact absurd (hid ▸ List.mem_cons_self) (h.new.2 d hd)
  · exact absurd (hid ▸ mem_seedIds hfolder) (h.new.2 d hd)
  · rw [List.inj_on_of_nodup_map h.new.1 hd' hd hid] at hq hnode
    exact ⟨q, hq, hnode⟩

/-- A standard folder, and the root, has no other parent than the root. -/
theorem parentOf?_of_seed {p : Nat} {id : String} (hp : t.ids[p]? = some id)
    (hid : id ∈ seedIds base) : p = root ∨ t.parentOf? p = some root := by
  obtain ⟨node, hnode, rfl⟩ := exists_node_of_id hp
  rcases h.node_cases hnode with ⟨hroot, -⟩ | ⟨folder, -, rfl⟩ | ⟨d, hd, q, -, rfl⟩
  · exact .inl hroot
  · rw [parentOf?, hnode]
    exact .inr rfl
  · exact absurd hid (h.new.2 d hd)

/-- The parent of a declaration's node has the id that is named, or is the root. -/
theorem getElem?_parentPosition? {d : Manifest.Directory} {q : Nat}
    (hq : t.parentPosition? d = some q) :
    t.ids[q]? = some (d.parent.getD StandardFolder.targetDir.id) := by
  unfold parentPosition? at hq
  cases hparent : d.parent with
  | none =>
    rw [hparent] at hq
    cases hq
    exact h.id_root
  | some parent =>
    rw [hparent] at hq
    exact getElem?_of_lastPosition? hq

theorem isLinked : t.IsLinked where
  top := by
    rw [parentOf?, h.getElem?_root]
    rfl
  bound := by
    intro p q hq
    obtain ⟨node, hnode, hparent⟩ := Option.bind_eq_some_iff.mp hq
    rcases h.node_cases hnode with ⟨-, rfl⟩ | ⟨folder, -, rfl⟩ | ⟨d, hd, q', hq', rfl⟩
    · cases hparent
    · cases hparent
      exact (List.getElem?_eq_some_iff.mp h.getElem?_root).1
    · cases hparent
      have hlt := (List.getElem?_eq_some_iff.mp (h.getElem?_parentPosition? hq')).1
      rwa [ids, List.length_map] at hlt

/-! ## Rooted nodes are those from which the parents lead to the target directory -/

theorem reaches_of_rooted {p : Nat} (hp : t.Rooted p) :
    ∀ {id : String}, t.ids[p]? = some id → Reaches base declared id := by
  induction hp with
  | here =>
    intro id hid
    rw [h.id_root] at hid
    cases hid
    exact .target
  | step hparent _ ih =>
    intro id hid
    obtain ⟨node, hnode, rfl⟩ := exists_node_of_id hid
    rw [parentOf?, hnode, Option.bind_some] at hparent
    rcases h.node_cases hnode with ⟨-, rfl⟩ | ⟨folder, hfolder, rfl⟩ | ⟨d, hd, q, hq, rfl⟩
    · cases hparent
    · exact .standard hfolder
    · cases hparent
      exact .declared hd (ih (h.getElem?_parentPosition? hq))

theorem rooted_of_seed {p : Nat} {id : String} (hp : t.ids[p]? = some id)
    (hid : id ∈ seedIds base) : t.Rooted p := by
  rcases h.parentOf?_of_seed hp hid with rfl | hparent
  · exact .here
  · exact .step hparent .here

theorem rooted_of_reaches {id : String} (hid : Reaches base declared id) :
    ∀ {p : Nat}, t.ids[p]? = some id → t.Rooted p := by
  induction hid with
  | target => exact fun hp => h.rooted_of_seed hp List.mem_cons_self
  | standard hfolder => exact fun hp => h.rooted_of_seed hp (mem_seedIds hfolder)
  | declared hd _ ih =>
    intro p hp
    obtain ⟨q, hq, hnode⟩ := h.node_of_declared hd hp
    refine .step ?_ (ih (h.getElem?_parentPosition? hq))
    rw [parentOf?, hnode]
    rfl

theorem rooted_iff {p : Nat} {id : String} (hp : t.ids[p]? = some id) :
    t.Rooted p ↔ Reaches base declared id :=
  ⟨fun hrooted => h.reaches_of_rooted hrooted hp, fun hid => h.rooted_of_reaches hid hp⟩

/-! ## Nodes that are astray -/

theorem stray?_eq_some_iff {p : Nat} : t.stray? = some p ↔
    p < t.entries.length ∧ ¬ t.Rooted p ∧ ∀ q < p, t.Rooted q := by
  have hastray {q : Nat} (hq : q < t.entries.length) :
      (q != root && !(t.ancestors q).contains root) = true ↔ ¬ t.Rooted q := by
    by_cases hroot : q = root
    · rw [hroot]
      exact iff_of_false (by simp) (not_not_intro .here)
    · simp [hroot, mem_ancestors_iff h.isLinked hq hroot]
  unfold stray? positions
  rw [List.find?_range_eq_some]
  constructor
  · rintro ⟨hp, hlt, hbefore⟩
    have hlt := List.mem_range.mp hlt
    refine ⟨hlt, (hastray hlt).mp hp, fun q hq => ?_⟩
    by_contra hnot
    have hkept := hbefore q hq
    rw [(hastray (Nat.lt_trans hq hlt)).mpr hnot] at hkept
    cases hkept
  · rintro ⟨hlt, hp, hbefore⟩
    refine ⟨(hastray hlt).mpr hp, List.mem_range.mpr hlt, fun q hq => ?_⟩
    rw [Bool.not_eq_true', ← Bool.not_eq_true, hastray (Nat.lt_trans hq hlt)]
    exact not_not_intro (hbefore q hq)

/-- A declaration stands after the standard folders and the declarations before it. -/
theorem getElem?_declared {front back : List Manifest.Directory} {d : Manifest.Directory}
    (hsplit : declared = front ++ d :: back) :
    t.ids[(seedIds base).length + front.length]? = some d.id := by
  rw [h.ids_eq, hsplit, List.map_append, List.getElem?_append_right (Nat.le_add_right _ _),
    Nat.add_sub_cancel_left, List.getElem?_append_right (by simp)]
  simp

/-- An id is that of a standard folder or stands where its declaration does. -/
theorem position_cases {p : Nat} {id : String} (hp : t.ids[p]? = some id) :
    id ∈ seedIds base ∨ ∃ front d back, declared = front ++ d :: back ∧
      p = (seedIds base).length + front.length ∧ d.id = id := by
  rw [h.ids_eq, List.getElem?_append] at hp
  split at hp
  · exact .inl (List.mem_of_getElem? hp)
  · next hge =>
    rw [List.getElem?_map, Option.map_eq_some_iff] at hp
    obtain ⟨d, hd, rfl⟩ := hp
    obtain ⟨hlt, rfl⟩ := List.getElem?_eq_some_iff.mp hd
    refine .inr ⟨declared.take (p - (seedIds base).length), _,
      declared.drop (p - (seedIds base).length + 1), ?_, ?_, rfl⟩
    · rw [← List.drop_eq_getElem_cons, List.take_append_drop]
    · rw [List.length_take_of_le (Nat.le_of_lt hlt)]
      omega

/-- The first node that is astray is that of the first declaration that does not lead to the target
directory. -/
theorem stray?_eq_some_iff_declared {p : Nat} : t.stray? = some p ↔
    ∃ front d back, declared = front ++ d :: back ∧ p = (seedIds base).length + front.length ∧
      (∀ earlier ∈ front, Reaches base declared earlier.id) ∧ ¬ Reaches base declared d.id := by
  rw [h.stray?_eq_some_iff]
  constructor
  · rintro ⟨hlt, hastray, hbefore⟩
    obtain ⟨id, hp⟩ := exists_id hlt
    rcases h.position_cases hp with hseed | ⟨front, d, back, hsplit, rfl, hid⟩
    · exact absurd (h.rooted_of_seed hp hseed) hastray
    · refine ⟨front, d, back, hsplit, rfl, fun earlier hearlier => ?_, ?_⟩
      · obtain ⟨front', back', rfl⟩ := List.append_of_mem hearlier
        rw [List.append_assoc, List.cons_append] at hsplit
        exact (h.rooted_iff (h.getElem?_declared hsplit)).mp (hbefore _ (by simp))
      · rwa [hid, ← h.rooted_iff hp]
  · rintro ⟨front, d, back, hsplit, rfl, hfront, hd⟩
    have hp := h.getElem?_declared hsplit
    refine ⟨lt_of_id hp, fun hrooted => hd ((h.rooted_iff hp).mp hrooted), fun q hq => ?_⟩
    obtain ⟨id, hidq⟩ := exists_id (Nat.lt_trans hq (lt_of_id hp))
    rcases h.position_cases hidq with hseed | ⟨front', d', back', hsplit', rfl, hid⟩
    · exact h.rooted_of_seed hidq hseed
    · have hearlier : front[front'.length]? = some d' := by
        rw [← List.getElem?_append_left (Nat.lt_of_add_lt_add_left hq), ← hsplit, hsplit']
        simp
      rw [h.rooted_iff hidq, ← hid]
      exact hfront d' (List.mem_of_getElem? hearlier)

/-- No node is astray exactly if every declaration leads to the target directory. -/
theorem stray?_eq_none_iff :
    t.stray? = none ↔ ∀ d ∈ declared, Reaches base declared d.id := by
  constructor
  · intro hstray d hd
    obtain ⟨front, back, hsplit⟩ := List.append_of_mem hd
    have hp := h.getElem?_declared hsplit
    exact (h.rooted_iff hp).mp (rooted_of_stray hstray (lt_of_id hp))
  · intro hreaches
    by_contra hstray
    obtain ⟨p, hp⟩ := Option.ne_none_iff_exists'.mp hstray
    obtain ⟨front, d, back, hsplit, -, -, hd⟩ := h.stray?_eq_some_iff_declared.mp hp
    exact hd (hreaches d (by simp [hsplit]))

end Arranges

/-! ## Declarations that are refused -/

/-- The directory that is reported as astray, and the parent that it names. -/
theorem Arranges.strayAt (h : Arranges base declared t) {front back : List Manifest.Directory}
    {d : Manifest.Directory} (hsplit : declared = front ++ d :: back)
    (hd : ¬ Reaches base declared d.id) :
    ∃ parent, d.parent = some parent ∧
      t.idAt ((seedIds base).length + front.length) = d.id ∧
      (t.parentOf? ((seedIds base).length + front.length)).elim "" t.idAt = parent := by
  have hmem : d ∈ declared := by simp [hsplit]
  have hp := h.getElem?_declared hsplit
  obtain ⟨q, hq, hnode⟩ := h.node_of_declared hmem hp
  have hparentId := idAt_of_id (h.getElem?_parentPosition? hq)
  cases hparent : d.parent with
  | none =>
    refine absurd (.declared hmem ?_) hd
    rw [hparent]
    exact .target
  | some parent =>
    rw [hparent, Option.getD_some] at hparentId
    refine ⟨parent, rfl, idAt_of_id hp, ?_⟩
    rw [parentOf?, hnode]
    exact hparentId

/-- Where the ids are new and all parents are known there is a directory for each declaration, and a tree
is made if none of them is astray. -/
theorem exists_arranges (hnew : AreNew base declared)
    (hknown : ∀ d ∈ declared, HasParent base declared d) :
    ∃ t, Arranges base declared t ∧ make base declared = t.checkRooted := by
  cases hnodes : declared.mapM (ofDeclaration (seedIds base ++ declared.map (·.id))) with
  | ok nodes =>
    obtain ⟨t, hentries, htidy, hmake⟩ := exists_make_eq (areNew_iff.mp hnew) hnodes
    exact ⟨t, ⟨hnew, ⟨nodes, hnodes, hentries⟩, htidy⟩, hmake⟩
  | error v =>
    obtain ⟨d, hd, hfail⟩ := exists_of_mapM_error hnodes
    obtain ⟨node, hnode⟩ := exists_ofDeclaration_iff.mpr (hknown d hd)
    rw [hfail] at hnode
    cases hnode

theorem Arranges.known (h : Arranges base declared t) :
    ∀ d ∈ declared, HasParent base declared d := by
  intro d hd
  obtain ⟨nodes, hnodes, -⟩ := h.entries
  obtain ⟨node, -, hnode⟩ := exists_result_of_mem hnodes hd
  exact exists_ofDeclaration_iff.mp ⟨node, hnode⟩

theorem arranges_of_make (h : make base declared = .ok t) : Arranges base declared t := by
  obtain ⟨⟨hdistinct, hseeds⟩, nodes, hnodes, hentries, htidy, -⟩ := exists_nodes_of_make h
  refine ⟨⟨hdistinct, fun d hd => hseeds d.id (List.mem_map_of_mem hd)⟩, ?_, htidy⟩
  exact ⟨nodes, hnodes, hentries⟩

theorem stray?_of_make (h : make base declared = .ok t) : t.stray? = none := by
  obtain ⟨-, nodes, -, -, -, hstray⟩ := exists_nodes_of_make h
  exact hstray

theorem isRooted_of_make (h : make base declared = .ok t) : IsRooted base declared where
  new := (arranges_of_make h).new
  known := (arranges_of_make h).known
  reaches := (arranges_of_make h).stray?_eq_none_iff.mp (stray?_of_make h)

theorem exists_make (h : IsRooted base declared) : ∃ t, make base declared = .ok t := by
  obtain ⟨t, harranges, hmake⟩ := exists_arranges h.new h.known
  exact ⟨t, hmake.trans (checkRooted_eq_ok_iff.mpr ⟨harranges.stray?_eq_none_iff.mpr h.reaches, rfl⟩)⟩

/-- The directory that is reported as astray is the first declared one that does not lead to the target
directory. -/
theorem Arranges.checkRooted_eq_error_iff (h : Arranges base declared t) {v : Violation} :
    t.checkRooted = .error v ↔ ∃ front d back parent, declared = front ++ d :: back ∧
      (∀ earlier ∈ front, Reaches base declared earlier.id) ∧ d.parent = some parent ∧
        ¬ Reaches base declared d.id ∧ v = .danglingParent d.id parent := by
  constructor
  · intro hv
    unfold checkRooted at hv
    cases hstray : t.stray? with
    | none =>
      rw [hstray] at hv
      cases hv
    | some p =>
      rw [hstray] at hv
      cases hv
      obtain ⟨front, d, back, hsplit, rfl, hfront, hd⟩ := h.stray?_eq_some_iff_declared.mp hstray
      obtain ⟨parent, hparent, hid, hparentId⟩ := h.strayAt hsplit hd
      exact ⟨front, d, back, parent, hsplit, hfront, hparent, hd, by rw [hid, hparentId]⟩
  · rintro ⟨front, d, back, parent, hsplit, hfront, hparent, hd, rfl⟩
    obtain ⟨named, hnamed, hid, hparentId⟩ := h.strayAt hsplit hd
    rw [hparent] at hnamed
    cases hnamed
    have hstray := h.stray?_eq_some_iff_declared.mpr ⟨front, d, back, hsplit, rfl, hfront, hd⟩
    rw [checkRooted, hstray]
    simp only [hid, hparentId]

theorem breaks_of_make {v : Violation} (h : make base declared = .error v) :
    Breaks base declared v := by
  cases htaken : Distinct.firstTaken? (seedIds base) (declared.map (·.id)) with
  | some id =>
    rw [make_of_taken htaken] at h
    cases h
    obtain ⟨names, rest, hsplit, hfree, hid⟩ := Distinct.firstTaken?_eq_some_iff.mp htaken
    obtain ⟨front, _, rfl, rfl, hback⟩ := List.map_eq_append_iff.mp hsplit
    obtain ⟨d, back, rfl, rfl, -⟩ := List.map_eq_cons_iff.mp hback
    exact .taken rfl (areNew_iff.mpr hfree) (hid.imp_right List.mem_map.mp)
  | none =>
    have hnew : AreNew base declared := areNew_iff.mpr htaken
    cases hnodes : declared.mapM (ofDeclaration (seedIds base ++ declared.map (·.id))) with
    | error e =>
      rw [make_of_unknown htaken hnodes] at h
      cases h
      obtain ⟨front, d, back, hsplit, hfront, hfail⟩ := mapM_eq_error_iff.mp hnodes
      obtain ⟨parent, hparent, hunknown, rfl⟩ := ofDeclaration_eq_error_iff.mp hfail
      exact .unknownParent hnew hsplit
        (fun earlier hearlier => exists_ofDeclaration_iff.mp (hfront earlier hearlier)) hparent
        (fun hknown => hunknown (isKnown_iff.mp hknown))
    | ok nodes =>
      obtain ⟨t, hentries, htidy, hmake⟩ := exists_make_eq htaken hnodes
      have harranges : Arranges base declared t := ⟨hnew, ⟨nodes, hnodes, hentries⟩, htidy⟩
      obtain ⟨front, d, back, parent, hsplit, hfront, hparent, hd, rfl⟩ :=
        harranges.checkRooted_eq_error_iff.mp (hmake.symm.trans h)
      exact .unrooted hnew harranges.known hsplit hfront hparent hd

theorem make_of_breaks {v : Violation} (h : Breaks base declared v) :
    make base declared = .error v := by
  cases h with
  | @taken front back d hsplit hfront hid =>
    refine make_of_taken (Distinct.firstTaken?_eq_some_iff.mpr
      ⟨front.map (·.id), back.map (·.id), ?_, areNew_iff.mp hfront, hid.imp_right List.mem_map.mpr⟩)
    rw [hsplit, List.map_append, List.map_cons]
  | @unknownParent front back d parent hnew hsplit hfront hparent hunknown =>
    refine make_of_unknown (areNew_iff.mp hnew)
      (mapM_eq_error_iff.mpr ⟨front, d, back, hsplit, ?_, ?_⟩)
    · exact fun earlier hearlier => exists_ofDeclaration_iff.mpr (hfront earlier hearlier)
    · exact ofDeclaration_eq_error_iff.mpr
        ⟨parent, hparent, fun hmem => hunknown (isKnown_iff.mpr hmem), rfl⟩
  | @unrooted front back d parent hnew hknown hsplit hfront hparent hd =>
    obtain ⟨t, harranges, hmake⟩ := exists_arranges hnew hknown
    exact hmake.trans (harranges.checkRooted_eq_error_iff.mpr
      ⟨front, d, back, parent, hsplit, hfront, hparent, hd, rfl⟩)

/-- Declarations make a tree exactly if they are rooted, and otherwise the first that is against one of
the rules is reported. -/
theorem make_exact :
    ((∃ t, make base declared = .ok t) ↔ IsRooted base declared) ∧
      ∀ v, make base declared = .error v ↔ Breaks base declared v :=
  ⟨⟨fun ⟨_, h⟩ => isRooted_of_make h, exists_make⟩, fun _ => ⟨breaks_of_make, make_of_breaks⟩⟩

end Installer.DirectoryTree
