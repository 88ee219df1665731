import Installer.Proofs.Directory.Renumbering
import Installer.Proofs.Directory.Rootedness

/-!
# The shape of a tree, and what is found in it

A node is in the child list of its parent, once, and in no other; the lists were kept while the tree
was made (`IsTidy`), and here they are read with its ways. Its ancestors are its way to the root. Its
path is that of its parent with its own name, and begins below the root or at a standard folder
(`HasPaths`).

What is found under an id is a matter of its line: the nodes on the way from it to the root. Apart
from the numbers of their parents the nodes of a line are those of the declarations, so in whatever
order these come the lines are the same (`line_of_perm`). Main statement: `make_isArranged`.

**What it does not establish.** Names are not looked at: two directories in one may have one name, and
then one path. If the target directory is the base folder, its id stands for the base folder, whose
path is not empty (`path?_target_of_base`).
-/

set_option autoImplicit false

namespace Installer.DirectoryTree
open Result

/-! ## Paths -/

/-- The nodes from a node up to the root. -/
def line (t : DirectoryTree) (p : Nat) : List DirectoryEntry :=
  (p :: t.ancestors p).filterMap (t.entries[·]?)

section Line
variable {t : DirectoryTree} {p q : Nat} {node : DirectoryEntry}

theorem line_eq_cons (hnode : t.entries[p]? = some node) :
    t.line p = node :: (t.ancestors p).filterMap (t.entries[·]?) := by
  rw [line, List.filterMap_cons, hnode]

/-- The line of a node goes on with that of its parent. -/
theorem line_cons (ht : t.IsLinked) (hrooted : t.Rooted p) (hnode : t.entries[p]? = some node)
    (hparent : node.parent = some q) : t.line p = node :: t.line q := by
  have hparentOf : t.parentOf? p = some q := by rw [parentOf?, hnode, Option.bind_some, hparent]
  have hp : p < t.entries.length := (List.getElem?_eq_some_iff.mp hnode).1
  rw [line_eq_cons hnode, ancestors_of_parentOf? ht hp hrooted hparentOf]
  rfl

theorem line_root (ht : t.IsLinked) (hroot : t.entries[root]? = some rootEntry) :
    t.line root = [rootEntry] := by
  have hp : root < t.entries.length := (List.getElem?_eq_some_iff.mp hroot).1
  rw [line_eq_cons hroot, ancestors_root ht hp]
  rfl

/-- Below the root there is something to name. -/
theorem segments_line_ne_nil (hrooted : t.Rooted q) (hq : q ≠ root) : segments (t.line q) ≠ [] := by
  cases hrooted with
  | here => exact absurd rfl hq
  | step hparent _ =>
    obtain ⟨node, hnode, hparent⟩ := Option.bind_eq_some_iff.mp hparent
    rw [line_eq_cons hnode, segments, hparent]
    cases node.standard <;> simp

theorem pathAt_eq : t.pathAt p = "\\".intercalate (segments (t.line p)).reverse := rfl

theorem pathAt_standard (hnode : t.entries[p]? = some node) (hparent : node.parent = some q)
    (hstandard : node.standard = true) : t.pathAt p = s!"[{node.id}]" := by
  rw [pathAt_eq, line_eq_cons hnode, segments, hparent, hstandard]
  exact String.intercalate_singleton

variable (ht : t.IsLinked) (hrooted : t.Rooted p) (hnode : t.entries[p]? = some node)
  (hparent : node.parent = some q) (hdeclared : node.standard = false)

include ht hrooted hnode hparent hdeclared

theorem segments_line_cons : segments (t.line p) = node.name :: segments (t.line q) := by
  rw [line_cons ht hrooted hnode hparent, segments, hparent, hdeclared]
  rfl

theorem pathAt_top (hroot : t.entries[root]? = some rootEntry) (hq : q = root) :
    t.pathAt p = node.name := by
  rw [pathAt_eq, segments_line_cons ht hrooted hnode hparent hdeclared, hq, line_root ht hroot]
  exact String.intercalate_singleton

theorem pathAt_inner (hrootedParent : t.Rooted q) (hq : q ≠ root) :
    t.pathAt p = t.pathAt q ++ "\\" ++ node.name := by
  have habove : (segments (t.line q)).reverse ≠ [] :=
    List.reverse_ne_nil_iff.mpr (segments_line_ne_nil hrootedParent hq)
  rw [pathAt_eq, segments_line_cons ht hrooted hnode hparent hdeclared, List.reverse_cons,
    String.intercalate_append_of_ne_nil habove (List.cons_ne_nil _ _), String.intercalate_singleton,
    pathAt_eq]

end Line

/-! ## Where ids stand -/

variable {base : StandardFolder} {declared : List Manifest.Directory} {t : DirectoryTree}

/-- A directory lies directly below the root if it names no parent, or the target directory. Where the
target directory is itself the base folder, its id stands for the base folder. -/
def IsTop (base : StandardFolder) (d : Manifest.Directory) : Prop :=
  ∀ parent ∈ d.parent, parent = StandardFolder.targetDir.id ∧ base ≠ .targetDir

theorem target_mem_seedIds : StandardFolder.targetDir.id ∈ seedIds base := List.mem_cons_self

/-- The id of the root stands for the root, unless the base folder has it too. -/
theorem lastPosition?_target_iff (base : StandardFolder) :
    lastPosition? (seedIds base) StandardFolder.targetDir.id = some root ↔ base ≠ .targetDir := by
  cases base <;> decide

/-- The id of a standard folder stands for such a folder and never for the root. -/
theorem lastPosition?_standard {folder : StandardFolder} (h : folder ∈ standardFolders base) :
    ∃ p, lastPosition? (seedIds base) folder.id = some p ∧
      (seeds base)[p]? = some ⟨folder.id, folder.id, some root, true, false⟩ := by
  have hall : ∀ base, ∀ folder ∈ standardFolders base,
      ((lastPosition? (seedIds base) folder.id).bind ((seeds base)[·]?)) =
        some ⟨folder.id, folder.id, some root, true, false⟩ := by
    intro base
    cases base <;> decide
  exact Option.bind_eq_some_iff.mp (hall base folder h)

namespace Arranges
variable (h : Arranges base declared t)

include h

/-- The ids that are there before any is declared keep their positions. -/
theorem position?_of_seed {id : String} (hid : id ∈ seedIds base) :
    t.position? id = lastPosition? (seedIds base) id := by
  rw [position?, h.ids_eq, lastPosition?_append_left]
  intro hmem
  obtain ⟨d, hd, rfl⟩ := List.mem_map.mp hmem
  exact h.new.2 d hd hid

/-- The nodes that are there before any is declared keep their places. -/
theorem getElem?_of_seed {p : Nat} {node : DirectoryEntry} (hp : (seeds base)[p]? = some node) :
    t.entries[p]? = some node := by
  obtain ⟨nodes, -, ht⟩ := h.entries
  rw [ht, List.getElem?_append_left (List.getElem?_eq_some_iff.mp hp).1, hp]

/-- The node of a standard folder. -/
theorem exists_standard {folder : StandardFolder} (hfolder : folder ∈ standardFolders base) :
    ∃ p, t.position? folder.id = some p ∧
      t.entries[p]? = some ⟨folder.id, folder.id, some root, true, false⟩ := by
  obtain ⟨p, hp, hnode⟩ := lastPosition?_standard hfolder
  exact ⟨p, (h.position?_of_seed (mem_seedIds hfolder)).trans hp, h.getElem?_of_seed hnode⟩

/-- The node of a declaration, and of what it lies in. -/
theorem exists_declared {d : Manifest.Directory} (hd : d ∈ declared) :
    ∃ p q, t.position? d.id = some p ∧ t.parentPosition? d = some q ∧
      t.entries[p]? = some ⟨d.id, d.name, some q, false, d.grouping⟩ := by
  obtain ⟨p, hp⟩ := Option.isSome_iff_exists.mp (h.isSome_position?_iff.mpr (.inr ⟨d, hd, rfl⟩))
  obtain ⟨q, hq, hnode⟩ := h.node_of_declared hd (getElem?_of_lastPosition? hp)
  exact ⟨p, q, hp, hq, hnode⟩

theorem parentPosition?_eq_root_iff {d : Manifest.Directory} {q : Nat}
    (hq : t.parentPosition? d = some q) : q = root ↔ IsTop base d := by
  have hid := h.getElem?_parentPosition? hq
  unfold parentPosition? at hq
  unfold IsTop
  cases hparent : d.parent with
  | none =>
    rw [hparent] at hq
    cases hq
    exact iff_of_true rfl (by simp)
  | some parent =>
    rw [hparent] at hid hq
    have htarget : parent = StandardFolder.targetDir.id →
        (t.position? parent = some root ↔ base ≠ .targetDir) := by
      rintro rfl
      rw [h.position?_of_seed target_mem_seedIds, lastPosition?_target_iff]
    simp only [Option.mem_def, Option.some.injEq, forall_eq']
    constructor
    · rintro rfl
      have hname : parent = StandardFolder.targetDir.id :=
        Option.some.inj (hid.symm.trans h.id_root)
      exact ⟨hname, (htarget hname).mp hq⟩
    · rintro ⟨hname, hbase⟩
      exact Option.some.inj (hq.symm.trans ((htarget hname).mpr hbase))

end Arranges

/-! ## What is found in a tree -/

/-- The paths of a tree: each is that of the directory above with the name, and begins below the root
or at a standard folder. -/
structure HasPaths (base : StandardFolder) (declared : List Manifest.Directory) (t : DirectoryTree) :
    Prop where
  target : base ≠ .targetDir → t.path? StandardFolder.targetDir.id = some ""
  standard : ∀ folder ∈ standardFolders base, t.path? folder.id = some s!"[{folder.id}]"
  top : ∀ d ∈ declared, IsTop base d → t.path? d.id = some d.name
  inner : ∀ d ∈ declared, ¬ IsTop base d → ∃ parent path, d.parent = some parent ∧
    t.path? parent = some path ∧ t.path? d.id = some (path ++ "\\" ++ d.name)

/-- The shape of a tree, in which a node is told by its position and those put in later come later. -/
structure IsArranged (base : StandardFolder) (declared : List Manifest.Directory) (t : DirectoryTree) :
    Prop where
  ids : t.ids = seedIds base ++ declared.map (·.id)
  top : t.parentOf? root = none ∧ ∀ q, root ∉ t.children q
  /-- A node below the root has one parent, whose list has it once, and no other list has it. -/
  parent : ∀ p < t.entries.length, p ≠ root → ∃ q < t.entries.length,
    t.parentOf? p = some q ∧ (t.children q).count p = 1 ∧ ∀ other, other ≠ q → p ∉ t.children other
  order : ∀ q, (t.children q).Pairwise (· < ·)
  /-- The ancestors are the way to the root, from the nearest to the root itself. -/
  way : ∀ p < t.entries.length, t.Way p (t.ancestors p)
  short : ∀ p < t.entries.length, (t.ancestors p).length < t.entries.length
  distinct : ∀ p < t.entries.length, (p :: t.ancestors p).Nodup
  /-- More steps lead no further. -/
  settled : ∀ p < t.entries.length, ∀ n ≥ t.entries.length, t.climb n p = t.ancestors p
  paths : HasPaths base declared t

section Make
variable (h : make base declared = .ok t)

include h

theorem rooted_of_make {p : Nat} (hp : p < t.entries.length) : t.Rooted p :=
  rooted_of_stray (stray?_of_make h) hp

theorem way_of_make {p : Nat} (hp : p < t.entries.length) : t.Way p (t.ancestors p) := by
  obtain ⟨above, hway⟩ := rooted_iff_exists_way.mp (rooted_of_make h hp)
  rwa [hway.ancestors_eq (arranges_of_make h).isLinked hp]

theorem rooted_of_getElem? {p : Nat} {node : DirectoryEntry} (hnode : t.entries[p]? = some node) :
    t.Rooted p :=
  rooted_of_make h (List.getElem?_eq_some_iff.mp hnode).1

theorem hasPaths_of_make : HasPaths base declared t where
  target := by
    intro hbase
    have harranges := arranges_of_make h
    rw [path?, harranges.position?_of_seed target_mem_seedIds,
      (lastPosition?_target_iff base).mpr hbase, Option.map_some, pathAt_eq,
      line_root harranges.isLinked harranges.getElem?_root]
    rfl
  standard := by
    intro folder hfolder
    obtain ⟨p, hp, hnode⟩ := (arranges_of_make h).exists_standard hfolder
    rw [path?, hp, Option.map_some, pathAt_standard hnode rfl rfl]
  top := by
    intro d hd htop
    have harranges := arranges_of_make h
    obtain ⟨p, q, hp, hq, hnode⟩ := harranges.exists_declared hd
    have hroot : q = root := (harranges.parentPosition?_eq_root_iff hq).mpr htop
    rw [path?, hp, Option.map_some, pathAt_top harranges.isLinked (rooted_of_getElem? h hnode) hnode
      rfl rfl harranges.getElem?_root hroot]
  inner := by
    intro d hd htop
    have harranges := arranges_of_make h
    obtain ⟨p, q, hp, hq, hnode⟩ := harranges.exists_declared hd
    have hroot : q ≠ root := fun hroot =>
      htop ((harranges.parentPosition?_eq_root_iff hq).mp hroot)
    have hrooted : t.Rooted q := rooted_of_make h (lt_of_id (harranges.getElem?_parentPosition? hq))
    obtain ⟨parent, hparent⟩ : ∃ parent, d.parent = some parent := by
      refine Option.ne_none_iff_exists'.mp fun hnone => htop ?_
      rw [IsTop, hnone]
      simp
    rw [parentPosition?, hparent, Option.elim_some] at hq
    refine ⟨parent, t.pathAt q, hparent, ?_, ?_⟩
    · rw [path?, hq, Option.map_some]
    · rw [path?, hp, Option.map_some, pathAt_inner harranges.isLinked (rooted_of_getElem? h hnode)
        hnode rfl rfl hrooted hroot]

theorem isArranged_of_make : IsArranged base declared t where
  ids := (arranges_of_make h).ids_eq
  top := by
    have ht := (arranges_of_make h).isLinked
    refine ⟨ht.top, fun q hq => ?_⟩
    rw [(arranges_of_make h).tidy.mem, ht.top] at hq
    cases hq
  parent := by
    intro p hp hroot
    have htidy := (arranges_of_make h).tidy
    cases rooted_of_make h hp with
    | here => exact absurd rfl hroot
    | @step _ q hparent _ =>
      refine ⟨q, (arranges_of_make h).isLinked.bound hparent, hparent, ?_, fun other hother hmem => ?_⟩
      · have hnodup := (htidy.ascending q).imp Nat.ne_of_lt
        exact List.count_eq_one_of_mem hnodup (htidy.mem.mpr hparent)
      · rw [htidy.mem, hparent, Option.some.injEq] at hmem
        exact hother hmem.symm
  order := (arranges_of_make h).tidy.ascending
  way _ hp := way_of_make h hp
  short _ hp := (way_of_make h hp).length_lt (arranges_of_make h).isLinked hp
  distinct _ hp := (way_of_make h hp).nodup (arranges_of_make h).isLinked.top
  settled := by
    intro p hp n hn
    have ht := (arranges_of_make h).isLinked
    have hway := way_of_make h hp
    exact hway.climb_eq ht.top (Nat.le_trans (Nat.le_of_lt (hway.length_lt ht hp)) hn)
  paths := hasPaths_of_make h

end Make

/-! ## Declarations in another order -/

/-- Nodes without the numbers of their parents. -/
def unnumbered (nodes : List DirectoryEntry) : List DirectoryEntry := nodes.map (renumber fun _ => root)

theorem path?_eq_line (t : DirectoryTree) (id : String) : t.path? id = (t.position? id).map fun p =>
    "\\".intercalate (segments (unnumbered (t.line p))).reverse := by
  rw [path?]
  refine Option.map_congr fun p _ => ?_
  rw [pathAt_eq, unnumbered, segments_renumber]

theorem map_id_filterMap {ps : List Nat} (hps : ∀ p ∈ ps, p < t.entries.length) :
    (ps.filterMap (t.entries[·]?)).map (·.id) = ps.map t.idAt := by
  rw [List.map_filterMap, ← List.filterMap_eq_map]
  refine List.filterMap_congr fun p hp => ?_
  rw [Function.comp_apply, idAt, List.getElem?_eq_getElem (hps p hp)]
  rfl

theorem ancestorsOf?_eq_line (h : make base declared = .ok t) (id : String) :
    t.ancestorsOf? id =
      (t.position? id).map fun p => ((unnumbered (t.line p)).map (·.id)).tail := by
  rw [ancestorsOf?]
  refine Option.map_congr fun p hp => ?_
  have hlt := lt_of_position? hp
  have hids : (unnumbered (t.line p)).map (·.id) = (p :: t.ancestors p).map t.idAt := by
    rw [← map_id_filterMap ((way_of_make h hlt).forall_lt (arranges_of_make h).isLinked hlt),
      unnumbered, List.map_map]
    rfl
  rw [hids]
  rfl

/-- From the root and the standard folders there is the same line in every tree. -/
theorem line_of_seed (h : make base declared = .ok t) {p : Nat} {node : DirectoryEntry}
    (hnode : (seeds base)[p]? = some node) :
    t.line p = if p = root then [rootEntry] else [node, rootEntry] := by
  have harranges := arranges_of_make h
  have hroot := line_root harranges.isLinked harranges.getElem?_root
  cases p with
  | zero => exact hroot
  | succ p =>
    have hplace := harranges.getElem?_of_seed hnode
    rw [seeds, List.getElem?_cons_succ] at hnode
    obtain ⟨folder, -, rfl⟩ := List.mem_map.mp (List.mem_of_getElem? hnode)
    rw [line_cons harranges.isLinked (rooted_of_getElem? h hplace) hplace rfl, hroot]
    rfl

theorem reaches_of_known (h : IsRooted base declared) {id : String} (hid : IsKnown base declared id) :
    Reaches base declared id := by
  rcases hid with hseed | ⟨d, hd, rfl⟩
  · rw [seedIds, seeds, List.map_cons, List.map_map] at hseed
    rcases List.mem_cons.mp hseed with rfl | hstandard
    · exact .target
    · obtain ⟨folder, hfolder, rfl⟩ := List.mem_map.mp hstandard
      exact .standard hfolder
  · exact h.reaches d hd

section Reordering
variable {declared' : List Manifest.Directory} {t' : DirectoryTree}

theorem isRooted_of_perm (hperm : declared'.Perm declared) (h : IsRooted base declared) :
    IsRooted base declared' := by
  have hknown {id : String} (hid : IsKnown base declared id) : IsKnown base declared' id :=
    hid.imp_right fun ⟨d, hd, hid⟩ => ⟨d, hperm.mem_iff.mpr hd, hid⟩
  have hreaches {id : String} (hid : Reaches base declared id) : Reaches base declared' id := by
    induction hid with
    | target => exact .target
    | standard hfolder => exact .standard hfolder
    | declared hd _ ih => exact .declared (hperm.mem_iff.mpr hd) ih
  refine ⟨⟨(hperm.map _).nodup_iff.mpr h.new.1, fun d hd => h.new.2 d (hperm.mem_iff.mp hd)⟩, ?_, ?_⟩
  · exact fun d hd parent hparent => hknown (h.known d (hperm.mem_iff.mp hd) parent hparent)
  · exact fun d hd => hreaches (h.reaches d (hperm.mem_iff.mp hd))

variable (h : make base declared = .ok t) (h' : make base declared' = .ok t')

include h h'

theorem line_eq_of_seed {id : String} (hseed : id ∈ seedIds base) {p p' : Nat}
    (hp : t.position? id = some p) (hp' : t'.position? id = some p') : t'.line p' = t.line p := by
  rw [(arranges_of_make h).position?_of_seed hseed] at hp
  rw [(arranges_of_make h').position?_of_seed hseed, hp] at hp'
  cases hp'
  have hid := getElem?_of_lastPosition? hp
  rw [seedIds, List.getElem?_map, Option.map_eq_some_iff] at hid
  obtain ⟨node, hnode, -⟩ := hid
  rw [line_of_seed h hnode, line_of_seed h' hnode]

variable (hperm : declared'.Perm declared)

include hperm

/-- The line of an id is the same but for the numbers of the parents. -/
theorem line_of_perm {id : String} (hid : Reaches base declared id) :
    ∀ {p p' : Nat}, t.position? id = some p → t'.position? id = some p' →
      unnumbered (t'.line p') = unnumbered (t.line p) := by
  have harranges := arranges_of_make h
  have harranges' := arranges_of_make h'
  induction hid with
  | target => exact fun hp hp' => congrArg unnumbered (line_eq_of_seed h h' target_mem_seedIds hp hp')
  | standard hfolder =>
    exact fun hp hp' => congrArg unnumbered (line_eq_of_seed h h' (mem_seedIds hfolder) hp hp')
  | @declared d hd _ ih =>
    intro p p' hp hp'
    obtain ⟨p, q, hposition, hq, hnode⟩ := harranges.exists_declared hd
    obtain ⟨p', q', hposition', hq', hnode'⟩ :=
      harranges'.exists_declared (hperm.mem_iff.mpr hd)
    rw [hposition] at hp
    cases hp
    rw [hposition'] at hp'
    cases hp'
    rw [line_cons harranges.isLinked (rooted_of_getElem? h hnode) hnode rfl,
      line_cons harranges'.isLinked (rooted_of_getElem? h' hnode') hnode' rfl]
    have habove : unnumbered (t'.line q') = unnumbered (t.line q) := by
      unfold parentPosition? at hq hq'
      cases hparent : d.parent with
      | none =>
        rw [hparent] at hq hq'
        cases hq
        cases hq'
        rw [line_root harranges.isLinked harranges.getElem?_root,
          line_root harranges'.isLinked harranges'.getElem?_root]
      | some parent =>
        rw [hparent] at hq hq' ih
        exact ih hq hq'
    exact congrArg (_ :: ·) habove

theorem found_of_perm (id : String) :
    t'.path? id = t.path? id ∧ t'.ancestorsOf? id = t.ancestorsOf? id := by
  have hknown : IsKnown base declared' id ↔ IsKnown base declared id := by
    simp only [IsKnown, hperm.mem_iff]
  rw [← (arranges_of_make h).isSome_position?_iff, ← (arranges_of_make h').isSome_position?_iff]
    at hknown
  rw [path?_eq_line, path?_eq_line, ancestorsOf?_eq_line h, ancestorsOf?_eq_line h']
  cases hp : t.position? id with
  | none =>
    rw [hp] at hknown
    rw [Option.not_isSome_iff_eq_none.mp (fun hsome => absurd (hknown.mp hsome) (by simp))]
    exact ⟨rfl, rfl⟩
  | some p =>
    rw [hp] at hknown
    obtain ⟨p', hp'⟩ := Option.isSome_iff_exists.mp (hknown.mpr rfl)
    have hid : IsKnown base declared id := by
      rw [← (arranges_of_make h).isSome_position?_iff, hp]
      rfl
    have hline := line_of_perm h h' hperm (reaches_of_known (isRooted_of_make h) hid) hp hp'
    rw [hp', Option.map_some, Option.map_some, Option.map_some, Option.map_some, hline]
    exact ⟨rfl, rfl⟩

end Reordering

/-- A tree that is made is arranged, and declarations in another order make one in which every id has
the same path and the same ancestors. -/
theorem make_isArranged (h : make base declared = .ok t) :
    IsArranged base declared t ∧ ∀ declared', declared'.Perm declared →
      ∃ t', make base declared' = .ok t' ∧
        ∀ id, t'.path? id = t.path? id ∧ t'.ancestorsOf? id = t.ancestorsOf? id := by
  refine ⟨isArranged_of_make h, fun declared' hperm => ?_⟩
  obtain ⟨t', h'⟩ := exists_make (isRooted_of_perm hperm (isRooted_of_make h))
  exact ⟨t', h', found_of_perm h h' hperm⟩

/-- Directories that are declared before the one they lie in. -/
def nested : List Manifest.Directory :=
  [⟨"BinDir", "bin", some "AppDir", false⟩, ⟨"AppDir", "Acme", some "ProgramFilesFolder", false⟩,
    ⟨"DataDir", "Data", none, false⟩]

def nestedTree : DirectoryTree :=
  seed .programFiles |>.insert "BinDir" "bin" false false |>.insert "AppDir" "Acme" false false
    |>.insert "DataDir" "Data" false false |>.link 6 7 |>.link 7 1 |>.link 8 root

theorem make_isArranged_nested : make .programFiles nested = .ok nestedTree ∧
    IsArranged .programFiles nested nestedTree ∧
    nestedTree.path? "BinDir" = some "[ProgramFilesFolder]\\Acme\\bin" ∧
    ∃ t', make .programFiles nested.reverse = .ok t' ∧
      t'.path? "BinDir" = some "[ProgramFilesFolder]\\Acme\\bin" := by
  have h : make .programFiles nested = .ok nestedTree := by decide +kernel
  have hpath : nestedTree.path? "BinDir" = some "[ProgramFilesFolder]\\Acme\\bin" := by
    decide +kernel
  obtain ⟨harranged, hreordered⟩ := make_isArranged h
  obtain ⟨t', h', hfound⟩ := hreordered nested.reverse (List.reverse_perm nested)
  exact ⟨h, harranged, hpath, t', h', (hfound "BinDir").1.trans hpath⟩

/-- If the target directory is the base folder as well, its id stands for the base folder, and its path
is not empty. -/
theorem path?_target_of_base : ∃ t,
    make .targetDir [⟨"DataDir", "Data", some StandardFolder.targetDir.id, false⟩] = .ok t ∧
      t.path? StandardFolder.targetDir.id = some "[TARGETDIR]" ∧
      t.path? "DataDir" = some "[TARGETDIR]\\Data" := by
  refine ⟨((seed .targetDir).insert "DataDir" "Data" false false).link 6 1, ?_, ?_, ?_⟩
  · decide +kernel
  · decide +kernel
  · decide +kernel

end Installer.DirectoryTree
