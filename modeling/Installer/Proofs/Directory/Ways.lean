import Mathlib.Data.List.Nodup
import Mathlib.Data.List.Perm.Subperm
import Installer.Proofs.Directory.Tree

/-!
# The way from a node to the root

A way is followed parent by parent and there is one at most (`Way.unique`), so no node is met twice on it
(`Way.nodup`), and it has fewer steps than there are nodes (`Way.length_lt`). A climb of as many steps as
there are nodes is therefore never cut short: the ancestors of a node are its way to the root
(`Way.ancestors_eq`), and a node has the root among them exactly if there is a way
(`mem_ancestors_iff`). All of this holds before it is known that the parents make a tree; it takes only
that the root has no parent and that parents are nodes (`IsLinked`).

**What it does not establish.** Where no way leads to the root nothing is said of a climb: it goes
round until it is cut short.
-/

set_option autoImplicit false

namespace Installer.DirectoryTree

/-- The positions on the way from a node to the root, nearest first. -/
inductive Way (t : DirectoryTree) : Nat → List Nat → Prop
  | here : Way t root []
  | step {p q : Nat} {above : List Nat} :
      t.parentOf? p = some q → Way t q above → Way t p (q :: above)

/-- Parents are nodes, and the root has none. -/
structure IsLinked (t : DirectoryTree) : Prop where
  top : t.parentOf? root = none
  bound : ∀ {p q : Nat}, t.parentOf? p = some q → q < t.entries.length

variable {t : DirectoryTree} {p : Nat} {above : List Nat}

theorem rooted_iff_exists_way : t.Rooted p ↔ ∃ above, t.Way p above := by
  constructor
  · intro h
    induction h with
    | here => exact ⟨[], .here⟩
    | step hparent _ ih =>
      obtain ⟨above, hway⟩ := ih
      exact ⟨_, .step hparent hway⟩
  · rintro ⟨above, h⟩
    induction h with
    | here => exact .here
    | step hparent _ ih => exact .step hparent ih

namespace Way

theorem getLast? (h : t.Way p above) : (p :: above).getLast? = some root := by
  induction h with
  | here => rfl
  | step _ _ ih => rwa [List.getLast?_cons_cons]

/-- From every node on a way there is a shorter one. -/
theorem exists_shorter (h : t.Way p above) {q : Nat} (hq : q ∈ above) :
    ∃ higher, t.Way q higher ∧ higher.length < above.length := by
  induction h with
  | here => cases hq
  | step _ hway ih =>
    rcases List.mem_cons.mp hq with rfl | hq
    · exact ⟨_, hway, Nat.lt_succ_self _⟩
    · obtain ⟨higher, hhigher, hlength⟩ := ih hq
      exact ⟨higher, hhigher, Nat.lt_succ_of_lt hlength⟩

/-- A climb that is long enough goes the whole way, and no further. -/
theorem climb_eq (htop : t.parentOf? root = none) (h : t.Way p above) :
    ∀ {n : Nat}, above.length ≤ n → t.climb n p = above := by
  induction h with
  | here =>
    intro n _
    cases n with
    | zero => rfl
    | succ n => rw [climb, htop, Option.elim_none]
  | step hparent _ ih =>
    intro n hn
    cases n with
    | zero => cases hn
    | succ n => rw [climb, hparent, Option.elim_some, ih (Nat.le_of_succ_le_succ hn)]

theorem unique (htop : t.parentOf? root = none) {above' : List Nat} (h : t.Way p above)
    (h' : t.Way p above') : above' = above := by
  have hclimb := h.climb_eq htop (Nat.le_max_left above.length above'.length)
  have hclimb' := h'.climb_eq htop (Nat.le_max_right above.length above'.length)
  exact hclimb'.symm.trans hclimb

/-- No node is met twice: from there the way would be shorter than itself. -/
theorem nodup (htop : t.parentOf? root = none) (h : t.Way p above) : (p :: above).Nodup := by
  induction h with
  | here => exact List.nodup_singleton _
  | step hparent hway ih =>
    refine List.nodup_cons.mpr ⟨fun hmem => ?_, ih⟩
    obtain ⟨higher, hhigher, hlength⟩ := (Way.step hparent hway).exists_shorter hmem
    rw [unique htop (.step hparent hway) hhigher] at hlength
    exact Nat.lt_irrefl _ hlength

section Linked
variable (ht : t.IsLinked) (h : t.Way p above) (hp : p < t.entries.length)

include ht h hp

theorem forall_lt : ∀ q ∈ p :: above, q < t.entries.length := by
  induction h with
  | here => exact List.forall_mem_cons.mpr ⟨hp, nofun⟩
  | step hparent _ ih => exact List.forall_mem_cons.mpr ⟨hp, ih (ht.bound hparent)⟩

theorem length_lt : above.length < t.entries.length := by
  have hpositions : p :: above ⊆ List.range t.entries.length := fun q hq =>
    List.mem_range.mpr (h.forall_lt ht hp q hq)
  have hlength := ((h.nodup ht.top).subperm hpositions).length_le
  rwa [List.length_cons, List.length_range, Nat.succ_le_iff] at hlength

theorem ancestors_eq : t.ancestors p = above :=
  h.climb_eq ht.top (Nat.le_of_lt (h.length_lt ht hp))

end Linked

end Way

/-- The root is found above a node exactly if the parents lead there. -/
theorem mem_ancestors_iff (ht : t.IsLinked) (hp : p < t.entries.length) (hroot : p ≠ root) :
    root ∈ t.ancestors p ↔ t.Rooted p := by
  constructor
  · exact rooted_of_mem_climb
  · intro h
    obtain ⟨above, hway⟩ := rooted_iff_exists_way.mp h
    rw [hway.ancestors_eq ht hp]
    have hlast := List.mem_of_getLast? hway.getLast?
    exact (List.mem_cons.mp hlast).resolve_left (Ne.symm hroot)

/-- What is above a node is its parent and what is above that. -/
theorem ancestors_of_parentOf? (ht : t.IsLinked) {q : Nat} (hp : p < t.entries.length)
    (hrooted : t.Rooted p) (hparent : t.parentOf? p = some q) :
    t.ancestors p = q :: t.ancestors q := by
  obtain ⟨above, hway⟩ := rooted_iff_exists_way.mp hrooted
  cases hway with
  | here =>
    rw [ht.top] at hparent
    cases hparent
  | step hstep hway =>
    rw [hparent] at hstep
    cases hstep
    rw [(Way.step hparent hway).ancestors_eq ht hp, hway.ancestors_eq ht (ht.bound hparent)]

theorem ancestors_root (ht : t.IsLinked) (hp : root < t.entries.length) : t.ancestors root = [] :=
  Way.here.ancestors_eq ht hp

end Installer.DirectoryTree
