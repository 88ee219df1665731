import Installer.Proofs.Precedence.Order

/-!
# Holding nodes between two others

Where a path leads from a first node to a last one, a node is free to be held between them if it is
neither after the last nor before the first. Holding free nodes, however many, changes nothing about
what is after the last or before the first (`after_last_iff`, `before_first_iff`), so it does not
matter in which order they are held, and it closes no cycle (`acyclic_hold`).
-/

set_option autoImplicit false

namespace Installer.Precedence
open Relation

variable {α : Type}

/-- A node that is neither after the last node nor before the first. -/
structure Free (edges : List (α × α)) (first last node : α) : Prop where
  notAfter : ¬ReflTransGen (Edge edges) last node
  notBefore : ¬ReflTransGen (Edge edges) node first

/-- The edges with more that hold nodes between two others. -/
def hold (edges : List (α × α)) (first last : α) (held : List α) : List (α × α) :=
  edges ++ held.flatMap fun node => [(first, node), (node, last)]

theorem edge_hold_iff {edges : List (α × α)} {first last a b : α} {held : List α} :
    Edge (hold edges first last held) a b ↔
      Edge edges a b ∨ (a = first ∧ b ∈ held) ∨ (a ∈ held ∧ b = last) := by
  simp only [Edge, hold, List.mem_append, List.mem_flatMap, List.mem_cons, Prod.mk.injEq,
    List.not_mem_nil, or_false]
  constructor
  · rintro (h | ⟨node, hnode, ⟨rfl, rfl⟩ | ⟨rfl, rfl⟩⟩)
    · exact .inl h
    · exact .inr (.inl ⟨rfl, hnode⟩)
    · exact .inr (.inr ⟨hnode, rfl⟩)
  · rintro (h | ⟨rfl, hb⟩ | ⟨ha, rfl⟩)
    · exact .inl h
    · exact .inr ⟨b, hb, .inl ⟨rfl, rfl⟩⟩
    · exact .inr ⟨a, ha, .inr ⟨rfl, rfl⟩⟩

/-- Two nodes on a way in an acyclic graph: the last of them does not lead back. -/
theorem Acyclic.not_back {edges : List (α × α)} {first last : α} (hacyclic : Acyclic edges)
    (hway : Route edges first last) : ¬ReflTransGen (Edge edges) last first :=
  fun hback => hacyclic first (hway.trans_left hback)

section Held
variable {edges : List (α × α)} {first last : α} {held : List α}

/-- Holding free nodes puts nothing else after the last one. -/
theorem after_last_iff (hacyclic : Acyclic edges) (hway : Route edges first last)
    (hfree : ∀ node ∈ held, Free edges first last node) {a : α} :
    ReflTransGen (Edge (hold edges first last held)) last a ↔
      ReflTransGen (Edge edges) last a := by
  constructor
  · intro h
    induction h with
    | refl => exact .refl
    | tail _ hbc ih =>
      rcases edge_hold_iff.mp hbc with hbc | ⟨rfl, -⟩ | ⟨hb, -⟩
      · exact ih.tail hbc
      · exact absurd ih (hacyclic.not_back hway)
      · exact absurd ih (hfree _ hb).notAfter
  · exact ReflTransGen.mono (fun _ _ h => edge_hold_iff.mpr (.inl h)) _ _

/-- Holding free nodes puts nothing else before the first one. -/
theorem before_first_iff (hacyclic : Acyclic edges) (hway : Route edges first last)
    (hfree : ∀ node ∈ held, Free edges first last node) {a : α} :
    ReflTransGen (Edge (hold edges first last held)) a first ↔
      ReflTransGen (Edge edges) a first := by
  constructor
  · intro h
    induction h using ReflTransGen.head_induction_on with
    | refl => exact .refl
    | head hab _ ih =>
      rcases edge_hold_iff.mp hab with hab | ⟨-, hb⟩ | ⟨-, rfl⟩
      · exact ih.head hab
      · exact absurd ih (hfree _ hb).notBefore
      · exact absurd ih (hacyclic.not_back hway)
  · exact ReflTransGen.mono (fun _ _ h => edge_hold_iff.mpr (.inl h)) _ _

/-- Whether a node is free does not depend on the free nodes that are held already. -/
theorem free_hold_iff (hacyclic : Acyclic edges) (hway : Route edges first last)
    (hfree : ∀ node ∈ held, Free edges first last node) {a : α} :
    Free (hold edges first last held) first last a ↔ Free edges first last a := by
  constructor
  · rintro ⟨hafter, hbefore⟩
    exact ⟨fun h => hafter ((after_last_iff hacyclic hway hfree).mpr h),
      fun h => hbefore ((before_first_iff hacyclic hway hfree).mpr h)⟩
  · rintro ⟨hafter, hbefore⟩
    exact ⟨fun h => hafter ((after_last_iff hacyclic hway hfree).mp h),
      fun h => hbefore ((before_first_iff hacyclic hway hfree).mp h)⟩

open Classical in
/-- Where a node stands to the two: up to the first, after the last, or between. -/
noncomputable def height (edges : List (α × α)) (first last node : α) : Nat :=
  if ReflTransGen (Edge edges) node first then 0
  else if ReflTransGen (Edge edges) last node then 2
  else 1

/-- No edge leads down. -/
theorem height_mono (hacyclic : Acyclic edges) (hway : Route edges first last) {a b : α}
    (hab : Edge edges a b) : height edges first last a ≤ height edges first last b := by
  unfold height
  by_cases hb : ReflTransGen (Edge edges) b first
  · rw [if_pos (hb.head hab)]
    exact Nat.zero_le _
  · rw [if_neg hb]
    by_cases ha : ReflTransGen (Edge edges) last a
    · have hna : ¬ReflTransGen (Edge edges) a first :=
        fun h => hacyclic.not_back hway (ha.trans h)
      rw [if_neg hna, if_pos ha, if_pos (ha.tail hab)]
    · rw [if_neg ha]
      split <;> split <;> omega

theorem height_free {node : α} (h : Free edges first last node) :
    height edges first last node = 1 := by
  rw [height, if_neg h.notBefore, if_neg h.notAfter]

theorem height_first : height edges first last first = 0 := if_pos .refl

theorem height_last (hacyclic : Acyclic edges) (hway : Route edges first last) :
    height edges first last last = 2 := by
  rw [height, if_neg (hacyclic.not_back hway), if_pos .refl]

/-- A path over held nodes leads up, unless it takes none of the edges that hold them. -/
theorem path_hold (hacyclic : Acyclic edges) (hway : Route edges first last)
    (hfree : ∀ node ∈ held, Free edges first last node) {a b : α}
    (h : Route (hold edges first last held) a b) :
    height edges first last a < height edges first last b ∨
      (Route edges a b ∧ height edges first last a ≤ height edges first last b) := by
  have hedge : ∀ {x y}, Edge (hold edges first last held) x y →
      height edges first last x < height edges first last y ∨ Edge edges x y := by
    intro x y hxy
    rcases edge_hold_iff.mp hxy with hxy | ⟨rfl, hy⟩ | ⟨hx, rfl⟩
    · exact .inr hxy
    · rw [height_first, height_free (hfree y hy)]
      exact .inl Nat.one_pos
    · rw [height_last hacyclic hway, height_free (hfree x hx)]
      exact .inl (Nat.lt_succ_self 1)
  induction h with
  | single hab =>
    rcases hedge hab with h | h
    · exact .inl h
    · exact .inr ⟨.single h, height_mono hacyclic hway h⟩
  | tail _ hbc ih =>
    rcases hedge hbc with h | h
    · rcases ih with ih | ⟨-, ih⟩
      · exact .inl (ih.trans h)
      · exact .inl (ih.trans_lt h)
    · have hle := height_mono hacyclic hway h
      rcases ih with ih | ⟨hpath, ih⟩
      · exact .inl (ih.trans_le hle)
      · exact .inr ⟨hpath.tail h, ih.trans hle⟩

/-- Holding free nodes closes no cycle. -/
theorem acyclic_hold (hacyclic : Acyclic edges) (hway : Route edges first last)
    (hfree : ∀ node ∈ held, Free edges first last node) :
    Acyclic (hold edges first last held) := by
  intro a h
  rcases path_hold hacyclic hway hfree h with hlt | ⟨hpath, -⟩
  · exact absurd hlt (Nat.lt_irrefl _)
  · exact hacyclic a hpath

end Held
end Installer.Precedence
