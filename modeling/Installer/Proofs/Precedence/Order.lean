import Installer.Schedule.Precedence
import Mathlib.Data.List.Chain
import Mathlib.Data.List.Sort
import Mathlib.Logic.Relation

/-!
# Orders exist exactly where there is no cycle

Placing keeps every edge between the nodes and leaves a node waiting only behind another one that
waits (`place_keeps`, `exists_unplaced_before`). So an order is found exactly if the edges have no cycle,
and what is given in its place is a cycle (`order_eq_ok`, `order_eq_error`). The search for a path
looks at every edge once at most, and decides whether there is one (`reaches_iff`).

The search is followed by what it has not followed yet: with a step left for each edge and each node
of the agenda it cannot end before the goal is found (`search_of_path`). Placing has an induction of
its own (`place_induction`). Where nodes are left over, each has one before it that is left over too,
so the walk back has to meet itself (`cycleBack_isCycle`).

**What it does not establish.** Which of several cycles is given is not said, nor that it is a short
one.
-/

set_option autoImplicit false

namespace Installer.Precedence
open Relation

variable {α : Type}

/-- There is an edge from `a` to `b`. -/
def Edge (edges : List (α × α)) (a b : α) : Prop := (a, b) ∈ edges

/-- A path of one edge or more leads from `a` to `b`. -/
abbrev Route (edges : List (α × α)) : α → α → Prop := TransGen (Edge edges)

/-- No path leads from a node to itself. -/
def Acyclic (edges : List (α × α)) : Prop := ∀ a, ¬Route edges a a

/-- A cycle as it is shown: a node, the nodes after it along the edges, and the node again. -/
structure IsCycle (edges : List (α × α)) (cycle : List α) : Prop where
  returns : 2 ≤ cycle.length
  closed : cycle.head? = cycle.getLast?
  linked : cycle.IsChain (Edge edges)

theorem Route.mono {edges more : List (α × α)} {a b : α} (h : Route edges a b)
    (hsub : edges ⊆ more) : Route more a b :=
  TransGen.mono (fun _ _ he => hsub he) _ _ h

/-- A walk along the edges leads from its first node to each that comes later. -/
theorem path_of_chain {edges : List (α × α)} : ∀ {a : α} {rest : List α},
    (a :: rest).IsChain (Edge edges) → ∀ {b : α}, b ∈ rest → Route edges a b
  | _, [], _, _, hb => absurd hb List.not_mem_nil
  | a, c :: rest, h, b, hb => by
    obtain ⟨hac, hrest⟩ := List.isChain_cons_cons.mp h
    rcases List.mem_cons.mp hb with rfl | hb
    · exact .single hac
    · exact .head hac (path_of_chain hrest hb)

/-- The first node of a cycle is on a path to itself. -/
theorem IsCycle.exists_path {edges : List (α × α)} {cycle : List α} (h : IsCycle edges cycle) :
    ∃ a, Route edges a a := by
  match cycle, h with
  | a :: b :: rest, h =>
    have hlast : (a :: b :: rest).getLast? = some a := h.closed.symm
    rw [List.getLast?_cons_cons] at hlast
    exact ⟨a, path_of_chain h.linked (List.mem_of_getLast? hlast)⟩
  | [], h => exact absurd h.returns (by simp)
  | [_], h => exact absurd h.returns (by simp)

/-- What is closed under the edges is not left by a path. -/
theorem not_path_of_closed {edges : List (α × α)} {seen : List α}
    (hclosed : ∀ a ∈ seen, ∀ b, Edge edges a b → b ∈ seen) {a goal : α} (ha : a ∈ seen)
    (hgoal : goal ∉ seen) : ¬ReflTransGen (Edge edges) a goal := by
  intro hpath
  have hstays : ∀ {b}, ReflTransGen (Edge edges) a b → b ∈ seen := by
    intro b hab
    induction hab with
    | refl => exact ha
    | tail _ he ih => exact hclosed _ ih _ he
  exact hgoal (hstays hpath)

/-- While a path leads to the goal, the agenda is not empty: otherwise what has been seen is closed
and has the goal. -/
theorem agenda_ne_nil {edges : List (α × α)} {goal : α} {seen agenda : List α} (hgoal : goal ∉ seen)
    (hseen : ∀ a ∈ seen, ∀ b, Edge edges a b → b ∈ seen ∨ b ∈ agenda)
    {a : α} (ha : a ∈ seen ∨ a ∈ agenda) (hpath : ReflTransGen (Edge edges) a goal) :
    agenda ≠ [] := by
  rintro rfl
  refine not_path_of_closed (fun x hx y hxy => ?_) (ha.resolve_right List.not_mem_nil) hgoal hpath
  exact (hseen x hx y hxy).resolve_right List.not_mem_nil

variable [DecidableEq α]

/-! ## Searching for a path -/

theorem mem_successors {edges : List (α × α)} {a b : α} :
    b ∈ successors edges a ↔ Edge edges a b := by
  simp [successors, Edge]

/-- What is found is reached from the agenda. -/
theorem exists_path_of_search {edges : List (α × α)} {goal : α} {n : Nat} {seen agenda : List α}
    (h : search edges goal n seen agenda = true) :
    ∃ a ∈ agenda, ReflTransGen (Edge edges) a goal := by
  induction n generalizing seen agenda with
  | zero => simp [search] at h
  | succ n ih =>
    match agenda with
    | [] => simp [search] at h
    | a :: agenda =>
      simp only [search] at h
      split at h
      · next hgoal => exact ⟨a, List.mem_cons_self, hgoal ▸ .refl⟩
      · split at h
        · obtain ⟨b, hb, hpath⟩ := ih h
          exact ⟨b, List.mem_cons_of_mem _ hb, hpath⟩
        · obtain ⟨b, hb, hpath⟩ := ih h
          rcases List.mem_append.mp hb with hb | hb
          · exact ⟨a, List.mem_cons_self, .head (mem_successors.mp hb) hpath⟩
          · exact ⟨b, List.mem_cons_of_mem _ hb, hpath⟩

/-- The edges that the search has not followed yet. -/
def unfollowed (edges : List (α × α)) (seen : List α) : List (α × α) :=
  edges.filter fun e => !seen.contains e.1

/-- Going on from a new node follows its edges, and no other. -/
theorem length_unfollowed (edges : List (α × α)) {seen : List α} {a : α} (h : a ∉ seen) :
    (unfollowed edges seen).length =
      (successors edges a).length + (unfollowed edges (a :: seen)).length := by
  induction edges with
  | nil => rfl
  | cons e edges ih =>
    simp only [unfollowed, successors, List.contains_eq_mem, List.length_map] at ih ⊢
    by_cases ha : e.1 = a
    · simp only [List.filter_cons, ha, h, List.mem_cons, true_or, decide_true, decide_false,
        Bool.not_false, Bool.not_true, if_true, Bool.false_eq_true, if_false, List.length_cons, ih]
      omega
    · by_cases hs : e.1 ∈ seen
      · simpa only [List.filter_cons, ha, hs, List.mem_cons, or_true, decide_true, decide_false,
          Bool.not_true, Bool.false_eq_true, if_false] using ih
      · simp only [List.filter_cons, ha, hs, List.mem_cons, or_false, decide_false, Bool.not_false,
          Bool.false_eq_true, if_true, if_false, List.length_cons, ih]
        omega

/-- With a step for every node of the agenda and every edge left, the search finds what is reached:
what has been seen leads on only to what has been seen or is on the agenda. -/
theorem search_of_path {edges : List (α × α)} {goal : α} {n : Nat} {seen agenda : List α}
    (hsteps : agenda.length + (unfollowed edges seen).length ≤ n) (hgoal : goal ∉ seen)
    (hseen : ∀ a ∈ seen, ∀ b, Edge edges a b → b ∈ seen ∨ b ∈ agenda)
    {a : α} (ha : a ∈ seen ∨ a ∈ agenda) (hpath : ReflTransGen (Edge edges) a goal) :
    search edges goal n seen agenda = true := by
  induction n generalizing seen agenda a with
  | zero =>
    have hnil : agenda = [] := List.length_eq_zero_iff.mp (by omega)
    exact absurd hnil (agenda_ne_nil hgoal hseen ha hpath)
  | succ n ih =>
    match agenda with
    | [] => exact absurd rfl (agenda_ne_nil hgoal hseen ha hpath)
    | c :: agenda =>
      simp only [search]
      split
      · rfl
      · next hc =>
        split
        · next hcseen =>
          have hcseen : c ∈ seen := by simpa using hcseen
          refine ih (by simp only [List.length_cons] at hsteps; omega) hgoal ?_ (a := a) ?_ hpath
          · intro x hx y hxy
            rcases hseen x hx y hxy with hy | hy
            · exact .inl hy
            · rcases List.mem_cons.mp hy with rfl | hy
              · exact .inl hcseen
              · exact .inr hy
          · rcases ha with ha | ha
            · exact .inl ha
            · rcases List.mem_cons.mp ha with rfl | ha
              · exact .inl hcseen
              · exact .inr ha
        · next hcseen =>
          have hcseen : c ∉ seen := by simpa using hcseen
          have hlength := length_unfollowed edges hcseen
          refine ih ?_ ?_ ?_ (a := a) ?_ hpath
          · simp only [List.length_cons, List.length_append] at hsteps ⊢
            omega
          · exact fun h => (List.mem_cons.mp h).elim (fun he => hc he.symm) hgoal
          · intro x hx y hxy
            rcases List.mem_cons.mp hx with rfl | hx
            · exact .inr (List.mem_append_left _ (mem_successors.mpr hxy))
            · rcases hseen x hx y hxy with hy | hy
              · exact .inl (List.mem_cons_of_mem _ hy)
              · rcases List.mem_cons.mp hy with rfl | hy
                · exact .inl List.mem_cons_self
                · exact .inr (List.mem_append_right _ hy)
          · rcases ha with ha | ha
            · exact .inl (List.mem_cons_of_mem _ ha)
            · rcases List.mem_cons.mp ha with rfl | ha
              · exact .inl List.mem_cons_self
              · exact .inr (List.mem_append_right _ ha)

/-- The search decides whether a path leads from one node to another. -/
theorem reaches_iff {edges : List (α × α)} {a b : α} :
    reaches edges a b = true ↔ ReflTransGen (Edge edges) a b := by
  constructor
  · intro h
    obtain ⟨c, hc, hpath⟩ := exists_path_of_search h
    rwa [List.mem_singleton.mp hc] at hpath
  · intro h
    refine search_of_path ?_ List.not_mem_nil (fun _ hx => absurd hx List.not_mem_nil)
      (.inr (List.mem_singleton_self a)) h
    have hfollow : (unfollowed edges []).length ≤ edges.length := List.length_filter_le _ _
    simp only [List.length_singleton]
    omega

/-! ## Placing the nodes -/

theorem isReady_iff {edges : List (α × α)} {b : α} :
    isReady edges b = true ↔ ∀ a, ¬Edge edges a b := by
  simp only [isReady, Bool.not_eq_true', List.any_eq_false, decide_eq_true_eq, Edge]
  constructor
  · intro h a hab
    exact h (a, b) hab rfl
  · rintro h ⟨a, c⟩ hac rfl
    exact h a hac

variable {better : α → α → Bool}

theorem place_of_none {waiting : List α} {edges : List (α × α)}
    (h : best better (waiting.filter (isReady edges)) = none) :
    place better waiting edges = ([], waiting) := by
  rw [place]
  split
  · rfl
  · next hsome => rw [h] at hsome; cases hsome

theorem place_of_some {waiting : List α} {edges : List (α × α)} {a : α}
    (h : best better (waiting.filter (isReady edges)) = some a) :
    place better waiting edges =
      (a :: (place better (waiting.erase a) (edges.filter (·.1 ≠ a))).1,
        (place better (waiting.erase a) (edges.filter (·.1 ≠ a))).2) := by
  rw [place]
  split
  · next hnone => rw [h] at hnone; cases hnone
  · next b hb =>
    rw [h] at hb
    cases hb
    rfl

/-- Placing step by step: a ready node of the waiting ones is placed and its edges are discharged,
until no waiting node is ready. -/
theorem place_induction (better : α → α → Bool) {motive : List α → List (α × α) → Prop}
    (done : ∀ waiting edges, best better (waiting.filter (isReady edges)) = none →
      motive waiting edges)
    (step : ∀ waiting edges a, best better (waiting.filter (isReady edges)) = some a →
      motive (waiting.erase a) (edges.filter (·.1 ≠ a)) → motive waiting edges) :
    ∀ waiting edges, motive waiting edges
  | waiting, edges => by
    cases h : best better (waiting.filter (isReady edges)) with
    | none => exact done waiting edges h
    | some a =>
      have _ := length_erase_best_lt h
      exact step waiting edges a h
        (place_induction better done step (waiting.erase a) (edges.filter (·.1 ≠ a)))
termination_by waiting => waiting.length

/-- What is picked waits, and no edge leads to it. -/
theorem best_ready {waiting : List α} {edges : List (α × α)} {a : α}
    (h : best better (waiting.filter (isReady edges)) = some a) :
    a ∈ waiting ∧ ∀ c, ¬Edge edges c a := by
  obtain ⟨hmem, hready⟩ := List.mem_filter.mp (best_mem h)
  exact ⟨hmem, isReady_iff.mp hready⟩

omit [DecidableEq α] in
theorem eq_nil_of_best_eq_none {nodes : List α} (h : best better nodes = none) : nodes = [] := by
  cases nodes with
  | nil => rfl
  | cons a rest => cases h

/-- Placing loses no node and adds none. -/
theorem place_perm (better : α → α → Bool) (waiting : List α) (edges : List (α × α)) :
    ((place better waiting edges).1 ++ (place better waiting edges).2).Perm waiting := by
  induction waiting, edges using place_induction better with
  | done waiting edges h => rw [place_of_none h]; exact .refl _
  | step waiting edges a h ih =>
    rw [place_of_some h]
    exact (ih.cons a).trans (List.perm_cons_erase (best_ready h).1).symm

/-- A placed node comes after every node with an edge to it. -/
theorem place_keeps (better : α → α → Bool) {a b : α} (waiting : List α)
    (edges : List (α × α)) (hab : Edge edges a b)
    (ha : a ∈ waiting) (hb : b ∈ (place better waiting edges).1) :
    [a, b].Sublist (place better waiting edges).1 := by
  induction waiting, edges using place_induction better with
  | done waiting edges h =>
    rw [place_of_none h] at hb
    cases hb
  | step waiting edges c h ih =>
    rw [place_of_some h] at hb ⊢
    have hne : b ≠ c := fun he => (best_ready h).2 a (he ▸ hab)
    have hb := (List.mem_cons.mp hb).resolve_left hne
    by_cases hac : a = c
    · subst hac
      exact (List.singleton_sublist.mpr hb).cons_cons a
    · have hleft : Edge (edges.filter (·.1 ≠ c)) a b :=
        List.mem_filter.mpr ⟨hab, by simpa using hac⟩
      exact (ih hleft ((List.mem_erase_of_ne hac).mpr ha) hb).cons c

/-- A node is left over only behind a node that is not placed. -/
theorem exists_unplaced_before (better : α → α → Bool) {b : α} (waiting : List α)
    (edges : List (α × α)) (hb : b ∈ (place better waiting edges).2) :
    ∃ a, Edge edges a b ∧ a ∉ (place better waiting edges).1 := by
  induction waiting, edges using place_induction better with
  | done waiting edges h =>
    rw [place_of_none h] at hb ⊢
    have hnot : isReady edges b ≠ true := fun hready => by
      have hmem : b ∈ waiting.filter (isReady edges) := List.mem_filter.mpr ⟨hb, hready⟩
      rw [eq_nil_of_best_eq_none h] at hmem
      cases hmem
    rw [Ne, isReady_iff, not_forall] at hnot
    obtain ⟨a, ha⟩ := hnot
    exact ⟨a, not_not.mp ha, List.not_mem_nil⟩
  | step waiting edges c h ih =>
    rw [place_of_some h] at hb ⊢
    obtain ⟨a, hab, ha⟩ := ih hb
    obtain ⟨hedge, hne⟩ := List.mem_filter.mp hab
    refine ⟨a, hedge, fun hmem => ?_⟩
    exact (List.mem_cons.mp hmem).elim (by simpa using hne) ha

/-! ## Walking back to a cycle -/

theorem stuckBefore?_eq_some {stuck : List α} {edges : List (α × α)} {a b : α}
    (h : stuckBefore? stuck edges a = some b) : b ∈ stuck ∧ Edge edges b a := by
  refine ⟨List.mem_of_find?_eq_some h, ?_⟩
  simpa [Edge] using List.find?_some h

/-- The walk back closes a cycle when it meets a node again. -/
theorem isCycle_of_meeting {edges : List (α × α)} {a b : α} {path : List α}
    (hpath : (a :: path).IsChain (Edge edges)) (hba : Edge edges b a) (hb : b ∈ a :: path) :
    IsCycle edges (b :: (a :: path).takeWhile (· ≠ b) ++ [b]) := by
  obtain ⟨front, back, hsplit, hfresh⟩ := List.eq_append_cons_of_mem hb
  have hfront : (a :: path).takeWhile (· ≠ b) = front := by
    have hne : ∀ c ∈ front, decide (c ≠ b) = true :=
      fun c hc => decide_eq_true fun he => hfresh (he ▸ hc)
    rw [hsplit, List.takeWhile_append_of_pos hne]
    simp
  rw [hfront]
  refine ⟨by simp, by rw [List.getLast?_concat]; rfl, ?_⟩
  have hchain : (b :: (front ++ b :: back)).IsChain (Edge edges) :=
    hsplit ▸ List.IsChain.cons_cons hba hpath
  refine hchain.prefix ⟨back, ?_⟩
  simp

/-- Where every stuck node has a stuck node before it, walking back ends in a cycle: a path without
repeats has no more nodes than there are. -/
theorem cycleBack_isCycle {stuck : List α} {edges : List (α × α)}
    (hstuck : ∀ b ∈ stuck, ∃ a ∈ stuck, Edge edges a b) {n : Nat} {path : List α}
    (hne : path ≠ []) (hnodup : path.Nodup) (hsub : path ⊆ stuck)
    (hchain : path.IsChain (Edge edges)) (hsteps : stuck.length < n + path.length) :
    IsCycle edges (cycleBack stuck edges n path) := by
  induction n generalizing path with
  | zero =>
    have hshort := hnodup.length_le_of_subset hsub
    omega
  | succ n ih =>
    match path with
    | [] => exact absurd rfl hne
    | a :: path =>
      rw [cycleBack]
      obtain ⟨c, hc, hca⟩ := hstuck a (hsub List.mem_cons_self)
      split
      · next hnone =>
        have hfound := List.find?_eq_none.mp hnone c hc
        exact absurd (by simpa [Edge] using hca) hfound
      · next b hb =>
        obtain ⟨hbstuck, hba⟩ := stuckBefore?_eq_some hb
        split
        · next hmeets => exact isCycle_of_meeting hchain hba (by simpa using hmeets)
        · next hnew =>
          have hnew : b ∉ a :: path := by simpa using hnew
          refine ih (List.cons_ne_nil _ _) (List.nodup_cons.mpr ⟨hnew, hnodup⟩) ?_
            (.cons_cons hba hchain) ?_
          · exact List.cons_subset.mpr ⟨hbstuck, hsub⟩
          · simp only [List.length_cons] at hsteps ⊢
            omega

theorem cycleOf_isCycle {stuck : List α} {edges : List (α × α)} (hne : stuck ≠ [])
    (hstuck : ∀ b ∈ stuck, ∃ a ∈ stuck, Edge edges a b) : IsCycle edges (cycleOf stuck edges) := by
  match stuck with
  | [] => exact absurd rfl hne
  | a :: rest =>
    refine cycleBack_isCycle hstuck (List.cons_ne_nil _ _) (by simp) ?_
      (.singleton a) ?_
    · exact List.cons_subset.mpr ⟨List.mem_cons_self, List.nil_subset _⟩
    · simp only [List.length_singleton]
      omega

/-! ## Positions -/

/-- The elements of a list without repeats stand in the order of their positions. -/
theorem pairwise_idxOf : ∀ {placed : List α}, placed.Nodup →
    placed.Pairwise (fun a b => placed.idxOf a < placed.idxOf b)
  | [], _ => .nil
  | x :: rest, h => by
    obtain ⟨hx, hrest⟩ := List.nodup_cons.mp h
    have hne : ∀ y ∈ rest, x ≠ y := fun y hy he => hx (he ▸ hy)
    refine List.pairwise_cons.mpr ⟨fun y hy => ?_, ?_⟩
    · rw [List.idxOf_cons_self, List.idxOf_cons_ne _ (hne y hy)]
      exact Nat.succ_pos _
    · refine (pairwise_idxOf hrest).imp_of_mem fun {a b} ha hb hab => ?_
      rw [List.idxOf_cons_ne _ (hne a ha), List.idxOf_cons_ne _ (hne b hb)]
      exact Nat.succ_lt_succ hab

theorem idxOf_lt_of_sublist {placed : List α} (hnodup : placed.Nodup) {a b : α}
    (h : [a, b].Sublist placed) : placed.idxOf a < placed.idxOf b :=
  (pairwise_idxOf hnodup).forall_sublist h

/-- Elements each of which stands before the next stand in that order all together. -/
theorem sublist_of_chain {placed few : List α} (hnodup : placed.Nodup) (hsub : few ⊆ placed)
    (hchain : few.IsChain fun a b => [a, b].Sublist placed) : few.Sublist placed := by
  have : Std.Antisymm fun a b => placed.idxOf a < placed.idxOf b :=
    ⟨fun _ _ hab hba => absurd hab (Nat.lt_asymm hba)⟩
  have : IsTrans α fun a b => placed.idxOf a < placed.idxOf b := ⟨fun _ _ _ => Nat.lt_trans⟩
  have hsorted : few.Pairwise fun a b => placed.idxOf a < placed.idxOf b :=
    (hchain.imp fun _ _ h => idxOf_lt_of_sublist hnodup h).pairwise
  have hfew : few.Nodup := hsorted.imp fun {a b} h (he : a = b) =>
    absurd h (he ▸ Nat.lt_irrefl _)
  exact List.sublist_of_subperm_of_pairwise (List.subperm_of_subset hfew hsub) hsorted
    (pairwise_idxOf hnodup)

/-! ## Orders -/

/-- Edges that a list without repeats keeps make no cycle. -/
theorem acyclic_of_sublist {placed : List α} {edges : List (α × α)} (hnodup : placed.Nodup)
    (hkeeps : ∀ e ∈ edges, [e.1, e.2].Sublist placed) : Acyclic edges := by
  intro a h
  have hlt : ∀ {b}, Route edges a b → placed.idxOf a < placed.idxOf b := by
    intro b hab
    induction hab with
    | single hab => exact idxOf_lt_of_sublist hnodup (hkeeps _ hab)
    | tail _ hbc ih => exact ih.trans (idxOf_lt_of_sublist hnodup (hkeeps _ hbc))
  exact Nat.lt_irrefl _ (hlt h)

/-- An order that is found has the nodes and keeps the edges between them. -/
theorem order_eq_ok {nodes placed : List α} {edges : List (α × α)}
    (h : order better nodes edges = .ok placed) :
    placed.Perm nodes ∧
      ∀ a b, Edge edges a b → a ∈ nodes → b ∈ nodes → [a, b].Sublist placed := by
  rw [order] at h
  have hperm := place_perm better nodes edges
  split at h
  · next found hplace =>
    cases h
    rw [hplace, List.append_nil] at hperm
    refine ⟨hperm, fun a b hab ha hb => ?_⟩
    have hkeeps := place_keeps better nodes edges hab ha
    rw [hplace] at hkeeps
    exact hkeeps (hperm.mem_iff.mpr hb)
  · cases h

/-- Where the edges lead from node to node, what is given in place of an order is a cycle. -/
theorem order_eq_error {nodes cycle : List α} {edges : List (α × α)}
    (hnodes : ∀ a b, Edge edges a b → a ∈ nodes)
    (h : order better nodes edges = .error cycle) : IsCycle edges cycle := by
  rw [order] at h
  split at h
  · cases h
  · next placed stuck hne hplace =>
    cases h
    have hperm := place_perm better nodes edges
    rw [hplace] at hperm
    refine cycleOf_isCycle (hne) fun b hb => ?_
    have hbefore := exists_unplaced_before better (b := b) nodes edges
    rw [hplace] at hbefore
    obtain ⟨a, hab, ha⟩ := hbefore hb
    have hmem := hperm.mem_iff.mpr (hnodes a b hab)
    exact ⟨a, (List.mem_append.mp hmem).resolve_left ha, hab⟩

/-- Edges without a cycle can be kept. -/
theorem exists_order_of_acyclic {nodes : List α} {edges : List (α × α)}
    (hnodes : ∀ a b, Edge edges a b → a ∈ nodes) (hacyclic : Acyclic edges) :
    ∃ placed, order better nodes edges = .ok placed := by
  cases h : order better nodes edges with
  | ok placed => exact ⟨placed, rfl⟩
  | error cycle =>
    obtain ⟨a, ha⟩ := (order_eq_error hnodes h).exists_path
    exact absurd ha (hacyclic a)

end Installer.Precedence
