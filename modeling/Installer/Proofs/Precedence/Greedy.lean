import Installer.Proofs.Precedence.Order

/-!
# Which order is found

An order depends on which edges there are, not on how they are listed (`order_congr`). Where a node
is better than another exactly if its grade is lower, the order is the greedy one: at each place
stands the node that is ahead of all others that could stand there (`order_eq_ok_iff`). So edges that
an order keeps anyway do not change it (`Greedy.more`), and where every edge leads to a node behind,
the nodes only line up by their grades (`order_eq_lineUp`).

The best node is the first of those with the lowest grade (`best_splits`), which `Ahead` says of two
nodes at a time. Placing then makes a greedy list node by node (`place_eq_iff`).

**What it does not establish.** That there is an order is not shown here. Nodes with one grade are
told apart by their place in the list of nodes, so the order is one and no other.
-/

set_option autoImplicit false

namespace Installer.Precedence

variable {α : Type} [DecidableEq α]

/-! ## Edges as a set -/

section Listed
variable {edges edges' : List (α × α)}

theorem isReady_congr (h : ∀ e, e ∈ edges' ↔ e ∈ edges) : isReady edges' = isReady edges := by
  funext a
  rw [Bool.eq_iff_iff, isReady_iff, isReady_iff]
  simp only [Edge, h]

theorem place_congr (better : α → α → Bool) (waiting : List α) (edges : List (α × α)) :
    ∀ edges', (∀ e, e ∈ edges' ↔ e ∈ edges) →
      place better waiting edges' = place better waiting edges := by
  induction waiting, edges using place_induction better with
  | done waiting edges hnone =>
    intro edges' h
    rw [place_of_none hnone, place_of_none (by rwa [isReady_congr h])]
  | step waiting edges a hsome ih =>
    intro edges' h
    rw [place_of_some hsome, place_of_some (by rwa [isReady_congr h]), ih]
    intro e
    simp only [List.mem_filter, h]

theorem cycleBack_congr (stuck : List α) (h : ∀ e, e ∈ edges' ↔ e ∈ edges) (n : Nat)
    (path : List α) : cycleBack stuck edges' n path = cycleBack stuck edges n path := by
  have hbefore : stuckBefore? stuck edges' = stuckBefore? stuck edges := by
    funext a
    simp only [stuckBefore?, List.contains_eq_mem, h]
  induction n generalizing path with
  | zero => rfl
  | succ n ih =>
    cases path with
    | nil => rfl
    | cons a path => simp only [cycleBack, hbefore, ih]

/-- An order, or the cycle in its place, depends on which edges there are and not on how they are
listed. -/
theorem order_congr (better : α → α → Bool) (nodes : List α) (h : ∀ e, e ∈ edges' ↔ e ∈ edges) :
    order better nodes edges' = order better nodes edges := by
  have hcycle : ∀ stuck, cycleOf stuck edges' = cycleOf stuck edges := by
    intro stuck
    cases stuck with
    | nil => rfl
    | cons a rest => exact cycleBack_congr _ h _ _
  simp only [order, place_congr better nodes edges edges' h, hcycle]

theorem reaches_congr (h : ∀ e, e ∈ edges' ↔ e ∈ edges) (a b : α) :
    reaches edges' a b = reaches edges a b := by
  have hedge : Edge edges' = Edge edges := by
    funext x y
    exact propext (h (x, y))
  rw [Bool.eq_iff_iff, reaches_iff, reaches_iff, hedge]

end Listed

/-! ## The best of some nodes -/

/-- Of two nodes that could both stand at a place, `a` does: its grade is lower, or it is the same
and `a` comes first in the list of the nodes. -/
def Ahead (grade : α → Int) (nodes : List α) (a b : α) : Prop :=
  grade a < grade b ∨ grade a = grade b ∧ nodes.idxOf a < nodes.idxOf b

instance (grade : α → Int) (nodes : List α) (a b : α) : Decidable (Ahead grade nodes a b) :=
  inferInstanceAs (Decidable (_ ∨ _))

/-- The nodes, each ahead of the later ones. -/
def lineUp (grade : α → Int) (nodes : List α) : List α :=
  nodes.mergeSort fun a b => ¬Ahead grade nodes b a

section Ahead
variable {grade : α → Int} {nodes : List α} {a b : α}

theorem Ahead.asymm (hab : Ahead grade nodes a b) : ¬Ahead grade nodes b a := by
  unfold Ahead at *
  omega

theorem Ahead.ne (hab : Ahead grade nodes a b) : a ≠ b := by
  rintro rfl
  exact hab.asymm hab

theorem lineUp_perm (grade : α → Int) (nodes : List α) : (lineUp grade nodes).Perm nodes :=
  List.mergeSort_perm _ _

theorem lineUp_pairwise (grade : α → Int) (hnodup : nodes.Nodup) :
    (lineUp grade nodes).Pairwise (Ahead grade nodes) := by
  have hsorted : (lineUp grade nodes).Pairwise fun a b =>
      decide (¬Ahead grade nodes b a) = true := by
    refine List.pairwise_mergeSort (fun a b c hab hbc => ?_) (fun a b => ?_) nodes
    · rw [decide_eq_true_iff] at hab hbc ⊢
      unfold Ahead at *
      omega
    · rw [Bool.or_eq_true, decide_eq_true_iff, decide_eq_true_iff]
      exact or_iff_not_imp_left.mpr fun h => (not_not.mp h).asymm
  have hperm := lineUp_perm grade nodes
  refine (hsorted.and (hperm.nodup_iff.mpr hnodup)).imp_of_mem fun {a b} ha hb hab => ?_
  obtain ⟨hnot, hne⟩ := hab
  rw [decide_eq_true_iff] at hnot
  -- Different nodes stand at different places, so one of the two is ahead.
  have hplaces : nodes.idxOf a ≠ nodes.idxOf b := fun he =>
    hne ((List.idxOf_inj (hperm.mem_iff.mp ha)).mp he)
  unfold Ahead at *
  omega

/-- Nodes of one grade that come as they are listed. -/
theorem pairwise_of_sublist (hnodup : nodes.Nodup) {l : List α} (hl : l.Sublist nodes) {n : Int}
    (hgrade : ∀ a ∈ l, grade a = n) : l.Pairwise (Ahead grade nodes) := by
  refine List.pairwise_iff_forall_sublist.mpr fun {a b} hab => .inr ⟨?_, ?_⟩
  · rw [hgrade a (hab.subset (by simp)), hgrade b (hab.subset (by simp))]
  · exact idxOf_lt_of_sublist hnodup (hab.trans hl)

/-- There is only one such order. -/
theorem eq_of_pairwise_ahead {l l' : List α} (hperm : l.Perm l')
    (hl : l.Pairwise (Ahead grade nodes)) (hl' : l'.Pairwise (Ahead grade nodes)) : l = l' :=
  hperm.eq_of_pairwise (fun _ _ _ _ hab hba => absurd hba hab.asymm) hl hl'

end Ahead

section Best
variable {better : α → α → Bool} {grade : α → Int}
  (hbetter : ∀ a b, better a b = true ↔ grade a < grade b)
include hbetter

omit [DecidableEq α] in
/-- The best node is the first of those with the lowest grade. -/
theorem best_splits {rest : List α} {x a : α}
    (h : rest.foldl (fun x y => if better y x then y else x) x = a) :
    ∃ front back, x :: rest = front ++ a :: back ∧ (∀ b ∈ front, grade a < grade b) ∧
      ∀ b ∈ back, grade a ≤ grade b := by
  induction rest generalizing x with
  | nil => exact ⟨[], [], congrArg ([·]) h, nofun, nofun⟩
  | cons y rest ih =>
    rw [List.foldl_cons] at h
    by_cases hyx : better y x = true
    · rw [if_pos hyx] at h
      obtain ⟨front, back, hsplit, hfront, hback⟩ := ih h
      refine ⟨x :: front, back, congrArg (x :: ·) hsplit, ?_, hback⟩
      refine List.forall_mem_cons.mpr ⟨?_, hfront⟩
      have hlower := (hbetter y x).mp hyx
      cases front with
      | nil => rwa [← (List.cons.inj hsplit).1]
      | cons z front =>
        have hz := hfront z List.mem_cons_self
        rw [← (List.cons.inj hsplit).1] at hz
        exact hz.trans hlower
    · rw [if_neg hyx] at h
      have hle : grade x ≤ grade y := not_lt.mp fun hlt => hyx ((hbetter y x).mpr hlt)
      obtain ⟨front, back, hsplit, hfront, hback⟩ := ih h
      cases front with
      | nil =>
        obtain ⟨rfl, hrest⟩ := List.cons.inj hsplit
        exact ⟨[], y :: back, congrArg (x :: y :: ·) hrest, nofun,
          List.forall_mem_cons.mpr ⟨hle, hback⟩⟩
      | cons z front =>
        obtain ⟨rfl, hrest⟩ := List.cons.inj hsplit
        obtain ⟨hx, hfront⟩ := List.forall_mem_cons.mp hfront
        refine ⟨x :: y :: front, back, congrArg (x :: y :: ·) hrest, ?_, hback⟩
        exact List.forall_mem_cons.mpr
          ⟨hx, List.forall_mem_cons.mpr ⟨lt_of_lt_of_le hx hle, hfront⟩⟩

variable {nodes few : List α} (hnodup : nodes.Nodup) (hsub : few.Sublist nodes)
include hnodup hsub

/-- The best of some of the nodes is ahead of the others. -/
theorem ahead_of_best {a : α} (h : best better few = some a) {b : α} (hb : b ∈ few)
    (hne : b ≠ a) : Ahead grade nodes a b := by
  cases few with
  | nil => cases h
  | cons x rest =>
    obtain ⟨front, back, hsplit, hfront, hback⟩ := best_splits hbetter (Option.some.inj h)
    rw [hsplit] at hb hsub
    rcases List.mem_append.mp hb with hb | hb
    · exact .inl (hfront b hb)
    · have hb := (List.mem_cons.mp hb).resolve_left hne
      rcases lt_or_eq_of_le (hback b hb) with hlt | heq
      · exact .inl hlt
      · refine .inr ⟨heq, idxOf_lt_of_sublist hnodup (.trans ?_ hsub)⟩
        exact ((List.singleton_sublist.mpr hb).cons_cons _).trans (List.sublist_append_right _ _)

/-- A node that is ahead of the others is the best. -/
theorem best_of_ahead {a : α} (ha : a ∈ few)
    (hahead : ∀ b ∈ few, b ≠ a → Ahead grade nodes a b) : best better few = some a := by
  cases h : best better few with
  | none => rw [eq_nil_of_best_eq_none h] at ha; cases ha
  | some b =>
    by_contra hne
    have hne : a ≠ b := fun he => hne (he ▸ rfl)
    have hba := ahead_of_best hbetter hnodup hsub h ha hne
    exact hba.asymm (hahead b (best_mem h) hne.symm)

end Best

/-! ## The greedy order -/

/-- None of the nodes that wait has an edge to `b`. -/
def Ready (edges : List (α × α)) (waiting : List α) (b : α) : Prop := ∀ c ∈ waiting, ¬Edge edges c b

/-- A list in which each node, when it comes, could stand there and is ahead of all others that
could. -/
inductive Greedy (grade : α → Int) (nodes : List α) (edges : List (α × α)) : List α → Prop
  | nil : Greedy grade nodes edges []
  | cons {a : α} {rest : List α} : Ready edges (a :: rest) a →
    (∀ b ∈ rest, Ready edges (a :: rest) b → Ahead grade nodes a b) →
      Greedy grade nodes edges rest → Greedy grade nodes edges (a :: rest)

section Greedy
variable {grade : α → Int} {nodes : List α} {edges edges' : List (α × α)}

/-- Only edges from the nodes of the list matter. -/
theorem Greedy.congr {l : List α} (hl : Greedy grade nodes edges l)
    (h : ∀ a ∈ l, ∀ b, Edge edges' a b ↔ Edge edges a b) : Greedy grade nodes edges' l := by
  induction hl with
  | nil => exact .nil
  | @cons a rest hready hahead _ ih =>
    have hiff : ∀ b, Ready edges' (a :: rest) b ↔ Ready edges (a :: rest) b := fun b =>
      forall₂_congr fun c hc => not_congr (h c hc b)
    refine .cons ((hiff a).mpr hready) (fun b hb hb' => hahead b hb ((hiff b).mp hb')) ?_
    exact ih fun c hc => h c (List.mem_cons_of_mem _ hc)

/-- More edges leave a greedy order greedy if it keeps them: the node at a place still could stand
there, and fewer others could. -/
theorem Greedy.more {l : List α} (hl : Greedy grade nodes edges l) (hnodup : l.Nodup)
    (hsub : edges ⊆ edges')
    (hkeeps : ∀ a ∈ l, ∀ b ∈ l, Edge edges' a b → [a, b].Sublist l) :
    Greedy grade nodes edges' l := by
  induction hl with
  | nil => exact .nil
  | @cons a rest hready hahead _ ih =>
    obtain ⟨ha, hrest⟩ := List.nodup_cons.mp hnodup
    have hfirst : ∀ c, ¬[c, a].Sublist (a :: rest) := by
      intro c hc
      rcases List.sublist_cons_iff.mp hc with hc | ⟨r, heq, hr⟩
      · exact ha (hc.subset (by simp))
      · rw [← (List.cons.inj heq).2] at hr
        exact ha (hr.subset List.mem_cons_self)
    refine .cons (fun c hc hca => hfirst c (hkeeps c hc a List.mem_cons_self hca)) ?_ ?_
    · intro b hb hready
      exact hahead b hb fun c hc hcb => hready c hc (hsub hcb)
    · refine ih hrest fun c hc b hb hcb => ?_
      have hkept := hkeeps c (List.mem_cons_of_mem _ hc) b (List.mem_cons_of_mem _ hb) hcb
      rcases List.sublist_cons_iff.mp hkept with hkept | ⟨r, heq, -⟩
      · exact hkept
      · exact absurd hc ((List.cons.inj heq).1 ▸ ha)

/-- Where every edge leads to a node behind, nodes each of which is ahead of the later ones are in
the greedy order. -/
theorem Greedy.of_pairwise {l : List α} (hl : l.Pairwise (Ahead grade nodes))
    (hedges : ∀ a ∈ l, ∀ b ∈ l, Edge edges a b → Ahead grade nodes a b) :
    Greedy grade nodes edges l := by
  induction hl with
  | nil => exact .nil
  | @cons a rest ha _ ih =>
    refine .cons (fun c hc hca => ?_) (fun b hb _ => ha b hb) ?_
    · have hca := hedges c hc a List.mem_cons_self hca
      rcases List.mem_cons.mp hc with rfl | hc
      · exact hca.ne rfl
      · exact hca.asymm (ha c hc)
    · exact ih fun c hc b hb =>
        hedges c (List.mem_cons_of_mem _ hc) b (List.mem_cons_of_mem _ hb)

variable {better : α → α → Bool} (hbetter : ∀ a b, better a b = true ↔ grade a < grade b)
  (hnodup : nodes.Nodup)
include hbetter hnodup

/-- All of some waiting nodes are placed exactly in the greedy order. The edges that are left come
from waiting nodes. -/
theorem place_eq_iff (waiting : List α) (edges : List (α × α)) :
    ∀ placed, waiting.Sublist nodes → (∀ a b, Edge edges a b → a ∈ waiting) →
      (place better waiting edges = (placed, []) ↔
        placed.Perm waiting ∧ Greedy grade nodes edges placed) := by
  induction waiting, edges using place_induction better with
  | done waiting edges hnone =>
    intro placed _ hfrom
    rw [place_of_none hnone, Prod.mk.injEq]
    constructor
    · rintro ⟨rfl, rfl⟩
      exact ⟨.refl _, .nil⟩
    · rintro ⟨hperm, hgreedy⟩
      cases hgreedy with
      | nil => exact ⟨rfl, hperm.symm.eq_nil⟩
      | @cons a rest hready _ _ =>
        have ha : a ∈ waiting.filter (isReady edges) := by
          refine List.mem_filter.mpr ⟨hperm.mem_iff.mp List.mem_cons_self, isReady_iff.mpr ?_⟩
          exact fun c hca => hready c (hperm.mem_iff.mpr (hfrom c a hca)) hca
        rw [eq_nil_of_best_eq_none hnone] at ha
        cases ha
  | step waiting edges a hbest ih =>
    intro placed hsub hfrom
    obtain ⟨hmem, hready⟩ := best_ready hbest
    have hleft : ∀ c b, Edge (edges.filter (·.1 ≠ a)) c b → c ∈ waiting.erase a := by
      intro c b hcb
      obtain ⟨hedge, hne⟩ := List.mem_filter.mp hcb
      exact (List.mem_erase_of_ne (by simpa using hne)).mpr (hfrom c b hedge)
    have hwaiting : waiting.Nodup := hsub.nodup hnodup
    have hrest : ∀ {rest : List α}, rest.Perm (waiting.erase a) → ∀ c ∈ rest, ∀ b,
        Edge (edges.filter (·.1 ≠ a)) c b ↔ Edge edges c b := by
      intro rest hperm c hc b
      have hne : c ≠ a := ((hwaiting.mem_erase_iff).mp (hperm.mem_iff.mp hc)).1
      simp [Edge, hne]
    have ih := fun placed => ih placed ((List.erase_sublist).trans hsub) hleft
    have hfilter := (List.filter_sublist (p := isReady edges)).trans hsub
    rw [place_of_some hbest, Prod.mk.injEq]
    constructor
    · rintro ⟨rfl, hstuck⟩
      obtain ⟨hperm, hgreedy⟩ := (ih _).mp (Prod.ext rfl hstuck)
      have hall := (hperm.cons a).trans (List.perm_cons_erase hmem).symm
      refine ⟨hall, .cons (fun c _ => hready c) (fun b hb hb' => ?_)
        (hgreedy.congr fun c hc b => (hrest hperm c hc b).symm)⟩
      have hne : b ≠ a := ((hwaiting.mem_erase_iff).mp (hperm.mem_iff.mp hb)).1
      refine ahead_of_best hbetter hnodup hfilter hbest (List.mem_filter.mpr ⟨?_, ?_⟩) hne
      · exact hall.mem_iff.mp (List.mem_cons_of_mem _ hb)
      · exact isReady_iff.mpr fun c hcb => hb' c (hall.mem_iff.mpr (hfrom c b hcb)) hcb
    · rintro ⟨hperm, hgreedy⟩
      cases hgreedy with
      | nil => rw [hperm.symm.eq_nil] at hmem; cases hmem
      | @cons b rest hb hahead hgreedy =>
        have hmem_iff : ∀ c, Ready edges (b :: rest) c ↔ isReady edges c = true := fun c => by
          rw [isReady_iff]
          exact ⟨fun h d hdc => h d (hperm.mem_iff.mpr (hfrom d c hdc)) hdc, fun h d _ => h d⟩
        have hbest' : best better (waiting.filter (isReady edges)) = some b := by
          refine best_of_ahead hbetter hnodup hfilter (List.mem_filter.mpr ⟨?_, ?_⟩) ?_
          · exact hperm.mem_iff.mp List.mem_cons_self
          · exact (hmem_iff b).mp hb
          · intro c hc hne
            obtain ⟨hc, hc'⟩ := List.mem_filter.mp hc
            have hc := (List.mem_cons.mp (hperm.mem_iff.mpr hc)).resolve_left hne
            exact hahead c hc ((hmem_iff c).mpr hc')
        obtain rfl : a = b := Option.some.inj (hbest.symm.trans hbest')
        have hperm : rest.Perm (waiting.erase a) := by
          simpa using hperm.erase a
        have hplace := (ih rest).mpr ⟨hperm, hgreedy.congr (hrest hperm)⟩
        exact ⟨by rw [hplace], by rw [hplace]⟩

/-- The order that is found is the greedy one. -/
theorem order_eq_ok_iff (hfrom : ∀ a b, Edge edges a b → a ∈ nodes) {placed : List α} :
    order better nodes edges = .ok placed ↔
      placed.Perm nodes ∧ Greedy grade nodes edges placed := by
  rw [← place_eq_iff hbetter hnodup nodes edges placed (.refl _) hfrom, order]
  constructor
  · intro h
    split at h
    · next hplace => cases h; exact hplace
    · cases h
  · intro h
    rw [h]

/-- Where every edge leads to a node behind, the nodes come as they line up by themselves. -/
theorem order_eq_lineUp (hfrom : ∀ a b, Edge edges a b → a ∈ nodes)
    (hedges : ∀ a b, Edge edges a b → Ahead grade nodes a b) :
    order better nodes edges = .ok (lineUp grade nodes) :=
  (order_eq_ok_iff hbetter hnodup hfrom).mpr
    ⟨lineUp_perm grade nodes, .of_pairwise (lineUp_pairwise grade hnodup) fun a _ b _ => hedges a b⟩

end Greedy
end Installer.Precedence
