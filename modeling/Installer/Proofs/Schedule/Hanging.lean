import Installer.Proofs.Schedule.LineUp

/-!
# Actions that hang after phases or stand before them

An action stands right before a phase, or it hangs after one, so many anchors away from it. The
actions of a gap are those that hang after the phase that opens it and those that stand before the
phase that closes it (`Gap.actions`). While they fit, they are the actions whose ranks are in the gap
(`ranged_eq_actions`). A chain that grows past the next phase has filled its gap before
(`not_fits_ranged`), so by rank the same gap is the first that is too small (`find?_ranged`).

Everything is counted. What hangs far away hangs through something nearer (`hung_ne_nil`), so a chain
has an action for each of its anchors (`le_length_hanging`), and a gap in which the actions fit is
wider than any chain in it.
-/

set_option autoImplicit false

namespace Installer.Schedule
open Precedence

/-- The steps that hang after a phase, so many anchors away from it, as declared. -/
def hung (anchor : String → Option Anchor) (ids : List String) (p : Phase) : Nat → List String
  | 0 => [p.name]
  | n + 1 => ids.filter fun id =>
      (hung anchor ids p n).any fun step => anchor id = some ⟨step, .after⟩

/-- The actions that hang after a phase, at most so many anchors away from it: the nearest first. -/
def hanging (anchor : String → Option Anchor) (ids : List String) (p : Phase) (n : Nat) :
    List String :=
  (List.range n).flatMap fun k => hung anchor ids p (k + 1)

/-- The actions that stand right before a phase, as declared. -/
def standing (anchor : String → Option Anchor) (ids : List String) (q : Phase) : List String :=
  ids.filter fun id => anchor id = some ⟨q.name, .before⟩

/-- The actions of a gap: those that hang after the phase that opens it, and then those that stand
before the phase that closes it. No chain has more anchors than there are actions
(`mem_hanging_all`). -/
def Gap.actions (anchor : String → Option Anchor) (ids : List String) (g : Gap) : List String :=
  g.opening.toList.flatMap (hanging anchor ids · ids.length) ++
    g.closing.toList.flatMap (standing anchor ids)

/-! ## What hangs and what stands -/

section Hung
variable {anchor : String → Option Anchor} {ids : List String} {p q : Phase} {n : Nat} {a : String}

theorem mem_hung_succ : a ∈ hung anchor ids p (n + 1) ↔
    a ∈ ids ∧ ∃ step ∈ hung anchor ids p n, anchor a = some ⟨step, .after⟩ := by
  simp only [hung, List.mem_filter, List.any_eq_true, decide_eq_true_iff]

theorem mem_hanging : a ∈ hanging anchor ids p n ↔ ∃ k < n, a ∈ hung anchor ids p (k + 1) := by
  simp only [hanging, List.mem_flatMap, List.mem_range]

theorem mem_standing : a ∈ standing anchor ids q ↔
    a ∈ ids ∧ anchor a = some ⟨q.name, .before⟩ := by
  simp only [standing, List.mem_filter, decide_eq_true_iff]

theorem mem_actions {g : Gap} : a ∈ g.actions anchor ids ↔
    (∃ p, g.opening = some p ∧ a ∈ hanging anchor ids p ids.length) ∨
      ∃ q, g.closing = some q ∧ a ∈ standing anchor ids q := by
  simp only [Gap.actions, List.mem_append, List.mem_flatMap, Option.mem_toList]

theorem mem_of_actions {g : Gap} (h : a ∈ g.actions anchor ids) : a ∈ ids := by
  rcases mem_actions.mp h with ⟨p, -, ha⟩ | ⟨q, -, ha⟩
  · obtain ⟨k, -, hk⟩ := mem_hanging.mp ha
    exact (mem_hung_succ.mp hk).1
  · exact (mem_standing.mp ha).1

/-- Steps hang after a phase through anchors that are all on the side after. -/
theorem mem_hung_iff (hids : ∀ id ∈ ids, id ∉ Phase.names)
    (hclosed : ∀ id ∈ ids, ∀ b, anchor id = some b → b.step ∈ Phase.names ++ ids)
    (ha : a ∈ Phase.names ++ ids) :
    a ∈ hung anchor ids p n ↔ LeadsTo anchor p (List.replicate n .after) a := by
  induction n generalizing a with
  | zero =>
    rw [hung, List.mem_singleton, List.replicate_zero]
    constructor
    · rintro rfl
      exact .phase
    · intro h
      cases h
      rfl
  | succ n ih =>
    rw [mem_hung_succ, List.replicate_succ]
    constructor
    · rintro ⟨hid, step, hstep, hanchor⟩
      exact .action (hids a hid) hanchor ((ih (hclosed a hid _ hanchor)).mp hstep)
    · intro h
      generalize hsides : Side.after :: List.replicate n Side.after = sides at h
      cases h with
      | phase => cases hsides
      | @action _ b _ hnot hanchor hrest =>
        obtain ⟨step, side⟩ := b
        obtain ⟨rfl, rfl⟩ := List.cons.inj hsides
        have hid := (List.mem_append.mp ha).resolve_left hnot
        exact ⟨hid, step, (ih (hclosed a hid _ hanchor)).mpr hrest, hanchor⟩

/-- What hangs far away hangs through something nearer. -/
theorem hung_ne_nil {k : Nat} (h : hung anchor ids p n ≠ []) (hk : k ≤ n) :
    hung anchor ids p k ≠ [] := by
  induction n, hk using Nat.le_induction with
  | base => exact h
  | succ n _ ih =>
    refine ih fun hnil => ?_
    obtain ⟨a, ha⟩ := List.exists_mem_of_ne_nil _ h
    obtain ⟨-, step, hstep, -⟩ := mem_hung_succ.mp ha
    rw [hnil] at hstep
    cases hstep

/-- So there are at least as many actions on the way as anchors. -/
theorem le_length_hanging (h : hung anchor ids p n ≠ []) : n ≤ (hanging anchor ids p n).length := by
  induction n with
  | zero => exact Nat.zero_le _
  | succ n ih =>
    have hle := ih (hung_ne_nil h (Nat.le_succ n))
    have hpos := List.length_pos_iff.mpr h
    have hsplit : hanging anchor ids p (n + 1) =
        hanging anchor ids p n ++ hung anchor ids p (n + 1) := by
      rw [hanging, List.range_succ, List.flatMap_append, List.flatMap_singleton, hanging]
    rw [hsplit, List.length_append]
    omega

end Hung

/-! ## Placed by rank -/

/-- Ranks of the actions that hang or stand: as far above the phase as there are anchors on the way,
or one below it. -/
structure Places (anchor : String → Option Anchor) (ids : List String)
    (ranks : List (String × Int)) : Prop where
  nodup : (Phase.names ++ ids).Nodup
  rank_hung : ∀ p n, ∀ a ∈ hung anchor ids p n, rankIn ranks a = p.number + n
  rank_standing : ∀ q, ∀ a ∈ standing anchor ids q, rankIn ranks a = q.number - 1
  anchored : ∀ a ∈ ids, (∃ q, a ∈ standing anchor ids q) ∨ ∃ p n, a ∈ hung anchor ids p (n + 1)

section Placed
variable {anchor : String → Option Anchor} {ids : List String} {ranks : List (String × Int)}
  {p q : Phase} {n : Nat} {a : String}

theorem Places.not_phase (h : Places anchor ids ranks) (ha : a ∈ ids) : a ∉ Phase.names :=
  fun hphase => (List.nodup_append.mp h.nodup).2.2 a hphase a ha rfl

/-- What hangs lines up. -/
theorem pairwise_hanging (h : Places anchor ids ranks) (p : Phase) (n : Nat) :
    (hanging anchor ids p n).Pairwise (Ahead (grade ranks) (Phase.names ++ ids)) := by
  have hgrade : ∀ k, ∀ a ∈ hung anchor ids p (k + 1), grade ranks a = 2 * (p.number + (k + 1)) := by
    intro k a ha
    rw [grade_action ranks (h.not_phase (mem_hung_succ.mp ha).1), h.rank_hung p _ a ha]
    rfl
  rw [hanging, List.pairwise_flatMap]
  refine ⟨fun k _ => ?_, List.pairwise_lt_range.imp fun {k l} hkl a ha b hb => .inl ?_⟩
  · refine pairwise_of_sublist h.nodup ?_ (hgrade k)
    exact List.filter_sublist.trans (List.sublist_append_right _ _)
  · rw [hgrade k a ha, hgrade l b hb]
    omega

theorem pairwise_standing (h : Places anchor ids ranks) (q : Phase) :
    (standing anchor ids q).Pairwise (Ahead (grade ranks) (Phase.names ++ ids)) := by
  refine pairwise_of_sublist h.nodup (n := 2 * (q.number - 1)) ?_ fun a ha => ?_
  · exact List.filter_sublist.trans (List.sublist_append_right _ _)
  · rw [grade_action ranks (h.not_phase (mem_standing.mp ha).1), h.rank_standing q a ha]

/-- Nothing hangs more anchors away than there are actions. -/
theorem le_length_of_hung (h : Places anchor ids ranks) (hne : hung anchor ids p n ≠ []) :
    n ≤ ids.length := by
  have hnodup : (hanging anchor ids p n).Nodup := (pairwise_hanging h p n).imp Ahead.ne
  refine (le_length_hanging hne).trans (hnodup.length_le_of_subset fun a ha => ?_)
  obtain ⟨k, -, hk⟩ := mem_hanging.mp ha
  exact (mem_hung_succ.mp hk).1

theorem mem_hanging_all (h : Places anchor ids ranks) :
    a ∈ hanging anchor ids p ids.length ↔ ∃ k, a ∈ hung anchor ids p (k + 1) := by
  rw [mem_hanging]
  refine exists_congr fun k => and_iff_right_of_imp fun ha => ?_
  exact le_length_of_hung h (List.ne_nil_of_mem ha)

/-- Nor more than there are actions that hang after the phase. -/
theorem le_length_hanging_all (h : Places anchor ids ranks) (hne : hung anchor ids p n ≠ []) :
    n ≤ (hanging anchor ids p ids.length).length := by
  have hnodup : (hanging anchor ids p n).Nodup := (pairwise_hanging h p n).imp Ahead.ne
  refine (le_length_hanging hne).trans (hnodup.length_le_of_subset fun a ha => ?_)
  obtain ⟨k, -, hk⟩ := mem_hanging.mp ha
  exact (mem_hanging_all h).mpr ⟨k, hk⟩

/-- Every action is one of a gap. -/
theorem exists_gap (h : Places anchor ids ranks) (ha : a ∈ ids) :
    ∃ g ∈ Gap.all, a ∈ g.actions anchor ids := by
  rcases h.anchored a ha with ⟨q, hq⟩ | ⟨p, n, hp⟩
  · obtain ⟨g, hg, hclosing⟩ := Gap.exists_closing q
    exact ⟨g, hg, mem_actions.mpr (.inr ⟨q, hclosing, hq⟩)⟩
  · obtain ⟨g, hg, hopening⟩ := Gap.exists_opening p
    exact ⟨g, hg, mem_actions.mpr (.inl ⟨p, hopening, (mem_hanging_all h).mpr ⟨n, hp⟩⟩)⟩

variable {g : Gap}

/-- How an action of a gap ranks. -/
theorem rank_of_mem (h : Places anchor ids ranks) (ha : a ∈ g.actions anchor ids) :
    (∃ p k, g.opening = some p ∧ a ∈ hung anchor ids p (k + 1) ∧
      rankIn ranks a = g.number + (k + 1)) ∨
    ∃ q, g.closing = some q ∧ a ∈ standing anchor ids q ∧ rankIn ranks a = q.number - 1 := by
  rcases mem_actions.mp ha with ⟨p, hp, ha⟩ | ⟨q, hq, ha⟩
  · obtain ⟨k, hk⟩ := (mem_hanging_all h).mp ha
    refine .inl ⟨p, k, hp, hk, ?_⟩
    rw [h.rank_hung p _ a hk, Gap.number_of_opening hp]
    rfl
  · exact .inr ⟨q, hq, ha, h.rank_standing q a ha⟩

theorem number_lt_rank (h : Places anchor ids ranks) (hg : g ∈ Gap.all)
    (ha : a ∈ g.actions anchor ids) : (g.number : Int) < rankIn ranks a := by
  rcases rank_of_mem h ha with ⟨p, k, -, -, hrank⟩ | ⟨q, hq, -, hrank⟩
  · omega
  · have hwide := Gap.wide g hg q hq
    omega

/-- The actions of a gap rank in it, if none hangs as many anchors away as the gap is wide. -/
theorem covers_of_mem (h : Places anchor ids ranks) (hg : g ∈ Gap.all)
    (hnear : ∀ p ∈ g.opening, ∀ q ∈ g.closing, hung anchor ids p (q.number - p.number) = [])
    (ha : a ∈ g.actions anchor ids) : g.Covers (rankIn ranks a) := by
  refine ⟨fun p hp => Gap.number_of_opening hp ▸ number_lt_rank h hg ha, fun q hq => ?_⟩
  rcases rank_of_mem h ha with ⟨p, k, hp, hk, hrank⟩ | ⟨q', hq', -, hrank⟩
  · rw [Gap.number_of_opening hp] at hrank
    by_contra hlt
    exact hung_ne_nil (List.ne_nil_of_mem hk) (by omega) (hnear p hp q hq)
  · rw [Option.mem_def.mp hq] at hq'
    cases hq'
    omega

theorem pairwise_opening (h : Places anchor ids ranks) (g : Gap) :
    (g.opening.toList.flatMap (hanging anchor ids · ids.length)).Pairwise
      (Ahead (grade ranks) (Phase.names ++ ids)) := by
  cases g.opening with
  | none => exact .nil
  | some p => simpa using pairwise_hanging h p ids.length

theorem pairwise_closing (h : Places anchor ids ranks) (g : Gap) :
    (g.closing.toList.flatMap (standing anchor ids)).Pairwise
      (Ahead (grade ranks) (Phase.names ++ ids)) := by
  cases g.closing with
  | none => exact .nil
  | some q => simpa using pairwise_standing h q

/-- No action is in a gap twice. -/
theorem nodup_actions (h : Places anchor ids ranks) (g : Gap) : (g.actions anchor ids).Nodup := by
  refine List.nodup_append.mpr
    ⟨(pairwise_opening h g).imp Ahead.ne, (pairwise_closing h g).imp Ahead.ne, ?_⟩
  rintro a ha _ hb rfl
  obtain ⟨p, -, ha⟩ := List.mem_flatMap.mp ha
  obtain ⟨q, -, hb⟩ := List.mem_flatMap.mp hb
  obtain ⟨k, hk⟩ := (mem_hanging_all h).mp ha
  obtain ⟨-, step, -, hafter⟩ := mem_hung_succ.mp hk
  rw [(mem_standing.mp hb).2] at hafter
  cases hafter

/-! ### Gaps that are wide enough -/

section Fits
variable (h : Places anchor ids ranks) (hfits : g.Fits (g.actions anchor ids).length)
include h hfits

/-- An action that hangs and those that stand before the next phase leave room for one more. -/
theorem lt_of_fits {k : Nat} (hp : g.opening = some p) (hq : g.closing = some q)
    (hk : hung anchor ids p k ≠ []) :
    k + (standing anchor ids q).length < q.number - p.number := by
  have hlt := hfits q hq
  have hle := le_length_hanging_all h hk
  simp only [Gap.actions, hp, hq, Option.toList_some, List.flatMap_singleton, List.length_append,
    Gap.number_of_opening hp] at hlt
  omega

theorem covers_of_fits (hg : g ∈ Gap.all) (ha : a ∈ g.actions anchor ids) :
    g.Covers (rankIn ranks a) := by
  refine covers_of_mem h hg (fun p hp q hq => ?_) ha
  by_contra hne
  have hlt := lt_of_fits h hfits hp hq hne
  omega

/-- The actions of a gap in which they fit line up. -/
theorem pairwise_actions :
    (g.actions anchor ids).Pairwise (Ahead (grade ranks) (Phase.names ++ ids)) := by
  refine List.pairwise_append.mpr
    ⟨pairwise_opening h g, pairwise_closing h g, fun a ha b hb => .inl ?_⟩
  obtain ⟨p, hp, ha⟩ := List.mem_flatMap.mp ha
  obtain ⟨q, hq, hb⟩ := List.mem_flatMap.mp hb
  obtain ⟨k, hk⟩ := (mem_hanging_all h).mp ha
  have hlt := lt_of_fits h hfits (Option.mem_toList.mp hp) (Option.mem_toList.mp hq)
    (List.ne_nil_of_mem hk)
  have hpos := List.length_pos_of_mem hb
  rw [grade_action ranks (h.not_phase (mem_hung_succ.mp hk).1), h.rank_hung p _ a hk,
    grade_action ranks (h.not_phase (mem_standing.mp hb).1), h.rank_standing q b hb]
  omega

end Fits

theorem mem_ranged_of_covers (h : Places anchor ids ranks) (ha : a ∈ ids)
    (hcovers : g.Covers (rankIn ranks a)) : a ∈ ranged ranks (Phase.names ++ ids) g :=
  mem_ranged.mpr ⟨List.mem_append_right _ ha, h.not_phase ha, hcovers⟩

/-- While the actions of the gaps fit, the actions of a gap are those whose ranks are in it. -/
theorem ranged_eq_actions (h : Places anchor ids ranks) (hg : g ∈ Gap.all)
    (hfits : ∀ g' ∈ Gap.all, g'.number ≤ g.number → g'.Fits (g'.actions anchor ids).length) :
    ranged ranks (Phase.names ++ ids) g = g.actions anchor ids := by
  have hranged := pairwise_ranged ranks h.nodup g
  have hactions := pairwise_actions h (hfits g hg le_rfl)
  refine eq_of_pairwise_ahead ((List.perm_ext_iff_of_nodup (hranged.imp Ahead.ne)
    (hactions.imp Ahead.ne)).mpr fun a => ⟨fun ha => ?_, fun ha => ?_⟩) hranged hactions
  · obtain ⟨hmem, hnot, hcovers⟩ := mem_ranged.mp ha
    obtain ⟨g', hg', ha'⟩ := exists_gap h ((List.mem_append.mp hmem).resolve_left hnot)
    -- An action of a later gap ranks higher, and one of an earlier gap lower.
    rcases lt_trichotomy g.number g'.number with hless | hsame | hmore
    · obtain ⟨q, hq, p, hp, hle⟩ := Gap.closes g hg g' hg' hless
      have hlt := number_lt_rank h hg' ha'
      have hrank := hcovers.2 q hq
      rw [Gap.number_of_opening hp] at hlt
      omega
    · rwa [Gap.number_injective g hg g' hg' hsame]
    · obtain ⟨q, hq, p, hp, hle⟩ := Gap.closes g' hg' g hg hmore
      have hlt := hcovers.1 p hp
      have hrank := (covers_of_fits h (hfits g' hg' hmore.le) hg' ha').2 q hq
      omega
  · exact mem_ranged_of_covers h (mem_of_actions ha) (covers_of_fits h (hfits g hg le_rfl) hg ha)

/-- Where the actions of a gap do not fit in it, those whose ranks are in it do not either: they are
all the actions of the gap, or there is one for each place of the gap in a chain that grows past it. -/
theorem not_fits_ranged (h : Places anchor ids ranks) (hg : g ∈ Gap.all)
    (hfull : ¬g.Fits (g.actions anchor ids).length) :
    ¬g.Fits (ranged ranks (Phase.names ++ ids) g).length := by
  simp only [Gap.Fits, not_forall, Nat.not_lt] at hfull ⊢
  obtain ⟨q, hq, hle⟩ := hfull
  refine ⟨q, hq, ?_⟩
  by_cases hnear : ∀ p ∈ g.opening, ∀ q ∈ g.closing,
      hung anchor ids p (q.number - p.number) = []
  · refine hle.trans ((nodup_actions h g).length_le_of_subset fun a ha => ?_)
    exact mem_ranged_of_covers h (mem_of_actions ha) (covers_of_mem h hg hnear ha)
  · simp only [not_forall] at hnear
    obtain ⟨p, hp, q', hq', hne⟩ := hnear
    obtain rfl : q = q' := Option.mem_unique hq hq'
    have hnodup : (hanging anchor ids p (q.number - p.number)).Nodup :=
      (pairwise_hanging h p _).imp Ahead.ne
    rw [Gap.number_of_opening hp]
    refine (le_length_hanging hne).trans (hnodup.length_le_of_subset fun a ha => ?_)
    obtain ⟨k, hk, ha⟩ := mem_hanging.mp ha
    have hrank := h.rank_hung p _ a ha
    refine mem_ranged_of_covers h (mem_hung_succ.mp ha).1 ⟨fun p' hp' => ?_, fun q' hq' => ?_⟩
    · obtain rfl : p = p' := Option.mem_unique hp hp'
      omega
    · obtain rfl : q = q' := Option.mem_unique hq hq'
      omega

/-- The first gap that is too small is the same by rank. -/
theorem find?_ranged (h : Places anchor ids ranks) :
    Gap.all.find? (fun g => ¬g.Fits (ranged ranks (Phase.names ++ ids) g).length) =
      Gap.all.find? fun g => ¬g.Fits (g.actions anchor ids).length := by
  cases hfind : Gap.all.find? fun g => ¬g.Fits (g.actions anchor ids).length with
  | none =>
    simp only [List.find?_eq_none, decide_eq_true_iff, not_not] at hfind ⊢
    intro g hg
    rw [ranged_eq_actions h hg fun g' hg' _ => hfind g' hg']
    exact hfind g hg
  | some g =>
    simp only [List.find?_eq_some_iff_append, decide_eq_true_iff, Bool.not_eq_true',
      decide_eq_false_iff_not, not_not] at hfind ⊢
    obtain ⟨hfull, earlier, later, hall, hfits⟩ := hfind
    have hg : g ∈ Gap.all := by rw [hall]; simp
    refine ⟨not_fits_ranged h hg hfull, earlier, later, hall, fun g' hg' => ?_⟩
    have hascending := Gap.numbers_ascending
    rw [hall] at hascending
    obtain ⟨-, -, hlower⟩ := List.pairwise_append.mp hascending
    have hall' : g' ∈ Gap.all := by
      rw [hall]
      exact List.mem_append_left _ hg'
    rw [ranged_eq_actions h hall' fun g'' hg'' hle => ?_]
    · exact hfits g' hg'
    · rw [hall] at hg''
      exact hfits g'' ((List.mem_append.mp hg'').resolve_right fun hlater =>
        Nat.not_le.mpr (hlower g' hg' g'' hlater) hle)

end Placed
end Installer.Schedule
