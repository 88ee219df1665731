import Installer.Proofs.Schedule.Checks

/-!
# The ranks of the steps

Where the first anchors lead from a step to a phase (`LeadsTo`), the step ranks at the number of the
phase, one higher for each anchor that it is put after on the way and one lower for each that it is
put before (`rankIn_of_leadsTo`). What is remembered from other climbs does not matter, nor do anchors
elsewhere that lead round: a climb remembers a rank only for steps that it is on, and no step that
leads to a phase is above one that does not (`climb_sound`).

A climb is followed by induction on its bound. Its invariant has two parts: what is remembered of
steps that lead to a phase is their rank (`IsKnown`), and the steps that the climb is on lead to where
it is. All ranks are found by a fold of climbs, which keeps the first part (`foldl_climb_sound`).

**What it does not establish.** What rank a step has whose anchors lead round depends on where the
climb began, and is left open.
-/

set_option autoImplicit false

namespace Installer.Schedule
open Relation Result

/-- The anchors lead from a step to a phase, on the sides that are listed. -/
inductive LeadsTo (anchor : String → Option Anchor) (p : Phase) : List Side → String → Prop
  | phase : LeadsTo anchor p [] p.name
  | action {step : String} {a : Anchor} {sides : List Side} : step ∉ Phase.names →
    anchor step = some a → LeadsTo anchor p sides a.step → LeadsTo anchor p (a.side :: sides) step

/-- The rank of a step that leads to a phase. -/
def rankAlong (p : Phase) (sides : List Side) : Int :=
  p.number + sides.count .after - sides.count .before

theorem rankAlong_cons (p : Phase) (side : Side) (sides : List Side) :
    rankAlong p (side :: sides) = rankAlong p sides + side.shift := by
  cases side <;> simp [rankAlong, Side.shift] <;> omega

/-- A step that is no phase has an anchor with the next step. -/
def Climbs (anchor : String → Option Anchor) (step next : String) : Prop :=
  step ∉ Phase.names ∧ ∃ side, anchor step = some ⟨next, side⟩

theorem Phase.name_mem (p : Phase) : p.name ∈ Phase.names := by
  cases p <;> decide

theorem Phase.name_injective {p q : Phase} (h : p.name = q.name) : p = q :=
  Keyword.spelling_injective h

theorem Phase.ofName?_name (p : Phase) : Phase.ofName? p.name = some p :=
  Keyword.read?_spelling p

theorem not_mem_names {step : String} (h : Phase.ofName? step = none) : step ∉ Phase.names := by
  rw [← Phase.ofName?_isSome_iff, h]
  exact Bool.false_ne_true

theorem ofName?_eq_none {step : String} (h : step ∉ Phase.names) : Phase.ofName? step = none := by
  rwa [← Option.not_isSome_iff_eq_none, Phase.ofName?_isSome_iff]

section Leading
variable {anchor : String → Option Anchor} {p : Phase} {sides : List Side} {step next : String}

/-- The phase and the sides are determined by the step. -/
theorem LeadsTo.unique (h : LeadsTo anchor p sides step) {q : Phase} {others : List Side}
    (h' : LeadsTo anchor q others step) : p = q ∧ sides = others := by
  induction h generalizing others with
  | phase =>
    generalize hname : p.name = name at h'
    cases h' with
    | phase => exact ⟨Phase.name_injective hname, rfl⟩
    | action hnot => exact absurd (hname ▸ Phase.name_mem p) hnot
  | @action step a sides hnot hanchor _ ih =>
    cases h' with
    | phase => exact absurd (Phase.name_mem q) hnot
    | @action _ b others _ hanchor' hrest =>
      rw [hanchor] at hanchor'
      cases hanchor'
      obtain ⟨hp, hsides⟩ := ih hrest
      exact ⟨hp, congrArg (a.side :: ·) hsides⟩

/-- Going up leaves a shorter way to the phase. -/
theorem LeadsTo.climb (h : LeadsTo anchor p sides step) (hclimb : Climbs anchor step next) :
    ∃ side rest, sides = side :: rest ∧ LeadsTo anchor p rest next := by
  obtain ⟨hnot, side, hanchor⟩ := hclimb
  cases h with
  | phase => exact absurd (Phase.name_mem p) hnot
  | @action _ a rest _ hanchor' hrest =>
    rw [hanchor] at hanchor'
    cases hanchor'
    exact ⟨_, rest, rfl, hrest⟩

/-- A step that leads to a phase does not lead back to itself. -/
theorem LeadsTo.not_loop (h : LeadsTo anchor p sides step) :
    ¬TransGen (Climbs anchor) step step := by
  have hshorter : ∀ {next}, TransGen (Climbs anchor) step next →
      ∃ rest, LeadsTo anchor p rest next ∧ rest.length < sides.length := by
    intro next hpath
    induction hpath with
    | single hclimb =>
      obtain ⟨side, rest, rfl, hrest⟩ := h.climb hclimb
      exact ⟨rest, hrest, Nat.lt_succ_self _⟩
    | tail _ hclimb ih =>
      obtain ⟨way, hway, hlt⟩ := ih
      obtain ⟨side, rest, rfl, hrest⟩ := hway.climb hclimb
      exact ⟨rest, hrest, Nat.lt_of_succ_lt hlt⟩
  intro hloop
  obtain ⟨rest, hrest, hlt⟩ := hshorter hloop
  rw [(h.unique hrest).2] at hlt
  exact Nat.lt_irrefl _ hlt

end Leading

/-- What is remembered of steps that lead to a phase is their rank. -/
def IsKnown (anchor : String → Option Anchor) (known : List (String × Int)) : Prop :=
  ∀ p sides step, LeadsTo anchor p sides step →
    ∀ rank, known.lookup step = some rank → rank = rankAlong p sides

theorem lookup_cons {step s : String} {rank : Int} {known : List (String × Int)} :
    ((s, rank) :: known).lookup step = if step = s then some rank else known.lookup step := by
  rw [List.lookup_cons]
  by_cases h : step = s
  · simp [h]
  · simp [h, beq_eq_false_iff_ne.mpr h]

theorem isSome_lookup_cons {step s : String} {rank : Int} {known : List (String × Int)}
    (h : (known.lookup step).isSome) : (((s, rank) :: known).lookup step).isSome := by
  rw [lookup_cons]
  split
  · rfl
  · exact h

theorem IsKnown.cons {anchor : String → Option Anchor} {known : List (String × Int)} {step : String}
    {rank : Int} (h : IsKnown anchor known)
    (hstep : ∀ {p : Phase} {sides : List Side}, LeadsTo anchor p sides step →
      rank = rankAlong p sides) : IsKnown anchor ((step, rank) :: known) := by
  intro p sides s hs r hr
  rw [lookup_cons] at hr
  split at hr
  · next heq =>
    cases hr
    exact hstep (heq ▸ hs)
  · exact h p sides s hs r hr

section Climbing
variable {anchor : String → Option Anchor} {steps : List String}
  (hclosed : ∀ step ∈ steps, ∀ a, anchor step = some a → a.step ∈ steps)
include hclosed

/-- A climb remembers nothing wrong, and finds the rank of a step that leads to a phase: the steps
that it is on lead to this one, so this one is not among them, and there are not more of them than
steps. -/
theorem climb_sound (n : Nat) (known : List (String × Int)) (climbing : List String)
    (step : String) (hknown : IsKnown anchor known) (hstep : step ∈ steps)
    (hclimbing : ∀ s ∈ climbing, s ∈ steps ∧ TransGen (Climbs anchor) s step)
    (hnodup : climbing.Nodup) (hsteps : steps.length < n + climbing.length) :
    IsKnown anchor (climb anchor n known climbing step).2 ∧
      ∀ {p : Phase} {sides : List Side}, LeadsTo anchor p sides step →
        (climb anchor n known climbing step).1 = rankAlong p sides := by
  fun_induction climb anchor n known climbing step with
  | case1 n known climbing step rank hlookup => exact ⟨hknown, fun hp => hknown _ _ _ hp _ hlookup⟩
  | case2 n known climbing step q hphase =>
    refine ⟨hknown, fun hp => ?_⟩
    have hname : step = q.name := Keyword.read?_eq_some_iff.mp hphase
    obtain ⟨rfl, rfl⟩ := hp.unique (hname ▸ LeadsTo.phase)
    simp [rankAlong]
  | case3 n known climbing step _ _ hmeets =>
    have hmeets : step ∈ climbing := by simpa using hmeets
    exact ⟨hknown, fun hp => absurd (hclimbing step hmeets).2 hp.not_loop⟩
  | case4 known climbing step hphase _ hnew m a hanchor rank more hclimb ih =>
    have hnot : step ∉ Phase.names := not_mem_names hphase
    have hnew : step ∉ climbing := by simpa using hnew
    have hup : Climbs anchor step a.step := ⟨hnot, a.side, hanchor⟩
    have hon : ∀ s ∈ step :: climbing, s ∈ steps ∧ TransGen (Climbs anchor) s a.step := by
      refine List.forall_mem_cons.mpr ⟨⟨hstep, .single hup⟩, fun s hs => ?_⟩
      obtain ⟨hs, hpath⟩ := hclimbing s hs
      exact ⟨hs, hpath.tail hup⟩
    obtain ⟨hmore, hrank⟩ := ih hknown (hclosed step hstep a hanchor) hon
      (List.nodup_cons.mpr ⟨hnew, hnodup⟩) (by simp only [List.length_cons]; omega)
    rw [hclimb] at hmore hrank
    have hfound : ∀ {p : Phase} {sides : List Side}, LeadsTo anchor p sides step →
        rank + a.side.shift = rankAlong p sides := by
      intro p sides hp
      cases hp with
      | phase => exact absurd (Phase.name_mem p) hnot
      | @action _ b rest _ hanchor' hrest =>
        rw [hanchor] at hanchor'
        cases hanchor'
        rw [rankAlong_cons, ← hrank hrest]
    exact ⟨hmore.cons hfound, hfound⟩
  | case5 n known climbing step hphase _ hnew hnone =>
    have hnot : step ∉ Phase.names := not_mem_names hphase
    have hnew : step ∉ climbing := by simpa using hnew
    -- There is a step left to climb, so it is the anchor that is missing.
    have hle := (List.nodup_cons.mpr ⟨hnew, hnodup⟩).length_le_of_subset
      (List.forall_mem_cons.mpr ⟨hstep, fun s hs => (hclimbing s hs).1⟩)
    obtain ⟨m, rfl⟩ : ∃ m, n = m + 1 :=
      Nat.exists_eq_succ_of_ne_zero (by simp only [List.length_cons] at hle; omega)
    have hleads : ∀ {p : Phase} {sides : List Side}, ¬LeadsTo anchor p sides step := by
      intro p sides hp
      cases hp with
      | phase => exact hnot (Phase.name_mem p)
      | action _ hanchor _ => exact hnone m _ rfl hanchor
    exact ⟨hknown.cons fun hp => absurd hp hleads, fun hp => absurd hp hleads⟩

end Climbing

/-- A climb forgets nothing. -/
theorem isSome_lookup_climb {anchor : String → Option Anchor} {s : String} (n : Nat)
    (known : List (String × Int)) (climbing : List String) (step : String)
    (h : (known.lookup s).isSome) :
    ((climb anchor n known climbing step).2.lookup s).isSome := by
  fun_induction climb anchor n known climbing step with
  | case1 => exact h
  | case2 => exact h
  | case3 => exact h
  | case4 known climbing step _ _ _ m a _ rank more hclimb ih =>
    rw [hclimb] at ih
    exact isSome_lookup_cons (ih h)
  | case5 n known climbing step => exact isSome_lookup_cons h

/-- It remembers the step that it starts from, unless this is a phase. -/
theorem isSome_lookup_start {anchor : String → Option Anchor} (n : Nat)
    (known : List (String × Int)) {step : String} (hnot : step ∉ Phase.names) :
    ((climb anchor n known [] step).2.lookup step).isSome := by
  generalize hclimbing : ([] : List String) = climbing
  fun_cases climb anchor n known climbing step
  case case1 hlookup => exact Option.isSome_of_eq_some hlookup
  case case2 hphase _ => exact absurd (Phase.name_mem _) (Keyword.read?_eq_some_iff.mp hphase ▸ hnot)
  case case3 hmeets => simp [← hclimbing] at hmeets
  case case4 => simp
  case case5 => simp

/-! ## All ranks -/

section Ranks
variable {links : List Link} {steps : List String}
  (hclosed : ∀ step ∈ steps, ∀ a, firstAnchor links step = some a → a.step ∈ steps)
include hclosed

/-- Climbing from one step after another, nothing wrong is remembered, nothing is forgotten, and
every step that is no phase is remembered in the end. -/
theorem foldl_climb_sound {few : List String} (hsub : few ⊆ steps) {known : List (String × Int)}
    (hknown : IsKnown (firstAnchor links) known) :
    let found := few.foldl
      (fun known step => (climb (firstAnchor links) (steps.length + 1) known [] step).2) known
    IsKnown (firstAnchor links) found ∧
      (∀ s, (known.lookup s).isSome → (found.lookup s).isSome) ∧
        ∀ s ∈ few, s ∉ Phase.names → (found.lookup s).isSome := by
  induction few generalizing known with
  | nil => exact ⟨hknown, fun _ h => h, nofun⟩
  | cons step rest ih =>
    obtain ⟨hstep, hrest⟩ := List.cons_subset.mp hsub
    have hclimb := (climb_sound hclosed (steps.length + 1) known [] step hknown hstep nofun .nil
      (by simp)).1
    obtain ⟨hall, hkeeps, hfound⟩ := ih hrest hclimb
    refine ⟨hall, fun s hs => hkeeps s (isSome_lookup_climb _ _ _ _ hs), ?_⟩
    exact List.forall_mem_cons.mpr ⟨fun hnot => hkeeps step (isSome_lookup_start _ _ hnot), hfound⟩

/-- A step that leads to a phase ranks at the number of the phase, one higher for each anchor on the
way that it is put after, and one lower for each that it is put before. -/
theorem rankIn_of_leadsTo {step : String} (hstep : step ∈ steps) {p : Phase} {sides : List Side}
    (h : LeadsTo (firstAnchor links) p sides step) :
    rankIn (ranks links steps) step = rankAlong p sides := by
  have hnone : IsKnown (firstAnchor links) [] := fun _ _ _ _ _ hlookup => nomatch hlookup
  obtain ⟨hknown, -, hfound⟩ := foldl_climb_sound hclosed (List.Subset.refl steps) hnone
  rw [rankIn]
  split
  · next q hphase =>
    have hname : step = q.name := Keyword.read?_eq_some_iff.mp hphase
    obtain ⟨rfl, rfl⟩ := h.unique (hname ▸ LeadsTo.phase)
    simp [rankAlong]
  · next hphase =>
    obtain ⟨rank, hrank⟩ := Option.isSome_iff_exists.mp (hfound step hstep (not_mem_names hphase))
    rw [ranks, hrank, Option.getD_some]
    exact hknown _ _ _ h _ hrank

end Ranks

/-- Among elements with keys of their own, each is found by its key. -/
theorem find?_of_nodup {α β : Type} [DecidableEq β] {key : α → β} : ∀ {l : List α},
    (l.map key).Nodup → ∀ {a : α}, a ∈ l → l.find? (key · = key a) = some a
  | x :: l, h, a, ha => by
    obtain ⟨hx, hl⟩ := List.nodup_cons.mp h
    rcases List.mem_cons.mp ha with rfl | ha
    · simp
    · have hne : key x ≠ key a := fun he => hx (he ▸ List.mem_map_of_mem ha)
      rw [List.find?_cons_of_neg (by simpa using hne)]
      exact find?_of_nodup hl ha

/-- The anchors that checked rules name are steps. -/
theorem firstAnchor_mem {actions : List Action} {scope : Guard.Scope} {rules : List Manifest.Rule}
    {links : List Link} (hlinks : rules.mapM (Link.ofRule (stepNames actions) scope) = .ok links)
    (step : String) {a : Anchor} (h : firstAnchor links step = some a) :
    a.step ∈ stepNames actions := by
  obtain ⟨l, hl, rfl⟩ := Option.map_eq_some_iff.mp h
  obtain ⟨r, -, hof⟩ := exists_of_mem_result hlinks (List.mem_of_find?_eq_some hl)
  exact (Link.ofRule_eq_ok hof).2.2.1

/-- The rank of a step and, where ranks are equal, an action before a phase. -/
def grade (ranks : List (String × Int)) (step : String) : Int :=
  2 * rankIn ranks step + if (Phase.ofName? step).isSome then 1 else 0

/-- A step goes first exactly if its grade is lower. -/
theorem goesFirst_iff (ranks : List (String × Int)) (a b : String) :
    goesFirst ranks a b = true ↔ grade ranks a < grade ranks b := by
  unfold goesFirst grade
  cases Phase.ofName? a <;> cases Phase.ofName? b <;> simp <;> omega

end Installer.Schedule
