import Installer.Proofs.Schedule.Contradiction
import Installer.Proofs.Schedule.Ranks
import Mathlib.Data.Set.Finite.List
import Mathlib.Order.Monotone.Basic

/-!
# First anchors that lead nowhere

From an action, the anchors of first rules lead to a phase, or on and on (`leads_or_goesOn`). Where
they go on and are all on one side from some place on, the rules put a step before itself, and this
is a contradiction (`exists_loop_of_oneSided`). Where both sides come again and again they make no
contradiction by themselves, and the schedule may be made: with one rule for each action, the anchors
on one side are the only contradictions (`exists_oneSided_of_loop`). Main statement:
`make_first_anchors`.

Where anchors go on and on only actions with rules are visited, so one of them is visited again; if
all is on one side, the edges between make a loop. For the converse a path is taken apart: with one
rule for each action it takes anchors on the side before, then phases, then anchors on the side after
(`path_splits`), so that a loop lies on one side.

**What it does not establish.** That anchors which go on and on are a contradiction in general is not
true: where both sides come again and again a schedule may be made. With several rules for an action
the converse is left open.
-/

set_option autoImplicit false

namespace Installer.Schedule
open Precedence Relation Result

/-- The anchor that the first rule of a step names. -/
def declaredAnchor (rules : List Manifest.Rule) (step : String) : Option Anchor :=
  (rules.find? (·.action = step)).bind fun r => (anchorOf r).toOption

/-- An action has an anchor, on a side of the next step. -/
def Hangs (anchor : String → Option Anchor) (side : Side) (step next : String) : Prop :=
  step ∉ Phase.names ∧ anchor step = some ⟨next, side⟩

/-- Anchors lead on from action to action. -/
def GoesOn (anchor : String → Option Anchor) (visited : Nat → String) (sides : Nat → Side) : Prop :=
  ∀ n, Hangs anchor (sides n) (visited n) (visited (n + 1))

/-- From some place on, there is only one side. -/
def IsOneSided (sides : Nat → Side) : Prop := ∃ n side, ∀ m, n ≤ m → sides m = side

/-- Actions and rules that pass their checks, up to whether a rule names one step twice, and a rule
for each action. -/
structure Passes (declared : List Manifest.Action) (rules : List Manifest.Rule)
    (fileKeys : List String) (scope : Guard.Scope) : Prop where
  checked : ∃ actions, checkActions fileKeys declared = .ok actions
  named : ∀ r ∈ rules, IsWellNamed (Phase.names ++ declared.map (·.id)) scope r
  scheduled : ∀ d ∈ declared, ∃ r ∈ rules, r.action = d.id

/-! ## Where anchors lead -/

section Leading
variable {anchor : String → Option Anchor} {steps : List String} {step : String}

/-- The step that an anchor leads to. A step without one leads nowhere else. -/
def nextStep (anchor : String → Option Anchor) (step : String) : String :=
  (anchor step).elim step (·.step)

/-- The side that an anchor is on. -/
def nextSide (anchor : String → Option Anchor) (step : String) : Side :=
  (anchor step).elim .after (·.side)

/-- Where every action has an anchor, the anchors lead from it to a phase, or on and on. -/
theorem leads_or_goesOn
    (hclosed : ∀ s ∈ steps, s ∉ Phase.names → ∃ a, anchor s = some a ∧ a.step ∈ steps)
    (hstep : step ∈ steps) : (∃ p sides, LeadsTo anchor p sides step) ∨
      ∃ visited sides, visited 0 = step ∧ GoesOn anchor visited sides := by
  by_cases hleads : ∃ p sides, LeadsTo anchor p sides step
  · exact .inl hleads
  -- What does not lead to a phase is none, and what its anchor leads to does not lead to one either.
  have hup : ∀ s ∈ steps, (¬∃ p sides, LeadsTo anchor p sides s) →
      Hangs anchor (nextSide anchor s) s (nextStep anchor s) ∧ nextStep anchor s ∈ steps ∧
        ¬∃ p sides, LeadsTo anchor p sides (nextStep anchor s) := by
    intro s hs hnone
    have hnot : s ∉ Phase.names := by
      intro hphase
      obtain ⟨p, -, rfl⟩ := List.mem_map.mp hphase
      exact hnone ⟨p, [], .phase⟩
    obtain ⟨a, ha, hmem⟩ := hclosed s hs hnot
    simp only [nextSide, nextStep, ha, Option.elim_some]
    refine ⟨⟨hnot, ha⟩, hmem, ?_⟩
    rintro ⟨p, sides, hp⟩
    exact hnone ⟨p, _, .action hnot ha hp⟩
  have hon : ∀ n, (nextStep anchor)^[n] step ∈ steps ∧
      ¬∃ p sides, LeadsTo anchor p sides ((nextStep anchor)^[n] step) := by
    intro n
    induction n with
    | zero => exact ⟨hstep, hleads⟩
    | succ n ih =>
      rw [Function.iterate_succ_apply']
      exact (hup _ ih.1 ih.2).2
  refine .inr ⟨fun n => (nextStep anchor)^[n] step,
    fun n => nextSide anchor ((nextStep anchor)^[n] step), rfl, fun n => ?_⟩
  show Hangs anchor _ ((nextStep anchor)^[n] step) ((nextStep anchor)^[n + 1] step)
  rw [Function.iterate_succ_apply']
  exact (hup _ (hon n).1 (hon n).2).1

/-- Anchors on one side that lead from a step back to it go on and on. -/
theorem goesOn_of_loop {side : Side} (h : TransGen (Hangs anchor side) step step) :
    GoesOn anchor (fun n => (nextStep anchor)^[n] step) fun _ => side := by
  have hnext : ∀ {s t}, Hangs anchor side s t → nextStep anchor s = t := by
    rintro s t ⟨-, hst⟩
    rw [nextStep, hst, Option.elim_some]
  have hback : ∀ n, TransGen (Hangs anchor side) ((nextStep anchor)^[n] step) step := by
    intro n
    induction n with
    | zero => exact h
    | succ n ih =>
      obtain ⟨t, hst, hpath⟩ := TransGen.head'_iff.mp ih
      rw [Function.iterate_succ_apply', hnext hst]
      rcases reflTransGen_iff_eq_or_transGen.mp hpath with rfl | hpath
      · exact h
      · exact hpath
  intro n
  obtain ⟨t, hst, -⟩ := TransGen.head'_iff.mp (hback n)
  show Hangs anchor side ((nextStep anchor)^[n] step) ((nextStep anchor)^[n + 1] step)
  rwa [Function.iterate_succ_apply', hnext hst]

/-- One of two, in turn. -/
def alternate {α : Type} (a b : α) (n : Nat) : α := if n % 2 = 0 then a else b

/-- Two actions with anchors at each other lead on and on. -/
theorem goesOn_alternate {s t : String} {side other : Side} (hst : Hangs anchor side s t)
    (hts : Hangs anchor other t s) :
    GoesOn anchor (alternate s t) (alternate side other) := by
  intro n
  rcases Nat.mod_two_eq_zero_or_one n with hn | hn
  · have hnext : (n + 1) % 2 = 1 := by omega
    simpa [alternate, hn, hnext] using hst
  · have hnext : (n + 1) % 2 = 0 := by omega
    simpa [alternate, hn, hnext] using hts

end Leading

/-! ## Anchors and rules -/

section Rules
variable {rules : List Manifest.Rule} {step next : String}

theorem exists_rule_of_declaredAnchor {a : Anchor} (h : declaredAnchor rules step = some a) :
    ∃ r ∈ rules, r.action = step ∧ anchorOf r = .ok a := by
  obtain ⟨r, hr, ha⟩ := Option.bind_eq_some_iff.mp h
  refine ⟨r, List.mem_of_find?_eq_some hr, by simpa using List.find?_some hr, ?_⟩
  cases hof : anchorOf r with
  | error v => rw [hof] at ha; cases ha
  | ok b => rw [hof] at ha; cases ha; rfl

/-- A first anchor puts its step on a side of the anchor. -/
theorem precedes_of_hangs {side : Side} (h : Hangs (declaredAnchor rules) side step next) :
    match side with
    | .before => Precedes rules step next
    | .after => Precedes rules next step := by
  obtain ⟨r, hr, rfl, hanchor⟩ := exists_rule_of_declaredAnchor h.2
  have hside := anchorOf_eq_ok hanchor
  cases side with
  | before => exact .before hr hside.1
  | after => exact .after hr hside.1

/-- Anchors that go on on one side put a step before itself: only actions with rules are visited, so
one is visited again. -/
theorem exists_loop_of_oneSided {visited : Nat → String} {sides : Nat → Side}
    (h : GoesOn (declaredAnchor rules) visited sides) (hone : IsOneSided sides) :
    ∃ step, TransGen (Precedes rules) step step := by
  obtain ⟨n, side, hside⟩ := hone
  have hhangs : ∀ m, Hangs (declaredAnchor rules) side (visited (n + m)) (visited (n + (m + 1))) :=
    fun m => hside (n + m) (Nat.le_add_right n m) ▸ h (n + m)
  have hvisits : Set.MapsTo (fun m => visited (n + m)) Set.univ {s | s ∈ rules.map (·.action)} := by
    intro m _
    obtain ⟨r, hr, hstep, -⟩ := exists_rule_of_declaredAnchor (hhangs m).2
    exact List.mem_map.mpr ⟨r, hr, hstep⟩
  obtain ⟨i, -, j, -, hne, hsame⟩ :=
    Set.infinite_univ.exists_ne_map_eq_of_mapsTo hvisits (List.finite_toSet _)
  have hsame : visited (n + i) = visited (n + j) := hsame
  wlog hlt : i < j generalizing i j with hother
  · exact hother j i hne.symm hsame.symm hsame.symm (by omega)
  cases side with
  | before =>
    have hpath := Nat.rel_of_forall_rel_succ_of_lt (TransGen (Precedes rules))
      (f := fun m => visited (n + m)) (fun m => .single (precedes_of_hangs (hhangs m))) hlt
    exact ⟨visited (n + j), hsame ▸ hpath⟩
  | after =>
    have hpath := Nat.rel_of_forall_rel_succ_of_lt (Function.swap (TransGen (Precedes rules)))
      (f := fun m => visited (n + m)) (fun m => .single (precedes_of_hangs (hhangs m))) hlt
    exact ⟨visited (n + j), hsame ▸ hpath⟩

/-! ### One rule for each action -/

section OneRule
variable (hnodup : (rules.map (·.action)).Nodup) (hactions : ∀ r ∈ rules, r.action ∉ Phase.names)
  (hanchors : ∀ r ∈ rules, ∃ anchor, anchorOf r = .ok anchor)
include hnodup hactions hanchors

/-- The only rule of an action is its first. -/
theorem hangs_of_rule {r : Manifest.Rule} (hr : r ∈ rules) :
    ∃ a, anchorOf r = .ok a ∧ Hangs (declaredAnchor rules) a.side r.action a.step := by
  obtain ⟨a, ha⟩ := hanchors r hr
  have hfind : rules.find? (·.action = r.action) = some r := find?_of_nodup hnodup hr
  exact ⟨a, ha, hactions r hr, by rw [declaredAnchor, hfind, Option.bind_some, ha]; rfl⟩

/-- What comes directly before what: a phase before the next one, or the two steps of an anchor. -/
theorem hangs_of_precedes (h : Precedes rules step next) : Edge phaseChain step next ∨
    Hangs (declaredAnchor rules) .before step next ∨
      Hangs (declaredAnchor rules) .after next step := by
  cases h with
  | phase hphase => exact .inl hphase
  | @after r anchor hr hafter =>
    obtain ⟨⟨t, side⟩, ha, hhangs⟩ := hangs_of_rule hnodup hactions hanchors hr
    have hside := anchorOf_eq_ok ha
    cases side with
    | before => rw [hside.2] at hafter; cases hafter
    | after =>
      rw [hside.1] at hafter
      cases hafter
      exact .inr (.inr hhangs)
  | @before r anchor hr hbefore =>
    obtain ⟨⟨t, side⟩, ha, hhangs⟩ := hangs_of_rule hnodup hactions hanchors hr
    have hside := anchorOf_eq_ok ha
    cases side with
    | after => rw [hside.2] at hbefore; cases hbefore
    | before =>
      rw [hside.1] at hbefore
      cases hbefore
      exact .inr (.inl hhangs)

/-- A path takes anchors on the side before, then the phases, then anchors on the side after. -/
theorem path_splits {b : String} (h : TransGen (Precedes rules) step b) :
    TransGen (Hangs (declaredAnchor rules) .before) step b ∨
      (b ∈ Phase.names ∧ (∀ t, ¬Hangs (declaredAnchor rules) .after step t) ∧
        (step ∈ Phase.names → TransGen (Edge phaseChain) step b)) ∨
      ((∃ t, Hangs (declaredAnchor rules) .after b t) ∧
        ((∃ t, Hangs (declaredAnchor rules) .after step t) →
          TransGen (Function.swap (Hangs (declaredAnchor rules) .after)) step b)) := by
  have hphases : ∀ {a b : String}, Edge phaseChain a b → a ∈ Phase.names ∧ b ∈ Phase.names := by
    intro a b hab
    have hall : ∀ e ∈ phaseChain, e.1 ∈ Phase.names ∧ e.2 ∈ Phase.names := by decide
    exact hall _ hab
  have hsides : ∀ {a b c : String}, Hangs (declaredAnchor rules) .before a b →
      ¬Hangs (declaredAnchor rules) .after a c := by
    rintro a b c ⟨-, hbefore⟩ ⟨-, hafter⟩
    rw [hbefore] at hafter
    cases hafter
  have hfirst : ∀ {b : String}, TransGen (Hangs (declaredAnchor rules) .before) step b →
      ∃ t, Hangs (declaredAnchor rules) .before step t := fun hpath => by
    obtain ⟨t, ht, -⟩ := TransGen.head'_iff.mp hpath
    exact ⟨t, ht⟩
  induction h with
  | single hab =>
    rcases hangs_of_precedes hnodup hactions hanchors hab with hab | hab | hab
    · obtain ⟨ha, hb⟩ := hphases hab
      exact .inr (.inl ⟨hb, fun t ht => ht.1 ha, fun _ => .single hab⟩)
    · exact .inl (.single hab)
    · exact .inr (.inr ⟨⟨_, hab⟩, fun _ => .single hab⟩)
  | @tail b c _ hbc ih =>
    rcases hangs_of_precedes hnodup hactions hanchors hbc with hbc | hbc | hbc
    · obtain ⟨hb, hc⟩ := hphases hbc
      rcases ih with ih | ⟨-, hnot, ih⟩ | ⟨⟨t, ht⟩, -⟩
      · obtain ⟨t, ht⟩ := hfirst ih
        exact .inr (.inl ⟨hc, fun _ => hsides ht, fun hstep => absurd hstep ht.1⟩)
      · exact .inr (.inl ⟨hc, hnot, fun hstep => (ih hstep).tail hbc⟩)
      · exact absurd hb ht.1
    · rcases ih with ih | ⟨hb, -⟩ | ⟨⟨t, ht⟩, -⟩
      · exact .inl (ih.tail hbc)
      · exact absurd hb hbc.1
      · exact absurd ht (hsides hbc)
    · refine .inr (.inr ⟨⟨_, hbc⟩, fun ⟨u, hu⟩ => ?_⟩)
      rcases ih with ih | ⟨-, hnot, -⟩ | ⟨-, ih⟩
      · obtain ⟨t, ht⟩ := hfirst ih
        exact absurd hu (hsides ht)
      · exact absurd hu (hnot u)
      · exact (ih ⟨u, hu⟩).tail hbc

/-- So only anchors on one side put a step before itself. -/
theorem exists_oneSided_of_loop (h : TransGen (Precedes rules) step step) :
    ∃ visited sides, GoesOn (declaredAnchor rules) visited sides ∧ IsOneSided sides := by
  have hone : ∀ side : Side, IsOneSided fun _ => side := fun side => ⟨0, side, fun _ _ => rfl⟩
  rcases path_splits hnodup hactions hanchors h with hpath | ⟨hphase, -, hpath⟩ | ⟨hafter, hpath⟩
  · exact ⟨_, _, goesOn_of_loop hpath, hone _⟩
  · have hnames : Phase.names.Nodup := by decide
    have hchain : Acyclic phaseChain := acyclic_of_sublist hnames (by decide +kernel)
    exact absurd (hpath hphase) (hchain step)
  · exact ⟨_, _, goesOn_of_loop (transGen_swap.mp (hpath hafter)), hone _⟩

end OneRule

end Rules

/-! ## Schedules -/

section Making
variable {fileKeys : List String} {declared : List Manifest.Action} {rules : List Manifest.Rule}
  {scope : Guard.Scope} {actions : List Action} {links : List Link}

/-- The first anchors of links are those of the rules that make them. -/
theorem firstAnchor_eq_declaredAnchor {steps : List String}
    (hlinks : rules.mapM (Link.ofRule steps scope) = .ok links) :
    firstAnchor links = declaredAnchor rules := by
  funext step
  rw [mapM_eq_ok] at hlinks
  induction hlinks with
  | nil => rfl
  | @cons r l rules links hlink _ ih =>
    obtain ⟨hsubject, -, -, -, hanchor, -⟩ := Link.ofRule_eq_ok hlink
    simp only [firstAnchor, declaredAnchor, List.find?_cons, hsubject] at ih ⊢
    by_cases hstep : r.action = step
    · simp only [hstep, decide_true, Option.map_some, Option.bind_some, hanchor]
      rfl
    · simpa only [hstep, decide_false] using ih

/-- The declared first anchors give the ranks. -/
theorem rank_of_leadsTo (hlinks : rules.mapM (Link.ofRule (stepNames actions) scope) = .ok links)
    {step : String} (hstep : step ∈ stepNames actions) {p : Phase} {sides : List Side}
    (h : LeadsTo (declaredAnchor rules) p sides step) :
    rankIn (ranks links (stepNames actions)) step = rankAlong p sides := by
  rw [← firstAnchor_eq_declaredAnchor hlinks] at h
  exact rankIn_of_leadsTo (fun step _ _ ha => firstAnchor_mem hlinks step ha) hstep h

/-- The edges of a schedule that is made have no cycle. -/
theorem acyclic_of_stages {steps : List Step} (hactions : checkActions fileKeys declared = .ok actions)
    (hlinks : rules.mapM (Link.ofRule (stepNames actions) scope) = .ok links)
    (h : Stages links actions steps) : Acyclic (ruleEdges links) := by
  obtain ⟨order, pinned, hpin, horder, -, -⟩ := h.ordered
  have hkeeps := keeps_of_orderSteps hactions hlinks hpin horder
  exact acyclic_of_sublist hkeeps.nodup fun e he => hkeeps.edges e.1 e.2 he

/-- Every action of a schedule has an anchor, and it is a step. -/
theorem exists_firstAnchor {steps : List Step}
    (hlinks : rules.mapM (Link.ofRule (stepNames actions) scope) = .ok links)
    (h : Stages links actions steps) {step : String} (hstep : step ∈ stepNames actions)
    (hnot : step ∉ Phase.names) :
    ∃ a, firstAnchor links step = some a ∧ a.step ∈ stepNames actions := by
  obtain ⟨a, ha, rfl⟩ := List.mem_map.mp ((List.mem_append.mp hstep).resolve_left hnot)
  obtain ⟨l, hl, hsubject⟩ := h.subjects a ha
  have hfound : (links.find? (·.subject = a.id)).isSome :=
    List.find?_isSome.mpr ⟨l, hl, decide_eq_true hsubject⟩
  obtain ⟨first, hfirst⟩ := Option.isSome_iff_exists.mp hfound
  have hanchor : firstAnchor links a.id = some first.anchor := by
    rw [firstAnchor, hfirst, Option.map_some]
  exact ⟨first.anchor, hanchor, firstAnchor_mem hlinks _ hanchor⟩

/-- In a schedule that is made, first anchors that go on and on come to both sides again and
again. -/
theorem not_oneSided_of_make {s : Schedule}
    (h : Schedule.make declared rules fileKeys scope = .ok s) {visited : Nat → String}
    {sides : Nat → Side} (hon : GoesOn (declaredAnchor rules) visited sides) :
    ¬IsOneSided sides := by
  intro hone
  obtain ⟨hactions, links, hlinks, hstages⟩ := make_eq_ok h
  obtain ⟨step, hloop⟩ := exists_loop_of_oneSided hon hone
  rw [← edge_ruleEdges hlinks] at hloop
  exact acyclic_of_stages hactions hlinks hstages step hloop

/-- From every action of a schedule that is made, the first anchors lead to a phase or go on and
on. -/
theorem leads_or_goesOn_of_make {s : Schedule}
    (h : Schedule.make declared rules fileKeys scope = .ok s) {d : Manifest.Action}
    (hd : d ∈ declared) : (∃ p ways, LeadsTo (declaredAnchor rules) p ways d.id ∧
        ∀ links, rules.mapM (Link.ofRule (stepNames s.actions) scope) = .ok links →
          rankIn (ranks links (stepNames s.actions)) d.id = rankAlong p ways) ∨
      ∃ visited sides, visited 0 = d.id ∧ GoesOn (declaredAnchor rules) visited sides := by
  obtain ⟨hactions, links, hlinks, hstages⟩ := make_eq_ok h
  have hid : d.id ∈ stepNames s.actions := by
    rw [stepNames_eq hactions]
    exact List.mem_append_right _ (List.mem_map_of_mem hd)
  have hleads := leads_or_goesOn (fun _ => exists_firstAnchor hlinks hstages) hid
  rw [firstAnchor_eq_declaredAnchor hlinks] at hleads
  refine hleads.imp_left ?_
  rintro ⟨p, ways, hp⟩
  exact ⟨p, ways, hp, fun _ hlinks' => rank_of_leadsTo hlinks' hid hp⟩

end Making

/-- In a schedule that is made, the first anchors lead from every action to a phase, and the action
ranks by the sides on the way, or they go on and on and both sides come again and again. And where
actions and rules pass their checks: if the first anchors go on and on on one side from some place on,
a contradiction is reported; if every action has one rule and no phase has any, only then. -/
theorem make_first_anchors {declared : List Manifest.Action} {rules : List Manifest.Rule}
    {fileKeys : List String} {scope : Guard.Scope} :
    (∀ s, Schedule.make declared rules fileKeys scope = .ok s → ∀ d ∈ declared,
      (∃ p ways, LeadsTo (declaredAnchor rules) p ways d.id ∧
        ∀ links, rules.mapM (Link.ofRule (stepNames s.actions) scope) = .ok links →
          rankIn (ranks links (stepNames s.actions)) d.id = rankAlong p ways) ∨
      ∃ visited sides, visited 0 = d.id ∧ GoesOn (declaredAnchor rules) visited sides ∧
        ¬IsOneSided sides) ∧
    (Passes declared rules fileKeys scope →
      ((∃ visited sides, GoesOn (declaredAnchor rules) visited sides ∧ IsOneSided sides) →
        ∃ cycle, Schedule.make declared rules fileKeys scope =
          .error (.orderingContradiction cycle)) ∧
      ((rules.map (·.action)).Nodup → (∀ r ∈ rules, r.action ∉ Phase.names) →
        (∃ cycle, Schedule.make declared rules fileKeys scope =
          .error (.orderingContradiction cycle)) →
        ∃ visited sides, GoesOn (declaredAnchor rules) visited sides ∧ IsOneSided sides)) := by
  refine ⟨fun s hs d hd => ?_, fun ⟨⟨actions, hactions⟩, hnamed, hscheduled⟩ => ⟨?_, ?_⟩⟩
  · refine (leads_or_goesOn_of_make hs hd).imp_right ?_
    rintro ⟨visited, sides, hstart, hon⟩
    exact ⟨visited, sides, hstart, hon, not_oneSided_of_make hs hon⟩
  · rintro ⟨visited, sides, hon, hone⟩
    obtain ⟨step, hloop⟩ := exists_loop_of_oneSided hon hone
    rw [← stepNames_eq hactions] at hnamed
    exact exists_contradiction_of_loop hactions hnamed hscheduled hloop
  · rintro hnodup hphases ⟨cycle, hcycle⟩
    obtain ⟨step, hloop⟩ := (isContradiction_of_make hcycle).exists_loop
    refine exists_oneSided_of_loop hnodup hphases (fun r hr => ?_) hloop
    obtain ⟨anchor, hanchor, -⟩ := (hnamed r hr).anchor
    exact ⟨anchor, hanchor⟩

/-- Two actions that go after each other, and a phase after one of them. -/
theorem make_first_anchors_tangled :
    GoesOn (declaredAnchor tangledRules) (alternate "Warm" "Configure") (alternate .after .after) ∧
    ∃ cycle, Schedule.make
      [⟨"Warm", "SetupExe", .immediate, true, none, ""⟩,
        ⟨"Configure", "SetupExe", .deferred, true, some .check, ""⟩]
      tangledRules ["SetupExe"] ⟨Guard.builtins, [], []⟩ =
        .error (.orderingContradiction cycle) := by
  have hactions : checkActions ["SetupExe"]
      [⟨"Warm", "SetupExe", .immediate, true, none, ""⟩,
        ⟨"Configure", "SetupExe", .deferred, true, some .check, ""⟩] =
      .ok [⟨"Warm", "SetupExe", .immediate, true, .check, ""⟩,
        ⟨"Configure", "SetupExe", .deferred, true, .check, ""⟩] := by decide +kernel
  have hnamed : ∀ r ∈ tangledRules,
      IsWellNamed (Phase.names ++ ["Warm", "Configure"]) ⟨Guard.builtins, [], []⟩ r := by
    simp only [tangledRules, List.forall_mem_cons]
    refine ⟨⟨by decide, ⟨_, rfl, by decide⟩, ⟨none, rfl⟩⟩,
      ⟨by decide, ⟨_, rfl, by decide⟩, ⟨none, rfl⟩⟩,
      ⟨by decide, ⟨_, rfl, by decide⟩, ⟨none, rfl⟩⟩, fun _ h => absurd h List.not_mem_nil⟩
  have hon : GoesOn (declaredAnchor tangledRules) (alternate "Warm" "Configure")
      (alternate .after .after) :=
    goesOn_alternate ⟨by decide, rfl⟩ ⟨by decide, rfl⟩
  have hone : IsOneSided (alternate .after .after) := ⟨0, .after, fun m _ => ite_self _⟩
  exact ⟨hon, (make_first_anchors.2 ⟨⟨_, hactions⟩, hnamed, by simp [tangledRules]⟩).1
    ⟨_, _, hon, hone⟩⟩

/-- One action before another, which goes after the first: one order of the two, said twice. -/
def facingRules : List Manifest.Rule :=
  [⟨"Warm", some "Configure", none, none⟩, ⟨"Configure", none, some "Warm", none⟩]

/-- Their anchors never lead to a phase, and a schedule is made in which both run before all phases. -/
theorem make_facing :
    GoesOn (declaredAnchor facingRules) (alternate "Warm" "Configure")
      (alternate .before .after) ∧
    ∃ s, Schedule.make
        [⟨"Warm", "SetupExe", .immediate, true, none, ""⟩,
          ⟨"Configure", "SetupExe", .immediate, true, none, ""⟩]
        facingRules ["SetupExe"] ⟨Guard.builtins, [], []⟩ = .ok s ∧
      s.steps.take 2 = [⟨"Warm", .action, 1, none⟩, ⟨"Configure", .action, 2, none⟩] := by
  refine ⟨goesOn_alternate ⟨by decide, rfl⟩ ⟨by decide, rfl⟩, ?_⟩
  have hmade : (Schedule.make
      [⟨"Warm", "SetupExe", .immediate, true, none, ""⟩,
        ⟨"Configure", "SetupExe", .immediate, true, none, ""⟩]
      facingRules ["SetupExe"] ⟨Guard.builtins, [], []⟩).map (·.steps.take 2) =
        .ok [⟨"Warm", .action, 1, none⟩, ⟨"Configure", .action, 2, none⟩] := by decide +kernel
  exact map_eq_ok.mp hmade

end Installer.Schedule
