import Installer.Proofs.Schedule.ScriptWindow

/-!
# Contradictions among the rules

A schedule ends with a contradiction in two places: at a rule that names one step twice, and at the
first order of the steps, which finds a cycle where there is one. Pinning the script closes no cycle
(`acyclic_of_pin`), so the second order contradicts nothing (`isCycle_of_ends`). Main statement:
`make_contradiction_iff`.

All ways in which no schedule is made are gone through once (`make_eq_error`), and only the two report
a contradiction. For the converse a loop among phases and rules is a cycle of the edges, which no
order keeps (`exists_contradiction_of_loop`).

**What it does not establish.** The cycle that is shown is one of those there are; which one is not
said. Rules that name unknown steps, and actions without a rule, are refused before, and are excluded
by the premises.
-/

set_option autoImplicit false

namespace Installer.Schedule
open Precedence Relation Result

/-- A contradiction as it is shown: steps each of which comes before the next, back to the first. -/
structure IsContradiction (rules : List Manifest.Rule) (cycle : List String) : Prop where
  returns : 2 ≤ cycle.length
  closed : cycle.head? = cycle.getLast?
  linked : cycle.IsChain (Precedes rules)

/-- The first step of a contradiction comes before itself. -/
theorem IsContradiction.exists_loop {rules : List Manifest.Rule} {cycle : List String}
    (h : IsContradiction rules cycle) : ∃ step, TransGen (Precedes rules) step step := by
  match cycle, h with
  | a :: b :: rest, h =>
    obtain ⟨hab, hrest⟩ := List.isChain_cons_cons.mp h.linked
    have hlast : (b :: rest).getLast (List.cons_ne_nil _ _) = a := by
      have hclosed : some a = (a :: b :: rest).getLast? := h.closed
      rw [List.getLast?_cons_cons, List.getLast?_eq_some_getLast (List.cons_ne_nil _ _)] at hclosed
      exact (Option.some.inj hclosed).symm
    exact ⟨a, .head' hab (List.relationReflTransGen_of_exists_isChain_cons rest hrest hlast)⟩
  | [], h => exact absurd h.returns (by simp)
  | [_], h => exact absurd h.returns (by simp)

/-! ## A rule on its own -/

/-- Actions are refused for other reasons. -/
theorem actionsAfter_ne_contradiction {fileKeys : List String} {cycle : List String} :
    ∀ {declared : List Manifest.Action} {earlier : List String},
      actionsAfter fileKeys earlier declared ≠ .error (.orderingContradiction cycle)
  | [], _, h => nomatch h
  | d :: declared, earlier, h => by
    rcases bind_eq_error.mp h with hd | ⟨a, -, h⟩
    · simp only [Action.ofDeclaration, throw_bind, ite_error_eq_error, reduceCtorEq, and_false,
        false_or] at hd
      obtain ⟨-, -, hd⟩ := hd
      split at hd <;> cases hd
    · rcases bind_eq_error.mp h with hrest | ⟨more, -, h⟩
      · exact actionsAfter_ne_contradiction hrest
      · cases h

/-- So are guards. -/
theorem guardOf_ne_contradiction {scope : Guard.Scope} {r : Manifest.Rule} {cycle : List String} :
    guardOf scope r ≠ .error (.orderingContradiction cycle) := by
  intro h
  rw [guardOf] at h
  split at h
  · cases h
  · simp only [throw_bind, ite_error_eq_error, reduceCtorEq, and_false, false_or] at h
    obtain ⟨-, h⟩ := h
    rcases bind_eq_error.mp h with hcheck | ⟨c, -, h⟩
    · rw [Guard.check] at hcheck
      split at hcheck
      · cases hcheck
      · rcases bind_eq_error.mp hcheck with hforM | ⟨_, -, h⟩
        · obtain ⟨o, -, ho⟩ := exists_of_forM_error hforM
          rw [Guard.checkReference] at ho
          split at ho
          · cases ho
          · split at ho
            · cases ho
            · split at ho <;> cases ho
        · cases h
    · cases h

/-- A rule contradicts on its own only if it names one step twice. -/
theorem ofRule_contradiction {steps : List String} {scope : Guard.Scope} {r : Manifest.Rule}
    {cycle : List String}
    (h : Link.ofRule steps scope r = .error (.orderingContradiction cycle)) :
    cycle = [r.action, r.action] ∧ ∃ side, anchorOf r = .ok ⟨r.action, side⟩ := by
  simp only [Link.ofRule, throw_bind, ite_error_eq_error, reduceCtorEq, and_false, false_or] at h
  obtain ⟨-, h⟩ := h
  rcases bind_eq_error.mp h with hanchor | ⟨⟨step, side⟩, hanchor, h⟩
  · rw [anchorOf] at hanchor
    split at hanchor <;> cases hanchor
  · simp only [ite_error_eq_error, reduceCtorEq, and_false, false_or] at h
    obtain ⟨-, ⟨rfl, h⟩ | ⟨-, h⟩⟩ := h
    · cases h
      exact ⟨rfl, side, hanchor⟩
    · rcases bind_eq_error.mp h with hguard | ⟨g, -, h⟩
      · exact absurd hguard guardOf_ne_contradiction
      · cases h

/-- The anchor of a rule and its subject, in the order that the rule asks for. -/
theorem precedes_of_anchorOf {rules : List Manifest.Rule} {r : Manifest.Rule} (hr : r ∈ rules)
    {anchor : Anchor} (h : anchorOf r = .ok anchor) :
    Precedes rules r.action anchor.step ∨ Precedes rules anchor.step r.action := by
  have hside := anchorOf_eq_ok h
  cases hs : anchor.side with
  | before =>
    rw [hs] at hside
    exact .inl (.before hr hside.1)
  | after =>
    rw [hs] at hside
    exact .inr (.after hr hside.1)

theorem isContradiction_of_ofRule {steps : List String} {scope : Guard.Scope}
    {rules : List Manifest.Rule} {r : Manifest.Rule} (hr : r ∈ rules) {cycle : List String}
    (h : Link.ofRule steps scope r = .error (.orderingContradiction cycle)) :
    IsContradiction rules cycle := by
  obtain ⟨rfl, side, hanchor⟩ := ofRule_contradiction h
  have hself : Precedes rules r.action r.action := (precedes_of_anchorOf hr hanchor).elim id id
  exact ⟨Nat.le_refl 2, rfl, .cons_cons hself (.singleton _)⟩

/-! ## Orders and pins -/

/-- The check of an order fails only because an action is outside the script. -/
theorem checkScript_eq_error {actions : List Action} {order : List String} {v : Violation}
    (h : checkScript actions order = .error v) : ∃ id, v = .deferredOutsideScript id := by
  obtain ⟨step, -, hstep⟩ := exists_of_forM_error h
  split at hstep
  · next a _ =>
    split at hstep
    · cases hstep
      exact ⟨a.id, rfl⟩
    · cases hstep
  · cases hstep

/-- Pinning closes no cycle: what it pins is free. -/
theorem acyclic_of_pin {edges pinned : List (String × String)} {actions : List Action}
    (hacyclic : Acyclic edges)
    (hway : Route edges Phase.installInitialize.name Phase.installFinalize.name)
    (h : pin edges actions = .ok pinned) : Acyclic pinned := by
  rcases exists_first (fun a => a.execute.isInScript = true ∧ ¬FreeInScript edges a.id) actions
    with hnone | ⟨earlier, a, later, rfl, ⟨hin, hforced⟩, hearlier⟩
  · have hfree : ∀ a ∈ actions, a.execute.isInScript → FreeInScript edges a.id :=
      fun a ha hin => not_not.mp fun hforced => hnone a ha ⟨hin, hforced⟩
    obtain ⟨pinned', hpin, hpinned⟩ := exists_pin_of_free hacyclic hway hfree
    rw [hpin] at h
    cases h
    exact hpinned
  · have hfree : ∀ b ∈ earlier, b.execute.isInScript → FreeInScript edges b.id :=
      fun b hb hbin => not_not.mp fun hforced => hearlier b hb ⟨hbin, hforced⟩
    rw [pin_first_forced hacyclic hway hfree hin hforced] at h
    cases h

/-! ## Where the making of a schedule ends -/

section Making
variable {fileKeys : List String} {declared : List Manifest.Action} {rules : List Manifest.Rule}
  {scope : Guard.Scope} {actions : List Action} {links : List Link}

/-- What ends the making of a schedule once its actions and rules are checked. -/
inductive Ends (links : List Link) (actions : List Action) : Violation → Prop
  | unscheduled (id : String) : Ends links actions (.unscheduledAction id)
  | contradiction {v : Violation} :
    orderSteps links (stepNames actions) (ruleEdges links) = .error v → Ends links actions v
  | pinning {v : Violation} {order : List String} :
    orderSteps links (stepNames actions) (ruleEdges links) = .ok order →
      pin (ruleEdges links) actions = .error v → Ends links actions v
  | ordering {v : Violation} {order : List String} {pinned : List (String × String)} :
    orderSteps links (stepNames actions) (ruleEdges links) = .ok order →
      pin (ruleEdges links) actions = .ok pinned →
        orderSteps links (stepNames actions) pinned = .error v → Ends links actions v
  | outside {v : Violation} {order : List String} :
    checkScript actions order = .error v → Ends links actions v
  | numbering {v : Violation} {order : List String} :
    numberFrom (conditionOf links) 0 sequenceStart order = .error v → Ends links actions v

/-- A schedule is not made because of an action, a rule, or a later stage. -/
theorem make_eq_error {v : Violation} (h : Schedule.make declared rules fileKeys scope = .error v) :
    checkActions fileKeys declared = .error v ∨
      ∃ actions, checkActions fileKeys declared = .ok actions ∧
        (rules.mapM (Link.ofRule (stepNames actions) scope) = .error v ∨
          ∃ links, rules.mapM (Link.ofRule (stepNames actions) scope) = .ok links ∧
            Ends links actions v) := by
  rw [Schedule.make] at h
  rcases bind_eq_error.mp h with hactions | ⟨actions, hactions, h⟩
  · exact .inl hactions
  refine .inr ⟨actions, hactions, ?_⟩
  rcases bind_eq_error.mp h with hlinks | ⟨links, hlinks, h⟩
  · exact .inl hlinks
  refine .inr ⟨links, hlinks, ?_⟩
  split at h
  · cases h
    exact .unscheduled _
  rcases bind_eq_error.mp h with hfirst | ⟨first, hfirst, h⟩
  · exact .contradiction hfirst
  rcases bind_eq_error.mp h with hpin | ⟨pinned, hpin, h⟩
  · exact .pinning hfirst hpin
  rcases bind_eq_error.mp h with horder | ⟨order, horder, h⟩
  · exact .ordering hfirst hpin horder
  rcases bind_eq_error.mp h with hscript | ⟨_, -, h⟩
  · exact .outside hscript
  rcases bind_eq_error.mp h with hsteps | ⟨steps, -, h⟩
  · exact .numbering hsteps
  · cases h

/-- Edges that some order of the steps keeps make no cycle. -/
theorem acyclic_of_orderSteps (hactions : checkActions fileKeys declared = .ok actions)
    (hlinks : rules.mapM (Link.ofRule (stepNames actions) scope) = .ok links)
    {order : List String}
    (h : orderSteps links (stepNames actions) (ruleEdges links) = .ok order) :
    Acyclic (ruleEdges links) := by
  obtain ⟨hperm, hkeeps⟩ := orderSteps_keeps h
  refine acyclic_of_sublist (hperm.nodup_iff.mpr (stepNames_nodup hactions)) fun e he => ?_
  obtain ⟨hfirst, hsecond⟩ := mem_of_ruleEdges hlinks (a := e.1) (b := e.2) he
  exact hkeeps e.1 e.2 he hfirst hsecond

/-- After the checks, only the first order can find a contradiction, and it finds a cycle. -/
theorem isCycle_of_ends (hactions : checkActions fileKeys declared = .ok actions)
    (hlinks : rules.mapM (Link.ofRule (stepNames actions) scope) = .ok links)
    {v : Violation} (h : Ends links actions v) {cycle : List String}
    (hv : v = .orderingContradiction cycle) : IsCycle (ruleEdges links) cycle := by
  cases h with
  | unscheduled => cases hv
  | contradiction horder =>
    obtain ⟨found, rfl, hfound⟩ := orderSteps_eq_error horder
    cases hv
    exact order_eq_error (fun a b hab => (mem_of_ruleEdges hlinks hab).1) hfound
  | pinning _ hpin =>
    obtain ⟨id, rfl⟩ := pin_eq_error hpin
    cases hv
  | ordering hfirst hpin horder =>
    obtain ⟨found, -, hfound⟩ := orderSteps_eq_error horder
    obtain ⟨a, ha⟩ := (order_eq_error (fun a b hab => mem_of_pinned hlinks hpin hab)
      hfound).exists_path
    have hpinned := acyclic_of_pin (acyclic_of_orderSteps hactions hlinks hfirst)
      (script_way links) hpin
    exact absurd ha (hpinned a)
  | outside hscript =>
    obtain ⟨id, rfl⟩ := checkScript_eq_error hscript
    cases hv
  | numbering hsteps =>
    obtain ⟨anchor, rfl⟩ := numberFrom_eq_error hsteps
    cases hv

/-- A contradiction that is reported is one. -/
theorem isContradiction_of_make {cycle : List String}
    (h : Schedule.make declared rules fileKeys scope = .error (.orderingContradiction cycle)) :
    IsContradiction rules cycle := by
  rcases make_eq_error h with hactions | ⟨actions, hactions, hrest⟩
  · exact absurd hactions actionsAfter_ne_contradiction
  rcases hrest with hrules | ⟨links, hlinks, hends⟩
  · obtain ⟨r, hr, hrule⟩ := exists_of_mapM_error hrules
    exact isContradiction_of_ofRule hr hrule
  · obtain ⟨hreturns, hclosed, hlinked⟩ := isCycle_of_ends hactions hlinks hends rfl
    exact ⟨hreturns, hclosed, edge_ruleEdges hlinks ▸ hlinked⟩

/-- A rule that has one anchor, names known steps and whose guard is accepted. Whether its two steps
differ is left open. -/
structure IsWellNamed (steps : List String) (scope : Guard.Scope) (r : Manifest.Rule) : Prop where
  subject : r.action ∈ steps
  anchor : ∃ anchor, anchorOf r = .ok anchor ∧ anchor.step ∈ steps
  guard : ∃ guard, guardOf scope r = .ok guard

/-- Such a rule is a link, unless it names one step twice. -/
theorem IsWellNamed.ofRule {steps : List String} {r : Manifest.Rule}
    (h : IsWellNamed steps scope r) : (∃ l, Link.ofRule steps scope r = .ok l) ∨
      Link.ofRule steps scope r = .error (.orderingContradiction [r.action, r.action]) := by
  obtain ⟨hsubject, ⟨anchor, hanchor, hknown⟩, ⟨guard, hguard⟩⟩ := h
  simp only [Link.ofRule, List.contains_eq_mem, hsubject, hanchor, ok_bind, hknown, decide_true,
    Bool.not_true, Bool.false_eq_true, if_false]
  by_cases hself : anchor.step = r.action
  · exact .inr (if_pos hself)
  · rw [if_neg hself, hguard]
    exact .inl ⟨_, rfl⟩

/-- A loop among the phases and rules is found. -/
theorem exists_contradiction_of_loop (hactions : checkActions fileKeys declared = .ok actions)
    (hrules : ∀ r ∈ rules, IsWellNamed (stepNames actions) scope r)
    (hsubjects : ∀ d ∈ declared, ∃ r ∈ rules, r.action = d.id) {step : String}
    (hloop : TransGen (Precedes rules) step step) :
    ∃ cycle, Schedule.make declared rules fileKeys scope =
      .error (.orderingContradiction cycle) := by
  cases hlinks : rules.mapM (Link.ofRule (stepNames actions) scope) with
  | error v =>
    obtain ⟨r, hr, hrule⟩ := exists_of_mapM_error hlinks
    rcases (hrules r hr).ofRule with ⟨l, hl⟩ | hself
    · rw [hl] at hrule
      cases hrule
    · rw [hself] at hrule
      cases hrule
      refine ⟨[r.action, r.action], ?_⟩
      rw [Schedule.make, hactions, ok_bind]
      simp only [hlinks, error_bind]
  | ok links =>
    have hmake := make_of_checks hactions hlinks (subjects_of_rules hactions hlinks hsubjects)
    cases horder : orderSteps links (stepNames actions) (ruleEdges links) with
    | ok order =>
      rw [← edge_ruleEdges hlinks] at hloop
      exact absurd hloop (acyclic_of_orderSteps hactions hlinks horder step)
    | error v =>
      obtain ⟨cycle, rfl, -⟩ := orderSteps_eq_error horder
      exact ⟨cycle, by rw [hmake, horder, error_bind]⟩

end Making

/-- Where actions are in order, rules name known steps and every action is scheduled: a
contradiction is reported exactly if the phases and the rules put some step before itself, and what
is shown leads along them from a step back to it. -/
theorem make_contradiction_iff {fileKeys : List String} {declared : List Manifest.Action}
    {rules : List Manifest.Rule} {scope : Guard.Scope} {actions : List Action}
    (hactions : checkActions fileKeys declared = .ok actions)
    (hrules : ∀ r ∈ rules, IsWellNamed (stepNames actions) scope r)
    (hsubjects : ∀ d ∈ declared, ∃ r ∈ rules, r.action = d.id) :
    ((∃ cycle, Schedule.make declared rules fileKeys scope =
        .error (.orderingContradiction cycle)) ↔
      ∃ step, TransGen (Precedes rules) step step) ∧
    ∀ cycle, Schedule.make declared rules fileKeys scope =
      .error (.orderingContradiction cycle) → IsContradiction rules cycle := by
  refine ⟨⟨?_, ?_⟩, fun cycle h => isContradiction_of_make h⟩
  · rintro ⟨cycle, h⟩
    exact (isContradiction_of_make h).exists_loop
  · rintro ⟨step, hloop⟩
    exact exists_contradiction_of_loop hactions hrules hsubjects hloop

/-- Two actions that go after each other, and a phase after one of them. -/
def tangledRules : List Manifest.Rule :=
  [⟨"Warm", none, some "Configure", none⟩, ⟨"Configure", none, some "Warm", none⟩,
    ⟨"CostInitialize", none, some "Warm", none⟩]

/-- The phases cannot be placed either, but only the two actions are shown. -/
theorem make_contradiction_tangled : (∃ step, TransGen (Precedes tangledRules) step step) ∧
    IsContradiction tangledRules ["Warm", "Configure", "Warm"] := by
  have hactions : checkActions ["SetupExe"]
      [⟨"Warm", "SetupExe", .immediate, true, none, ""⟩,
        ⟨"Configure", "SetupExe", .deferred, true, some .check, ""⟩] =
      .ok [⟨"Warm", "SetupExe", .immediate, true, .check, ""⟩,
        ⟨"Configure", "SetupExe", .deferred, true, .check, ""⟩] := by decide +kernel
  have hrules : ∀ r ∈ tangledRules,
      IsWellNamed (stepNames [⟨"Warm", "SetupExe", .immediate, true, .check, ""⟩,
        ⟨"Configure", "SetupExe", .deferred, true, .check, ""⟩]) ⟨Guard.builtins, [], []⟩ r := by
    simp only [tangledRules, List.forall_mem_cons]
    refine ⟨⟨by decide, ⟨_, rfl, by decide⟩, ⟨none, rfl⟩⟩,
      ⟨by decide, ⟨_, rfl, by decide⟩, ⟨none, rfl⟩⟩,
      ⟨by decide, ⟨_, rfl, by decide⟩, ⟨none, rfl⟩⟩, fun _ h => absurd h List.not_mem_nil⟩
  obtain ⟨hiff, hshown⟩ := make_contradiction_iff hactions hrules (by simp [tangledRules])
  have hmade : Schedule.make
      [⟨"Warm", "SetupExe", .immediate, true, none, ""⟩,
        ⟨"Configure", "SetupExe", .deferred, true, some .check, ""⟩]
      tangledRules ["SetupExe"] ⟨Guard.builtins, [], []⟩ =
        .error (.orderingContradiction ["Warm", "Configure", "Warm"]) := by decide +kernel
  exact ⟨hiff.mp ⟨_, hmade⟩, hshown _ hmade⟩

end Installer.Schedule
