import Installer.Proofs.Guard.Conjunction
import Installer.Proofs.Precedence.Order
import Installer.Proofs.Result
import Installer.Schedule.Basic

/-!
# What the checks of actions and rules establish

Accepted actions have ids of their own, so the steps have distinct names (`stepNames_nodup`), and an
accepted rule is a link between two different steps (`Link.ofRule_eq_ok`). A schedule is made by the
checks, two orders and the numbering, one after the other (`make_of_checks`, `make_eq_ok`); in which
order files and names are known does not matter (`make_congr`).
-/

set_option autoImplicit false

namespace Installer.Schedule
open Result

/-- An action settles its declaration: it keeps what is declared and has a return policy, which is
to check if none is declared. -/
structure Action.Settles (a : Action) (d : Manifest.Action) : Prop where
  id : a.id = d.id
  fileKey : a.fileKey = d.fileKey
  execute : a.execute = d.execute
  impersonate : a.impersonate = d.impersonate
  arguments : a.arguments = d.arguments
  returnPolicy : a.returnPolicy = d.returnPolicy.getD .check

theorem Action.ofDeclaration_eq_ok {fileKeys earlier : List String} {d : Manifest.Action}
    {a : Action} (h : Action.ofDeclaration fileKeys earlier d = .ok a) :
    a.Settles d ∧ d.id ∉ Phase.names ∧ d.id ∉ earlier ∧ d.fileKey ∈ fileKeys := by
  simp only [ofDeclaration, throw_bind, ite_error_eq_ok, Bool.or_eq_true, not_or,
    Phase.ofName?_isSome_iff, List.contains_eq_mem, decide_eq_true_eq, Bool.not_eq_true',
    decide_eq_false_iff_not, not_not] at h
  obtain ⟨⟨hphase, hearlier⟩, hfile, h⟩ := h
  refine ⟨?_, hphase, hearlier, hfile⟩
  split at h
  · next policy hpolicy =>
    cases h
    exact ⟨rfl, rfl, rfl, rfl, rfl, by rw [hpolicy]; rfl⟩
  · next hpolicy _ =>
    cases h
    exact ⟨rfl, rfl, rfl, rfl, rfl, by rw [hpolicy]; rfl⟩
  · cases h

/-- Accepted actions settle their declarations one by one, and the ids of these are new. -/
theorem actionsAfter_eq_ok {fileKeys : List String} : ∀ {declared : List Manifest.Action}
    {earlier : List String} {actions : List Action},
    actionsAfter fileKeys earlier declared = .ok actions →
      List.Forall₂ Action.Settles actions declared ∧ (declared.map (·.id)).Nodup ∧
        ∀ d ∈ declared, d.id ∉ Phase.names ∧ d.id ∉ earlier ∧ d.fileKey ∈ fileKeys
  | [], _, _, h => by
    cases h
    exact ⟨.nil, .nil, fun _ hd => absurd hd List.not_mem_nil⟩
  | d :: declared, earlier, actions, h => by
    obtain ⟨a, ha, hrest⟩ := bind_eq_ok.mp h
    obtain ⟨more, hmore, heq⟩ := bind_eq_ok.mp hrest
    cases heq
    obtain ⟨hsettles, hphase, hearlier, hfile⟩ := Action.ofDeclaration_eq_ok ha
    obtain ⟨hall, hnodup, hnew⟩ := actionsAfter_eq_ok hmore
    refine ⟨.cons hsettles hall, List.nodup_cons.mpr ⟨fun hmem => ?_, hnodup⟩, ?_⟩
    · obtain ⟨d', hd', hid⟩ := List.mem_map.mp hmem
      exact (hnew d' hd').2.1 (hid ▸ List.mem_cons_self)
    · refine List.forall_mem_cons.mpr ⟨⟨hphase, hearlier, hfile⟩, fun d' hd' => ?_⟩
      obtain ⟨hphase', hearlier', hfile'⟩ := hnew d' hd'
      exact ⟨hphase', fun hmem => hearlier' (List.mem_cons_of_mem _ hmem), hfile'⟩

section Actions
variable {fileKeys : List String} {declared : List Manifest.Action} {actions : List Action}

theorem checkActions_settles (h : checkActions fileKeys declared = .ok actions) :
    List.Forall₂ Action.Settles actions declared :=
  (actionsAfter_eq_ok h).1

theorem checkActions_ids (h : checkActions fileKeys declared = .ok actions) :
    actions.map (·.id) = declared.map (·.id) :=
  (map_eq_map_of_related (checkActions_settles h) fun _ _ hsettles => hsettles.id.symm).symm

theorem stepNames_eq (h : checkActions fileKeys declared = .ok actions) :
    stepNames actions = Phase.names ++ declared.map (·.id) := by
  rw [stepNames, checkActions_ids h]

theorem exists_action_of_declared (h : checkActions fileKeys declared = .ok actions)
    {d : Manifest.Action} (hd : d ∈ declared) : ∃ a ∈ actions, a.Settles d :=
  exists_related (checkActions_settles h).flip hd

/-- An accepted action runs a known file. -/
theorem checkActions_fileKey (h : checkActions fileKeys declared = .ok actions) {a : Action}
    (ha : a ∈ actions) : a.fileKey ∈ fileKeys := by
  obtain ⟨d, hd, hsettles⟩ := exists_related (checkActions_settles h) ha
  rw [hsettles.fileKey]
  exact ((actionsAfter_eq_ok h).2.2 d hd).2.2

/-- No action has a phase's name. -/
theorem checkActions_not_phase (h : checkActions fileKeys declared = .ok actions) {id : String}
    (hid : id ∈ actions.map (·.id)) : id ∉ Phase.names := by
  rw [checkActions_ids h] at hid
  obtain ⟨d, hd, rfl⟩ := List.mem_map.mp hid
  exact ((actionsAfter_eq_ok h).2.2 d hd).1

/-- Phases and accepted actions are steps of different names. -/
theorem stepNames_nodup (h : checkActions fileKeys declared = .ok actions) :
    (stepNames actions).Nodup := by
  refine List.nodup_append.mpr ⟨by decide, ?_, fun name hname id hid he => ?_⟩
  · rw [checkActions_ids h]
    exact (actionsAfter_eq_ok h).2.1
  · exact checkActions_not_phase h hid (he ▸ hname)

end Actions

/-! ## Rules -/

theorem anchorOf_eq_ok {r : Manifest.Rule} {anchor : Anchor} (h : anchorOf r = .ok anchor) :
    match anchor.side with
    | .before => r.before = some anchor.step ∧ r.after = none
    | .after => r.after = some anchor.step ∧ r.before = none := by
  rw [anchorOf] at h
  split at h <;> cases h <;> exact ⟨‹_›, ‹_›⟩

/-- An accepted rule is a link between two different steps. -/
theorem Link.ofRule_eq_ok {steps : List String} {scope : Guard.Scope} {r : Manifest.Rule}
    {l : Link} (h : Link.ofRule steps scope r = .ok l) :
    l.subject = r.action ∧ l.subject ∈ steps ∧ l.anchor.step ∈ steps ∧
      l.anchor.step ≠ l.subject ∧ anchorOf r = .ok l.anchor ∧ guardOf scope r = .ok l.guard := by
  simp only [ofRule, throw_bind, ite_error_eq_ok, bind_eq_ok, List.contains_eq_mem,
    Bool.not_eq_true', decide_eq_false_iff_not, not_not] at h
  obtain ⟨hsubject, anchor, hanchor, hknown, hne, guard, hguard, heq⟩ := h
  cases heq
  exact ⟨rfl, hsubject, hknown, hne, hanchor, hguard⟩

/-- The edge of a link that a rule makes, read off the rule. -/
theorem Link.edge_of_rule {steps : List String} {scope : Guard.Scope} {r : Manifest.Rule}
    {l : Link} (h : Link.ofRule steps scope r = .ok l) :
    (∀ step, r.after = some step → l.edge = (step, r.action)) ∧
      (∀ step, r.before = some step → l.edge = (r.action, step)) := by
  obtain ⟨hsubject, -, -, -, hanchor, -⟩ := Link.ofRule_eq_ok h
  have hside := anchorOf_eq_ok hanchor
  cases hs : l.anchor.side with
  | before =>
    simp only [hs] at hside
    simp only [Link.edge, hs, hsubject, hside.1, hside.2, reduceCtorEq, false_implies,
      implies_true, Option.some.injEq, Prod.mk.injEq, true_and, and_self, imp_self]
  | after =>
    simp only [hs] at hside
    simp only [Link.edge, hs, hsubject, hside.1, hside.2, reduceCtorEq, false_implies,
      implies_true, Option.some.injEq, Prod.mk.injEq, and_true, and_self, imp_self]

/-- The edges of the rules and those of the phases join steps. -/
theorem mem_of_ruleEdges {actions : List Action} {scope : Guard.Scope}
    {rules : List Manifest.Rule} {links : List Link}
    (h : rules.mapM (Link.ofRule (stepNames actions) scope) = .ok links) {a b : String}
    (hab : Precedence.Edge (ruleEdges links) a b) :
    a ∈ stepNames actions ∧ b ∈ stepNames actions := by
  rcases List.mem_append.mp hab with hchain | hlink
  · have hphases : ∀ e ∈ phaseChain, e.1 ∈ Phase.names ∧ e.2 ∈ Phase.names := by decide
    obtain ⟨ha, hb⟩ := hphases _ hchain
    exact ⟨List.mem_append_left _ ha, List.mem_append_left _ hb⟩
  · obtain ⟨l, hl, hedge⟩ := List.mem_map.mp hlink
    obtain ⟨r, -, hr⟩ := exists_of_mem_result h hl
    obtain ⟨-, hsubject, hanchor, -⟩ := Link.ofRule_eq_ok hr
    rw [Link.edge] at hedge
    split at hedge <;> cases hedge
    · exact ⟨hsubject, hanchor⟩
    · exact ⟨hanchor, hsubject⟩

/-! ## Making a schedule -/

section Making
variable {declared : List Manifest.Action} {rules : List Manifest.Rule} {fileKeys : List String}
  {scope : Guard.Scope} {actions : List Action} {links : List Link}

/-- Where every declared action is the subject of a rule, every action is that of a link. -/
theorem subjects_of_rules (hactions : checkActions fileKeys declared = .ok actions)
    (hlinks : rules.mapM (Link.ofRule (stepNames actions) scope) = .ok links)
    (hsubjects : ∀ d ∈ declared, ∃ r ∈ rules, r.action = d.id) :
    ∀ a ∈ actions, ∃ l ∈ links, l.subject = a.id := by
  intro a ha
  obtain ⟨d, hd, hsettles⟩ := exists_related (checkActions_settles hactions) ha
  obtain ⟨r, hr, hsubject⟩ := hsubjects d hd
  obtain ⟨l, hl, hof⟩ := exists_result_of_mem hlinks hr
  have hid : l.subject = r.action := (Link.ofRule_eq_ok hof).1
  exact ⟨l, hl, hid.trans (hsubject.trans hsettles.id.symm)⟩

/-- Once the actions and rules are checked and every action is the subject of a rule, a schedule is
ordered twice, without and with the script, and then numbered. -/
theorem make_of_checks (hactions : checkActions fileKeys declared = .ok actions)
    (hlinks : rules.mapM (Link.ofRule (stepNames actions) scope) = .ok links)
    (hsubjects : ∀ a ∈ actions, ∃ l ∈ links, l.subject = a.id) :
    Schedule.make declared rules fileKeys scope = do
      let _ ← orderSteps links (stepNames actions) (ruleEdges links)
      let pinned ← pin (ruleEdges links) actions
      let order ← orderSteps links (stepNames actions) pinned
      checkScript actions order
      let steps ← numberFrom (conditionOf links) 0 sequenceStart order
      return ⟨actions, steps⟩ := by
  have hfind : actions.find? (fun a => !links.any (·.subject = a.id)) = none := by
    refine List.find?_eq_none.mpr fun a ha => ?_
    obtain ⟨l, hl, hsubject⟩ := hsubjects a ha
    simpa using ⟨l, hl, hsubject⟩
  rw [Schedule.make, hactions, ok_bind]
  simp only [hlinks, ok_bind, hfind]

/-- What has succeeded when a schedule is made. -/
structure Stages (links : List Link) (actions : List Action) (steps : List Step) : Prop where
  subjects : ∀ a ∈ actions, ∃ l ∈ links, l.subject = a.id
  ordered : ∃ order pinned, pin (ruleEdges links) actions = .ok pinned ∧
    orderSteps links (stepNames actions) pinned = .ok order ∧
    checkScript actions order = .ok () ∧
    numberFrom (conditionOf links) 0 sequenceStart order = .ok steps

theorem make_eq_ok {s : Schedule} (h : Schedule.make declared rules fileKeys scope = .ok s) :
    checkActions fileKeys declared = .ok s.actions ∧
      ∃ links, rules.mapM (Link.ofRule (stepNames s.actions) scope) = .ok links ∧
        Stages links s.actions s.steps := by
  rw [Schedule.make] at h
  obtain ⟨actions, hactions, h⟩ := bind_eq_ok.mp h
  obtain ⟨links, hlinks, h⟩ := bind_eq_ok.mp h
  split at h
  · cases h
  · next hfind =>
    obtain ⟨first, -, h⟩ := bind_eq_ok.mp h
    obtain ⟨pinned, hpinned, h⟩ := bind_eq_ok.mp h
    obtain ⟨order, horder, h⟩ := bind_eq_ok.mp h
    obtain ⟨_, hscript, h⟩ := bind_eq_ok.mp h
    obtain ⟨steps, hsteps, h⟩ := bind_eq_ok.mp h
    cases h
    refine ⟨hactions, links, hlinks, fun a ha => ?_, order, pinned, hpinned, horder, hscript,
      hsteps⟩
    simpa using List.find?_eq_none.mp hfind a ha

end Making

/-! ## What is known in another order -/

section Known
variable {fileKeys fileKeys' : List String} {scope scope' : Guard.Scope}

theorem checkActions_congr (h : ∀ key, key ∈ fileKeys' ↔ key ∈ fileKeys)
    (declared : List Manifest.Action) :
    checkActions fileKeys' declared = checkActions fileKeys declared := by
  have hafter : ∀ earlier, actionsAfter fileKeys' earlier declared =
      actionsAfter fileKeys earlier declared := by
    induction declared with
    | nil => exact fun _ => rfl
    | cons a rest ih =>
      intro earlier
      rw [actionsAfter, actionsAfter, Action.ofDeclaration, Action.ofDeclaration, contains_congr h,
        ih]
  exact hafter []

theorem Link.ofRule_congr
    (h : ∀ o name, name ∈ scope'.namesFor o ↔ name ∈ scope.namesFor o) (steps : List String) :
    Link.ofRule steps scope' = Link.ofRule steps scope := by
  funext r
  have hguard : guardOf scope' r = guardOf scope r := by
    rw [guardOf, guardOf]
    cases r.condition with
    | none => rfl
    | some text => simp only [Guard.check_congr h]
  rw [Link.ofRule, Link.ofRule, hguard]

/-- A schedule is made from what files there are and what names guards may use, in whatever order
they are. -/
theorem make_congr (hfileKeys : ∀ key, key ∈ fileKeys' ↔ key ∈ fileKeys)
    (hscope : ∀ o name, name ∈ scope'.namesFor o ↔ name ∈ scope.namesFor o)
    (declared : List Manifest.Action) (rules : List Manifest.Rule) :
    Schedule.make declared rules fileKeys' scope' = Schedule.make declared rules fileKeys scope := by
  rw [Schedule.make, Schedule.make, checkActions_congr hfileKeys]
  simp only [Link.ofRule_congr hscope]

end Known

end Installer.Schedule
