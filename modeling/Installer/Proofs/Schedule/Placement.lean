import Installer.Proofs.Schedule.Anchors
import Installer.Proofs.Schedule.Hanging

/-!
# Where actions are placed

With one rule for each action, and where first anchors lead from every action to a phase, every rule
puts the lower rank first, so the steps only line up (`orderSteps_eq_lineUp`). Immediate actions that
hang after phases or stand before them line up in the gaps, and so they are numbered there if they fit
(`make_of_fits`), or the first gap that is too small is named (`make_of_find?`). Main statement:
`make_placement`.

Two views of the steps meet in the gaps. By rank they fall into the gaps, and by anchors the actions
of a gap are those that hang or stand there; while they fit, these are the same (`ranged_eq_actions`).
The numbers are then given gap by gap.

**What it does not establish.** It is about immediate actions with one rule each that hang after
phases or stand right before them. Actions with several rules, actions that stand before an action,
and actions of the script are scheduled too, and it is not said here where they come to stand.
-/

set_option autoImplicit false

namespace Installer.Schedule
open Precedence Result

/-- Immediate actions with one rule each, which puts the action right before a phase or, through
anchors that are all on the side after, hangs it after one. -/
structure ArePlaced (declared : List Manifest.Action) (rules : List Manifest.Rule) : Prop where
  immediate : ∀ d ∈ declared, d.execute = .immediate
  single : (rules.map (·.action)).Perm (declared.map (·.id))
  anchored : ∀ d ∈ declared, (∃ q, declaredAnchor rules d.id = some ⟨Phase.name q, .before⟩) ∨
    ∃ p n, LeadsTo (declaredAnchor rules) p (List.replicate n .after) d.id

/-- The actions that declarations and rules place in a gap. -/
def placedIn (declared : List Manifest.Action) (rules : List Manifest.Rule) (g : Gap) : List String :=
  g.actions (declaredAnchor rules) (declared.map (·.id))

/-! ## Schedules -/

section Making
variable {fileKeys : List String} {declared : List Manifest.Action} {rules : List Manifest.Rule}
  {scope : Guard.Scope} {actions : List Action} {links : List Link}

/-- The phases of the chain come one after the other. -/
theorem exists_phases_of_chain {a b : String} (h : Edge phaseChain a b) :
    ∃ p q : Phase, a = p.name ∧ b = q.name ∧ p.number < q.number := by
  have hall : ∀ e ∈ phaseChain, ∃ p ∈ Phase.all, ∃ q ∈ Phase.all,
      e.1 = p.name ∧ e.2 = q.name ∧ p.number < q.number := by decide +kernel
  obtain ⟨p, -, q, -, h⟩ := hall _ h
  exact ⟨p, q, h⟩

/-- Actions of which none is of the script add no edges. -/
theorem pin_of_immediate {edges : List (String × String)}
    (h : ∀ a ∈ actions, ¬a.execute.isInScript) : pin edges actions = .ok edges := by
  induction actions with
  | nil => rfl
  | cons a rest ih =>
    obtain ⟨ha, hrest⟩ := List.forall_mem_cons.mp h
    rw [pin_immediate ha, ih hrest]

section Leading
variable (hlinks : rules.mapM (Link.ofRule (stepNames actions) scope) = .ok links)
include hlinks

/-- A step that leads to a phase ranks one away from its anchor. -/
theorem rank_of_hangs {side : Side} {step next : String} (hstep : step ∈ stepNames actions)
    (hnext : next ∈ stepNames actions) (h : Hangs (declaredAnchor rules) side step next)
    (hleads : ∃ p sides, LeadsTo (declaredAnchor rules) p sides step) :
    rankIn (ranks links (stepNames actions)) step =
      rankIn (ranks links (stepNames actions)) next + side.shift := by
  obtain ⟨p, sides, hp⟩ := hleads
  rw [rank_of_leadsTo hlinks hstep hp]
  cases hp with
  | phase => exact absurd (Phase.name_mem p) h.1
  | @action _ a rest _ hanchor hrest =>
    rw [h.2] at hanchor
    cases hanchor
    rw [rank_of_leadsTo hlinks hnext hrest, rankAlong_cons]

/-- With one rule for each action, and where the first anchors lead from every step to a phase, every
edge goes up in rank, so the steps only line up. -/
theorem orderSteps_eq_lineUp (hactions : checkActions fileKeys declared = .ok actions)
    (hnodup : (rules.map (·.action)).Nodup) (hphases : ∀ r ∈ rules, r.action ∉ Phase.names)
    (hleads : ∀ step ∈ stepNames actions, ∃ p sides, LeadsTo (declaredAnchor rules) p sides step) :
    orderSteps links (stepNames actions) (ruleEdges links) =
      .ok (lineUp (grade (ranks links (stepNames actions))) (stepNames actions)) := by
  have hanchors : ∀ r ∈ rules, ∃ anchor, anchorOf r = .ok anchor := by
    intro r hr
    obtain ⟨l, -, hof⟩ := exists_result_of_mem hlinks hr
    exact ⟨l.anchor, (Link.ofRule_eq_ok hof).2.2.2.2.1⟩
  rw [orderSteps_eq_ok]
  refine order_eq_lineUp (goesFirst_iff _) (stepNames_nodup hactions)
    (fun a b h => (mem_of_ruleEdges hlinks h).1) fun a b hab => .inl ?_
  obtain ⟨ha, hb⟩ := mem_of_ruleEdges hlinks hab
  rw [edge_ruleEdges hlinks] at hab
  rcases hangs_of_precedes hnodup hphases hanchors hab with hchain | hbefore | hafter
  · obtain ⟨p, q, rfl, rfl, hlt⟩ := exists_phases_of_chain hchain
    rw [grade_name, grade_name]
    omega
  · have hrank := rank_of_hangs hlinks ha hb hbefore (hleads a ha)
    have hle := two_mul_rank_le_grade (ranks links (stepNames actions)) b
    rw [grade_action _ hbefore.1, hrank]
    simp only [Side.shift]
    omega
  · have hrank := rank_of_hangs hlinks hb ha hafter (hleads b hb)
    have hle := grade_le_two_mul_rank (ranks links (stepNames actions)) a
    rw [grade_action _ hafter.1, hrank]
    simp only [Side.shift]
    omega

end Leading

section Placing
variable (hactions : checkActions fileKeys declared = .ok actions)
  (hlinks : rules.mapM (Link.ofRule (stepNames actions) scope) = .ok links)
  (h : ArePlaced declared rules)
include hactions hlinks h

omit hlinks in
theorem leads_of_placed : ∀ step ∈ stepNames actions,
    ∃ p sides, LeadsTo (declaredAnchor rules) p sides step := by
  intro step hstep
  by_cases hphase : step ∈ Phase.names
  · obtain ⟨p, -, rfl⟩ := List.mem_map.mp hphase
    exact ⟨p, [], .phase⟩
  · have hid := (List.mem_append.mp hstep).resolve_left hphase
    rw [checkActions_ids hactions] at hid
    obtain ⟨d, hd, rfl⟩ := List.mem_map.mp hid
    rcases h.anchored d hd with ⟨q, hq⟩ | ⟨p, n, hp⟩
    · exact ⟨q, [.before], .action hphase hq .phase⟩
    · exact ⟨p, _, hp⟩

theorem places_of_placed : Places (declaredAnchor rules) (declared.map (·.id))
    (ranks links (stepNames actions)) := by
  have hsteps := stepNames_eq hactions
  have hids : ∀ id ∈ declared.map (·.id), id ∉ Phase.names := fun id hid =>
    checkActions_not_phase hactions (checkActions_ids hactions ▸ hid)
  have hclosed : ∀ id ∈ declared.map (·.id), ∀ a, declaredAnchor rules id = some a →
      a.step ∈ Phase.names ++ declared.map (·.id) := by
    intro id _ a ha
    rw [← firstAnchor_eq_declaredAnchor hlinks] at ha
    exact hsteps ▸ firstAnchor_mem hlinks id ha
  have hmem : ∀ {p n a}, a ∈ hung (declaredAnchor rules) (declared.map (·.id)) p n →
      a ∈ Phase.names ++ declared.map (·.id) := by
    intro p n a ha
    cases n with
    | zero => exact List.mem_append_left _ (List.mem_singleton.mp ha ▸ Phase.name_mem p)
    | succ n => exact List.mem_append_right _ (mem_hung_succ.mp ha).1
  refine ⟨hsteps ▸ stepNames_nodup hactions, fun p n a ha => ?_, fun q a ha => ?_, fun a ha => ?_⟩
  · have hleads := (mem_hung_iff hids hclosed (hmem ha)).mp ha
    rw [rank_of_leadsTo hlinks (hsteps ▸ hmem ha) hleads]
    simp [rankAlong, List.count_replicate]
  · obtain ⟨hid, hanchor⟩ := mem_standing.mp ha
    have hleads : LeadsTo (declaredAnchor rules) q [.before] a :=
      .action (hids a hid) hanchor .phase
    rw [rank_of_leadsTo hlinks (hsteps ▸ List.mem_append_right _ hid) hleads]
    simp [rankAlong]
  · obtain ⟨d, hd, rfl⟩ := List.mem_map.mp ha
    rcases h.anchored d hd with ⟨q, hq⟩ | ⟨p, n, hp⟩
    · exact .inl ⟨q, mem_standing.mpr ⟨ha, hq⟩⟩
    · have hhung := (mem_hung_iff hids hclosed (List.mem_append_right _ ha)).mpr hp
      cases n with
      | zero => exact absurd (List.mem_singleton.mp hhung ▸ Phase.name_mem p) (hids _ ha)
      | succ n => exact .inr ⟨p, n, hhung⟩

/-- The actions line up in the gaps and are numbered there. -/
theorem make_of_placed : Schedule.make declared rules fileKeys scope = do
    let steps ← numberFrom (conditionOf links) 0 sequenceStart (Gap.all.flatMap fun g =>
      g.steps (ranged (ranks links (stepNames actions)) (stepNames actions) g))
    return ⟨actions, steps⟩ := by
  have hsubjects : ∀ r ∈ rules, ∃ d ∈ declared, d.id = r.action := fun r hr =>
    List.mem_map.mp (h.single.mem_iff.mp (List.mem_map_of_mem hr))
  have hrules : ∀ d ∈ declared, ∃ r ∈ rules, r.action = d.id := fun d hd =>
    List.mem_map.mp (h.single.mem_iff.mpr (List.mem_map_of_mem hd))
  have hids := checkActions_ids hactions
  have hnodup : (rules.map (·.action)).Nodup := by
    rw [h.single.nodup_iff, ← hids]
    exact (List.nodup_append.mp (stepNames_nodup hactions)).2.1
  have hphases : ∀ r ∈ rules, r.action ∉ Phase.names := by
    intro r hr
    obtain ⟨d, hd, hid⟩ := hsubjects r hr
    exact hid ▸ checkActions_not_phase hactions (hids ▸ List.mem_map_of_mem hd)
  have himmediate : ∀ a ∈ actions, ¬a.execute.isInScript := by
    intro a ha
    obtain ⟨d, hd, hsettles⟩ := exists_related (checkActions_settles hactions) ha
    rw [hsettles.execute, h.immediate d hd]
    decide
  have hpin : pin (ruleEdges links) actions = .ok (ruleEdges links) := pin_of_immediate himmediate
  have horder := orderSteps_eq_lineUp hlinks hactions hnodup hphases
    (leads_of_placed hactions h)
  have hscript := checkScript_of_keeps (keeps_of_orderSteps hactions hlinks hpin horder)
  rw [make_of_checks hactions hlinks (subjects_of_rules hactions hlinks hrules), horder, ok_bind,
    hpin, ok_bind, horder, ok_bind, hscript, ok_bind,
    lineUp_eq_gaps (stepNames_nodup hactions) (List.subset_append_left _ _)]

/-- Actions that fit in the gaps are scheduled there. -/
theorem make_of_fits (hfits : ∀ g ∈ Gap.all, g.Fits (placedIn declared rules g).length) :
    Schedule.make declared rules fileKeys scope =
      .ok ⟨actions,
        Gap.all.flatMap fun g => g.numbered (conditionOf links) (placedIn declared rules g)⟩ := by
  have hplaces := places_of_placed hactions hlinks h
  have hfill : ∀ g ∈ Gap.all,
      g.steps (ranged (ranks links (stepNames actions)) (stepNames actions) g) =
        g.steps (placedIn declared rules g) := by
    intro g hg
    rw [stepNames_eq hactions] at hplaces ⊢
    rw [placedIn, ranged_eq_actions hplaces hg fun g' hg' _ => hfits g' hg']
  have hnames : ∀ g, ∀ a ∈ placedIn declared rules g, Phase.ofName? a = none := fun g a ha =>
    ofName?_eq_none (hplaces.not_phase (mem_of_actions ha))
  rw [make_of_placed hactions hlinks h, List.flatMap_congr hfill, numberFrom_all hnames hfits]
  rfl

/-- Where they do not fit, the first gap that is too small is named. -/
theorem make_of_find? {g : Gap}
    (hfind : Gap.all.find? (fun g => ¬g.Fits (placedIn declared rules g).length) = some g) :
    Schedule.make declared rules fileKeys scope = .error (.sequenceGapExhausted g.name) := by
  have hplaces := places_of_placed hactions hlinks h
  have hranged := (find?_ranged hplaces).trans hfind
  rw [← stepNames_eq hactions] at hranged
  have hnames : ∀ g : Gap,
      ∀ a ∈ ranged (ranks links (stepNames actions)) (stepNames actions) g,
        Phase.ofName? a = none := fun g a ha => ofName?_eq_none (mem_ranged.mp ha).2.1
  rw [make_of_placed hactions hlinks h, numberFrom_all_exhausted hnames hranged]
  rfl

end Placing
end Making

/-- Immediate actions that each have one rule and stand right before a phase or hang after one are
scheduled exactly if they fit in the gaps. Then each gap holds the actions that hang after the phase
that opens it, the nearest first, and those that stand before the phase that closes it, each as
declared, all numbered one after the other. Otherwise the first gap that is too small is named. -/
theorem make_placement {fileKeys : List String} {declared : List Manifest.Action}
    {rules : List Manifest.Rule} {scope : Guard.Scope} {actions : List Action} {links : List Link}
    (hactions : checkActions fileKeys declared = .ok actions)
    (hlinks : rules.mapM (Link.ofRule (stepNames actions) scope) = .ok links)
    (h : ArePlaced declared rules) :
    ((∃ s, Schedule.make declared rules fileKeys scope = .ok s) ↔
      ∀ g ∈ Gap.all, g.Fits (placedIn declared rules g).length) ∧
    (∀ s, Schedule.make declared rules fileKeys scope = .ok s →
      s.steps = Gap.all.flatMap fun g => g.numbered (conditionOf links) (placedIn declared rules g)) ∧
    ∀ g, Gap.all.find? (fun g => ¬g.Fits (placedIn declared rules g).length) = some g →
      Schedule.make declared rules fileKeys scope = .error (.sequenceGapExhausted g.name) := by
  have herror := fun g => make_of_find? hactions hlinks h (g := g)
  cases hfind : Gap.all.find? fun g => ¬g.Fits (placedIn declared rules g).length with
  | none =>
    have hfits : ∀ g ∈ Gap.all, g.Fits (placedIn declared rules g).length := by
      simpa only [List.find?_eq_none, decide_eq_true_iff, not_not] using hfind
    have hmake := make_of_fits hactions hlinks h hfits
    refine ⟨⟨fun _ => hfits, fun _ => ⟨_, hmake⟩⟩, fun s hs => ?_, nofun⟩
    rw [hmake] at hs
    cases hs
    rfl
  | some g =>
    have hmake := herror g hfind
    refine ⟨⟨fun ⟨s, hs⟩ => ?_, fun hfits => ?_⟩, fun s hs => ?_, fun g' hg' => ?_⟩
    · rw [hmake] at hs
      cases hs
    · have hfull := List.find?_some hfind
      rw [decide_eq_true_iff] at hfull
      exact absurd (hfits g (List.mem_of_find?_eq_some hfind)) hfull
    · rw [hmake] at hs
      cases hs
    · exact herror g' (hfind.trans hg')

/-- Four immediate actions, declared against the chain that two of them are in. -/
def chainedActions : List Manifest.Action :=
  [⟨"Report", "SetupExe", .immediate, true, none, ""⟩,
    ⟨"Check", "SetupExe", .immediate, true, none, ""⟩,
    ⟨"Probe", "SetupExe", .immediate, true, none, ""⟩,
    ⟨"Warm", "SetupExe", .immediate, true, none, ""⟩]

/-- One rule each: two actions hang after a phase, one stands before the next phase, and one before
all phases. -/
def chainedRules : List Manifest.Rule :=
  [⟨"Report", none, some "Probe", none⟩, ⟨"Check", some "InstallValidate", none, none⟩,
    ⟨"Probe", none, some "CostFinalize", none⟩,
    ⟨"Warm", some "CostInitialize", none, some "NOT Installed"⟩]

/-- The chain comes nearest to its phase, and all are numbered. -/
theorem make_placement_chain :
    ArePlaced chainedActions chainedRules ∧
    ∃ s, Schedule.make chainedActions chainedRules ["SetupExe"] ⟨Guard.builtins, [], []⟩ = .ok s ∧
      s.steps.take 6 = [⟨"Warm", .action, 1, some "NOT Installed"⟩,
        ⟨"CostInitialize", .phase, 800, none⟩, ⟨"CostFinalize", .phase, 1000, none⟩,
        ⟨"Probe", .action, 1001, none⟩, ⟨"Report", .action, 1002, none⟩,
        ⟨"Check", .action, 1003, none⟩] := by
  have hactions : checkActions ["SetupExe"] chainedActions =
      .ok [⟨"Report", "SetupExe", .immediate, true, .check, ""⟩,
        ⟨"Check", "SetupExe", .immediate, true, .check, ""⟩,
        ⟨"Probe", "SetupExe", .immediate, true, .check, ""⟩,
        ⟨"Warm", "SetupExe", .immediate, true, .check, ""⟩] := by decide +kernel
  have hlinks : chainedRules.mapM (Link.ofRule
        (Phase.names ++ ["Report", "Check", "Probe", "Warm"]) ⟨Guard.builtins, [], []⟩) =
      .ok [⟨"Report", ⟨"Probe", .after⟩, none⟩, ⟨"Check", ⟨"InstallValidate", .before⟩, none⟩,
        ⟨"Probe", ⟨"CostFinalize", .after⟩, none⟩,
        ⟨"Warm", ⟨"CostInitialize", .before⟩, some "NOT Installed"⟩] := by decide +kernel
  have hprobe : LeadsTo (declaredAnchor chainedRules) .costFinalize [.after] "Probe" :=
    .action (a := ⟨"CostFinalize", .after⟩) (by decide) rfl .phase
  have hreport : LeadsTo (declaredAnchor chainedRules) .costFinalize [.after, .after] "Report" :=
    .action (a := ⟨"Probe", .after⟩) (by decide) rfl hprobe
  have hplaced : ArePlaced chainedActions chainedRules := by
    refine ⟨by decide, .refl _, ?_⟩
    simp only [chainedActions, List.forall_mem_cons]
    exact ⟨.inr ⟨_, 2, hreport⟩, .inl ⟨.installValidate, rfl⟩, .inr ⟨_, 1, hprobe⟩,
      .inl ⟨.costInitialize, rfl⟩, fun _ h => absurd h List.not_mem_nil⟩
  obtain ⟨hiff, hsteps, -⟩ := make_placement hactions hlinks hplaced
  obtain ⟨s, hs⟩ := hiff.mpr (by decide +kernel)
  exact ⟨hplaced, s, hs, by rw [hsteps s hs]; decide +kernel⟩

end Installer.Schedule
