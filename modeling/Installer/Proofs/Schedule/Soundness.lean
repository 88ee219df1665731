import Installer.Proofs.Schedule.Checks
import Installer.Proofs.Schedule.Numbers

/-!
# A schedule keeps what its actions and rules ask for

Every order that is found keeps the edges of the phases, of the rules and of the script
(`orderSteps_keeps`), so the phases stay in order among the actions (`phases_of_order`) and every
action of the script is inside it. Main statement: `make_isSound`.

The proof goes along the stages in which a schedule is made: first what an order keeps (`Keeps`), then
the numbers, which ascend because an action is checked against the phase that comes next. An order
keeps all edges, so how ranks choose between steps plays no part.

**What it does not establish.** That a schedule is made is not shown here. The numbers are words of 32
bits and ascend as long as the last of them has not gone past the end.
-/

set_option autoImplicit false

namespace Installer.Schedule
open Precedence Result

/-- What the steps of a schedule owe to the actions and rules that it is made of. -/
structure IsSound (declared : List Manifest.Action) (rules : List Manifest.Rule)
    (steps : List Step) : Prop where
  /-- Each phase and each action is a step once, and there is no other step. -/
  complete : (steps.map fun t => (t.name, t.kind)).Perm
    (Phase.names.map (·, .phase) ++ declared.map (·.id, .action))
  distinct : (steps.map (·.name)).Nodup
  /-- The phases come in their order and have their own numbers. -/
  phases : (steps.filter (·.kind = .phase)).map (fun t => (t.name, t.number)) =
    Phase.all.map fun p => (p.name, .ofNat p.number)
  /-- The numbers are the words for strictly ascending ones. -/
  numbers : ∃ ns : List Nat, steps.map (·.number) = ns.map UInt32.ofNat ∧ ns.Pairwise (· < ·) ∧
    ∀ n ∈ ns, n ≤ Phase.installFinalize.number + declared.length
  /-- So the words ascend themselves, unless there are more actions than words. -/
  ascending : Phase.installFinalize.number + declared.length < UInt32.size →
    (steps.map (·.number)).Pairwise (· < ·)
  after : ∀ r ∈ rules, ∀ anchor, r.after = some anchor →
    [anchor, r.action].Sublist (steps.map (·.name))
  before : ∀ r ∈ rules, ∀ anchor, r.before = some anchor →
    [r.action, anchor].Sublist (steps.map (·.name))
  script : ∀ a ∈ declared, a.execute.isInScript →
    [Phase.installInitialize.name, a.id, Phase.installFinalize.name].Sublist (steps.map (·.name))

/-- Pinning adds the edges of every action of the script. -/
theorem pin_eq_ok {edges pinned : List (String × String)} {actions : List Action}
    (h : pin edges actions = .ok pinned) :
    pinned = edges ++
      (actions.filter (·.execute.isInScript)).flatMap (fun a => scriptEdges a.id) := by
  induction actions generalizing edges with
  | nil =>
    cases h
    simp
  | cons a rest ih =>
    rw [pin] at h
    split at h
    · next hout =>
      rw [ih h, List.filter_cons_of_neg (by simpa using hout)]
    · next hin =>
      split at h
      · cases h
      · rw [ih h, List.filter_cons_of_pos (by simpa using hin), List.flatMap_cons,
          List.append_assoc]

/-- Pinning fails only because an action is outside the script. -/
theorem pin_eq_error {edges : List (String × String)} {actions : List Action} {v : Violation}
    (h : pin edges actions = .error v) : ∃ id, v = .deferredOutsideScript id := by
  induction actions generalizing edges with
  | nil => cases h
  | cons a rest ih =>
    rw [pin] at h
    split at h
    · exact ih h
    · split at h
      · cases h
        exact ⟨a.id, rfl⟩
      · exact ih h

theorem orderSteps_eq_ok {links : List Link} {steps order : List String}
    {edges : List (String × String)} :
    orderSteps links steps edges = .ok order ↔
      Precedence.order (goesFirst (ranks links steps)) steps edges = .ok order := by
  rw [orderSteps]
  split <;> next h => simp [h]

/-- Ordering fails only because the edges contradict each other. -/
theorem orderSteps_eq_error {links : List Link} {steps : List String}
    {edges : List (String × String)} {v : Violation}
    (h : orderSteps links steps edges = .error v) : ∃ cycle, v = .orderingContradiction cycle ∧
      Precedence.order (goesFirst (ranks links steps)) steps edges = .error cycle := by
  rw [orderSteps] at h
  split at h
  · cases h
  · next cycle hcycle =>
    cases h
    exact ⟨cycle, rfl, hcycle⟩

/-- An order of the steps has each step once and keeps the edges between steps. -/
theorem orderSteps_keeps {links : List Link} {steps order : List String}
    {edges : List (String × String)} (h : orderSteps links steps edges = .ok order) :
    order.Perm steps ∧
      ∀ a b, Edge edges a b → a ∈ steps → b ∈ steps → [a, b].Sublist order :=
  order_eq_ok (orderSteps_eq_ok.mp h)

/-- Edges between the steps that make no cycle can be kept. -/
theorem exists_orderSteps (links : List Link) {steps : List String}
    {edges : List (String × String)} (hnodes : ∀ a b, Edge edges a b → a ∈ steps)
    (hacyclic : Acyclic edges) : ∃ order, orderSteps links steps edges = .ok order := by
  obtain ⟨order, horder⟩ := exists_order_of_acyclic hnodes hacyclic
  exact ⟨order, orderSteps_eq_ok.mpr horder⟩

theorem isChain_of_zip_tail {α : Type} {R : α → α → Prop} : ∀ {l : List α},
    (∀ e ∈ l.zip l.tail, R e.1 e.2) → l.IsChain R
  | [], _ => .nil
  | [a], _ => .singleton a
  | a :: b :: _, h =>
    .cons_cons (h (a, b) List.mem_cons_self)
      (isChain_of_zip_tail fun e he => h e (List.mem_cons_of_mem _ he))

/-- An order that keeps the phases in order, with other steps among them, has exactly the phases in
their order. -/
theorem phases_of_order {order ids : List String} (hperm : order.Perm (Phase.names ++ ids))
    (hids : ∀ id ∈ ids, id ∉ Phase.names) (hnodup : order.Nodup)
    (hkeeps : ∀ a b, Edge phaseChain a b → [a, b].Sublist order) :
    order.filterMap Phase.ofName? = Phase.all := by
  have hsub : Phase.names.Sublist order := by
    refine sublist_of_chain hnodup (fun a ha => ?_) (isChain_of_zip_tail fun e he => ?_)
    · exact hperm.mem_iff.mpr (List.mem_append_left _ ha)
    · exact hkeeps e.1 e.2 he
  have hphases : order.filter (fun step => (Phase.ofName? step).isSome) = Phase.names := by
    have hall : Phase.names.filter (fun step => (Phase.ofName? step).isSome) = Phase.names := by
      decide
    have hnone : ids.filter (fun step => (Phase.ofName? step).isSome) = [] := by
      refine List.filter_eq_nil_iff.mpr fun id hid => ?_
      rw [Phase.ofName?_isSome_iff]
      exact hids id hid
    have hfilter := hsub.filter fun step => (Phase.ofName? step).isSome
    rw [hall] at hfilter
    refine (hfilter.eq_of_length ?_).symm
    rw [(hperm.filter _).length_eq, List.filter_append, hall, hnone, List.append_nil]
  have hsplit : order.filterMap Phase.ofName? =
      (order.filter fun step => (Phase.ofName? step).isSome).filterMap Phase.ofName? := by
    rw [List.filterMap_filter]
    congr 1
    funext step
    cases Phase.ofName? step <;> rfl
  rw [hsplit, hphases]
  decide

/-- The order that the steps of a schedule come in. -/
structure Keeps (links : List Link) (actions : List Action) (order : List String) : Prop where
  perm : order.Perm (stepNames actions)
  nodup : order.Nodup
  edges : ∀ a b, Edge (ruleEdges links) a b → [a, b].Sublist order
  script : ∀ a ∈ actions, a.execute.isInScript →
    [Phase.installInitialize.name, a.id, Phase.installFinalize.name].Sublist order

section Order
variable {fileKeys : List String} {declared : List Manifest.Action} {rules : List Manifest.Rule}
  {scope : Guard.Scope} {actions : List Action} {links : List Link} {order : List String}
  {pinned : List (String × String)}

/-- An order of pinned edges keeps the phases, the rules and the script. -/
theorem keeps_of_orderSteps (hactions : checkActions fileKeys declared = .ok actions)
    (hlinks : rules.mapM (Link.ofRule (stepNames actions) scope) = .ok links)
    (hpinned : pin (ruleEdges links) actions = .ok pinned)
    (horder : orderSteps links (stepNames actions) pinned = .ok order) :
    Keeps links actions order := by
  obtain ⟨hperm, hkeeps⟩ := orderSteps_keeps horder
  have hnodup : order.Nodup := hperm.nodup_iff.mpr (stepNames_nodup hactions)
  have hpins := pin_eq_ok hpinned
  refine ⟨hperm, hnodup, fun a b hab => ?_, fun a ha hin => ?_⟩
  · obtain ⟨ha, hb⟩ := mem_of_ruleEdges hlinks hab
    exact hkeeps a b (hpins ▸ List.mem_append_left _ hab) ha hb
  · have hfirst : Phase.installInitialize.name ∈ stepNames actions :=
      List.mem_append_left _ (by decide)
    have hlast : Phase.installFinalize.name ∈ stepNames actions :=
      List.mem_append_left _ (by decide)
    have hid : a.id ∈ stepNames actions := List.mem_append_right _ (List.mem_map_of_mem ha)
    have hmem : ∀ e ∈ scriptEdges a.id, e ∈ pinned := fun e he =>
      hpins ▸ List.mem_append_right _
        (List.mem_flatMap.mpr ⟨a, List.mem_filter.mpr ⟨ha, hin⟩, he⟩)
    refine sublist_of_chain hnodup ?_ (.cons_cons ?_ (.cons_cons ?_ (.singleton _)))
    · simp [hperm.mem_iff, hfirst, hlast, hid]
    · exact hkeeps _ _ (hmem _ (by simp [scriptEdges])) hfirst hid
    · exact hkeeps _ _ (hmem _ (by simp [scriptEdges])) hid hlast

/-- In such an order the phases come in theirs. -/
theorem Keeps.phases (hactions : checkActions fileKeys declared = .ok actions)
    (hkeeps : Keeps links actions order) : order.filterMap Phase.ofName? = Phase.all :=
  phases_of_order hkeeps.perm (fun _ hid => checkActions_not_phase hactions hid) hkeeps.nodup
    fun a b hab => hkeeps.edges a b (List.mem_append_left _ hab)

/-- The numbers of such an order ascend once they are given. -/
theorem Keeps.ascending {condition : String → Option String} {opening : String} {steps : List Step}
    (hactions : checkActions fileKeys declared = .ok actions) (hkeeps : Keeps links actions order)
    (hsteps : numberFrom condition 0 opening order = .ok steps) :
    (ordinals 0 order).Pairwise (· < ·) := by
  have hphases := hkeeps.phases hactions
  have hsorted : (order.filterMap Phase.ofName?).Pairwise (·.number < ·.number) := by
    rw [hphases]
    decide
  have hchain := ordinals_ascending hsorted (fun next _ => by cases next <;> decide) hsteps
  exact (List.pairwise_cons.mp hchain.pairwise).2

/-- No number of such an order is higher than the last phase's and one for every action. -/
theorem Keeps.ordinals_le (hactions : checkActions fileKeys declared = .ok actions)
    (hkeeps : Keeps links actions order) {n : Nat} (hn : n ∈ ordinals 0 order) :
    n ≤ Phase.installFinalize.number + declared.length := by
  have hnone : (Phase.names.filter fun step => (Phase.ofName? step).isNone) = [] := by decide
  have hcount : (order.filter fun step => (Phase.ofName? step).isNone).length ≤
      declared.length := by
    rw [(hkeeps.perm.filter _).length_eq, stepNames, List.filter_append, hnone, List.nil_append,
      checkActions_ids hactions]
    exact (List.length_filter_le _ _).trans (by rw [List.length_map])
  have hle := Schedule.ordinals_le hn
  omega

end Order

/-- The steps of a schedule are the phases and the declared actions, each once. -/
theorem make_complete {declared : List Manifest.Action} {rules : List Manifest.Rule}
    {fileKeys : List String} {scope : Guard.Scope} {s : Schedule}
    (h : Schedule.make declared rules fileKeys scope = .ok s) :
    (s.steps.map fun t => (t.name, t.kind)).Perm
      (Phase.names.map (·, .phase) ++ declared.map (·.id, .action)) := by
  obtain ⟨hactions, links, hlinks, hstages⟩ := make_eq_ok h
  obtain ⟨order, pinned, hpinned, horder, -, hsteps⟩ := hstages.ordered
  have hkeeps := keeps_of_orderSteps hactions hlinks hpinned horder
  rw [numberFrom_eq_ok hsteps,
    map_steps_left _ _ _ fun name number => by rw [stepOf_name, stepOf_kind]]
  refine (hkeeps.perm.map _).trans (.of_eq ?_)
  rw [stepNames, List.map_append, checkActions_ids hactions, List.map_map]
  congr 1
  refine List.map_congr_left fun d hd => ?_
  have hnot : ¬(Phase.ofName? d.id).isSome := by
    rw [Phase.ofName?_isSome_iff]
    exact ((actionsAfter_eq_ok hactions).2.2 d hd).1
  simp [hnot]

/-- So the action steps are the declared actions, each once. -/
theorem make_action_steps {declared : List Manifest.Action} {rules : List Manifest.Rule}
    {fileKeys : List String} {scope : Guard.Scope} {s : Schedule}
    (h : Schedule.make declared rules fileKeys scope = .ok s) :
    ((s.steps.filter (·.kind = .action)).map (·.name)).Perm (declared.map (·.id)) := by
  have hkept := ((make_complete h).filter (·.2 = .action)).map (·.1)
  simpa [List.filter_map, Function.comp_def] using hkept


/-- Every schedule that is made is sound: the phases in their order and with their numbers, each
action once, numbers that ascend, every rule kept, and the actions of the script inside it. -/
theorem make_isSound {declared : List Manifest.Action} {rules : List Manifest.Rule}
    {fileKeys : List String} {scope : Guard.Scope} {s : Schedule}
    (h : Schedule.make declared rules fileKeys scope = .ok s) :
    IsSound declared rules s.steps := by
  obtain ⟨hactions, links, hlinks, hstages⟩ := make_eq_ok h
  obtain ⟨order, pinned, hpinned, horder, -, hsteps⟩ := hstages.ordered
  have hkeeps := keeps_of_orderSteps hactions hlinks hpinned horder
  have hshape := numberFrom_eq_ok hsteps
  have hnames : s.steps.map (·.name) = order := by
    rw [hshape, map_steps_left _ _ _ (stepOf_name _), List.map_id']
  have hascending := hkeeps.ascending hactions hsteps
  have hnumbers : s.steps.map (·.number) = (ordinals 0 order).map UInt32.ofNat := by
    rw [hshape, map_steps_number]
  have hedge : ∀ r ∈ rules, ∃ l, l.edge ∈ ruleEdges links ∧
      Link.ofRule (stepNames s.actions) scope r = .ok l := fun r hr => by
    obtain ⟨l, hl, hlink⟩ := exists_result_of_mem hlinks hr
    exact ⟨l, List.mem_append_right _ (List.mem_map_of_mem hl), hlink⟩
  constructor
  case complete => exact make_complete h
  case distinct => exact hnames ▸ hkeeps.nodup
  case phases => rw [hshape, map_steps_phases, hkeeps.phases hactions]
  case numbers =>
    exact ⟨ordinals 0 order, hnumbers, hascending, fun n hn => hkeeps.ordinals_le hactions hn⟩
  case ascending =>
    intro hfit
    rw [hnumbers]
    exact words_ascending hascending fun n hn =>
      Nat.lt_of_le_of_lt (hkeeps.ordinals_le hactions hn) hfit
  case after =>
    intro r hr anchor hafter
    obtain ⟨l, hl, hlink⟩ := hedge r hr
    rw [(Link.edge_of_rule hlink).1 anchor hafter] at hl
    rw [hnames]
    exact hkeeps.edges _ _ hl
  case before =>
    intro r hr anchor hbefore
    obtain ⟨l, hl, hlink⟩ := hedge r hr
    rw [(Link.edge_of_rule hlink).2 anchor hbefore] at hl
    rw [hnames]
    exact hkeeps.edges _ _ hl
  case script =>
    intro d hd hin
    obtain ⟨a, ha, hsettles⟩ := exists_action_of_declared hactions hd
    rw [hnames, ← hsettles.id]
    exact hkeeps.script a ha (hsettles.execute ▸ hin)

/-- An action of the script with a guard, and one that a rule puts after it. -/
theorem make_isSound_guarded :
    ∃ s, Schedule.make
        [⟨"Configure", "SetupExe", .deferred, true, some .check, "/quiet"⟩,
          ⟨"Warm", "SetupExe", .immediate, true, none, ""⟩]
        [⟨"Configure", none, some "InstallFiles", some "NOT Installed"⟩,
          ⟨"Warm", some "InstallFinalize", none, none⟩,
          ⟨"Warm", none, some "Configure", none⟩]
        ["SetupExe"] ⟨Guard.builtins, [], []⟩ = .ok s ∧
      IsSound
        [⟨"Configure", "SetupExe", .deferred, true, some .check, "/quiet"⟩,
          ⟨"Warm", "SetupExe", .immediate, true, none, ""⟩]
        [⟨"Configure", none, some "InstallFiles", some "NOT Installed"⟩,
          ⟨"Warm", some "InstallFinalize", none, none⟩,
          ⟨"Warm", none, some "Configure", none⟩] s.steps := by
  have hmade : (Schedule.make
      [⟨"Configure", "SetupExe", .deferred, true, some .check, "/quiet"⟩,
        ⟨"Warm", "SetupExe", .immediate, true, none, ""⟩]
      [⟨"Configure", none, some "InstallFiles", some "NOT Installed"⟩,
        ⟨"Warm", some "InstallFinalize", none, none⟩,
        ⟨"Warm", none, some "Configure", none⟩]
      ["SetupExe"] ⟨Guard.builtins, [], []⟩).isOk = true := by decide +kernel
  obtain ⟨s, hs⟩ := exists_of_isOk hmade
  exact ⟨s, hs, make_isSound hs⟩

end Installer.Schedule
