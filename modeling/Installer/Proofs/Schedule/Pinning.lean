import Installer.Proofs.Precedence.Greedy
import Installer.Proofs.Schedule.Contradiction
import Installer.Proofs.Schedule.Ranks

/-!
# Pinning what is inside the script already

Where the rules alone leave every action of the script inside it, each of these actions is free to be
held there (`freeInScript_of_inside`), and the order that is found without pins keeps every edge that
pinning adds. A greedy order stays greedy with more edges that it keeps, so it is found again. Main
statement: `orderSteps_pinned`.

**What it does not establish.** Where the rules alone leave some action outside, the order may change,
and only the script window is known of it.
-/

set_option autoImplicit false

namespace Installer.Schedule
open Precedence Relation Result

/-- Every action of the script comes strictly between its first and its last phase. -/
def IsInsideScript (actions : List Action) (order : List String) : Prop :=
  ∀ a ∈ actions, a.execute.isInScript →
    [Phase.installInitialize.name, a.id, Phase.installFinalize.name].Sublist order

/-- A path along edges that an order keeps does not lead back in it. -/
theorem not_path_of_sublist {order : List String} {edges : List (String × String)}
    (hnodup : order.Nodup) (hkeeps : ∀ e ∈ edges, [e.1, e.2].Sublist order) {a b : String}
    (hab : [a, b].Sublist order) : ¬ReflTransGen (Edge edges) b a := by
  intro hpath
  have hacyclic : Acyclic ((a, b) :: edges) :=
    acyclic_of_sublist hnodup (List.forall_mem_cons.mpr ⟨hab, hkeeps⟩)
  have hback : ReflTransGen (Edge ((a, b) :: edges)) b a :=
    ReflTransGen.mono (fun _ _ h => List.mem_cons_of_mem _ h) _ _ hpath
  exact hacyclic a (.head' List.mem_cons_self hback)

section Pinned
variable {fileKeys : List String} {declared : List Manifest.Action} {rules : List Manifest.Rule}
  {scope : Guard.Scope} {actions : List Action} {links : List Link} {order : List String}
  (hlinks : rules.mapM (Link.ofRule (stepNames actions) scope) = .ok links)
  (horder : orderSteps links (stepNames actions) (ruleEdges links) = .ok order)
include hlinks horder

/-- An order of the rules keeps the edges of the rules. -/
theorem sublist_of_ruleEdges : ∀ e ∈ ruleEdges links, [e.1, e.2].Sublist order := by
  intro e he
  obtain ⟨hfirst, hsecond⟩ := mem_of_ruleEdges hlinks (a := e.1) (b := e.2) he
  exact (orderSteps_keeps horder).2 e.1 e.2 he hfirst hsecond

/-- An action that comes between the ends of the script is free to be held there. -/
theorem freeInScript_of_inside (hactions : checkActions fileKeys declared = .ok actions)
    {id : String}
    (hinside : [Phase.installInitialize.name, id, Phase.installFinalize.name].Sublist order) :
    FreeInScript (ruleEdges links) id := by
  have hnodup : order.Nodup := (orderSteps_keeps horder).1.nodup_iff.mpr (stepNames_nodup hactions)
  have hkeeps := sublist_of_ruleEdges hlinks horder
  have hafter : [Phase.installInitialize.name, id].Sublist order :=
    (List.sublist_append_left [_, id] [_]).trans hinside
  have hbefore : [id, Phase.installFinalize.name].Sublist order :=
    (List.sublist_cons_self _ _).trans hinside
  exact ⟨not_path_of_sublist hnodup hkeeps hbefore, not_path_of_sublist hnodup hkeeps hafter⟩

/-- The order keeps what pinning adds. -/
theorem sublist_of_pinned (hinside : IsInsideScript actions order)
    {pinned : List (String × String)} (hpin : pin (ruleEdges links) actions = .ok pinned) :
    ∀ e ∈ pinned, [e.1, e.2].Sublist order := by
  intro e he
  rw [pin_eq_ok hpin] at he
  rcases List.mem_append.mp he with he | he
  · exact sublist_of_ruleEdges hlinks horder e he
  · obtain ⟨a, ha, he⟩ := List.mem_flatMap.mp he
    obtain ⟨ha, hin⟩ := List.mem_filter.mp ha
    have hscript := hinside a ha hin
    simp only [scriptEdges, List.mem_cons, List.not_mem_nil, or_false] at he
    rcases he with rfl | rfl
    · exact (List.sublist_append_left [_, a.id] [_]).trans hscript
    · exact (List.sublist_cons_self _ _).trans hscript

end Pinned

/-- Where the order that the rules alone give has every action of the script inside it, pinning
succeeds, and the order of the pinned steps is the same. -/
theorem orderSteps_pinned {fileKeys : List String} {declared : List Manifest.Action}
    {rules : List Manifest.Rule} {scope : Guard.Scope} {actions : List Action} {links : List Link}
    {order : List String} (hactions : checkActions fileKeys declared = .ok actions)
    (hlinks : rules.mapM (Link.ofRule (stepNames actions) scope) = .ok links)
    (horder : orderSteps links (stepNames actions) (ruleEdges links) = .ok order)
    (hinside : IsInsideScript actions order) :
    ∃ pinned, pin (ruleEdges links) actions = .ok pinned ∧
      orderSteps links (stepNames actions) pinned = .ok order := by
  have hacyclic := acyclic_of_orderSteps hactions hlinks horder
  obtain ⟨pinned, hpin, -⟩ := exists_pin_of_free hacyclic (script_way links) fun a ha hin =>
    freeInScript_of_inside hlinks horder hactions (hinside a ha hin)
  refine ⟨pinned, hpin, ?_⟩
  have hnodup := stepNames_nodup hactions
  have hfirst := orderSteps_eq_ok.mp horder
  rw [order_eq_ok_iff (goesFirst_iff _) hnodup fun a b h => (mem_of_ruleEdges hlinks h).1] at hfirst
  obtain ⟨hperm, hgreedy⟩ := hfirst
  rw [orderSteps_eq_ok,
    order_eq_ok_iff (goesFirst_iff _) hnodup fun a b h => mem_of_pinned hlinks hpin h]
  refine ⟨hperm, hgreedy.more (hperm.nodup_iff.mpr hnodup) ?_ fun a _ b _ hab => ?_⟩
  · rw [pin_eq_ok hpin]
    exact List.subset_append_left _ _
  · exact sublist_of_pinned hlinks horder hinside hpin (a, b) hab

/-- Two actions of the script, the first of them between phases and the second behind an immediate
action, and an action before the script: pinning adds four edges and moves nothing. -/
theorem orderSteps_pinned_two :
    ∃ pinned, pin (ruleEdges
        [⟨"Configure", ⟨"InstallFiles", .after⟩, none⟩, ⟨"Warm", ⟨"Configure", .after⟩, none⟩,
          ⟨"Commit", ⟨"Warm", .after⟩, none⟩, ⟨"Probe", ⟨"CostFinalize", .before⟩, none⟩])
        [⟨"Commit", "SetupExe", .commit, true, .check, ""⟩,
          ⟨"Configure", "SetupExe", .deferred, true, .check, ""⟩,
          ⟨"Warm", "SetupExe", .immediate, true, .check, ""⟩,
          ⟨"Probe", "SetupExe", .immediate, true, .check, ""⟩] = .ok pinned ∧
      orderSteps
        [⟨"Configure", ⟨"InstallFiles", .after⟩, none⟩, ⟨"Warm", ⟨"Configure", .after⟩, none⟩,
          ⟨"Commit", ⟨"Warm", .after⟩, none⟩, ⟨"Probe", ⟨"CostFinalize", .before⟩, none⟩]
        (Phase.names ++ ["Commit", "Configure", "Warm", "Probe"]) pinned =
      .ok (Phase.names.take 1 ++ "Probe" :: (Phase.names.drop 1).take 9 ++
        ["Configure", "Warm", "Commit"] ++ Phase.names.drop 10) := by
  have hactions : checkActions ["SetupExe"]
      [⟨"Commit", "SetupExe", .commit, true, some .check, ""⟩,
        ⟨"Configure", "SetupExe", .deferred, true, some .check, ""⟩,
        ⟨"Warm", "SetupExe", .immediate, true, none, ""⟩,
        ⟨"Probe", "SetupExe", .immediate, true, none, ""⟩] =
      .ok [⟨"Commit", "SetupExe", .commit, true, .check, ""⟩,
        ⟨"Configure", "SetupExe", .deferred, true, .check, ""⟩,
        ⟨"Warm", "SetupExe", .immediate, true, .check, ""⟩,
        ⟨"Probe", "SetupExe", .immediate, true, .check, ""⟩] := by decide +kernel
  have hlinks : [(⟨"Configure", none, some "InstallFiles", none⟩ : Manifest.Rule),
      ⟨"Warm", none, some "Configure", none⟩, ⟨"Commit", none, some "Warm", none⟩,
      ⟨"Probe", some "CostFinalize", none, none⟩].mapM
      (Link.ofRule (Phase.names ++ ["Commit", "Configure", "Warm", "Probe"])
        ⟨Guard.builtins, [], []⟩) =
      .ok [⟨"Configure", ⟨"InstallFiles", .after⟩, none⟩, ⟨"Warm", ⟨"Configure", .after⟩, none⟩,
        ⟨"Commit", ⟨"Warm", .after⟩, none⟩, ⟨"Probe", ⟨"CostFinalize", .before⟩, none⟩] := by
    decide +kernel
  refine orderSteps_pinned hactions hlinks (by decide +kernel) ?_
  unfold IsInsideScript
  decide +kernel

end Installer.Schedule
