import Installer.Proofs.Manifest.Expansion
import Installer.Proofs.Package.StabilityKeys
import Installer.Proofs.Wix.Ending
import Installer.Proofs.Wix.Parts
import Installer.Proofs.Wix.Source

/-!
# The order of the actions in a source

A source does not number the actions but puts each after the step before it, which may be an action
itself, or gives the number of one that comes before all phases. Whoever reads the source has the
phases in their order and puts the actions in one by one (`replay?`). The actions put in so far and
the phases that are still to come make up the order at any time (`foldlM_customsAfter`), so the order
of the schedule comes out, as long as no step is there twice. Main statement:
`compile_sequence_replays`.

The number of an action before all phases is not used: such an action is put in front of the others.
How the installer itself would order actions of one number is not described.
-/

set_option autoImplicit false

namespace Installer.Wix
open Xml Result
open Element (called)

/-! ## Putting an action in -/

/-- An order of steps with one more right after the step `anchor`, if that is in it. -/
def insertAfter? (anchor name : String) : List String → Option (List String)
  | [] => none
  | step :: rest =>
    if step = anchor then some (step :: name :: rest)
    else (insertAfter? anchor name rest).map (step :: ·)

/-- An order of steps with the action of a `Custom` element in the place that its attributes tell:
after a step that is there, or before all steps. -/
def insertCustom? (order : List String) (e : Element) : Option (List String) :=
  match e.attributes.lookup "Action", e.attributes.lookup "After", e.attributes.lookup "Sequence" with
  | some name, some anchor, none => insertAfter? anchor name order
  | some name, none, some _ => some (name :: order)
  | _, _, _ => none

/-- The order that `Custom` elements make, one after the other, out of that of the phases. -/
def replay? (customs : List Element) : Option (List String) :=
  customs.foldlM insertCustom? Phase.names

theorem insertAfter?_append {anchor name : String} {front back : List String}
    (h : anchor ∉ front) : insertAfter? anchor name (front ++ anchor :: back) =
      some (front ++ anchor :: name :: back) := by
  induction front with
  | nil => rw [List.nil_append, insertAfter?, if_pos rfl, List.nil_append]
  | cons step front ih =>
    rw [List.mem_cons, not_or] at h
    rw [List.cons_append, insertAfter?, if_neg (Ne.symm h.1), ih h.2]
    rfl

theorem attributes_custom (previous : Option String) (s : Step) :
    (custom previous s).attributes = [("Action", s.name), place previous s] := by
  rw [custom]
  cases s.condition <;> rfl

/-- The element of a step after those of `front` puts it after them. -/
theorem insertCustom?_custom {front : List Step} (hdistinct : (front.map (·.name)).Nodup) (s : Step)
    (back : List String) :
    insertCustom? (front.map (·.name) ++ back) (custom (front.getLast?.map (·.name)) s) =
      some (front.map (·.name) ++ s.name :: back) := by
  rw [insertCustom?, attributes_custom]
  cases front using List.reverseRecOn with
  | nil => rfl
  | append_singleton before last =>
    rw [List.map_append, List.map_singleton] at hdistinct ⊢
    have hnew : last.name ∉ before.map (·.name) := by
      simpa using (List.nodup_append.mp hdistinct).2.2
    rw [List.getLast?_concat]
    simp only [List.append_assoc, List.singleton_append]
    exact insertAfter?_append hnew

/-! ## Putting all actions in -/

/-- The names of the phases among steps. -/
def phaseNames (steps : List Step) : List String :=
  (steps.filter (·.kind = .phase)).map (·.name)

/-- Where the steps of `front` stand before the phases of `back`, the elements of `back` put in its
actions. -/
theorem foldlM_customsAfter {front back : List Step}
    (hdistinct : ((front ++ back).map (·.name)).Nodup) :
    (customsAfter (front.getLast?.map (·.name)) back).foldlM insertCustom?
      (front.map (·.name) ++ phaseNames back) = some ((front ++ back).map (·.name)) := by
  induction back generalizing front with
  | nil => simp [customsAfter, phaseNames]
  | cons s rest ih =>
    have hfront : (front.map (·.name)).Nodup := by
      rw [List.map_append] at hdistinct
      exact (List.nodup_append.mp hdistinct).1
    have hnext := @ih (front ++ [s]) (by simpa using hdistinct)
    rw [List.getLast?_concat, Option.map_some, List.map_append, List.map_singleton, List.append_assoc,
      List.singleton_append, List.append_assoc, List.singleton_append] at hnext
    rw [customsAfter]
    cases hkind : s.kind with
    | phase =>
      -- the phase is in its place already, and has no element
      have hphases : phaseNames (s :: rest) = s.name :: phaseNames rest := by
        simp [phaseNames, hkind]
      rw [hphases]
      exact hnext
    | action =>
      have hphases : phaseNames (s :: rest) = phaseNames rest := by simp [phaseNames, hkind]
      rw [hphases, List.foldlM_cons, insertCustom?_custom hfront]
      exact hnext

/-- The element has the name of the step and its condition as text. -/
structure Carries (s : Step) (e : Element) : Prop where
  action : e.attributes.lookup "Action" = some s.name
  condition : e.content? = s.condition

theorem carries_custom (previous : Option String) (s : Step) : Carries s (custom previous s) := by
  refine ⟨?_, ?_⟩
  · rw [attributes_custom]
    rfl
  · rw [custom]
    cases s.condition <;> rfl

/-- There is one element for each action, in order. -/
theorem carries_customsAfter (previous : Option String) (steps : List Step) :
    List.Forall₂ Carries (steps.filter (·.kind = .action)) (customsAfter previous steps) := by
  induction steps generalizing previous with
  | nil => exact .nil
  | cons s rest ih =>
    rw [customsAfter]
    cases hkind : s.kind with
    | phase =>
      rw [List.filter_cons_of_neg (by simp [hkind])]
      exact ih (some s.name)
    | action =>
      rw [List.filter_cons_of_pos (by simp [hkind])]
      exact .cons (carries_custom previous s) (ih (some s.name))

/-! ## The sequence of a source -/

theorem tag_custom (previous : Option String) (s : Step) : (custom previous s).tag = "Custom" := by
  rw [custom]
  cases s.condition <;> rfl

theorem children_custom (previous : Option String) (s : Step) :
    (custom previous s).children = [] := by
  rw [custom]
  cases s.condition <;> rfl

section
variable {p : Package} (hactions : p.actions ≠ [])

include hactions

theorem sequence_of_actions :
    sequence p = [.node "InstallExecuteSequence" [] (customsAfter none p.steps)] := by
  rw [sequence, if_neg (by simpa using hactions)]

variable {directories features : List Element} (h : AreNested p directories features)

include h

theorem called_executeSequence : (root p directories features).called "InstallExecuteSequence" =
    [.node "InstallExecuteSequence" [] (customsAfter none p.steps)] := by
  have hnone : (customsAfter none p.steps).flatMap (called "InstallExecuteSequence") = [] := by
    refine List.flatMap_eq_nil_iff.mpr (forall_mem_customsAfter (fun previous s => ?_) _ _)
    rw [Element.called_of_tag_ne (by rw [tag_custom]; decide), children_custom, List.flatMap_nil]
  rw [h.called_root (by decide)]
  simp [parts, componentNames, sequence_of_actions hactions, Element.called_node, hnone]

theorem called_custom :
    (root p directories features).called "Custom" = customsAfter none p.steps := by
  have hself : ∀ e ∈ customsAfter none p.steps, e.called "Custom" = [e] := by
    refine forall_mem_customsAfter (fun previous s => ?_) _ _
    rw [Element.called_of_tag_eq (tag_custom previous s), children_custom, List.flatMap_nil]
  have hsequence : (sequence p).flatMap (called "Custom") = customsAfter none p.steps := by
    have htag : (Element.node "InstallExecuteSequence" [] (customsAfter none p.steps)).tag ≠
        "Custom" := show "InstallExecuteSequence" ≠ "Custom" by decide
    rw [sequence_of_actions hactions, List.flatMap_singleton, Element.called_of_tag_ne htag]
    exact Element.flatMap_called_eq_self hself
  rw [h.called_root (by decide)]
  simp [parts, componentNames, hsequence]

end

end Installer.Wix

namespace Installer.Manifest
open Xml Result

variable {m : Manifest} {s : Settings} {p : Package}

/-- The steps of a compiled package: the phases are all phases in their order, and no step is there
twice. -/
theorem steps_of_compile (h : m.compile s = .ok p) :
    Wix.phaseNames p.steps = Phase.names ∧ (p.steps.map (·.name)).Nodup := by
  obtain ⟨i, expanded, upgradeCode, t, g, -, -, hsettles⟩ := compile_eq_ok h
  have hsound := Schedule.make_isSound hsettles.schedule
  refine ⟨?_, hsound.distinct⟩
  have hphases := congrArg (List.map Prod.fst) hsound.phases
  rwa [List.map_map, List.map_map] at hphases

/-- A package has an action for each that its manifest declares. -/
theorem length_actions_of_compile (h : m.compile s = .ok p) :
    p.actions.length = m.actions.length := by
  obtain ⟨i, expanded, upgradeCode, t, g, -, hexpanded, hsettles⟩ := compile_eq_ok h
  obtain ⟨product, directories, components, actions, -, -, -, hactions, hparts⟩ :=
    expandWith_eq_ok_iff.mp hexpanded
  have hdeclared : expanded.actions.length = m.actions.length := by
    rw [hparts]
    exact (mapM_eq_ok.mp hactions).length_eq.symm
  have hids := Schedule.checkActions_ids (Schedule.make_eq_ok hsettles.schedule).1
  have hlength := congrArg List.length hids
  rw [List.length_map, List.length_map] at hlength
  exact hlength.trans hdeclared

/-- The source of a compiled package with actions is read as an element with one sequence, in which
are all its `Custom` elements. Put into the order of the phases one after the other they make the
order of the package's steps, and there is one for each action, with its condition as text. -/
theorem compile_sequence_replays (h : m.compile s = .ok p) (hactions : m.actions ≠ []) :
    ∃ text e, Wix.source? p = some text ∧ readDocument Wix.holdsText text = some e ∧
      e.called "InstallExecuteSequence" =
        [.node "InstallExecuteSequence" [] (e.called "Custom")] ∧
      Wix.replay? (e.called "Custom") = some (p.steps.map (·.name)) ∧
      List.Forall₂ Wix.Carries (p.steps.filter (·.kind = .action)) (e.called "Custom") := by
  obtain ⟨directories, features, hnested⟩ := Wix.exists_root_of_compile h
  obtain ⟨hphases, hdistinct⟩ := steps_of_compile h
  have hsome : p.actions ≠ [] := by
    rw [← List.length_pos_iff, length_actions_of_compile h]
    exact List.length_pos_iff.mpr hactions
  obtain ⟨text, htext, hread⟩ := hnested.readDocument_eq
  refine ⟨text, _, htext, hread, ?_⟩
  rw [Wix.called_executeSequence hsome hnested, Wix.called_custom hsome hnested]
  refine ⟨rfl, ?_, Wix.carries_customsAfter none p.steps⟩
  have hreplays := @Wix.foldlM_customsAfter [] p.steps hdistinct
  rwa [List.map_nil, List.nil_append, List.nil_append, hphases] at hreplays

/-- The editor with an action inside the script and two before all phases, one after the other. -/
def scheduled : Manifest :=
  { copies with
    actions := [
      ⟨"Configure", "AcmeExe", .deferred, true, some .check, "/configure"⟩,
      ⟨"Announce", "AcmeExe", .immediate, true, none, "/announce"⟩,
      ⟨"Probe", "AcmeExe", .immediate, true, none, ""⟩]
    rules := [
      ⟨"Configure", none, some "InstallFiles", some "NOT Installed"⟩,
      ⟨"Announce", none, some "Probe", some "Installed AND &Core = 3"⟩,
      ⟨"Announce", some "CostInitialize", none, none⟩,
      ⟨"Probe", some "CostInitialize", none, none⟩] }

/-- The order of its steps. -/
def scheduledOrder : List String :=
  ["Probe", "Announce"] ++ Phase.names.takeWhile (· ≠ "CreateShortcuts") ++ ["Configure"] ++
    Phase.names.dropWhile (· ≠ "CreateShortcuts")

theorem compile_scheduled :
    (scheduled.compile copySettings).map (fun p => p.steps.map (·.name)) = .ok scheduledOrder := by
  decide +kernel

/-- The source of the editor puts the three actions in where they are. -/
theorem compile_sequence_replays_scheduled : ∃ p text e, scheduled.compile copySettings = .ok p ∧
    scheduled.actions ≠ [] ∧ Wix.source? p = some text ∧
    readDocument Wix.holdsText text = some e ∧
    Wix.replay? (e.called "Custom") = some scheduledOrder := by
  obtain ⟨p, hp, horder⟩ := map_eq_ok.mp compile_scheduled
  have hactions : scheduled.actions ≠ [] := List.cons_ne_nil _ _
  obtain ⟨text, e, htext, he, -, hreplays, -⟩ := compile_sequence_replays hp hactions
  exact ⟨p, text, e, hp, hactions, htext, he, horder ▸ hreplays⟩

end Installer.Manifest
