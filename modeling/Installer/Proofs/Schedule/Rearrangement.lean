import Installer.Proofs.Precedence.Greedy
import Installer.Proofs.Schedule.Soundness

/-!
# Rules in another order

The anchors and the condition of a step are read off its own rules, in their order, and orders and
pins see only which edges there are (`orderSteps_congr`, `pin_congr`). So rules that are all accepted
make the same schedule, or are refused for the same reason, in every order in which the rules of each
step come as before. Main statement: `make_reordered`.

**What it does not establish.** All rules are accepted by premise. If some are not, the first of them
in the order is reported, and that may be another one in another order. Rules of one step that change
places may change its anchor and its condition.
-/

set_option autoImplicit false

namespace Installer.Schedule
open Precedence Result

/-- The same rules in another order, in which the rules of each step stand as before. -/
structure Reorders (rules rules' : List Manifest.Rule) : Prop where
  perm : rules'.Perm rules
  subjects : ∀ step, rules'.filter (·.action = step) = rules.filter (·.action = step)

/-! ## Links of the same steps -/

/-- The links that rules of one step make are the links of this step. -/
theorem mapM_ofRule_filter {steps : List String} {scope : Guard.Scope}
    {rules : List Manifest.Rule} {links : List Link}
    (h : rules.mapM (Link.ofRule steps scope) = .ok links) (step : String) :
    (rules.filter (·.action = step)).mapM (Link.ofRule steps scope) =
      .ok (links.filter (·.subject = step)) := by
  rw [mapM_eq_ok] at h ⊢
  induction h with
  | nil => exact .nil
  | @cons r l rules links hlink _ ih =>
    have hsubject : l.subject = r.action := (Link.ofRule_eq_ok hlink).1
    simp only [List.filter_cons, hsubject]
    by_cases hstep : r.action = step
    · simpa only [hstep, decide_true, if_true] using .cons hlink ih
    · simpa only [hstep, decide_false, Bool.false_eq_true, if_false] using ih

section Links
variable {links links' : List Link}
  (hsubjects : ∀ step, links'.filter (·.subject = step) = links.filter (·.subject = step))
include hsubjects

theorem mem_links_iff (l : Link) : l ∈ links' ↔ l ∈ links := by
  have hmem : ∀ ls : List Link, l ∈ ls ↔ l ∈ ls.filter (·.subject = l.subject) := fun ls => by
    simp
  rw [hmem links', hmem links, hsubjects]

theorem mem_ruleEdges_iff (e : String × String) : e ∈ ruleEdges links' ↔ e ∈ ruleEdges links := by
  simp only [ruleEdges, List.mem_append, List.mem_map, mem_links_iff hsubjects]

theorem firstAnchor_eq : firstAnchor links' = firstAnchor links := by
  funext step
  rw [firstAnchor, firstAnchor, ← List.head?_filter, ← List.head?_filter, hsubjects]

theorem ranks_eq (steps : List String) : ranks links' steps = ranks links steps := by
  rw [ranks, ranks, firstAnchor_eq hsubjects]

theorem conditionOf_eq : conditionOf links' = conditionOf links := by
  funext step
  rw [conditionOf, conditionOf, hsubjects]

/-- Steps are ordered the same along edges that are listed in another order. -/
theorem orderSteps_congr {edges edges' : List (String × String)} (steps : List String)
    (hedges : ∀ e, e ∈ edges' ↔ e ∈ edges) :
    orderSteps links' steps edges' = orderSteps links steps edges := by
  rw [orderSteps, orderSteps, ranks_eq hsubjects, order_congr _ _ hedges]

end Links

/-- Pinning refuses the same action, or gives the same edges. -/
theorem pin_congr {edges edges' : List (String × String)} (actions : List Action)
    (h : ∀ e, e ∈ edges' ↔ e ∈ edges) :
    (∃ v, pin edges' actions = .error v ∧ pin edges actions = .error v) ∨
      ∃ pinned' pinned, pin edges' actions = .ok pinned' ∧ pin edges actions = .ok pinned ∧
        ∀ e, e ∈ pinned' ↔ e ∈ pinned := by
  induction actions generalizing edges edges' with
  | nil => exact .inr ⟨edges', edges, rfl, rfl, h⟩
  | cons a rest ih =>
    simp only [pin, reaches_congr h]
    split
    · exact ih h
    · split
      · exact .inl ⟨_, rfl, rfl⟩
      · refine ih fun e => ?_
        simp only [List.mem_append, h]

/-- Rules that are all accepted make the same schedule, or are refused for the same reason, in every
order in which the rules of each step stand as before. -/
theorem make_reordered {declared : List Manifest.Action} {rules rules' : List Manifest.Rule}
    {fileKeys : List String} {scope : Guard.Scope} (h : Reorders rules rules')
    (haccepted : ∀ r ∈ rules, ∃ l,
      Link.ofRule (Phase.names ++ declared.map (·.id)) scope r = .ok l) :
    Schedule.make declared rules' fileKeys scope = Schedule.make declared rules fileKeys scope := by
  rw [Schedule.make, Schedule.make]
  cases hactions : checkActions fileKeys declared with
  | error v => rfl
  | ok actions =>
    rw [← stepNames_eq hactions] at haccepted
    have hmapM : ∀ few ⊆ rules, ∃ links,
        few.mapM (Link.ofRule (stepNames actions) scope) = .ok links := by
      intro few hfew
      cases hlinks : few.mapM (Link.ofRule (stepNames actions) scope) with
      | ok links => exact ⟨links, rfl⟩
      | error v =>
        obtain ⟨r, hr, hrefused⟩ := exists_of_mapM_error hlinks
        obtain ⟨l, hl⟩ := haccepted r (hfew hr)
        rw [hl] at hrefused
        cases hrefused
    obtain ⟨links, hlinks⟩ := hmapM rules (List.Subset.refl rules)
    obtain ⟨links', hlinks'⟩ := hmapM rules' h.perm.subset
    have hsubjects : ∀ step,
        links'.filter (·.subject = step) = links.filter (·.subject = step) := by
      intro step
      have hfilter := mapM_ofRule_filter hlinks' step
      rw [h.subjects, mapM_ofRule_filter hlinks step] at hfilter
      exact (Except.ok.inj hfilter).symm
    have hany : ∀ id, links'.any (·.subject = id) = links.any (·.subject = id) := by
      intro id
      rw [Bool.eq_iff_iff]
      simp only [List.any_eq_true, mem_links_iff hsubjects]
    have hedges := mem_ruleEdges_iff hsubjects
    simp only [ok_bind, hlinks, hlinks', hany, conditionOf_eq hsubjects,
      orderSteps_congr hsubjects _ hedges]
    rcases pin_congr actions hedges with ⟨v, hpin', hpin⟩ | ⟨pinned', pinned, hpin', hpin, hpinned⟩
    · simp only [hpin', hpin, error_bind]
    · simp only [hpin', hpin, ok_bind, orderSteps_congr hsubjects _ hpinned]

/-- The rules of two actions, and one of them moved to the front. -/
theorem make_reordered_guarded :
    Reorders
      [⟨"Configure", none, some "InstallFiles", some "NOT Installed"⟩,
        ⟨"Warm", none, some "Configure", none⟩,
        ⟨"Configure", some "CreateShortcuts", none, some "PATCH"⟩]
      [⟨"Warm", none, some "Configure", none⟩,
        ⟨"Configure", none, some "InstallFiles", some "NOT Installed"⟩,
        ⟨"Configure", some "CreateShortcuts", none, some "PATCH"⟩] ∧
    Schedule.make
        [⟨"Warm", "SetupExe", .immediate, true, none, ""⟩,
          ⟨"Configure", "SetupExe", .deferred, true, some .check, ""⟩]
        [⟨"Warm", none, some "Configure", none⟩,
          ⟨"Configure", none, some "InstallFiles", some "NOT Installed"⟩,
          ⟨"Configure", some "CreateShortcuts", none, some "PATCH"⟩]
        ["SetupExe"] ⟨Guard.builtins, [], []⟩ =
      Schedule.make
        [⟨"Warm", "SetupExe", .immediate, true, none, ""⟩,
          ⟨"Configure", "SetupExe", .deferred, true, some .check, ""⟩]
        [⟨"Configure", none, some "InstallFiles", some "NOT Installed"⟩,
          ⟨"Warm", none, some "Configure", none⟩,
          ⟨"Configure", some "CreateShortcuts", none, some "PATCH"⟩]
        ["SetupExe"] ⟨Guard.builtins, [], []⟩ := by
  have hreorders : Reorders
      [⟨"Configure", none, some "InstallFiles", some "NOT Installed"⟩,
        ⟨"Warm", none, some "Configure", none⟩,
        ⟨"Configure", some "CreateShortcuts", none, some "PATCH"⟩]
      [⟨"Warm", none, some "Configure", none⟩,
        ⟨"Configure", none, some "InstallFiles", some "NOT Installed"⟩,
        ⟨"Configure", some "CreateShortcuts", none, some "PATCH"⟩] := by
    refine ⟨.swap _ _ _, fun step => ?_⟩
    by_cases hstep : "Configure" = step
    · subst hstep
      rfl
    · simp [List.filter_cons, hstep]
  have hlinks : [(⟨"Configure", none, some "InstallFiles", some "NOT Installed"⟩ : Manifest.Rule),
      ⟨"Warm", none, some "Configure", none⟩,
      ⟨"Configure", some "CreateShortcuts", none, some "PATCH"⟩].mapM
      (Link.ofRule (Phase.names ++ ["Warm", "Configure"]) ⟨Guard.builtins, [], []⟩) =
      .ok [⟨"Configure", ⟨"InstallFiles", .after⟩, some "NOT Installed"⟩,
        ⟨"Warm", ⟨"Configure", .after⟩, none⟩,
        ⟨"Configure", ⟨"CreateShortcuts", .before⟩, some "PATCH"⟩] := by decide +kernel
  exact ⟨hreorders, make_reordered hreorders fun r hr => by
    obtain ⟨l, -, hl⟩ := exists_result_of_mem hlinks hr
    exact ⟨l, hl⟩⟩

end Installer.Schedule
