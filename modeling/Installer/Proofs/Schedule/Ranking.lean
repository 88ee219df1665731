import Installer.Proofs.Schedule.Ranks

/-!
# Ranks and the order in which they are found

Climbs share what they remember, and a climb that comes back to a step it is on leaves a rank there that
means nothing. Of a step whose first anchors lead to a phase nothing wrong is ever remembered
(`isKnown_knownAfter`), whichever steps were climbed from before it. The way to the phase is all that
its rank depends on: a rule set that keeps the anchors on the way keeps the way (`LeadsTo.mono`). Main
statement: `rank_follows_anchors`.

**What it does not establish.** A rank says where a step would like to be. Where it comes to stand is
a matter of all rules together, and of steps whose anchors lead round no rank is claimed.
-/

set_option autoImplicit false

namespace Installer.Schedule

/-- The ranks known after climbing from each of the steps in turn, `n` anchors up at most. -/
def knownAfter (links : List Link) (n : Nat) (order : List String) : List (String × Int) :=
  order.foldl (fun known step => (climb (firstAnchor links) n known [] step).2) []

/-- A first anchor is that of a link. -/
theorem exists_link_of_firstAnchor {links : List Link} {step : String} {a : Anchor}
    (h : firstAnchor links step = some a) : ∃ l ∈ links, l.subject = step ∧ l.anchor = a := by
  obtain ⟨l, hl, ha⟩ := Option.map_eq_some_iff.mp h
  exact ⟨l, List.mem_of_find?_eq_some hl, by simpa using List.find?_some hl, ha⟩

/-- Where more steps have anchors, the way from a step to a phase is the same. -/
theorem LeadsTo.mono {anchor anchor' : String → Option Anchor} {p : Phase} {sides : List Side}
    {step : String} (h : LeadsTo anchor p sides step)
    (hkeeps : ∀ s a, anchor s = some a → anchor' s = some a) : LeadsTo anchor' p sides step := by
  induction h with
  | phase => exact .phase
  | action hnot hanchor _ ih => exact .action hnot (hkeeps _ _ hanchor) ih

section Graph
variable {links : List Link} {steps : List String}
  (hanchors : ∀ l ∈ links, l.anchor.step ∈ steps)
include hanchors

theorem firstAnchor_mem_steps (step : String) (_ : step ∈ steps) (a : Anchor)
    (h : firstAnchor links step = some a) : a.step ∈ steps := by
  obtain ⟨l, hl, -, rfl⟩ := exists_link_of_firstAnchor h
  exact hanchors l hl

/-- Whichever steps are climbed from, nothing wrong is remembered of those that lead to a phase. -/
theorem isKnown_knownAfter {earlier : List String} (hearlier : earlier ⊆ steps) :
    IsKnown (firstAnchor links) (knownAfter links (steps.length + 1) earlier) := by
  have hnone : IsKnown (firstAnchor links) [] := fun _ _ _ _ _ hlookup => nomatch hlookup
  exact (foldl_climb_sound (firstAnchor_mem_steps hanchors) hearlier hnone).1

/-- After any climbs, a climb from a step that leads to a phase finds its rank. -/
theorem climb_after {earlier : List String} (hearlier : earlier ⊆ steps) {step : String}
    (hstep : step ∈ steps) {p : Phase} {sides : List Side}
    (h : LeadsTo (firstAnchor links) p sides step) :
    (climb (firstAnchor links) (steps.length + 1) (knownAfter links (steps.length + 1) earlier) []
      step).1 = rankAlong p sides :=
  (climb_sound (firstAnchor_mem_steps hanchors) (steps.length + 1) _ [] step
    (isKnown_knownAfter hanchors hearlier) hstep nofun .nil (by simp)).2 h

/-- The table of ranks holds the same rank in whichever order the steps are gone through. -/
theorem rankIn_of_perm {order : List String} (horder : order.Perm steps) {step : String}
    (hstep : step ∈ steps) {p : Phase} {sides : List Side}
    (h : LeadsTo (firstAnchor links) p sides step) :
    rankIn (ranks links order) step = rankAlong p sides := by
  have hanchors' : ∀ l ∈ links, l.anchor.step ∈ order := fun l hl =>
    horder.mem_iff.mpr (hanchors l hl)
  exact rankIn_of_leadsTo (firstAnchor_mem_steps hanchors') (horder.mem_iff.mpr hstep) h

end Graph

/-- Where the first anchors lead from a step to a phase, its rank is the number of the phase, and one more
for each anchor on the way that it is put after, and one less for each that it is put before. This is
what a climb from the step finds, whichever steps were climbed from before, and what is known of it when
all steps have been, in whichever order. Rules that are not on the way do not matter, among them those
whose anchors lead round. -/
theorem rank_follows_anchors {links whole : List Link} {steps : List String}
    (hanchors : ∀ l ∈ whole, l.anchor.step ∈ steps)
    (hkeeps : ∀ s a, firstAnchor links s = some a → firstAnchor whole s = some a)
    {step : String} (hstep : step ∈ steps) {p : Phase} {sides : List Side}
    (h : LeadsTo (firstAnchor links) p sides step) :
    (∀ earlier : List String, earlier ⊆ steps →
      (climb (firstAnchor whole) (steps.length + 1) (knownAfter whole (steps.length + 1) earlier) []
        step).1 = p.number + sides.count .after - sides.count .before) ∧
    ∀ order : List String, order.Perm steps →
      rankIn (ranks whole order) step = p.number + sides.count .after - sides.count .before := by
  have hwhole : LeadsTo (firstAnchor whole) p sides step := h.mono hkeeps
  exact ⟨fun earlier hearlier => climb_after hanchors hearlier hstep hwhole,
    fun order horder => rankIn_of_perm hanchors horder hstep hwhole⟩

/-- The rules on the way from `Warm`, before `Copy`, to the phase that `Copy` is put after. -/
def warmUp : List Link :=
  [⟨"Warm", ⟨"Copy", .before⟩, none⟩, ⟨"Copy", ⟨"InstallFiles", .after⟩, none⟩]

/-- These with others: two actions each of which is put after the other, one that hangs on them, and
second rules. -/
def roundabout : List Link :=
  [⟨"Ping", ⟨"Pong", .after⟩, none⟩, ⟨"Pong", ⟨"Ping", .after⟩, none⟩,
    ⟨"Tail", ⟨"Pong", .before⟩, none⟩] ++ warmUp ++
    [⟨"Warm", ⟨"Ping", .after⟩, none⟩, ⟨"Copy", ⟨"Tail", .before⟩, none⟩]

theorem rank_follows_anchors_roundabout :
    let steps := Phase.names ++ ["Tail", "Ping", "Warm", "Pong", "Copy"]
    (∀ l ∈ roundabout, l.anchor.step ∈ steps) ∧
    (∀ s a, firstAnchor warmUp s = some a → firstAnchor roundabout s = some a) ∧
    LeadsTo (firstAnchor warmUp) .installFiles [.before, .after] "Warm" ∧
    (climb (firstAnchor roundabout) (steps.length + 1)
      (knownAfter roundabout (steps.length + 1) ["Tail", "Pong"]) [] "Warm").1 = 4000 ∧
    rankIn (ranks roundabout steps) "Warm" = 4000 ∧
    rankIn (ranks roundabout steps.reverse) "Warm" = 4000 := by
  intro steps
  have hanchors : ∀ l ∈ roundabout, l.anchor.step ∈ steps := by decide
  have hfirst : ∀ l ∈ warmUp, firstAnchor roundabout l.subject = some l.anchor := by decide
  have hkeeps : ∀ s a, firstAnchor warmUp s = some a → firstAnchor roundabout s = some a := by
    intro s a h
    obtain ⟨l, hl, rfl, rfl⟩ := exists_link_of_firstAnchor h
    exact hfirst l hl
  have hway : LeadsTo (firstAnchor warmUp) .installFiles [.before, .after] "Warm" := by
    have hcopy : LeadsTo (firstAnchor warmUp) .installFiles [.after] "Copy" :=
      .action (a := ⟨"InstallFiles", .after⟩) (by decide) (by decide) .phase
    exact .action (a := ⟨"Copy", .before⟩) (by decide) (by decide) hcopy
  obtain ⟨hclimb, hrank⟩ := rank_follows_anchors hanchors hkeeps (by decide) hway
  exact ⟨hanchors, hkeeps, hway, hclimb _ (by decide), hrank steps (.refl _),
    hrank steps.reverse (List.reverse_perm _)⟩

end Installer.Schedule
