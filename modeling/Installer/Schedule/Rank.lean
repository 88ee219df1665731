import Installer.Schedule.Rule

/-!
# Ranks: where a step would like to be

A phase ranks at its number. An action ranks one after or one before the step that its first rule
names, so it stays near that step when nothing else decides. Ranks are found by climbing from anchor
to anchor and are kept as they are found; a climb that comes back to a step it is on takes zero
there.
-/

set_option autoImplicit false

namespace Installer.Schedule

/-- How far from the anchor's rank a step ranks. -/
def Side.shift : Side → Int
  | .before => -1
  | .after => 1

/-- The anchor of a step's first rule. -/
def firstAnchor (links : List Link) (step : String) : Option Anchor :=
  (links.find? (·.subject = step)).map (·.anchor)

/-- The ranks known after climbing from `step`, and the rank of `step` itself. The climb is on the
steps `climbing` and goes up `n` more anchors at most. -/
def climb (anchor : String → Option Anchor) : (n : Nat) → (known : List (String × Int)) →
    (climbing : List String) → (step : String) → Int × List (String × Int)
  | n, known, climbing, step =>
    match known.lookup step, Phase.ofName? step with
    | some rank, _ => (rank, known)
    | none, some phase => (phase.number, known)
    | none, none =>
      if climbing.contains step then (0, known)
      else
        match n, anchor step with
        | m + 1, some a =>
          let (rank, known) := climb anchor m known (step :: climbing) a.step
          (rank + a.side.shift, (step, rank + a.side.shift) :: known)
        | _, _ => (0, (step, 0) :: known)

/-- The ranks of the actions among the steps, found in the order of the steps. -/
def ranks (links : List Link) (steps : List String) : List (String × Int) :=
  steps.foldl (fun known step => (climb (firstAnchor links) (steps.length + 1) known [] step).2) []

/-- The rank of a step, given those of the actions. -/
def rankIn (ranks : List (String × Int)) (step : String) : Int :=
  match Phase.ofName? step with
  | some phase => phase.number
  | none => (ranks.lookup step).getD 0

/-- Whether a step goes first when both could: the lower rank, then an action before a phase. -/
def goesFirst (ranks : List (String × Int)) (a b : String) : Bool :=
  let ra := rankIn ranks a
  let rb := rankIn ranks b
  ra < rb || (ra == rb && (Phase.ofName? a).isNone && (Phase.ofName? b).isSome)

end Installer.Schedule
