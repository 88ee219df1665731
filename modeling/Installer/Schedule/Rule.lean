import Installer.Guard.Scope
import Installer.Schedule.Action

/-!
# Sequence rules as links between steps

A link places its subject before or after its anchor. The subject and the anchor are two different
steps, and only an action is guarded.
-/

set_option autoImplicit false

namespace Installer.Schedule

/-- The side of the anchor on which a step goes. -/
inductive Side
  | before
  | after
  deriving DecidableEq, Repr

/-- A step and the side of it that is meant. -/
structure Anchor where
  step : String
  side : Side
  deriving DecidableEq, Repr

/-- A rule whose names are known. -/
structure Link where
  subject : String
  anchor : Anchor
  /-- The text of the guard, without the white space around it. -/
  guard : Option String
  deriving DecidableEq, Repr

/-- What has to come before what. -/
def Link.edge (l : Link) : String × String :=
  match l.anchor.side with
  | .before => (l.subject, l.anchor.step)
  | .after => (l.anchor.step, l.subject)

/-- The one anchor that a rule names. -/
def anchorOf (r : Manifest.Rule) : Except Violation Anchor :=
  match r.before, r.after with
  | some step, none => .ok ⟨step, .before⟩
  | none, some step => .ok ⟨step, .after⟩
  | some _, some _ => .error (.invalidRule r.action .twoAnchors)
  | none, none => .error (.invalidRule r.action .noAnchor)

/-- The guard of a rule, which only an action may have. -/
def guardOf (scope : Guard.Scope) (r : Manifest.Rule) : Except Violation (Option String) :=
  match r.condition with
  | none => .ok none
  | some text => do
    if (Phase.ofName? r.action).isSome then throw (.invalidRule r.action .guardedPhase)
    let condition ← Guard.check r.action text scope
    return some condition.text

/-- The link that a rule makes between two of the steps. -/
def Link.ofRule (steps : List String) (scope : Guard.Scope) (r : Manifest.Rule) :
    Except Violation Link := do
  if !steps.contains r.action then throw (.unknownAction r.action)
  let anchor ← anchorOf r
  if !steps.contains anchor.step then throw (.unknownAction anchor.step)
  if anchor.step = r.action then throw (.orderingContradiction [r.action, r.action])
  let guard ← guardOf scope r
  return ⟨r.action, anchor, guard⟩

end Installer.Schedule
