import Installer.Schedule.Precedence
import Installer.Schedule.Rank

/-!
# The execute sequence

Phases keep their order and their numbers. Actions are ordered among them by the rules, those of the
script between its first and last phase, and are numbered upwards from the step before them; they
have to fit before the next phase.
-/

set_option autoImplicit false

namespace Installer

/-- Whether a step is a phase or a custom action. -/
inductive StepKind
  | phase
  | action
  deriving DecidableEq, Repr

instance : Keyword StepKind where
  all := [.phase, .action]
  spelling
    | .phase => "phase"
    | .action => "action"
  find_spelling a := by cases a <;> decide

/-- One step of the execute sequence. -/
structure Step where
  name : String
  kind : StepKind
  number : UInt32
  condition : Option String
  deriving DecidableEq, Repr

/-- The actions of a package and the sequence in which they run among the phases. -/
structure Schedule where
  actions : List Schedule.Action
  steps : List Step
  deriving DecidableEq, Repr

namespace Schedule

/-- The edges that keep the phases in order. -/
def phaseChain : List (String × String) := Phase.names.zip Phase.names.tail

/-- The edges of the phases and the links. -/
def ruleEdges (links : List Link) : List (String × String) := phaseChain ++ links.map Link.edge

/-- The edges that hold an action of the script inside it. -/
def scriptEdges (action : String) : List (String × String) :=
  [(Phase.installInitialize.name, action), (action, Phase.installFinalize.name)]

/-- Holds every action of the script inside it, or names the first that the edges put outside. -/
def pin (edges : List (String × String)) :
    List Action → Except Violation (List (String × String))
  | [] => .ok edges
  | a :: rest =>
    if !a.execute.isInScript then pin edges rest
    else if Precedence.reaches edges Phase.installFinalize.name a.id ||
        Precedence.reaches edges a.id Phase.installInitialize.name then
      .error (.deferredOutsideScript a.id)
    else pin (edges ++ scriptEdges a.id) rest

/-- The steps in an order that keeps the edges. -/
def orderSteps (links : List Link) (steps : List String) (edges : List (String × String)) :
    Except Violation (List String) :=
  match Precedence.order (goesFirst (ranks links steps)) steps edges with
  | .ok order => .ok order
  | .error cycle => .error (.orderingContradiction cycle)

/-- Whether a step comes strictly between the two ends of the script. -/
def isInsideScript (order : List String) (step : String) : Bool :=
  let position := order.idxOf step
  order.idxOf Phase.installInitialize.name < position &&
    position < order.idxOf Phase.installFinalize.name

/-- Every action of the script comes inside it; the first in the order that does not is named. -/
def checkScript (actions : List Action) (order : List String) : Except Violation Unit :=
  order.forM fun step =>
    match actions.find? (·.id = step) with
    | some a =>
      if a.execute.isInScript && !isInsideScript order step then
        .error (.deferredOutsideScript a.id)
      else .ok ()
    | none => .ok ()

/-- The guards declared for a step, in the order of the rules, as one condition: one guard stands as
it is, several are joined. -/
def conditionOf (links : List Link) (step : String) : Option String :=
  match (links.filter (·.subject = step)).filterMap (·.guard) with
  | [] => none
  | [guard] => some guard
  | guards => some (" AND ".intercalate (guards.map fun g => s!"({g})"))

/-- What a gap is called by that is before all phases. -/
def sequenceStart : String := "start of sequence"

/-- The steps of an order, numbered after a step with the number `previous` in the gap that
`opening` opens. -/
def numberFrom (condition : String → Option String) (previous : Nat) (opening : String) :
    List String → Except Violation (List Step)
  | [] => .ok []
  | step :: rest =>
    match Phase.ofName? step with
    | some phase => do
      let more ← numberFrom condition phase.number step rest
      return ⟨step, .phase, .ofNat phase.number, none⟩ :: more
    | none => do
      if (rest.findSome? Phase.ofName?).any fun next => next.number ≤ previous + 1 then
        throw (.sequenceGapExhausted opening)
      let more ← numberFrom condition (previous + 1) opening rest
      return ⟨step, .action, .ofNat (previous + 1), condition step⟩ :: more

/-- The names of the steps: the phases, then the actions as declared. -/
def stepNames (actions : List Action) : List String := Phase.names ++ actions.map (·.id)

end Schedule

/-- The schedule that actions and rules make, or the first rule of the manifest that they break. A
contradiction among the rules is found before an action that they put outside the script. -/
def Schedule.make (declared : List Manifest.Action) (rules : List Manifest.Rule)
    (fileKeys : List String) (scope : Guard.Scope) : Except Violation Schedule := do
  let actions ← Schedule.checkActions fileKeys declared
  let names := Schedule.stepNames actions
  let links ← rules.mapM (Schedule.Link.ofRule names scope)
  match actions.find? fun a => !links.any (·.subject = a.id) with
  | some a => throw (.unscheduledAction a.id)
  | none => pure ()
  let edges := Schedule.ruleEdges links
  let _ ← Schedule.orderSteps links names edges
  let pinned ← Schedule.pin edges actions
  let order ← Schedule.orderSteps links names pinned
  Schedule.checkScript actions order
  let steps ← Schedule.numberFrom (Schedule.conditionOf links) 0 Schedule.sequenceStart order
  return ⟨actions, steps⟩

end Installer
