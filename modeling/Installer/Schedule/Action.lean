import Installer.Manifest.Basic
import Installer.Schedule.Phase
import Installer.Violation

/-!
# Custom actions that a package can run

An action has an id of its own that is no phase's name, runs a declared file, and says how it is
waited for; only an immediate action may leave that open, and is then checked.
-/

set_option autoImplicit false

namespace Installer.Schedule

/-- A custom action with its return policy settled. -/
structure Action where
  id : String
  fileKey : String
  execute : ExecuteMode
  impersonate : Bool
  returnPolicy : ReturnPolicy
  arguments : String
  deriving DecidableEq, Repr

/-- The action that a declaration makes, after declarations with the ids `earlier`. -/
def Action.ofDeclaration (fileKeys earlier : List String) (a : Manifest.Action) :
    Except Violation Action := do
  if (Phase.ofName? a.id).isSome || earlier.contains a.id then throw (.duplicateActionId a.id)
  if !fileKeys.contains a.fileKey then throw (.unresolvedFile a.id a.fileKey)
  match a.returnPolicy, a.execute.isInScript with
  | some policy, _ => return ⟨a.id, a.fileKey, a.execute, a.impersonate, policy, a.arguments⟩
  | none, false => return ⟨a.id, a.fileKey, a.execute, a.impersonate, .check, a.arguments⟩
  | none, true => throw (.missingReturnPolicy a.id)

/-- The actions of declarations that follow those with the ids `earlier`. -/
def actionsAfter (fileKeys : List String) (earlier : List String) :
    List Manifest.Action → Except Violation (List Action)
  | [] => .ok []
  | a :: rest => do
    let action ← Action.ofDeclaration fileKeys earlier a
    return action :: (← actionsAfter fileKeys (a.id :: earlier) rest)

/-- The actions that declarations make, or the first rule that one breaks. -/
def checkActions (fileKeys : List String) (declared : List Manifest.Action) :
    Except Violation (List Action) :=
  actionsAfter fileKeys [] declared

end Installer.Schedule
