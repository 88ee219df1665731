import Installer.Guard.Condition
import Installer.Violation

/-!
# What a guard may refer to

The names that are known to guards, and the check of a guard against them. The references of a guard
are checked in the order in which its text has them, and the first that is unknown, or is the action
that is guarded, is told.
-/

set_option autoImplicit false

namespace Installer.Guard

/-- The names known to guards, by what they name. -/
structure Scope where
  variableNames : List String
  features : List String
  components : List String
  deriving Repr

/-- The variables that the installer always defines. -/
def builtins : List String :=
  ["Installed", "REMOVE", "REINSTALL", "UPGRADINGPRODUCTCODE", "WIX_UPGRADE_DETECTED",
    "WIX_DOWNGRADE_DETECTED", "VersionNT", "VersionNT64", "UILevel", "PATCH", "ALLUSERS",
    "ProductVersion"]

namespace Scope

/-- The names that operands of the same sort as `o` may have. -/
def namesFor (scope : Scope) : Operand → List String
  | .state kind _ => if kind.isOfFeature then scope.features else scope.components
  | _ => scope.variableNames

end Scope

/-- The name of a reference. -/
def Operand.name? : Operand → Option String
  | .variable name | .state _ name => some name
  | .environment _ | .text _ | .integer _ => none

/-- A reference must not name the guarded action itself, and must name something known. -/
def checkReference (action : String) (scope : Scope) (o : Operand) : Except Violation Unit :=
  match o.name? with
  | none => .ok ()
  | some name =>
    if name = action then .error (.guardDependsOnAction action)
    else if (scope.namesFor o).contains name then .ok ()
    else .error (.unknownGuardVariable action name)

/-- The condition that guards an action, its references checked in the order of the text. -/
def check (action text : String) (scope : Scope) : Except Violation Condition :=
  match Condition.parse text with
  | .error fault => .error (.malformedGuard action fault)
  | .ok condition => do
    condition.references.forM (checkReference action scope)
    return condition

end Installer.Guard
