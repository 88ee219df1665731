import Installer.Keyword

/-!
# The closed sets of words of a manifest

Each set of choices is a type of its own, with the word that stands for each in documents. Words are
spelled exactly so, letter case included.
-/

set_option autoImplicit false

namespace Installer

/-- Whether a package installs for every user or for the one who runs it. -/
inductive Scope
  | perMachine
  | perUser
  deriving DecidableEq, Repr

instance : Keyword Scope where
  all := [.perMachine, .perUser]
  spelling
    | .perMachine => "per-machine"
    | .perUser => "per-user"
  find_spelling a := by cases a <;> decide

/-- A root of the registry. -/
inductive Hive
  | localMachine
  | currentUser
  | classesRoot
  | users
  /-- The local machine or the current user, by the package's scope. -/
  | machineOrUser
  deriving DecidableEq, Repr

instance : Keyword Hive where
  all := [.localMachine, .currentUser, .classesRoot, .users, .machineOrUser]
  spelling
    | .localMachine => "HKLM"
    | .currentUser => "HKCU"
    | .classesRoot => "HKCR"
    | .users => "HKU"
    | .machineOrUser => "HKMU"
  find_spelling a := by cases a <;> decide

/-- The type of a registry value. -/
inductive ValueType
  | string
  | integer
  | expandable
  | multistring
  deriving DecidableEq, Repr

instance : Keyword ValueType where
  all := [.string, .integer, .expandable, .multistring]
  spelling
    | .string => "string"
    | .integer => "integer"
    | .expandable => "expandable"
    | .multistring => "multistring"
  find_spelling a := by cases a <;> decide

/-- Where a value goes in an environment variable that holds a list. -/
inductive ListPlace
  | first
  | last
  | all
  deriving DecidableEq, Repr

instance : Keyword ListPlace where
  all := [.first, .last, .all]
  spelling
    | .first => "first"
    | .last => "last"
    | .all => "all"
  find_spelling a := by cases a <;> decide

/-- What is done to an environment variable. -/
inductive EnvironmentAction
  | set
  | create
  | remove
  deriving DecidableEq, Repr

instance : Keyword EnvironmentAction where
  all := [.set, .create, .remove]
  spelling
    | .set => "set"
    | .create => "create"
    | .remove => "remove"
  find_spelling a := by cases a <;> decide

/-- When a custom action runs. -/
inductive ExecuteMode
  | immediate
  | deferred
  | commit
  | rollback
  deriving DecidableEq, Repr

instance : Keyword ExecuteMode where
  all := [.immediate, .deferred, .commit, .rollback]
  spelling
    | .immediate => "immediate"
    | .deferred => "deferred"
    | .commit => "commit"
    | .rollback => "rollback"
  find_spelling a := by cases a <;> decide

/-- Every mode but the immediate one runs inside the installation script. -/
def ExecuteMode.isInScript : ExecuteMode → Bool
  | .immediate => false
  | .deferred | .commit | .rollback => true

/-- How the installer waits for a custom action. -/
inductive ReturnPolicy
  | check
  | ignore
  | asyncWait
  | asyncNoWait
  deriving DecidableEq, Repr

instance : Keyword ReturnPolicy where
  all := [.check, .ignore, .asyncWait, .asyncNoWait]
  spelling
    | .check => "check"
    | .ignore => "ignore"
    | .asyncWait => "async_wait"
    | .asyncNoWait => "async_no_wait"
  find_spelling a := by cases a <;> decide

/-- How a feature shows in the selection tree. -/
inductive FeatureDisplay
  | collapse
  | expand
  | hidden
  deriving DecidableEq, Repr

instance : Keyword FeatureDisplay where
  all := [.collapse, .expand, .hidden]
  spelling
    | .collapse => "collapse"
    | .expand => "expand"
    | .hidden => "hidden"
  find_spelling a := by cases a <;> decide

/-- Where a component's stability key comes from. -/
inductive KeyOrigin
  /-- Derived from the identity of the key path. -/
  | auto
  /-- Declared in the manifest. -/
  | explicit
  deriving DecidableEq, Repr

instance : Keyword KeyOrigin where
  all := [.auto, .explicit]
  spelling
    | .auto => "auto"
    | .explicit => "explicit"
  find_spelling a := by cases a <;> decide

end Installer
