import Installer.Text.Decimal

/-!
# Paths as texts write them

A path leads, step by step, from the root or from the working directory to a directory or a file.
Steps that stay where they are do not count, except at the end, where they say that the path is that
of a directory.
-/

set_option autoImplicit false

namespace Installer

/-- A path. -/
structure Path where
  /-- Whether it starts at the root. -/
  rooted : Bool
  steps : List String
  /-- Whether it ends in a step that stays where it is. -/
  ofDirectory : Bool
  deriving DecidableEq, Repr

namespace Path

/-- A step up, to the directory around. -/
def up : String := ".."

/-- Whether a step stays where it is. -/
def stays (step : String) : Bool := step = "" || step = "."

/-- The path that a text writes. -/
def ofText (text : String) : Path :=
  let written := (Text.pieces '/' text.toList).map String.ofList
  { rooted := text.startsWith "/"
    steps := written.filter fun s => !stays s
    ofDirectory := written.getLast?.any stays }

/-- The path without its last step. -/
def parent (p : Path) : Path := ⟨p.rooted, p.steps.dropLast, true⟩

/-- The last step of a path that may be that of a file. -/
def fileName? (p : Path) : Option String :=
  if p.ofDirectory then none else p.steps.getLast?.filter (· ≠ up)

/-- A text that writes a path of a directory. -/
def directoryText (p : Path) : String :=
  let start := if p.rooted then "/" else "./"
  String.join (start :: p.steps.map (· ++ "/"))

end Path
end Installer
