import Installer.CommandLine.Run

/-!
# The program on a system

The file system and the standard streams answer the requests of a program. Nothing is proved of this
module: what it does for a request is what `Program.run` says as far as the system does it.
-/

set_option autoImplicit false

namespace Installer.CommandLine

/-- The prepared files: the path that each is for, and the path where it is. -/
abbrev Prepared := List (Output × String × String)

/-- A path beside the file of a path, for preparing it. -/
def besides (path : String) (n : Nat) : String :=
  (Path.ofText path).parent.directoryText ++ s!".staged{n}"

/-- Whether an action succeeds. -/
def succeeds (action : IO Unit) : IO Bool := do
  try
    action
    return true
  catch _ => return false

/-- The text of a file that can be read. -/
def readText (path : String) : IO (Option String) := do
  try
    return some (← IO.FS.readFile path)
  catch _ => return none

/-- Writes a file that must not exist yet. -/
def writeNew (path content : String) : IO Bool :=
  succeeds (IO.FS.withFile path .writeNew fun handle => handle.putStr content)

/-- Moves a prepared file into its place. -/
def move (prepared : Prepared) (o : Output) : IO Bool :=
  match prepared.lookup o with
  | some (path, temporary) => succeeds (IO.FS.rename temporary path)
  | none => return false

/-- Runs a program on the system, and tells which files are still prepared. -/
def perform {α : Type} (prepared : Prepared) : Program α → IO (Except Failure α × Prepared)
  | .done a => return (.ok a, prepared)
  | .fail f => return (.error f, prepared)
  | .read path next => do
    let answer ← readText path
    perform prepared (next answer)
  | .stage o path content next => do
    let temporary := besides path (← IO.rand 0 999999999)
    if ← writeNew temporary content then
      perform ((o, path, temporary) :: prepared) (next true)
    else perform prepared (next false)
  | .persist o next => do
    let ok ← move prepared o
    perform (if ok then prepared.filter (·.1 ≠ o) else prepared) (next ok)
  | .print text next => do
    (← IO.getStdout).putStr text
    perform prepared next

/-- How a command line is written. -/
def usage : Topic → String
  | .program => "setupforge [--quiet] <compile | validate | help>"
  | .command c => s!"setupforge {Keyword.spelling c} [flags] <manifest>"
  | .help => "setupforge help [compile | validate | help]"

/-- The help on a topic, with the flags of a command. -/
def helpText (topic : Topic) : String :=
  let flags := match topic with
    | .command c => (Keyword.all : List Flag).filter (Flag.isFor c)
    | .program | .help => []
  s!"Usage: {usage topic}\n" ++ String.join (flags.map fun f => s!"  --{f.name} <value>\n")

end Installer.CommandLine

open Installer.CommandLine in
/-- Runs the command line and removes the files that were prepared and not moved. -/
def main (args : List String) : IO UInt32 := do
  let values ← environmentNames.filterMapM fun name => do
    return (← IO.getEnv name).map fun value => (name, value)
  let (result, prepared) ← perform [] (program args ⟨fun name => values.lookup name, helpText⟩)
  for (_, _, temporary) in prepared do
    discard (succeeds (IO.FS.removeFile temporary))
  match result with
  | .ok () => return 0
  | .error f =>
    IO.eprintln f.message
    return f.exitCode
