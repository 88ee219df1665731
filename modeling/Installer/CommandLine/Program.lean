import Installer.CommandLine.Invocation
import Installer.Disk.Basic
import Installer.Json.Fault
import Installer.Violation

/-!
# Programs that work on a disk and print

A program is a tree of requests; what comes after a request depends on its answer. Running one on a
disk gives what it ends with, the disk afterwards and what was printed. Files are written in two
steps: a file is staged in the directory where it is to be, and moved into its place later.

Printing never fails here. On a system the standard output may be closed, and a program that prints
then breaks off, with the files that it moved before in their places; such runs are left out. So are
files that others write while a program runs.
-/

set_option autoImplicit false

namespace Installer.CommandLine

/-- Why a run fails. -/
inductive Failure
  | usage (e : UsageError)
  | settings (f : SettingsFault)
  | unreadable (path : String)
  | document (path : String) (f : Json.Fault)
  | violation (v : Violation)
  | unwritable (path : String)
  deriving Repr

namespace Failure

/-- A broken rule of the manifest is told apart from everything else. -/
def exitCode : Failure → UInt32
  | .violation _ => 1
  | .usage _ | .settings _ | .unreadable _ | .document _ _ | .unwritable _ => 2

def faultText : Json.Fault → String
  | .malformed => "malformed JSON"
  | .truncated => "unexpected end of JSON"
  | .misfit m => m.message

def message : Failure → String
  | .usage e => e.message
  | .settings f => s!"Configuration error: {f.message}"
  | .unreadable path => s!"cannot read '{path}'"
  | .document path f => s!"cannot use '{path}': {faultText f}"
  | .violation v => s!"{v.category.name}[{v.name}]: {v.message}"
  | .unwritable path => s!"cannot write '{path}'"

end Failure

/-- What is written to a file. -/
inductive Output
  | package
  | source
  deriving DecidableEq, Repr

/-- A program that ends with a value or fails. -/
inductive Program (α : Type)
  | done (a : α)
  | fail (f : Failure)
  /-- Reads a file; there may be none that can be read. -/
  | read (path : String) (next : Option String → Program α)
  /-- Prepares a file with a content, to be moved to its path; that may be impossible. -/
  | stage (o : Output) (path content : String) (next : Bool → Program α)
  /-- Moves a file that was prepared into its place; that may be impossible. -/
  | persist (o : Output) (next : Bool → Program α)
  | print (text : String) (next : Program α)

namespace Program
variable {α β : Type}

/-- One program after another. -/
def bind (p : Program α) (f : α → Program β) : Program β :=
  match p with
  | .done a => f a
  | .fail e => .fail e
  | .read path next => .read path fun answer => (next answer).bind f
  | .stage o path content next => .stage o path content fun ok => (next ok).bind f
  | .persist o next => .persist o fun ok => (next ok).bind f
  | .print text next => .print text (next.bind f)

instance : Monad Program where
  pure := .done
  bind := bind

/-- A result, or the failure that its error is. -/
def ofExcept {ε : Type} (failure : ε → Failure) : Except ε α → Program α
  | .ok a => .done a
  | .error e => .fail (failure e)

/-- Reads the file of a path, or fails. -/
def readFile (path : String) : Program String :=
  .read path fun
    | some text => .done text
    | none => .fail (.unreadable path)

/-- Prepares a file, or fails. -/
def stageFile (o : Output) (path content : String) : Program Unit :=
  .stage o path content fun ok => if ok then .done () else .fail (.unwritable path)

/-- Prepares a file with its path and content, if it is asked for. -/
def stageAsked (o : Output) (asked : Option (String × String)) : Program Unit :=
  asked.toList.forM fun (path, content) => stageFile o path content

/-- Moves a file into its place, or fails. -/
def persistFile (o : Output) (path : String) : Program Unit :=
  .persist o fun ok => if ok then .done () else .fail (.unwritable path)

def printText (text : String) : Program Unit := .print text (.done ())

end Program

/-- A disk on which a program runs, with the files that are prepared and what has been printed. -/
structure World where
  disk : Disk
  /-- The path and the content of every file that is prepared. -/
  staged : List (Output × String × String)
  printed : String
  deriving Repr

namespace World

/-- The world before anything has happened. -/
def ofDisk (disk : Disk) : World := ⟨disk, [], ""⟩

/-- The disk with a prepared file moved into its place. -/
def persist? (w : World) (o : Output) : Option Disk := do
  let (path, content) ← w.staged.lookup o
  w.disk.write? path content

end World

/-- Runs a program. -/
def Program.run {α : Type} (w : World) : Program α → Except Failure α × World
  | .done a => (.ok a, w)
  | .fail f => (.error f, w)
  | .read path next => run w (next (w.disk.read? path))
  | .stage o path content next =>
    if w.disk.canStage path then
      run { w with staged := (o, path, content) :: w.staged } (next true)
    else run w (next false)
  | .persist o next =>
    match w.persist? o with
    | some disk => run { w with disk } (next true)
    | none => run w (next false)
  | .print text next => run { w with printed := w.printed ++ text } next

end Installer.CommandLine
