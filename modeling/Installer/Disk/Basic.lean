import Installer.Disk.Path

/-!
# A disk

A disk has files in directories, and a directory in which a program runs. A place is written as the
names that lead to it from the root. A file can be put where its directory exists and where there is
no directory already; directories are never made.

Links, permissions and a disk that is full are left out: whatever has its directory can be written.
-/

set_option autoImplicit false

namespace Installer

/-- A place on a disk, by the names from the root on. -/
abbrev Location := List String

/-- The files of a disk, its directories, and the working directory. -/
structure Disk where
  files : List (Location × String)
  /-- Directories that exist, whether anything is in them or not. -/
  folders : List Location
  working : Location
  deriving DecidableEq, Repr

namespace Disk
variable (d : Disk)

/-- What the file at a place holds. -/
def contents? (l : Location) : Option String := (d.files.find? (·.1 = l)).map (·.2)

/-- A directory exists if something that exists is in it. -/
def isDirectory (l : Location) : Bool :=
  (d.working :: d.folders).any l.isPrefixOf ||
    d.files.any fun f => l.isPrefixOf f.1 && l ≠ f.1

/-- Where steps through existing directories lead. -/
def walk (l : Location) : List String → Option Location
  | [] => some l
  | s :: rest =>
    if s = Path.up then walk l.dropLast rest
    else if d.isDirectory (l ++ [s]) then walk (l ++ [s]) rest
    else none

/-- Where a path starts. -/
def start (p : Path) : Location := if p.rooted then [] else d.working

/-- The place of a directory that exists. -/
def directoryAt? (p : Path) : Option Location := d.walk (d.start p) p.steps

/-- The place of a file that may exist, in a directory that does. -/
def fileAt? (p : Path) : Option Location := do
  let name ← p.fileName?
  let l ← d.directoryAt? p.parent
  return l ++ [name]

/-- What the file of a path holds. -/
def read? (path : String) : Option String := (d.fileAt? (.ofText path)).bind d.contents?

/-- Whether a file of a path can be prepared in the directory where it is to be. -/
def canStage (path : String) : Bool := (d.directoryAt? (Path.ofText path).parent).isSome

/-- The disk with a file put at a place. -/
def put (l : Location) (content : String) : Disk :=
  { d with files := (l, content) :: d.files.filter (·.1 ≠ l) }

/-- The disk with the file of a path written, if it can be. -/
def write? (path content : String) : Option Disk := do
  let l ← d.fileAt? (.ofText path)
  if d.isDirectory l then none else return d.put l content

/-- The files of a disk that are new or changed since an earlier one. -/
def changesSince (earlier : Disk) : List (Location × String) :=
  d.files.filter fun (l, content) => earlier.contents? l ≠ some content

/-- A disk with files whose paths are given from the working directory. -/
def ofFiles (working : Location) (files : List (String × String)) : Disk where
  files := files.map fun (path, content) => (working ++ (Path.ofText path).steps, content)
  folders := []
  working := working

/-- The path of a place below the working directory. -/
def relative? (l : Location) : Option String :=
  if d.working.isPrefixOf l then some ("/".intercalate (l.drop d.working.length)) else none

theorem contents?_put_self (l : Location) (content : String) :
    (d.put l content).contents? l = some content := by
  simp [put, contents?]

theorem contents?_put_of_ne {l k : Location} (content : String) (h : k ≠ l) :
    (d.put l content).contents? k = d.contents? k := by
  have hsame : ∀ f : Location × String,
      decide (decide (f.1 ≠ l) = true ∧ decide (f.1 = k) = true) = decide (f.1 = k) := by
    intro f
    by_cases hf : f.1 = k <;> simp [hf, h]
  simp only [put, contents?]
  rw [List.find?_cons_of_neg (by simpa using Ne.symm h), List.find?_filter]
  simp only [hsame]

end Disk
end Installer
