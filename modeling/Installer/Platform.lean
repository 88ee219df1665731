import Installer.Keyword
import Installer.Text.Blank

/-!
# Target platforms

A selector may use any of a platform's names, in any case. A platform fixes whether components are
64-bit and which of the well-known folders holds the program files.
-/

set_option autoImplicit false

namespace Installer

/-- The platform a package is for. -/
inductive Platform
  | x86
  | x64
  deriving DecidableEq, Repr

instance : Keyword Platform where
  all := [.x86, .x64]
  spelling
    | .x86 => "x86"
    | .x64 => "x64"
  find_spelling a := by cases a <;> decide

/-- A folder that the installer finds on the target system. -/
inductive StandardFolder
  | targetDir
  | programFiles
  | programFiles64
  | programMenu
  | desktop
  | localAppData
  | commonAppData
  deriving DecidableEq, Repr

instance : Keyword StandardFolder where
  all := [.targetDir, .programFiles, .programFiles64, .programMenu, .desktop, .localAppData,
    .commonAppData]
  spelling
    | .targetDir => "TARGETDIR"
    | .programFiles => "ProgramFilesFolder"
    | .programFiles64 => "ProgramFiles64Folder"
    | .programMenu => "ProgramMenuFolder"
    | .desktop => "DesktopFolder"
    | .localAppData => "LocalAppDataFolder"
    | .commonAppData => "CommonAppDataFolder"
  find_spelling a := by cases a <;> decide

/-- The directory id of a standard folder. -/
abbrev StandardFolder.id (folder : StandardFolder) : String := Keyword.spelling folder

namespace Platform

/-- The names of a platform, in lower case. -/
def names : Platform → List String
  | .x86 => ["x86", "32", "win32", "i386"]
  | .x64 => ["x64", "64", "amd64", "x86_64"]

/-- The platform that has a name, whatever the case of its letters. -/
def ofName? (name : String) : Option Platform :=
  Keyword.all.find? fun p => p.names.contains (String.ofList (name.toList.map Char.toLower))

/-- The platform of a selector; no selector, or a blank one, selects `x86`. -/
def select (selector : Option String) : Except String Platform :=
  match selector.map Text.trim with
  | none | some "" => .ok .x86
  | some name =>
    match ofName? name with
    | some p => .ok p
    | none => .error name

def isWin64 : Platform → Bool
  | .x86 => false
  | .x64 => true

def programFiles : Platform → StandardFolder
  | .x86 => .programFiles
  | .x64 => .programFiles64

end Platform
end Installer
