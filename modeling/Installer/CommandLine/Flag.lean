import Installer.Keyword

/-!
# The words of the command line

The commands, and the flags that take a value, with the words and letters that stand for them and the
environment variables that some of them are read from. Flags that take no value are not here: how they
are met is part of reading (`CommandLine.readRequest`).
-/

set_option autoImplicit false

namespace Installer.CommandLine

/-- What is asked for. -/
inductive Command
  /-- Write the package of a manifest. -/
  | compile
  /-- Only check a manifest. -/
  | validate
  deriving DecidableEq, Repr

instance : Keyword Command where
  all := [.compile, .validate]
  spelling
    | .compile => "compile"
    | .validate => "validate"
  find_spelling a := by cases a <;> decide

/-- A flag that takes a value. -/
inductive Flag
  | platform
  | version
  | profile
  | binary
  | icon
  | license
  | banner
  | dialog
  /-- An earlier package to hold the new one against. -/
  | baseline
  /-- Where the package is written, instead of the standard output. -/
  | out
  /-- Where the WiX source is written. -/
  | wxs
  deriving DecidableEq, Repr

instance : Keyword Flag where
  all := [.platform, .version, .profile, .binary, .icon, .license, .banner, .dialog, .baseline,
    .out, .wxs]
  spelling
    | .platform => "platform"
    | .version => "version"
    | .profile => "profile"
    | .binary => "binary"
    | .icon => "icon"
    | .license => "license"
    | .banner => "banner"
    | .dialog => "dialog"
    | .baseline => "baseline"
    | .out => "out"
    | .wxs => "wxs"
  find_spelling a := by cases a <;> decide

namespace Flag

/-- The name of a flag. -/
def name (f : Flag) : String := Keyword.spelling f

/-- The letter of a flag that has one. -/
def letter? : Flag → Option Char
  | .out => some 'o'
  | _ => none

/-- Whether the value is a path; a path is never empty. -/
def isPath : Flag → Bool
  | .platform | .version | .profile => false
  | .binary | .icon | .license | .banner | .dialog | .baseline | .out | .wxs => true

/-- The environment variable that stands in for a flag. -/
def environmentName? : Flag → Option String
  | .platform => some "SETUPFORGE_PLATFORM"
  | .version => some "SETUPFORGE_VERSION"
  | .profile => some "SETUPFORGE_PROFILE"
  | .binary => some "SETUPFORGE_BINARY"
  | .icon => some "SETUPFORGE_ICON"
  | .license => some "SETUPFORGE_LICENSE"
  | .banner => some "SETUPFORGE_BANNER"
  | .dialog => some "SETUPFORGE_DIALOG"
  | .baseline => some "SETUPFORGE_BASELINE"
  | .out | .wxs => none

/-- Only compiling writes anything. -/
def isFor (command : Command) : Flag → Bool
  | .out | .wxs => command = .compile
  | _ => true

/-- The flag of a command that has a name. -/
def ofName? (command : Command) (name : String) : Option Flag :=
  (Keyword.read? name).filter (isFor command)

/-- The flag of a command that has a letter. -/
def ofLetter? (command : Command) (c : Char) : Option Flag :=
  Keyword.all.find? fun f => isFor command f && letter? f = some c

end Flag

/-- The environment variables that are looked at. -/
def environmentNames : List String := (Keyword.all : List Flag).filterMap Flag.environmentName?

end Installer.CommandLine
