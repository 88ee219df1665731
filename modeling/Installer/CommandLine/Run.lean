import Installer.CommandLine.Program
import Installer.Package.Baseline
import Installer.Package.Compilation
import Installer.Package.Shape
import Installer.Wix.Source

/-!
# What the commands do

The settings are checked before the manifest is read, and an earlier package is read only when the
manifest has been compiled. Both outputs are made before either is prepared, and prepared before
either is moved into its place.

What is logged is left out. A run ends with an exit code, what was printed and the disk.
-/

set_option autoImplicit false

namespace Installer.CommandLine

/-- What the program calls itself, and its version. -/
def programVersion : String := "setupforge 1.0.0\n"

/-- The line that tells a package's fingerprint. -/
def fingerprintLine (p : Package) : String := s!"sha256:{p.fingerprint}\n"

/-- What is printed of a manifest that keeps all rules. -/
def validLine (p : Package) : String :=
  s!"✓ Manifest is valid: {p.product.name} {p.product.version} " ++
    s!"({Keyword.spelling p.product.platform})\n"

namespace Invocation

/-- The package of the manifest, held against the earlier package if there is one. -/
def resolve (i : Invocation) : Program Package := do
  Program.ofExcept .settings i.settings.check
  let text ← Program.readFile i.manifest
  let manifest ← Program.ofExcept (.document i.manifest) (Manifest.ofText text)
  let package ← Program.ofExcept .violation (manifest.compile i.settings)
  match i.baseline with
  | none => return package
  | some path =>
    let text ← Program.readFile path
    let baseline ← Program.ofExcept (.document path) (Package.ofText text)
    Program.ofExcept .violation (package.checkBaseline baseline)
    return package

/-- The source with its path, if it is asked for. A package that was compiled always has one. -/
def render (i : Invocation) (package : Package) : Program (Option (String × String)) :=
  match i.wxs with
  | none => return none
  | some path =>
    match Wix.source? package with
    | some text => return some (path, text)
    | none => .fail (.unwritable path)

/-- Prepares the files that are asked for. -/
def prepare (i : Invocation) (package : Package) (source : Option (String × String)) :
    Program Unit := do
  Program.stageAsked .package (i.out.map (·, package.text))
  Program.stageAsked .source source

/-- Moves the file of a package into its place, or prints the package. -/
def give (i : Invocation) (package : Package) : Program Unit :=
  match i.out with
  | some path => Program.persistFile .package path
  | none => Program.printText package.text

/-- Writes a package, and the source if there is one. -/
def write (i : Invocation) (package : Package) (source : Option (String × String)) :
    Program Unit := do
  i.prepare package source
  i.give package
  i.wxs.toList.forM (Program.persistFile .source)
  i.out.toList.forM fun path => Program.printText (path ++ "\n" ++ fingerprintLine package)

/-- Writes what is asked for of a package. -/
def deliver (i : Invocation) (package : Package) : Program Unit := do
  i.write package (← i.render package)

/-- Compiles the manifest and writes the package. -/
def compile (i : Invocation) : Program Unit := do
  i.deliver (← i.resolve)

/-- Tells that the manifest keeps all rules. -/
def validate (i : Invocation) : Program Unit := do
  let package ← i.resolve
  Program.printText (validLine package ++ fingerprintLine package)

def program (i : Invocation) : Program Unit :=
  match i.command with
  | .compile => i.compile
  | .validate => i.validate

end Invocation

/-- The program that a command line asks for. -/
def program (args : List String) (env : Environment) : Program Unit := do
  match ← Program.ofExcept .usage (readRequest env args false) with
  | .version => Program.printText programVersion
  | .help topic => Program.printText (env.helpText topic)
  | .run i => i.program

/-- What a run comes to. -/
structure Outcome where
  exitCode : UInt32
  printed : String
  disk : Disk
  deriving Repr

/-- Runs a command line on a disk. -/
def run (args : List String) (env : Environment) (disk : Disk) : Outcome :=
  match (program args env).run (.ofDisk disk) with
  | (.ok (), w) => ⟨0, w.printed, w.disk⟩
  | (.error f, w) => ⟨f.exitCode, w.printed, w.disk⟩

end Installer.CommandLine
