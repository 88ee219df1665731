import Installer.CommandLine.Flag
import Installer.Settings

/-!
# Reading the command line

A command is followed by its flags and the path of the manifest, in any order. A value follows its
flag as the next argument, or after `=`, or, for a letter, directly; letters may be joined. After
`--` there are no flags. No flag is given twice; `--quiet` may stand before the command and once
more after it. A flag that is not given has its value from its environment variable.

Help is asked for by a flag, before the command or after it, or by a word in place of the command.
The flag counts where it is met: what was wrong before it is told instead of helping, and what comes
after it is not read. The text of the help is not described here. It is set for the terminal and shows
the values of variables, so it comes with the environment, and nothing is said of it.
-/

set_option autoImplicit false

namespace Installer.CommandLine

/-- What is wrong with a command line. -/
inductive UsageError
  | noCommand
  | unknownCommand (text : String)
  | unknownFlag (text : String)
  | repeatedFlag (name : String)
  | missingValue (name : String)
  | unexpectedValue (name : String)
  | emptyPath (name : String)
  | extraArgument (text : String)
  | noManifest
  | noVersion
  deriving DecidableEq, Repr

def UsageError.message : UsageError → String
  | .noCommand => "a command is required: compile or validate"
  | .unknownCommand text => s!"unknown command '{text}'"
  | .unknownFlag text => s!"unknown flag '{text}'"
  | .repeatedFlag name => s!"flag '{name}' is given more than once"
  | .missingValue name => s!"flag '{name}' needs a value"
  | .unexpectedValue name => s!"flag '{name}' takes no value"
  | .emptyPath name => s!"the path for '{name}' is empty"
  | .extraArgument text => s!"unexpected argument '{text}'"
  | .noManifest => "the path of a manifest is required"
  | .noVersion => "a version is required"

/-- An argument by its form. -/
inductive Argument
  /-- The end of the flags. -/
  | escape
  /-- A named flag, with the value after `=`. -/
  | named (name : String) (value : Option String)
  /-- Joined letters. -/
  | letters (cs : List Char)
  | plain (text : String)
  deriving DecidableEq, Repr

/-- The form of an argument; a hyphen alone is no flag. -/
def Argument.ofText (text : String) : Argument :=
  match text.toList with
  | ['-', '-'] => .escape
  | '-' :: '-' :: cs =>
    let name := cs.takeWhile (· != '=')
    .named (String.ofList name) <|
      match cs.drop name.length with
      | _ :: value => some (String.ofList value)
      | [] => none
  | '-' :: c :: cs => .letters (c :: cs)
  | _ => .plain text

/-- The name of the flag that asks for silence. -/
def quietName : String := "quiet"

def quietLetter : Char := 'q'

/-- The name of the flag, its letter and the word that ask for help. -/
def helpName : String := "help"

def helpLetter : Char := 'h'

/-- What help can be asked for. -/
inductive Topic
  | program
  | command (c : Command)
  /-- The word that asks for help. -/
  | help
  deriving DecidableEq, Repr

/-- Why no more of a command line is read. -/
inductive Stop
  /-- Help is asked for. -/
  | help
  | wrong (e : UsageError)
  deriving DecidableEq, Repr

/-- What has been read after the command. -/
structure Given where
  manifest : Option String
  values : List (Flag × String)
  quiet : Bool
  deriving Repr

namespace Given

def none : Given := ⟨.none, [], false⟩

def setQuiet (g : Given) : Except Stop Given :=
  if g.quiet then .error (.wrong (.repeatedFlag quietName)) else .ok { g with quiet := true }

def setValue (g : Given) (f : Flag) (value : String) : Except Stop Given :=
  if (g.values.lookup f).isSome then .error (.wrong (.repeatedFlag f.name))
  else if f.isPath && value.isEmpty then .error (.wrong (.emptyPath f.name))
  else .ok { g with values := (f, value) :: g.values }

def setManifest (g : Given) (path : String) : Except Stop Given :=
  if g.manifest.isSome then .error (.wrong (.extraArgument path))
  else if path.isEmpty then .error (.wrong .noManifest)
  else .ok { g with manifest := some path }

end Given

/-- The value that follows a letter directly; the sign before it does not count. -/
def joinedValue : List Char → String
  | '=' :: cs => String.ofList cs
  | cs => String.ofList cs

/-- Reads joined letters; the last may be a flag whose value is to come. -/
def readLetters (command : Command) : List Char → Given → Except Stop (Given × Option Flag)
  | [], g => .ok (g, .none)
  | c :: cs, g =>
    if c = helpLetter then .error .help
    else if c = quietLetter then do readLetters command cs (← g.setQuiet)
    else
      match Flag.ofLetter? command c with
      | .none => .error (.wrong (.unknownFlag (String.singleton c)))
      | some f =>
        if cs.isEmpty then .ok (g, some f)
        else (g.setValue f (joinedValue cs)).map fun g => (g, .none)

/-- Reads a named flag, whose value may be to come. -/
def readNamed (command : Command) (name : String) (value : Option String) (g : Given) :
    Except Stop (Given × Option Flag) :=
  if name = helpName then
    if value.isSome then .error (.wrong (.unexpectedValue name)) else .error .help
  else if name = quietName then
    if value.isSome then .error (.wrong (.unexpectedValue name))
    else g.setQuiet.map fun g => (g, .none)
  else
    match Flag.ofName? command name, value with
    | .none, _ => .error (.wrong (.unknownFlag name))
    | some f, some v => (g.setValue f v).map fun g => (g, .none)
    | some f, .none => .ok (g, some f)

/-- Reads one argument before the end of the flags, which it is not. -/
def readArgument (command : Command) (a : Argument) (g : Given) :
    Except Stop (Given × Option Flag) :=
  match a with
  | .escape => .ok (g, .none)
  | .named name value => readNamed command name value g
  | .letters cs => readLetters command cs g
  | .plain text => (g.setManifest text).map fun g => (g, .none)

/-- Whether an argument can be the value of the flag before it. -/
def isValue (text : String) : Bool :=
  match Argument.ofText text with
  | .plain _ => true
  | _ => false

/-- Reads the arguments after a command. -/
def readArguments (command : Command) : List String → Given → Except Stop Given
  | [], g => .ok g
  | text :: rest, g =>
    match Argument.ofText text with
    | .escape => rest.foldlM Given.setManifest g
    | a =>
      match readArgument command a g with
      | .error e => .error e
      | .ok (g, .none) => readArguments command rest g
      | .ok (g, some f) =>
        match rest with
        | [] => .error (.wrong (.missingValue f.name))
        | value :: rest =>
          if isValue value then do readArguments command rest (← g.setValue f value)
          else .error (.wrong (.missingValue f.name))

/-- What a run finds around it besides the disk. -/
structure Environment where
  /-- Looks up environment variables. -/
  lookup : String → Option String
  helpText : Topic → String

/-- No variable is set. -/
def Environment.bare : Environment := ⟨fun _ => none, fun _ => ""⟩

/-- The value of a flag: what was given, or what its variable holds. -/
def Given.value? (g : Given) (env : Environment) (f : Flag) : Except UsageError (Option String) :=
  match g.values.lookup f, f.environmentName?.bind env.lookup with
  | some v, _ => .ok (some v)
  | .none, some v =>
    if f.isPath && v.isEmpty then .error (.emptyPath f.name) else .ok (some v)
  | .none, .none => .ok .none

/-- What a run is to do. -/
structure Invocation where
  command : Command
  manifest : String
  settings : Settings
  baseline : Option String
  out : Option String
  wxs : Option String
  deriving DecidableEq, Repr

/-- The invocation that is complete in what was given and the environment. -/
def Given.invocation (g : Given) (command : Command) (env : Environment) :
    Except UsageError Invocation := do
  let some manifest := g.manifest | throw .noManifest
  let some version ← g.value? env .version | throw .noVersion
  let profile ← g.value? env .profile
  return {
    command, manifest
    settings := {
      version
      platform := ← g.value? env .platform
      profile := profile.getD Settings.standardProfile
      binary := ← g.value? env .binary
      icon := ← g.value? env .icon
      license := ← g.value? env .license
      banner := ← g.value? env .banner
      dialog := ← g.value? env .dialog }
    baseline := ← g.value? env .baseline
    out := ← g.value? env .out
    wxs := ← g.value? env .wxs }

/-- What a command line asks for. -/
inductive Request
  /-- To name the program and its version. -/
  | version
  | help (topic : Topic)
  | run (i : Invocation)
  deriving DecidableEq, Repr

/-- The name of the flag, and its letter, that ask for the program's version before a command. -/
def versionName : String := "version"

def versionLetter : Char := 'V'

/-- Reads joined letters before the command: what do they ask for, or else is silence asked for? -/
def readFirstLetters : List Char → (quiet : Bool) → Except UsageError (Request ⊕ Bool)
  | [], quiet => .ok (.inr quiet)
  | c :: cs, quiet =>
    if c = helpLetter then .ok (.inl (.help .program))
    else if c = versionLetter then .ok (.inl .version)
    else if c ≠ quietLetter then .error (.unknownFlag (String.singleton c))
    else if quiet then .error (.repeatedFlag quietName)
    else readFirstLetters cs true

/-- What a word after the one for help asks for. -/
def Topic.ofWord? (word : String) : Option Topic :=
  if word = helpName then some .help else (Keyword.read? word).map .command

/-- Reads the words after the one for help; nothing comes after a topic. -/
def readTopic : List String → Except UsageError Topic
  | [] => .ok .program
  | word :: rest =>
    match Topic.ofWord? word, rest with
    | .none, _ => .error (.unknownCommand word)
    | some topic, [] => .ok topic
    | some _, extra :: _ => .error (.unknownCommand extra)

/-- What is asked for by a command and the arguments after it. -/
def readCommand (env : Environment) (command : Command) (rest : List String) :
    Except UsageError Request :=
  match readArguments command rest Given.none with
  | .error .help => .ok (.help (.command command))
  | .error (.wrong e) => .error e
  | .ok given => (given.invocation command env).map .run

/-- Reads a whole command line. -/
def readRequest (env : Environment) : List String → (quiet : Bool) → Except UsageError Request
  | [], _ => .error .noCommand
  | text :: rest, quiet =>
    match Argument.ofText text with
    | .plain word =>
      if word = helpName then (readTopic rest).map .help
      else
        match (Keyword.read? word : Option Command) with
        | .none => .error (.unknownCommand word)
        | some command => readCommand env command rest
    | .letters cs => do
      match ← readFirstLetters cs quiet with
      | .inl request => return request
      | .inr quiet => readRequest env rest quiet
    | .named name value =>
      if name ∉ [helpName, versionName, quietName] then .error (.unknownFlag name)
      else if value.isSome then .error (.unexpectedValue name)
      else if name = helpName then .ok (.help .program)
      else if name = versionName then .ok .version
      else if quiet then .error (.repeatedFlag name)
      else readRequest env rest true
    | .escape => .error .noCommand

end Installer.CommandLine
