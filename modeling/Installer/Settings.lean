import Installer.Json.Codec
import Installer.Text.Blank

/-!
# The values that one build injects

They come from outside the manifest: a platform, a version, a profile and the paths of assets. They
are checked for shape only; whether a version or platform exists is for the build to say.
-/

set_option autoImplicit false

namespace Installer
open Json

/-- The injected values of one build. -/
structure Settings where
  /-- A platform selector; without one the default platform is built for. -/
  platform : Option String
  version : String
  profile : String
  binary : Option String
  icon : Option String
  license : Option String
  banner : Option String
  dialog : Option String
  deriving DecidableEq, Repr

/-- Why injected values cannot be used. -/
inductive SettingsFault
  | noVersion
  | noProfile
  | unfitProfile
  | emptyAsset (name : String)
  deriving DecidableEq, Repr

def SettingsFault.message : SettingsFault → String
  | .noVersion => "Version must be specified"
  | .noProfile => "Build profile must not be empty"
  | .unfitProfile => "Build profile can only contain letters, numbers, '-' and '_'"
  | .emptyAsset name => s!"Asset path for '{name}' must not be empty"

namespace Settings

/-- The profile of a build that names none. -/
def standardProfile : String := "release"

/-- The paths of assets by the names that templates use. -/
def assets (s : Settings) : List (String × Option String) :=
  [("binary", s.binary), ("icon", s.icon), ("license", s.license), ("banner", s.banner),
    ("dialog", s.dialog)]

/-- Profiles are written with letters and digits of ASCII, `-` and `_`. -/
def isProfileChar (c : Char) : Bool := c.isAlphanum || c == '-' || c == '_'

/-- Refuses the first value that is unfit. -/
def check (s : Settings) : Except SettingsFault Unit := do
  if (Text.trim s.version).isEmpty then throw .noVersion
  let profile := Text.trim s.profile
  if profile.isEmpty then throw .noProfile
  if !profile.toList.all isProfileChar then throw .unfitProfile
  match s.assets.find? (·.2 = some "") with
  | some (name, _) => throw (.emptyAsset name)
  | none => return ()

def shape : Schema Settings where
  blank := ⟨none, "", standardProfile, none, none, none, none, none⟩
  fields := [
    .defaulted "platform" (.optional .text) (·.platform) (fun v r => { r with platform := v }),
    .required "version" .text (·.version) (fun v r => { r with version := v }),
    .defaulted "profile" .text (·.profile) (fun v r => { r with profile := v }),
    .defaulted "binary" (.optional .text) (·.binary) (fun v r => { r with binary := v }),
    .defaulted "icon" (.optional .text) (·.icon) (fun v r => { r with icon := v }),
    .defaulted "license" (.optional .text) (·.license) (fun v r => { r with license := v }),
    .defaulted "banner" (.optional .text) (·.banner) (fun v r => { r with banner := v }),
    .defaulted "dialog" (.optional .text) (·.dialog) (fun v r => { r with dialog := v })]
  closed := true

end Settings
end Installer
