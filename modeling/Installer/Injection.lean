import Installer.Platform
import Installer.Settings
import Installer.Template

/-!
# The values of one build, resolved

The platform follows from its selector and the version from its template, in which the version that
was injected may be used. After that `version` stands for the product's version everywhere.
-/

set_option autoImplicit false

namespace Installer

/-- A value that a build has settled, and what it was settled by. -/
structure Variable where
  name : String
  value : String
  condition : String
  deriving DecidableEq, Repr

/-- The resolved values of one build. -/
structure Injection where
  platform : Platform
  version : Version
  /-- The selector of the platform, if it names one. -/
  selector : Option String
  versionTemplate : String
  profile : String
  /-- The injected paths of assets by name. -/
  assets : List (String × Option String)
  deriving DecidableEq, Repr

/-- A truth value as packages write it. -/
def yesNo (b : Bool) : String := if b then "yes" else "no"

/-- What names stand for, given the text for `version`. -/
def meaningWith (version : String) (platform : Platform) (profile : String)
    (assets : List (String × Option String)) (name : String) : Template.Meaning :=
  let settled := [("version", some version), ("platform", some (Keyword.spelling platform)),
    ("win64", some (yesNo platform.isWin64)), ("program_files", some platform.programFiles.id),
    ("profile", some profile)]
  match (settled ++ assets).lookup name with
  | some (some text) => .value text
  | some none => .missing
  | none => .unknown

namespace Injection

/-- The values that settings and the template of the version give. -/
def ofSettings (s : Settings) (versionTemplate : String) : Except Violation Injection := do
  let platform ← (Platform.select s.platform).mapError .unsupportedPlatform
  let profile := Text.trim s.profile
  let text ← Template.expand (meaningWith (Text.trim s.version) platform profile s.assets)
    versionTemplate
  let version ← (Version.parse text).mapError (.malformedVersion text)
  return {
    platform, version, versionTemplate, profile
    selector := (s.platform.map Text.trim).filter (· != "")
    assets := s.assets }

/-- What names stand for in the manifest. -/
def meaning (i : Injection) : String → Template.Meaning :=
  meaningWith i.version.text i.platform i.profile i.assets

/-- The expansion of a text of the manifest. -/
def expand (i : Injection) (template : String) : Except Violation String :=
  Template.expand i.meaning template

/-- The values that are recorded with the package, and where they come from. -/
def recorded (i : Injection) : List Variable :=
  let platform := Keyword.spelling i.platform
  let selector := i.selector.getD "(default)"
  let byPlatform := s!"platform = {platform}"
  [⟨"platform", platform, s!"selector = {selector}"⟩,
    ⟨"win64", yesNo i.platform.isWin64, byPlatform⟩,
    ⟨"program_files", i.platform.programFiles.id, byPlatform⟩,
    ⟨"version", i.version.text, s!"template = {i.versionTemplate}"⟩,
    ⟨"profile", i.profile, "injected"⟩]

/-- The assets that go into the package, by name. -/
def packageAssets (i : Injection) : Dictionary :=
  .ofList <| i.assets.filterMap fun (name, path) =>
    if name = "binary" then none else path.map fun p => (name, p)

end Injection
end Installer
