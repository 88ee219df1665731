import Installer.Dictionary
import Installer.Payload.Basic

/-!
# The manifest

What the author of an installer declares. Display texts, paths and values may hold templates; ids and
references never do. A declaration is held as it was written, with defaults filled in and nothing
resolved or checked: a manifest that is read may still break every rule.
-/

set_option autoImplicit false

namespace Installer.Manifest

/-- What happens when another version is already installed. -/
structure Upgrade where
  allowDowngrades : Bool
  allowSameVersion : Bool
  downgradeMessage : String
  deriving DecidableEq, Repr

/-- The upgrade policy of a product that declares none. -/
def Upgrade.standard : Upgrade :=
  ⟨false, false, "A newer version of [ProductName] is already installed."⟩

/-- The identity of the product. -/
structure Product where
  name : String
  manufacturer : String
  /-- Fixed for the whole life of the product. -/
  upgradeCode : String
  /-- A code, or `auto` for one that is derived from the version and the platform. -/
  productCode : String
  version : String
  language : UInt16
  codepage : UInt16
  scope : Scope
  /-- Features of a level from one up to this one are installed by default. -/
  installLevel : UInt16
  upgrade : Upgrade
  properties : Dictionary
  deriving DecidableEq, Repr

/-- An install location. -/
structure Directory where
  id : String
  name : String
  /-- The directory it lies in; without one it lies in the target directory. -/
  parent : Option String
  /-- Whether it may stand without being used, to group others. -/
  grouping : Bool
  deriving DecidableEq, Repr

/-- A unit that is installed as a whole. -/
structure Component where
  id : String
  directory : String
  /-- A stability key, or `auto` for one that is derived from the key path. -/
  guid : String
  /-- Whether it is 64-bit; without a word on it, the platform decides. -/
  win64 : Option Bool
  items : List Item
  integrations : List Integration
  deriving DecidableEq, Repr

/-- A feature that the user may select, with the features inside it. -/
structure Feature where
  id : String
  title : String
  description : String
  level : UInt16
  allowAbsent : Bool
  display : FeatureDisplay
  components : List String
  children : List Feature
  deriving Repr

/-- A custom action: a packaged file that is run. -/
structure Action where
  id : String
  fileKey : String
  execute : ExecuteMode
  impersonate : Bool
  /-- Required of actions inside the script. -/
  returnPolicy : Option ReturnPolicy
  arguments : String
  deriving DecidableEq, Repr

/-- A rule that places an action or phase before or after another. -/
structure Rule where
  action : String
  before : Option String
  after : Option String
  /-- A guard that the installer evaluates when it runs. -/
  condition : Option String
  deriving DecidableEq, Repr

end Installer.Manifest

namespace Installer

/-- A whole manifest. -/
structure Manifest where
  product : Manifest.Product
  directories : List Manifest.Directory
  components : List Manifest.Component
  features : List Manifest.Feature
  actions : List Manifest.Action
  rules : List Manifest.Rule
  deriving Repr

/-- The ids of the files that the components declare, in order. -/
def Manifest.fileKeys (m : Manifest) : List String :=
  m.components.flatMap fun c => c.items.filterMap fun i => i.file?.map (·.id)

end Installer
