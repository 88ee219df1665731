import Installer.Injection
import Installer.Manifest.Basic
import Installer.Schedule.Basic

/-!
# The package

An installer description in which everything is settled. No template, default or reference is left
open in it, so that whoever builds the installer has nothing to decide. Two builds of the same
manifest with the same settings give the same package.

The type asks for none of this: a package that is read from a file may refer to what is not there. It
holds of the packages that are compiled.
-/

set_option autoImplicit false

namespace Installer.Package

/-- The identity of the product and of this build of it. -/
structure Product where
  name : String
  manufacturer : String
  upgradeCode : String
  productCode : String
  version : String
  platform : Platform
  win64 : Bool
  programFiles : String
  language : UInt16
  codepage : UInt16
  scope : Scope
  installLevel : UInt16
  upgrade : Manifest.Upgrade
  properties : Dictionary
  /-- The injected assets of the installer's own interface, by name. -/
  assets : Dictionary
  deriving DecidableEq, Repr

/-- An install location. -/
structure Directory where
  id : String
  name : String
  parent : Option String
  /-- Whether it is a standard folder of the target system. -/
  standard : Bool
  /-- The path from the root, with a standard folder in brackets. -/
  path : String
  deriving DecidableEq, Repr

/-- A component, with the items of its integrations after its own. -/
structure Component where
  id : String
  directory : String
  /-- The stability key. -/
  guid : String
  stability : KeyOrigin
  win64 : Bool
  /-- The id of the item that is the key path. -/
  keyPath : String
  keyPathIdentity : String
  items : List Item
  deriving DecidableEq, Repr

/-- A feature; packages list features depth first. -/
structure Feature where
  id : String
  title : String
  description : String
  /-- The id of the feature it lies in. -/
  parent : Option String
  level : UInt16
  allowAbsent : Bool
  display : FeatureDisplay
  components : List String
  /-- Whether it is installed unless the user decides otherwise. -/
  byDefault : Bool
  deriving DecidableEq, Repr

end Installer.Package

namespace Installer

/-- A whole package. -/
structure Package where
  formatVersion : UInt32
  product : Package.Product
  /-- The values that the build has settled. -/
  recorded : List Variable
  directories : List Package.Directory
  components : List Package.Component
  features : List Package.Feature
  defaultFeatures : List String
  defaultComponents : List String
  actions : List Schedule.Action
  steps : List Step
  deriving DecidableEq, Repr

/-- The version of the format that packages are written in. -/
def Package.currentFormat : UInt32 := 1

end Installer
