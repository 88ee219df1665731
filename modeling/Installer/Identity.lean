import Installer.Guid
import Installer.Payload.Basic
import Installer.Platform
import Installer.Text.Letters

/-!
# Identities that stay the same from build to build

A component is identified by its key path, and what identifies the key path is written as a text: its
kind and where it is, letter case aside, with bars between the parts. Keys that are not declared are
derived from such texts in the space of the upgrade code.

The parts are not escaped, so a bar in one of them is not told from a bar between two.
-/

set_option autoImplicit false

namespace Installer

/-- The last segment of a path, whichever way its separators lean. -/
def fileName (source : String) : String :=
  String.ofList (source.toList.reverse.takeWhile fun c => c != '/' && c != '\\').reverse

/-- What separates the parts of an identity. -/
def joinIdentity (parts : List String) : String := "|".intercalate parts

/-- The name under which a file is installed. -/
def FileItem.installedName (f : FileItem) : String := f.name.getD (fileName f.source)

/-- What identifies an item as a key path, if it can be one: the kind, and where the item goes. -/
def Item.keyPathIdentity? (installPath : String) : Item → Option String
  | .file f => some <| joinIdentity ["file", Text.lower installPath, Text.lower f.installedName]
  | .registry r => some <| joinIdentity
      ["registry", Keyword.spelling r.root, Text.lower r.key, Text.lower (r.name.getD "")]
  | .environment _ | .shortcut _ | .removeFolder _ => none

/-- Whether a declared key asks for a derived one. -/
def isAuto (declared : String) : Bool :=
  Text.sameIgnoringAsciiCase (Text.trim declared) "auto"

/-- A component's stability key: derived from what identifies its key path, or the declared GUID. -/
def stabilityKey (component declared : String) (upgradeCode : Guid) (identity : String) :
    Except Violation (Guid × KeyOrigin) :=
  if isAuto declared then .ok (upgradeCode.named identity, .auto)
  else (Guid.parse component declared).map fun g => (g, .explicit)

/-- What a derived product code is derived from. -/
def productIdentity (version : Version) (platform : Platform) : String :=
  joinIdentity ["product", version.text, Keyword.spelling platform]

/-- The product code: derived from the version and the platform, or the declared GUID. -/
def productCode (declared : String) (upgradeCode : Guid) (version : Version)
    (platform : Platform) : Except Violation Guid :=
  if isAuto declared then .ok (upgradeCode.named (productIdentity version platform))
  else Guid.parse "product_code" declared

end Installer
