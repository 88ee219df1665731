import Installer.Text.Decimal

/-!
# Product versions

A version's fields have the widths that the installer compares, and a text is a version only if
each field is a decimal numeral that fits.
-/

set_option autoImplicit false

namespace Installer

/-- A product version. -/
structure Version where
  major : UInt8
  minor : UInt8
  build : UInt16
  revision : Option UInt16
  deriving DecidableEq, Repr

/-- Why a text is not a version. -/
inductive VersionFault
  | fieldCount (found : Nat)
  | notDecimal (field : String)
  | outOfRange (field : String)
  | majorTooLarge
  | minorTooLarge
  | buildTooLarge
  | revisionTooLarge
  deriving DecidableEq, Repr

def VersionFault.message : VersionFault → String
  | .fieldCount found => s!"expected 3 or 4 dot-separated fields, found {Text.decimal found}"
  | .notDecimal field => s!"field '{field}' is not a decimal number"
  | .outOfRange field => s!"field '{field}' is out of range"
  | .majorTooLarge => "major version must be at most 255"
  | .minorTooLarge => "minor version must be at most 255"
  | .buildTooLarge => "build number must be at most 65535"
  | .revisionTooLarge => "revision must be at most 65535"

namespace Version

/-- The number in a field; it has to fit in 32 bits. -/
def field (cs : List Char) : Except VersionFault Nat :=
  match Text.decimal? cs with
  | none => .error (.notDecimal (String.ofList cs))
  | some n => if n < UInt32.size then .ok n else .error (.outOfRange (String.ofList cs))

/-- The version with the given fields, the first of them that is too large being refused. -/
def ofFields (major minor build : Nat) (revision : Option Nat) : Except VersionFault Version :=
  if 255 < major then .error .majorTooLarge
  else if 255 < minor then .error .minorTooLarge
  else if 65535 < build then .error .buildTooLarge
  else if revision.any (65535 < ·) then .error .revisionTooLarge
  else .ok ⟨.ofNat major, .ofNat minor, .ofNat build, revision.map .ofNat⟩

/-- The version that a text writes. -/
def parse (text : String) : Except VersionFault Version := do
  let fields := Text.pieces '.' text.toList
  if fields.length != 3 && fields.length != 4 then throw (.fieldCount fields.length)
  match ← fields.mapM field with
  | [major, minor, build] => ofFields major minor build none
  | [major, minor, build, revision] => ofFields major minor build (some revision)
  | numbers => throw (.fieldCount numbers.length)

/-- The text of a version, its fields without leading zeros. -/
def text (v : Version) : String :=
  let fields := [v.major.toNat, v.minor.toNat, v.build.toNat] ++ v.revision.toList.map (·.toNat)
  ".".intercalate (fields.map Text.decimal)

/-- Versions are ordered field by field; no revision comes before any revision. -/
def order (a b : Version) : Ordering :=
  (compare a.major b.major).then <| (compare a.minor b.minor).then <|
    (compare a.build b.build).then <|
      match a.revision, b.revision with
      | none, none => .eq
      | none, some _ => .lt
      | some _, none => .gt
      | some r, some s => compare r s

end Version
end Installer
