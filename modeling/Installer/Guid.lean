import Installer.Digest.Sha1
import Installer.Text.Blank
import Installer.Text.Decimal
import Installer.Text.Hex
import Installer.Violation

/-!
# Globally unique identifiers

A GUID is written in braces and upper case. It is read from 32 hexadecimal digits, with hyphens
after the 8th, 12th, 16th and 20th or without any, plain, in braces or as a URN; the zero GUID is
none. A GUID is derived from a name within the space of another, by version 5 of the standard: the
first sixteen bytes of a SHA-1 digest, with the version and the variant set.
-/

set_option autoImplicit false

namespace Installer

/-- A number of 128 bits that identifies something. -/
structure Guid where
  bits : BitVec 128
  deriving DecidableEq, Repr

namespace Guid

def digits (g : Guid) : List Char := Text.hexDigits 32 g.bits.toNat

/-- Digits in groups of 8, 4, 4, 4 and 12, with hyphens between. -/
def hyphenate (ds : List Char) : List Char :=
  ds.take 8 ++ '-' :: (ds.drop 8).take 4 ++ '-' :: (ds.drop 12).take 4 ++
    '-' :: (ds.drop 16).take 4 ++ '-' :: ds.drop 20

/-- The one way in which GUIDs are written: in braces, in upper case. -/
def text (g : Guid) : String :=
  String.ofList ('\x7b' :: (hyphenate g.digits).map Char.toUpper ++ ['\x7d'])

/-- The GUID of 32 digits. -/
def ofDigits? (cs : List Char) : Option Guid :=
  if cs.length = 32 then (Text.hexNumber? cs).map fun n => ⟨BitVec.ofNat 128 n⟩ else none

/-- The GUID of five groups of digits with hyphens between. -/
def ofGroups? (cs : List Char) : Option Guid :=
  let groups := Text.pieces '-' cs
  if groups.map List.length = [8, 4, 4, 4, 12] then ofDigits? groups.flatten else none

/-- The characters between braces, if they stand in a pair. -/
def unbraced? : List Char → Option (List Char)
  | '\x7b' :: rest => if rest.getLast? = some '\x7d' then some rest.dropLast else none
  | _ => none

/-- What a URN of a GUID starts with, in either letter case. -/
def urn : List Char := ['u', 'r', 'n', ':', 'u', 'u', 'i', 'd', ':']

/-- The GUID of digits with or without hyphens; the hyphenated form may stand in braces or after the
start of a URN. -/
def ofForm? (cs : List Char) : Option Guid :=
  ofDigits? cs <|> ofGroups? cs <|> (unbraced? cs).bind ofGroups? <|>
    if (cs.take urn.length).map Char.toLower = urn then ofGroups? (cs.drop urn.length) else none

/-- The GUID of a text, which may stand in white space and a pair of braces. -/
def ofText? (s : String) : Option Guid :=
  let cs := Text.trimChars s.toList
  match ofForm? ((unbraced? cs).getD cs) with
  | some g => if g.bits = 0 then none else some g
  | none => none

/-- The GUID that `owner` declares. -/
def parse (owner value : String) : Except Violation Guid :=
  match ofText? value with
  | some g => .ok g
  | none => .error (.invalidGuid owner value)

/-- The sixteen bytes of a GUID. -/
def bytes (g : Guid) : List UInt8 := Digest.bytesOfNat 16 g.bits.toNat

/-- Bytes as a GUID of version 5: the version is in the high half of the seventh byte, the variant
in the two highest bits of the ninth. -/
def ofDigest (digest : List UInt8) : Guid :=
  let set (i : Nat) (b : UInt8) : UInt8 :=
    if i = 6 then (b &&& 0x0f) ||| 0x50
    else if i = 8 then (b &&& 0x3f) ||| 0x80
    else b
  ⟨BitVec.ofNat 128 (Digest.natOfBytes ((digest.take 16).mapIdx set))⟩

/-- The GUID of a name in the space of another GUID. -/
def named (space : Guid) (name : String) : Guid :=
  ofDigest (Digest.Sha1.digest (space.bytes ++ Digest.utf8 name))

end Guid
end Installer
