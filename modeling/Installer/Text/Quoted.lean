import Installer.Text.HiddenTable
import Installer.Text.Letters

/-!
# A text shown between double quotes

Quotes and backslashes are escaped, the common controls have their letters, and every other
character that does not show as itself is written by its number in hexadecimal digits.
-/

set_option autoImplicit false

namespace Installer.Text

/-- Whether a character shows as itself, on its own. -/
def isShown (c : Char) : Bool := !inRanges hiddenRanges c.toNat

/-- One character of a quoted text. -/
def quoteChar (c : Char) : List Char :=
  if c == '"' || c == '\\' then ['\\', c]
  else if c == '\n' then ['\\', 'n']
  else if c == '\r' then ['\\', 'r']
  else if c == '\t' then ['\\', 't']
  else if c.toNat == 0 then ['\\', '0']
  else if isShown c then [c]
  else ['\\', 'u', '\x7b'] ++ Nat.toDigits 16 c.toNat ++ ['\x7d']

/-- The text between double quotes. -/
def quoted (s : String) : String :=
  String.ofList ('"' :: s.toList.flatMap quoteChar ++ ['"'])

end Installer.Text
