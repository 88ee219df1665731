import Installer.Text.Hex
import Installer.Text.Indent

/-!
# Values and their canonical text

The canonical text of a value is indented by two spaces a level, has one item or member a line,
keeps the order of the members, and escapes only what it has to.
-/

set_option autoImplicit false

namespace Installer.Json

/-- A value that is written. -/
inductive Value
  | null
  | boolean (b : Bool)
  | integer (n : Int)
  | text (s : String)
  | array (items : List Value)
  | object (members : List (String × Value))
  deriving Repr

namespace Value

/-- A character in a quoted text. -/
def escape (c : Char) : List Char :=
  if c == '"' then ['\\', '"']
  else if c == '\\' then ['\\', '\\']
  else if c == '\x08' then ['\\', 'b']
  else if c == '\x0c' then ['\\', 'f']
  else if c == '\n' then ['\\', 'n']
  else if c == '\r' then ['\\', 'r']
  else if c == '\t' then ['\\', 't']
  else if c.toNat < 0x20 then
    ['\\', 'u'] ++ Text.hexDigits 4 c.toNat
  else [c]

/-- A quoted text. -/
def quote (s : String) : List Char := '"' :: s.toList.flatMap escape ++ ['"']

/-- The numeral of an integer. -/
def numeral : Int → List Char
  | .ofNat n => Nat.toDigits 10 n
  | .negSucc n => '-' :: Nat.toDigits 10 (n + 1)

mutual
/-- The characters of a value that stands `level` levels deep. -/
def write (level : Nat) : Value → List Char
  | .null => ['n', 'u', 'l', 'l']
  | .boolean true => ['t', 'r', 'u', 'e']
  | .boolean false => ['f', 'a', 'l', 's', 'e']
  | .integer n => numeral n
  | .text s => quote s
  | .array [] => ['[', ']']
  | .array (v :: rest) =>
    '[' :: Text.newLine (level + 1) ++ write (level + 1) v ++ writeItems (level + 1) rest ++
      Text.newLine level ++ [']']
  | .object [] => ['{', '}']
  | .object (m :: rest) =>
    '{' :: Text.newLine (level + 1) ++ quote m.1 ++ [':', ' '] ++ write (level + 1) m.2 ++
      writeMembers (level + 1) rest ++ Text.newLine level ++ ['}']
/-- Items after the first, each after a comma. -/
def writeItems (level : Nat) : List Value → List Char
  | [] => []
  | v :: rest => ',' :: Text.newLine level ++ write level v ++ writeItems level rest
/-- Members after the first, each after a comma. -/
def writeMembers (level : Nat) : List (String × Value) → List Char
  | [] => []
  | (name, v) :: rest =>
    ',' :: Text.newLine level ++ quote name ++ [':', ' '] ++ write level v ++
      writeMembers level rest
end

/-- The canonical text of a value, which ends with a new line. -/
def canonical (v : Value) : String := String.ofList (write 0 v ++ ['\n'])

end Value
end Installer.Json
