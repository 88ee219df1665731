/-!
# Hexadecimal digits

Digits are read in either letter case and written in lower case, a given number of them.
-/

set_option autoImplicit false

namespace Installer.Text

/-- The value of a hexadecimal digit, in either letter case. -/
def hexValue? (c : Char) : Option Nat :=
  if c.isDigit then some (c.toNat - '0'.toNat)
  else if 'a' ≤ c && c ≤ 'f' then some (c.toNat - 'a'.toNat + 10)
  else if 'A' ≤ c && c ≤ 'F' then some (c.toNat - 'A'.toNat + 10)
  else none

/-- The value of hexadecimal digits, all of which it takes. -/
def hexNumber? (cs : List Char) : Option Nat :=
  cs.foldlM (fun n c => (hexValue? c).map (n * 16 + ·)) 0

/-- The lower-case digit of a number below sixteen. -/
def hexDigit (n : Nat) : Char := Nat.digitChar n

/-- The lowest `count` digits of a number, the highest of them first, in lower case. -/
def hexDigits (count n : Nat) : List Char :=
  (List.range count).map fun i => hexDigit (n >>> (4 * (count - 1 - i)) % 16)

theorem hexValue?_hexDigit {n : Nat} (h : n < 16) : hexValue? (hexDigit n) = some n := by
  revert n
  decide

/-- The case of a digit's letter does not matter. -/
theorem hexValue?_toUpper_hexDigit {n : Nat} (h : n < 16) :
    hexValue? (hexDigit n).toUpper = some n := by
  revert n
  decide

end Installer.Text
