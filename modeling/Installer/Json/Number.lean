import Installer.Json.Fault
import Installer.Text.Decimal

/-!
# Numerals of documents

A numeral without fraction and exponent is an integer if it fits in 64 bits, with or without sign;
every other numeral is a floating-point number, of which only this is asked: whether it is too large
for 64-bit floating point.

No declared field takes such a number, so it has no value here.
-/

set_option autoImplicit false

namespace Installer.Json

inductive Number
  | integer (n : Int)
  | fraction
  deriving DecidableEq, Repr

/-- The parts of a numeral. -/
structure Numeral where
  negative : Bool
  whole : List Char
  fraction : Option (List Char)
  /-- The sign of the exponent and its digits. -/
  exponent : Option (Bool × List Char)
  deriving DecidableEq, Repr

namespace Numeral

/-- One digit or more, and what follows them. -/
def readDigits (cs : List Char) : Except Fault (List Char × List Char) :=
  match cs with
  | [] => .error .truncated
  | c :: _ =>
    if c.isDigit then .ok (cs.takeWhile Char.isDigit, cs.dropWhile Char.isDigit)
    else .error .malformed

/-- The whole part, which has no leading zero. -/
def readWhole (cs : List Char) : Except Fault (List Char × List Char) := do
  let (digits, rest) ← readDigits cs
  match digits with
  | '0' :: _ :: _ => throw .malformed
  | _ => return (digits, rest)

/-- The fraction after a point, if there is a point. -/
def readFraction : List Char → Except Fault (Option (List Char) × List Char)
  | '.' :: rest => do
    let (digits, rest) ← readDigits rest
    return (some digits, rest)
  | rest => .ok (none, rest)

/-- The sign of an exponent: whether it is a minus, and what follows. -/
def readSign : List Char → Bool × List Char
  | '+' :: rest => (false, rest)
  | '-' :: rest => (true, rest)
  | rest => (false, rest)

/-- The exponent, if there is one. -/
def readExponent : List Char → Except Fault (Option (Bool × List Char) × List Char)
  | c :: rest =>
    if c == 'e' || c == 'E' then do
      let (negative, rest) := readSign rest
      let (digits, rest) ← readDigits rest
      return (some (negative, digits), rest)
    else .ok (none, c :: rest)
  | [] => .ok (none, [])

/-- The numeral at the start of the characters, and what follows it. -/
def read (cs : List Char) : Except Fault (Numeral × List Char) := do
  let (negative, cs) := match cs with
    | '-' :: rest => (true, rest)
    | _ => (false, cs)
  let (whole, cs) ← readWhole cs
  let (fraction, cs) ← readFraction cs
  let (exponent, cs) ← readExponent cs
  return (⟨negative, whole, fraction, exponent⟩, cs)

/-- The integer that a numeral writes, unless it has a fraction or an exponent, needs more than 64
bits, or is zero with a minus. -/
def integer? (n : Numeral) : Option Int :=
  if n.fraction.isSome || n.exponent.isSome then none
  else
    let value := Text.digitsFrom 0 n.whole
    if n.negative then
      if value = 0 || UInt64.size / 2 < value then none else some (-(value : Int))
    else if value < UInt64.size then some value else none

/-- The nearest number with 53 significant bits, an even one on a tie. -/
def round53 (n : Nat) : Nat :=
  if n < 1 <<< 53 then n
  else
    let shift := n.log2 - 52
    let kept := n >>> shift
    let lost := n % (1 <<< shift)
    let half := 1 <<< (shift - 1)
    (if half < lost || (lost == half && kept % 2 == 1) then kept + 1 else kept) <<< shift

/-- Takes the digits of the whole part that fit in 64 bits; the others count as a power of ten. -/
def takeWhole (significand power : Nat) : List Char → Nat × Nat
  | [] => (significand, power)
  | c :: rest =>
    let next := Text.digitsFrom significand [c]
    if 0 < power || UInt64.size ≤ next then takeWhole significand (power + 1) rest
    else takeWhole next power rest

/-- Takes the digits of the fraction as long as they fit in 64 bits, and counts them. -/
def takeFraction (significand taken : Nat) : List Char → Nat × Nat
  | [] => (significand, taken)
  | c :: rest =>
    let next := Text.digitsFrom significand [c]
    if UInt64.size ≤ next then (significand, taken) else takeFraction next (taken + 1) rest

/-- Whether the numeral's value, computed with 53 significant bits, is infinite. -/
def isInfinite (n : Numeral) : Bool :=
  let (significand, power) := takeWhole 0 0 n.whole
  let (significand, taken) := takeFraction significand 0 (n.fraction.getD [])
  let exponent : Int := match n.exponent with
    | none => 0
    | some (true, digits) => -(Text.digitsFrom 0 digits : Int)
    | some (false, digits) => (Text.digitsFrom 0 digits : Int)
  let scale : Int := power - taken + exponent
  significand != 0 && (308 < scale ||
    (0 ≤ scale && 1 <<< 1024 ≤ round53 (round53 significand * round53 (Nat.pow 10 scale.toNat))))

/-- The number that a numeral writes. -/
def number (n : Numeral) : Except Fault Number :=
  match n.integer? with
  | some value => .ok (.integer value)
  | none => if n.isInfinite then .error .malformed else .ok .fraction

end Numeral
end Installer.Json
