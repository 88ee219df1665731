import Installer.Json.Fault
import Installer.Text.Hex

/-!
# The characters of a quoted text in a document

A quoted text is scanned into plain characters and 16-bit units before it is read: a value that is
skipped may hold units that pair with no other, one that is read may not.
-/

set_option autoImplicit false

namespace Installer.Json

/-- A plain character, or a unit written in hexadecimal digits. -/
inductive Letter
  | char (c : Char)
  | unit (n : Nat)
  deriving DecidableEq, Repr

namespace Letter

/-- The unit that four hexadecimal digits write. Fewer than four bytes are too few, whatever they
are. -/
def readUnit (cs : List Char) : Except Fault Nat :=
  let digits := cs.take 4
  if digits.foldl (fun n c => n + c.utf8Size) 0 < 4 then .error .truncated
  else
    match Text.hexNumber? digits with
    | some n => .ok n
    | none => .error .malformed

/-- The character that a backslash and `c` write. -/
def escaped? : Char → Option Char
  | '"' => some '"'
  | '\\' => some '\\'
  | '/' => some '/'
  | 'b' => some '\x08'
  | 'f' => some '\x0c'
  | 'n' => some '\n'
  | 'r' => some '\r'
  | 't' => some '\t'
  | _ => none

/-- The letters up to the closing quote, and what follows it, or why no quote closes the text. -/
def scan : List Char → List Letter × Except Fault (List Char)
  | [] => ([], .error .truncated)
  | '"' :: rest => ([], .ok rest)
  | ['\\'] => ([], .error .truncated)
  | '\\' :: 'u' :: rest =>
    match readUnit rest with
    | .error fault => ([], .error fault)
    | .ok n =>
      let (letters, ending) := scan (rest.drop 4)
      (.unit n :: letters, ending)
  | '\\' :: c :: rest =>
    match escaped? c with
    | none => ([], .error .malformed)
    | some plain =>
      let (letters, ending) := scan rest
      (.char plain :: letters, ending)
  | c :: rest =>
    if c.toNat < 0x20 then ([], .error .malformed)
    else
      let (letters, ending) := scan rest
      (.char c :: letters, ending)
termination_by cs => cs.length
decreasing_by
  · simp only [List.length_drop, List.length_cons]; omega
  · simp only [List.length_cons]; omega
  · simp only [List.length_cons]; omega

def isLeading (n : Nat) : Bool := 0xd800 ≤ n && n ≤ 0xdbff

def isTrailing (n : Nat) : Bool := 0xdc00 ≤ n && n ≤ 0xdfff

/-- The character of a leading and a trailing unit. -/
def paired (leading trailing : Nat) : Char :=
  Char.ofNat (0x10000 + (leading - 0xd800) * 0x400 + (trailing - 0xdc00))

/-- The characters of letters that end as said. A leading unit needs the trailing one at once; if
the text is broken off right after it, that is the fault. -/
def decode (ending : Except Fault Unit) : List Letter → Except Fault (List Char)
  | [] => ending.map fun _ => []
  | .char c :: rest => (decode ending rest).map (c :: ·)
  | .unit n :: rest =>
    if isTrailing n then .error .malformed
    else if isLeading n then
      match rest with
      | .unit m :: rest =>
        if isTrailing m then (decode ending rest).map (paired n m :: ·) else .error .malformed
      | .char _ :: _ => .error .malformed
      | [] =>
        match ending with
        | .error fault => .error fault
        | .ok () => .error .malformed
    else (decode ending rest).map (Char.ofNat n :: ·)

end Letter
end Installer.Json
