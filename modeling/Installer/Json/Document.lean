import Installer.Json.Letters
import Installer.Json.Number

/-!
# Documents as far as they can be read

Reading a text never fails: it gives the tree of what stands in it, and where the text departs from
the grammar the tree holds the fault and goes no further. What is wrong with a document then depends
on what is asked of it, and the first problem in reading order is the one that is met first when the
tree is walked.
-/

set_option autoImplicit false

namespace Installer.Json

/-- A text or number in a document: what it is when it is read, and whether it can be skipped. -/
structure Leaf (α : Type) where
  read : Except Fault α
  skip : Except Fault Unit

mutual
/-- What stands where a value has to. -/
inductive Document
  | null
  | boolean (b : Bool)
  | number (n : Leaf Number)
  | text (s : Leaf String)
  | array (items : Items)
  | object (members : Members)
  /-- Something that is no value. -/
  | broken (fault : Fault)
  /-- Something that starts as a null does, and is none. -/
  | brokenNull (fault : Fault)
  /-- Nothing: the text ends here. -/
  | absent
/-- The items of an array. -/
inductive Items
  | closed
  | stopped (fault : Fault)
  | item (d : Document) (rest : Items)
/-- The members of an object. -/
inductive Members
  | closed
  | stopped (fault : Fault)
  /-- The text ends where a name has to stand. -/
  | ended
  | member (name : Leaf String) (value : Document) (rest : Members)
end

/-- White space between the parts of a document. -/
def isSpace (c : Char) : Bool := c == ' ' || c == '\n' || c == '\r' || c == '\t'

def skipSpace (cs : List Char) : List Char := cs.dropWhile isSpace

/-- What follows a word that has to stand here. -/
def readWord : (word : List Char) → List Char → Except Fault (List Char)
  | [], cs => .ok cs
  | _ :: _, [] => .error .truncated
  | w :: word, c :: cs => if w = c then readWord word cs else .error .malformed

/-- A truth value whose first letter is read, and what follows it. -/
def readBoolean (b : Bool) (cs : List Char) : Document × List Char :=
  match readWord (if b then ['r', 'u', 'e'] else ['a', 'l', 's', 'e']) cs with
  | .ok rest => (.boolean b, rest)
  | .error fault => (.broken fault, [])

/-- A null whose first letter is read, and what follows it. -/
def readNull (cs : List Char) : Document × List Char :=
  match readWord ['u', 'l', 'l'] cs with
  | .ok rest => (.null, rest)
  | .error fault => (.brokenNull fault, [])

/-- A number, and what follows it. Skipping one does not ask how large it is, and takes one that is
broken off for malformed. -/
def readNumber (cs : List Char) : Leaf Number × List Char :=
  match Numeral.read cs with
  | .ok (n, rest) => (⟨n.number, .ok ()⟩, rest)
  | .error fault => (⟨.error fault, .error .malformed⟩, [])

/-- A text whose opening quote is read, and what follows it. -/
def readText (cs : List Char) : Leaf String × List Char :=
  let (letters, ending) := Letter.scan cs
  let skip := ending.map fun _ => ()
  (⟨(Letter.decode skip letters).map String.ofList, skip⟩, ending.toOption.getD [])

/-- What stands before the value of a member: a colon, with white space around it. -/
def readColon (cs : List Char) : Except Document (List Char) :=
  match skipSpace cs with
  | ':' :: rest => .ok rest
  | [] => .error .absent
  | _ => .error (.broken .malformed)

mutual
/-- The value that stands here, and what follows it. -/
def readValue : (fuel : Nat) → List Char → Document × List Char
  | 0, _ => (.absent, [])
  | n + 1, cs =>
    match skipSpace cs with
    | [] => (.absent, [])
    | '"' :: rest =>
      let (leaf, rest) := readText rest
      (.text leaf, rest)
    | '[' :: rest =>
      let (items, rest) := readItems n true rest
      (.array items, rest)
    | '{' :: rest =>
      let (members, rest) := readMembers n true rest
      (.object members, rest)
    | c :: rest =>
      if c == 'n' then readNull rest
      else if c == 't' then readBoolean true rest
      else if c == 'f' then readBoolean false rest
      else if c == '-' || c.isDigit then
        let (leaf, rest) := readNumber (c :: rest)
        (.number leaf, rest)
      else (.broken .malformed, [])
/-- The items that are left of an array, and what follows it. -/
def readItems : (fuel : Nat) → (first : Bool) → List Char → Items × List Char
  | 0, _, _ => (.stopped .truncated, [])
  | n + 1, first, cs =>
    match skipSpace cs with
    | [] => (.stopped .truncated, [])
    | c :: rest =>
      if c == ']' then (.closed, rest)
      else if first || c == ',' then
        let (d, rest) := readValue n (if first then c :: rest else rest)
        let (items, rest) := readItems n false rest
        (.item d items, rest)
      else (.stopped .malformed, [])
/-- The members that are left of an object, and what follows it. -/
def readMembers : (fuel : Nat) → (first : Bool) → List Char → Members × List Char
  | 0, _, _ => (.stopped .truncated, [])
  | n + 1, first, cs =>
    match skipSpace cs with
    | [] => (.stopped .truncated, [])
    | c :: rest =>
      if c == '}' then (.closed, rest)
      else if first || c == ',' then readMember n (if first then c :: rest else skipSpace rest)
      else (.stopped .malformed, [])
/-- A member and those after it, and what follows the object. -/
def readMember : (fuel : Nat) → List Char → Members × List Char
  | 0, _ => (.ended, [])
  | n + 1, cs =>
    match cs with
    | [] => (.ended, [])
    | '"' :: rest =>
      let (name, rest) := readText rest
      match readColon rest with
      | .error d => (.member name d .closed, [])
      | .ok rest =>
        let (d, rest) := readValue n rest
        let (members, rest) := readMembers n false rest
        (.member name d members, rest)
    | _ => (.stopped .malformed, [])
end

/-- A text as a document: what stands in it, and whether anything follows. -/
structure Source where
  document : Document
  trailing : Bool

/-- The document of a text. Reading it takes at most three steps for a character. -/
def Source.ofText (text : String) : Source :=
  let cs := text.toList
  let (document, rest) := readValue (3 * cs.length + 3) cs
  ⟨document, !(skipSpace rest).isEmpty⟩

namespace Document

/-- What a document has where another kind of value has to stand. Of an array or object only the
opening is looked at. -/
def found : Document → Except Fault Found
  | .null => .ok .null
  | .boolean b => .ok (.boolean b)
  | .number leaf => leaf.read.map fun
    | .integer n => .integer n
    | .fraction => .fraction
  | .text leaf => leaf.read.map .text
  | .array _ => .ok .sequence
  | .object _ => .ok .map
  | .broken fault | .brokenNull fault => .error fault
  | .absent => .error .truncated

/-- The fault of a document that is not of the kind asked for. -/
def refusal (d : Document) : Fault :=
  match d.found with
  | .ok f => .misfit (.invalidType f)
  | .error fault => fault

end Document

mutual
/-- Passes over a value of any shape, however deep. -/
def Document.skip : Document → Except Fault Unit
  | .null | .boolean _ => .ok ()
  | .number leaf => leaf.skip
  | .text leaf => leaf.skip
  | .array items => items.skip
  | .object members => members.skip
  | .broken fault | .brokenNull fault => .error fault
  | .absent => .error .truncated
def Items.skip : Items → Except Fault Unit
  | .closed => .ok ()
  | .stopped fault => .error fault
  | .item d rest => do
    d.skip
    rest.skip
def Members.skip : Members → Except Fault Unit
  | .closed => .ok ()
  | .stopped fault => .error fault
  | .ended => .error .truncated
  | .member name value rest => do
    name.skip
    value.skip
    rest.skip
end

mutual
/-- Reads a value of any shape, arrays and objects at most `room` deep. -/
def Document.settle : (room : Nat) → Document → Except Fault Unit
  | _, .null | _, .boolean _ => .ok ()
  | _, .number leaf => leaf.read.map fun _ => ()
  | _, .text leaf => leaf.read.map fun _ => ()
  | room, .array items => if room = 0 then .error .malformed else items.settle (room - 1)
  | room, .object members => if room = 0 then .error .malformed else members.settle (room - 1)
  | _, .broken fault | _, .brokenNull fault => .error fault
  | _, .absent => .error .truncated
def Items.settle : (room : Nat) → Items → Except Fault Unit
  | _, .closed => .ok ()
  | _, .stopped fault => .error fault
  | room, .item d rest => do
    d.settle room
    rest.settle room
def Members.settle : (room : Nat) → Members → Except Fault Unit
  | _, .closed => .ok ()
  | _, .stopped fault => .error fault
  | _, .ended => .error .truncated
  | room, .member name value rest => do
    let _ ← name.read
    value.settle room
    rest.settle room
end

end Installer.Json
