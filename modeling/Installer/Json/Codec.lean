import Installer.Dictionary
import Installer.Json.Document
import Installer.Json.Value
import Installer.Keyword

/-!
# Codecs: how values stand in documents

A codec reads a value from a document and writes one. Reading walks the document in its own order
and stops at the first problem. A record is written as an object, its fields in their declared
order; it is read from an object with its members in any order, or from an array of its fields.
-/

set_option autoImplicit false

namespace Installer.Json

/-- Where in a document something is read. -/
structure Place where
  /-- How many arrays and objects may still be opened inside one another. -/
  room : Nat
  /-- Whether the text around was read before, to learn which variant stands here. -/
  buffered : Bool

/-- The outermost place: arrays and objects nest at most 127 deep. -/
def Place.outermost : Place := ⟨127, false⟩

/-- The place inside an array or object that stands here. -/
def Place.inside (p : Place) : Except Fault Place :=
  if p.room = 0 then .error .malformed else .ok { p with room := p.room - 1 }

/-- Reads a value of a type at a place. -/
abbrev Reader (α : Type) := Place → Document → Except Fault α

/-- How values of a type are read and written. -/
structure Codec (α : Type) where
  read : Reader α
  write : α → Value

namespace Codec
variable {α : Type}

/-- The value that a whole text writes. -/
def ofText (c : Codec α) (text : String) : Except Fault α := do
  let source := Source.ofText text
  let a ← c.read Place.outermost source.document
  if source.trailing then throw .malformed
  return a

/-- The canonical text of a value. -/
def toText (c : Codec α) (a : α) : String := (c.write a).canonical

def text : Codec String where
  read _ d := match d with
    | .text leaf => leaf.read
    | d => .error d.refusal
  write := .text

def flag : Codec Bool where
  read _ d := match d with
    | .boolean b => .ok b
    | d => .error d.refusal
  write := .boolean

/-- Reads an integer from zero up to `limit`. -/
def readNatural (limit : Nat) : Reader Nat := fun _ d =>
  match d with
  | .number leaf => do
    match ← leaf.read with
    | .integer n => if 0 ≤ n ∧ n ≤ limit then return n.toNat else throw (.misfit (.outOfRange n))
    | .fraction => throw (.misfit (.invalidType .fraction))
  | d => .error d.refusal

def word16 : Codec UInt16 where
  read p d := (readNatural 65535 p d).map .ofNat
  write n := .integer n.toNat

def word32 : Codec UInt32 where
  read p d := (readNatural 4294967295 p d).map .ofNat
  write n := .integer n.toNat

/-- A value or null. What starts as a null does is taken for one. -/
def optional (c : Codec α) : Codec (Option α) where
  read p d := match d with
    | .null => .ok none
    | .brokenNull fault => .error fault
    | d => (c.read p d).map some
  write a := (a.map c.write).getD .null

/-- Reads the items of an array. -/
def readItems (r : Reader α) (p : Place) : Items → Except Fault (List α)
  | .closed => .ok []
  | .stopped fault => .error fault
  | .item d rest => do
    let a ← r p d
    return a :: (← readItems r p rest)

/-- An array of values. -/
def list (c : Codec α) : Codec (List α) where
  read p d := match d with
    | .array items => do readItems c.read (← p.inside) items
    | d => .error d.refusal
  write as := .array (as.map c.write)

/-- Reads the members of an object whose values are texts. -/
def readEntries (p : Place) : Members → Except Fault (List (String × String))
  | .closed => .ok []
  | .stopped fault => .error fault
  | .ended => .error .truncated
  | .member name value rest => do
    let name ← name.read
    let value ← text.read p value
    return (name, value) :: (← readEntries p rest)

/-- A dictionary as an object; of members of one name the last counts. -/
def dictionary : Codec Dictionary where
  read p d := match d with
    | .object members => do return .ofList (← readEntries (← p.inside) members)
    | d => .error d.refusal
  write d := .object (d.entries.map fun e => (e.1, .text e.2))

/-- The member of a closed set that a word spells. -/
def variantOf [Keyword α] (word : String) : Except Fault α :=
  match Keyword.read? word with
  | some a => .ok a
  | none => .error (.misfit (.unknownVariant word))

/-- Reads nothing: a null, or an empty object in a text that was read before. -/
def readNothing : Reader Unit := fun p d =>
  match d, p.buffered with
  | .null, _ => .ok ()
  | .object .closed, true => .ok ()
  | d, _ => .error d.refusal

/-- Reads a member of a closed set from an object that has it as its one name, with null there. -/
def readTagged [Keyword α] (p : Place) : Members → Except Fault α
  | .closed => .error .malformed
  | .stopped fault => .error fault
  | .ended => .error .truncated
  | .member name value rest => do
    let a ← variantOf (← name.read)
    readNothing p value
    match rest with
    | .closed => return a
    | .stopped fault => throw fault
    | _ => throw .malformed

/-- The same in a text that was read before. -/
def readTaggedAgain [Keyword α] (p : Place) : Members → Except Fault α
  | .member name value .closed => do
    let a ← variantOf (← name.read)
    readNothing p value
    return a
  | _ => .error (.misfit .ambiguousVariant)

/-- A member of a closed set, written as the word that spells it. -/
def keyword [Keyword α] : Codec α where
  read p d := match d with
    | .text leaf => do variantOf (← leaf.read)
    | .object members =>
      if p.buffered then readTaggedAgain p members
      else do readTagged (← p.inside) members
    | .absent => .error .truncated
    | d => .error (if p.buffered then d.refusal else .malformed)
  write a := .text (Keyword.spelling a)

end Codec

/-- Whether a record may lack a field. -/
inductive Need
  /-- It may not. -/
  | required
  /-- An object may, an array may not. -/
  | optional
  /-- It may, and the field has its default then. -/
  | defaulted
  deriving DecidableEq, Repr

/-- A field of records: how it is read into a record, and how it is written, if it is. -/
structure Field (ρ : Type) where
  name : String
  need : Need
  read : Place → Document → Except Fault (ρ → ρ)
  write : ρ → Option Value

namespace Field
variable {ρ α : Type}

/-- A field with a codec, a way to look it up and a way to put it. -/
def ofNeed (need : Need) (name : String) (c : Codec α) (get : ρ → α) (set : α → ρ → ρ) :
    Field ρ where
  name := name
  need := need
  read p d := (c.read p d).map set
  write r := some (c.write (get r))

/-- A field that has to be there. -/
def required (name : String) (c : Codec α) (get : ρ → α) (set : α → ρ → ρ) : Field ρ :=
  ofNeed .required name c get set

/-- A field that may be absent and has its default then. -/
def defaulted (name : String) (c : Codec α) (get : ρ → α) (set : α → ρ → ρ) : Field ρ :=
  ofNeed .defaulted name c get set

/-- The field, left out of what is written when `blank` says so. -/
def omittedWhen (f : Field ρ) (blank : ρ → Bool) : Field ρ :=
  { f with write := fun r => if blank r then none else f.write r }

def isRequired (f : Field ρ) : Bool := f.need = .required

end Field

/-- The shape of a record. -/
structure Schema (ρ : Type) where
  /-- A record with every default, to be filled in. -/
  blank : ρ
  /-- The fields, in order. -/
  fields : List (Field ρ)
  /-- Whether members of other names are refused; if not, they are passed over. -/
  closed : Bool

namespace Schema
variable {ρ : Type} (s : Schema ρ)

/-- A record whose members are all read has its required fields, or the first is missing. -/
def finish (seen : List String) (r : ρ) : Except Fault ρ :=
  match s.fields.find? fun f => f.isRequired && !seen.contains f.name with
  | some f => .error (.misfit (.missingField f.name))
  | none => .ok r

/-- Reads members into a record that has fields of the names `seen`. -/
def readMembers (p : Place) : Members → (seen : List String) → ρ → Except Fault ρ
  | .closed, seen, r => s.finish seen r
  | .stopped fault, _, _ => .error fault
  | .ended, _, _ => .error .truncated
  | .member name value rest, seen, r => do
    let name ← name.read
    match s.fields.find? (·.name = name) with
    | none =>
      if s.closed then throw (.misfit (.unknownField name))
      value.skip
      readMembers p rest seen r
    | some f =>
      if seen.contains name then throw (.misfit (.duplicateField name))
      let set ← f.read p value
      readMembers p rest (name :: seen) (set r)

/-- The number of items in an array that was read before. -/
def countItems : Items → Nat
  | .item _ rest => countItems rest + 1
  | .closed | .stopped _ => 0

/-- Reads items as the fields that are left, `index` of them having been read. -/
def readItems (p : Place) : List (Field ρ) → Items → (index : Nat) → ρ → Except Fault ρ
  | f :: fields, .item d rest, index, r => do
    let set ← f.read p d
    readItems p fields rest (index + 1) (set r)
  | f :: fields, .closed, index, r =>
    if f.need = .defaulted then readItems p fields .closed (index + 1) r
    else .error (.misfit (.invalidLength index))
  | _, .stopped fault, _, _ => .error fault
  | [], .closed, _, r => .ok r
  | [], .item d rest, index, _ =>
    .error (if p.buffered then .misfit (.invalidLength (index + countItems (.item d rest)))
      else .malformed)

def read : Reader ρ := fun p d =>
  match d with
  | .object members => do s.readMembers (← p.inside) members [] s.blank
  | .array items => do readItems (← p.inside) s.fields items 0 s.blank
  | d => .error d.refusal

/-- The members that a record is written as. -/
def members (r : ρ) : List (String × Value) :=
  s.fields.filterMap fun f => (f.write r).map fun v => (f.name, v)

/-- The codec of records of the shape. -/
def codec : Codec ρ where
  read := s.read
  write r := .object (s.members r)

end Schema

/-- One of the shapes of a type, chosen by a word. -/
structure Variant (α : Type) where
  word : String
  readMembers : Place → Members → Except Fault α
  readItems : Place → Items → Except Fault α

/-- The variant that holds records of a shape. -/
def Schema.variant {α ρ : Type} (s : Schema ρ) (word : String) (make : ρ → α) : Variant α where
  word := word
  readMembers p members := (s.readMembers p members [] s.blank).map make
  readItems p items := (readItems p s.fields items 0 s.blank).map make

/-- The member that names the variant. -/
def variantTag : String := "kind"

namespace Variant
variable {α : Type}

/-- The variant that a document names. -/
def choose (variants : List (Variant α)) (d : Document) : Except Fault (Variant α) :=
  match d with
  | .text leaf => do
    let word ← leaf.read
    match variants.find? (·.word = word) with
    | some v => return v
    | none => throw (.misfit (.unknownVariant word))
  | d => .error d.refusal

/-- Reads all members and gives the variant that the tag among them names. -/
def find (variants : List (Variant α)) (room : Nat) :
    Members → (found : Option (Variant α)) → Except Fault (Variant α)
  | .closed, some v => .ok v
  | .closed, none => .error (.misfit (.missingField variantTag))
  | .stopped fault, _ => .error fault
  | .ended, _ => .error .truncated
  | .member name value rest, found => do
    let name ← name.read
    if name = variantTag then
      if found.isSome then throw (.misfit (.duplicateField variantTag))
      let v ← choose variants value
      find variants room rest (some v)
    else
      value.settle room
      find variants room rest found

/-- The members without the tag. -/
def untagged : Members → Members
  | .member name value rest =>
    match name.read with
    | .ok n => if n = variantTag then untagged rest else .member name value (untagged rest)
    | .error _ => .member name value (untagged rest)
  | members => members

/-- Reads a value of one of several shapes: an object with a tag, or an array that starts with it.
The whole text of the value is read before its fields are looked at. -/
def read (variants : List (Variant α)) : Reader α := fun p d =>
  match d with
  | .object members => do
    let p ← p.inside
    let v ← find variants p.room members none
    v.readMembers { p with buffered := true } (untagged members)
  | .array items => do
    let p ← p.inside
    match items with
    | .closed => throw (.misfit (.missingField variantTag))
    | .stopped fault => throw fault
    | .item tag rest =>
      let v ← choose variants tag
      rest.settle p.room
      v.readItems { p with buffered := true } rest
  | d => .error d.refusal

/-- A record of a shape, written with the tag that names it. -/
def write {ρ : Type} (word : String) (s : Schema ρ) (r : ρ) : Value :=
  .object ((variantTag, .text word) :: s.members r)

end Variant
end Installer.Json
