import Installer.Text.Quoted

/-!
# What can be wrong with a document

A document is malformed, ends too early, or is well formed up to a place where it does not have the
declared shape; then the misfit says what was found there.
-/

set_option autoImplicit false

namespace Installer.Json

/-- A value that stands where another kind of value has to. -/
inductive Found
  | null
  | boolean (b : Bool)
  | integer (n : Int)
  | fraction
  | text (s : String)
  | sequence
  | map
  deriving DecidableEq, Repr

def Found.description : Found → String
  | .null => "null"
  | .boolean b => s!"boolean \x60{b}\x60"
  | .integer n => s!"integer \x60{n}\x60"
  | .fraction => "floating point"
  | .text s => "string " ++ Text.quoted s
  | .sequence => "sequence"
  | .map => "map"

/-- How a document departs from its declared shape. -/
inductive Misfit
  | missingField (name : String)
  | unknownField (name : String)
  | duplicateField (name : String)
  | unknownVariant (name : String)
  | invalidLength (length : Nat)
  | invalidType (found : Found)
  | outOfRange (n : Int)
  | ambiguousVariant
  deriving DecidableEq, Repr

def Misfit.message : Misfit → String
  | .missingField name => s!"missing field \x60{name}\x60"
  | .unknownField name => s!"unknown field \x60{name}\x60"
  | .duplicateField name => s!"duplicate field \x60{name}\x60"
  | .unknownVariant name => s!"unknown variant \x60{name}\x60"
  | .invalidLength length => s!"invalid length {length}"
  | .invalidType found => s!"invalid type: {found.description}"
  | .outOfRange n => s!"invalid value: {(Found.integer n).description}"
  | .ambiguousVariant => s!"invalid value: {Found.map.description}"

/-- Why a text is not read as a value. -/
inductive Fault
  /-- Something stands where no document can have it. -/
  | malformed
  /-- The text ends before the document does. -/
  | truncated
  | misfit (m : Misfit)
  deriving DecidableEq, Repr

end Installer.Json
