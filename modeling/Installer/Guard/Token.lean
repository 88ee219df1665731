/-!
# The words of the guard language

A guard compares state variables, feature and component states, environment variables, texts and
integers. Tokens carry their meaning; a lexeme adds the byte at which its token starts.
-/

set_option autoImplicit false

namespace Installer.Guard

/-- Which state of a feature or component a reference reads. -/
inductive StateKind
  /-- The action requested for a feature. -/
  | featureAction
  /-- The installed state of a feature. -/
  | featureInstalled
  /-- The action requested for a component. -/
  | componentAction
  /-- The installed state of a component. -/
  | componentInstalled
  deriving DecidableEq, Repr

namespace StateKind

/-- The mark before a name that selects the kind of state. -/
def mark : StateKind → Char
  | .featureAction => '&'
  | .featureInstalled => '!'
  | .componentAction => '$'
  | .componentInstalled => '?'

def ofMark? : Char → Option StateKind
  | '&' => some .featureAction
  | '!' => some .featureInstalled
  | '$' => some .componentAction
  | '?' => some .componentInstalled
  | _ => none

theorem ofMark?_mark (kind : StateKind) : ofMark? kind.mark = some kind := by
  cases kind <;> rfl

def isOfFeature : StateKind → Bool
  | .featureAction | .featureInstalled => true
  | .componentAction | .componentInstalled => false

end StateKind

/-- How two values are compared. -/
inductive Relation
  | equal
  | notEqual
  | less
  | greater
  | atMost
  | atLeast
  | contains
  | startsWith
  | endsWith
  deriving DecidableEq, Repr

def Relation.symbol : Relation → String
  | .equal => "="
  | .notEqual => "<>"
  | .less => "<"
  | .greater => ">"
  | .atMost => "<="
  | .atLeast => ">="
  | .contains => "><"
  | .startsWith => "<<"
  | .endsWith => ">>"

/-- A relation and whether it looks through letter case. -/
structure Comparison where
  relation : Relation
  ignoreCase : Bool
  deriving DecidableEq, Repr

/-- A value that a guard mentions. -/
inductive Operand
  | variable (name : String)
  | state (kind : StateKind) (name : String)
  | environment (name : String)
  | text (value : String)
  | integer (value : Int)
  deriving DecidableEq, Repr

/-- Variables and states name something of the package; the other operands do not. -/
def Operand.isReference : Operand → Bool
  | .variable _ | .state _ _ => true
  | .environment _ | .text _ | .integer _ => false

inductive Token
  | leftParen
  | rightParen
  | comparison (c : Comparison)
  | not
  | and
  | or
  | xor
  | operand (o : Operand)
  deriving DecidableEq, Repr

/-- A token as messages name it. -/
def Token.description : Token → String
  | .leftParen => "'('"
  | .rightParen => "')'"
  | .comparison _ => "comparison operator"
  | .not => "NOT"
  | .and => "AND"
  | .or => "OR"
  | .xor => "XOR"
  | .operand (.variable name) => s!"identifier '{name}'"
  | .operand (.state _ name) => s!"state reference '{name}'"
  | .operand (.environment name) => s!"environment reference '{name}'"
  | .operand (.text value) => s!"string \"{value}\""
  | .operand (.integer value) => s!"integer {value}"

/-- A token and the byte of the text at which it starts. -/
structure Lexeme where
  token : Token
  start : Nat
  deriving DecidableEq, Repr

/-- Why a text is not a guard. -/
inductive Cause
  | empty
  | loneTilde
  | lonePercent
  | loneMark
  | unterminatedText
  | integerOutOfRange
  | unexpectedCharacter (c : Char)
  | unexpectedToken (t : Token)
  | unclosedParen
  | expectedValue (found : Token)
  | ended
  deriving DecidableEq, Repr

def Cause.message : Cause → String
  | .empty => "empty condition"
  | .loneTilde => "'~' must be followed by a comparison operator"
  | .lonePercent => "'%' must be followed by a variable name"
  | .loneMark => "state prefix must be followed by an identifier"
  | .unterminatedText => "unterminated string"
  | .integerOutOfRange => "integer out of range"
  | .unexpectedCharacter c => s!"unexpected character '{c}'"
  | .unexpectedToken t => s!"unexpected {t.description}"
  | .unclosedParen => "expected ')'"
  | .expectedValue found => s!"expected a value, found {found.description}"
  | .ended => "unexpected end of condition"

/-- A cause and the byte at which it shows. -/
structure Fault where
  offset : Nat
  cause : Cause
  deriving DecidableEq, Repr

def Fault.message (f : Fault) : String := s!"{f.cause.message} at offset {f.offset}"

end Installer.Guard
