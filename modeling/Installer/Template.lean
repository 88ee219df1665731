import Installer.Violation

/-!
# Templates

In a template `${name}` stands for the value of a name, and `$${` for the two characters that open
one. A text is read once from left to right, so values are never expanded again.
-/

set_option autoImplicit false

namespace Installer.Template

/-- What is known of a name. -/
inductive Meaning
  | value (text : String)
  /-- A known name without a value in this build. -/
  | missing
  | unknown
  deriving DecidableEq, Repr

/-- Why a template has no expansion. -/
inductive Failure
  | malformed (fault : TemplateFault)
  | missing (name : String)
  deriving DecidableEq, Repr

/-- What a name between braces stands for. -/
def valueOf (meaning : String → Meaning) (name : List Char) : Except Failure (List Char) :=
  if name.isEmpty then .error (.malformed .emptyName)
  else
    match meaning (String.ofList name) with
    | .value text => .ok text.toList
    | .missing => .error (.missing (String.ofList name))
    | .unknown => .error (.malformed (.unknownName (String.ofList name)))

/-- The expansion of a template's characters. -/
def expandChars (meaning : String → Meaning) : List Char → Except Failure (List Char)
  | [] => .ok []
  | '$' :: '$' :: '\x7b' :: rest => (expandChars meaning rest).map ('$' :: '\x7b' :: ·)
  | '$' :: '\x7b' :: rest => do
    let name := rest.takeWhile (· != '\x7d')
    if name.length = rest.length then throw (.malformed .unterminated)
    let value ← valueOf meaning name
    let more ← expandChars meaning (rest.drop (name.length + 1))
    return value ++ more
  | c :: rest => (expandChars meaning rest).map (c :: ·)
termination_by cs => cs.length
decreasing_by
  · simp only [List.length_cons]; omega
  · simp only [List.length_drop, List.length_cons]; omega
  · simp only [List.length_cons]; omega

/-- The failure as a broken rule of the template. -/
def Failure.violation (template : String) : Failure → Violation
  | .malformed fault => .malformedTemplate template fault
  | .missing name => .missingInjectedValue name

/-- The expansion of a template. -/
def expand (meaning : String → Meaning) (template : String) : Except Violation String :=
  match expandChars meaning template.toList with
  | .ok cs => .ok (String.ofList cs)
  | .error failure => .error (failure.violation template)

end Installer.Template
