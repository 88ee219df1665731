import Installer.Guard.Lexer

/-!
# Guard conditions and their grammar

`XOR` binds weakest, then `OR`, then `AND`, then `NOT`; the binary connectives associate to the
left. An operand is compared with at most one other, and parentheses hold whole conditions only.

A condition keeps its text, without the white space at its ends, beside the tree that is read from it.
-/

set_option autoImplicit false

namespace Installer.Guard

/-- A condition on the state of the target system. -/
inductive Expr
  | operand (o : Operand)
  | compare (left : Operand) (c : Comparison) (right : Operand)
  | not (e : Expr)
  | and (left right : Expr)
  | or (left right : Expr)
  | xor (left right : Expr)
  deriving DecidableEq, Repr

/-- The operands of a condition, in the order of its text. -/
def Expr.operands : Expr → List Operand
  | .operand o => [o]
  | .compare left _ right => [left, right]
  | .not e => e.operands
  | .and left right | .or left right | .xor left right => left.operands ++ right.operands

/-- A reader of lexemes: what it reads, and the lexemes after that. -/
abbrev Reader (α : Type) := List Lexeme → Except Fault (α × List Lexeme)

/-- The byte at which the lexemes start, given the length of the text. -/
def position (ending : Nat) : List Lexeme → Nat
  | [] => ending
  | l :: _ => l.start

def readOperand (ending : Nat) : Reader Operand
  | ⟨.operand o, _⟩ :: rest => .ok (o, rest)
  | ⟨t, start⟩ :: _ => .error ⟨start, .expectedValue t⟩
  | [] => .error ⟨ending, .ended⟩

/-- An operand, or a comparison of two. -/
def readComparison (ending : Nat) : Reader Expr := fun ts => do
  let (left, rest) ← readOperand ending ts
  match rest with
  | ⟨.comparison c, _⟩ :: rest =>
    let (right, rest) ← readOperand ending rest
    return (.compare left c right, rest)
  | rest => return (.operand left, rest)

/-- A condition between parentheses, or a comparison. -/
def readPrimary (ending : Nat) (whole : Reader Expr) : Reader Expr
  | ⟨.leftParen, _⟩ :: rest => do
    let (e, rest) ← whole rest
    match rest with
    | ⟨.rightParen, _⟩ :: rest => return (e, rest)
    | rest => throw ⟨position ending rest, .unclosedParen⟩
  | ts => readComparison ending ts

/-- Any number of negations before a primary. -/
def readNegation (ending : Nat) (whole : Reader Expr) : Reader Expr
  | ⟨.not, _⟩ :: rest => do
    let (e, rest) ← readNegation ending whole rest
    return (.not e, rest)
  | ts => readPrimary ending whole ts

/-- Goes on from `left` while connectives `link` follow, at most `n` of them. -/
def chainFrom (link : Token) (join : Expr → Expr → Expr) (next : Reader Expr) :
    Nat → Expr → Reader Expr
  | n + 1, left, t :: rest =>
    if t.token = link then do
      let (right, rest) ← next rest
      chainFrom link join next n (join left right) rest
    else .ok (left, t :: rest)
  | _, left, ts => .ok (left, ts)

/-- Parts joined to the left by one connective. -/
def chain (link : Token) (join : Expr → Expr → Expr) (next : Reader Expr) : Reader Expr :=
  fun ts => do
    let (left, rest) ← next ts
    chainFrom link join next rest.length left rest

/-- A whole condition whose parentheses nest less than `depth` deep. -/
def readExpr (ending : Nat) : (depth : Nat) → Reader Expr
  | 0 => fun ts => .error ⟨position ending ts, .ended⟩
  | depth + 1 =>
    chain .xor .xor <| chain .or .or <| chain .and .and <|
      readNegation ending (readExpr ending depth)

/-- The condition that all the lexemes write; their number bounds the nesting. -/
def Expr.ofLexemes (ending : Nat) (ts : List Lexeme) : Except Fault Expr := do
  if ts.isEmpty then throw ⟨0, .empty⟩
  match ← readExpr ending (ts.length + 1) ts with
  | (e, []) => return e
  | (_, t :: _) => throw ⟨t.start, .unexpectedToken t.token⟩

/-- A condition with its text. -/
structure Condition where
  text : String
  expr : Expr
  deriving DecidableEq, Repr

namespace Condition

/-- The condition that a text writes; it keeps the text without the white space around it. -/
def parse (text : String) : Except Fault Condition := do
  let expr ← Expr.ofLexemes text.utf8ByteSize (← lexemes text)
  return ⟨Text.trim text, expr⟩

/-- The variables and states a condition refers to, in the order of its text, with repeats. -/
def references (c : Condition) : List Operand := c.expr.operands.filter Operand.isReference

end Condition
end Installer.Guard
