import Installer.Guard.Token
import Installer.Text.Blank
import Installer.Text.Decimal

/-!
# A guard's text as lexemes

White space separates tokens and is dropped. A token is decided by its first character and takes the
longest run that belongs to it; `Token.read` gives the token and the number of characters it takes
after the first. Offsets count the bytes of the text before a token.
-/

set_option autoImplicit false

namespace Installer.Guard

/-- The number of bytes that characters take in UTF-8. -/
def byteLength (cs : List Char) : Nat := cs.foldl (fun n c => n + c.utf8Size) 0

/-- A name starts with a letter of ASCII or an underscore. -/
def isNameStart (c : Char) : Bool := c.isAlpha || c == '_'

/-- A name goes on with letters, digits, underscores and dots. -/
def isNameChar (c : Char) : Bool := c.isAlphanum || c == '_' || c == '.'

/-- The name at the start of the characters. -/
def name? : List Char → Option (List Char)
  | c :: rest => if isNameStart c then some (c :: rest.takeWhile isNameChar) else none
  | [] => none

/-- The relation at the start of the characters, and how many of them write it. -/
def Relation.read? : List Char → Option (Relation × Nat)
  | '=' :: _ => some (.equal, 1)
  | '<' :: '>' :: _ => some (.notEqual, 2)
  | '<' :: '=' :: _ => some (.atMost, 2)
  | '<' :: '<' :: _ => some (.startsWith, 2)
  | '<' :: _ => some (.less, 1)
  | '>' :: '=' :: _ => some (.atLeast, 2)
  | '>' :: '<' :: _ => some (.contains, 2)
  | '>' :: '>' :: _ => some (.endsWith, 2)
  | '>' :: _ => some (.greater, 1)
  | _ => none

/-- The token of a word: a connective in any letter case, or else a variable. -/
def Token.ofWord (word : List Char) : Token :=
  match String.ofList (word.map Char.toUpper) with
  | "NOT" => .not
  | "AND" => .and
  | "OR" => .or
  | "XOR" => .xor
  | _ => .operand (.variable (String.ofList word))

/-- An integer of 64 bits, signed. -/
def integer? (value : Int) : Option Operand :=
  if Int64.minValue.toInt ≤ value && value ≤ Int64.maxValue.toInt then some (.integer value)
  else none

/-- Whether a numeral starts here: a digit, or a minus before one. -/
def startsNumeral (c : Char) (rest : List Char) : Bool :=
  c.isDigit || (c == '-' && rest.head?.any Char.isDigit)

/-- The value of the numeral that starts with `c` and goes on with `digits`. -/
def numeralValue (c : Char) (digits : List Char) : Int :=
  if c == '-' then -(Text.digitsFrom 0 digits : Int) else (Text.digitsFrom 0 (c :: digits) : Int)

/-- The token that starts with `c`, and how many characters of `rest` it takes. -/
def Token.read (c : Char) (rest : List Char) : Except Cause (Token × Nat) :=
  if c == '(' then .ok (.leftParen, 0)
  else if c == ')' then .ok (.rightParen, 0)
  else if c == '~' then
    match Relation.read? rest with
    | some (relation, length) => .ok (.comparison ⟨relation, true⟩, length)
    | none => .error .loneTilde
  else if c == '%' then
    match name? rest with
    | some name => .ok (.operand (.environment (String.ofList name)), name.length)
    | none => .error .lonePercent
  else if c == '"' then
    let value := rest.takeWhile (· != '"')
    if value.length < rest.length then
      .ok (.operand (.text (String.ofList value)), value.length + 1)
    else .error .unterminatedText
  else if startsNumeral c rest then
    let digits := rest.takeWhile Char.isDigit
    match integer? (numeralValue c digits) with
    | some o => .ok (.operand o, digits.length)
    | none => .error .integerOutOfRange
  else if isNameStart c then
    let more := rest.takeWhile isNameChar
    .ok (Token.ofWord (c :: more), more.length)
  else
    match StateKind.ofMark? c, Relation.read? (c :: rest) with
    | some kind, _ =>
      match name? rest with
      | some name => .ok (.operand (.state kind (String.ofList name)), name.length)
      | none => .error .loneMark
    | none, some (relation, length) => .ok (.comparison ⟨relation, false⟩, length - 1)
    | none, none => .error (.unexpectedCharacter c)

/-- The lexemes of characters that start at a byte offset. -/
def lexemesFrom (offset : Nat) : List Char → Except Fault (List Lexeme)
  | [] => .ok []
  | c :: rest =>
    if Text.isBlank c then lexemesFrom (offset + c.utf8Size) rest
    else
      match Token.read c rest with
      | .error cause => .error ⟨offset, cause⟩
      | .ok (token, taken) =>
        match lexemesFrom (offset + byteLength (c :: rest.take taken)) (rest.drop taken) with
        | .error fault => .error fault
        | .ok more => .ok (⟨token, offset⟩ :: more)
termination_by cs => cs.length
decreasing_by
  · simp only [List.length_cons]; omega
  · simp only [List.length_drop, List.length_cons]; omega

/-- The lexemes of a text. -/
def lexemes (text : String) : Except Fault (List Lexeme) := lexemesFrom 0 text.toList

end Installer.Guard
