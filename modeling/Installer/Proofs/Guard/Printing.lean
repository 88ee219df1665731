import Installer.Proofs.Guard.Binding
import Installer.Proofs.Guard.Conjunction
import Installer.Proofs.Text.Decimal

/-!
# The texts of a condition

A condition is written in a text by a tree whose parts bind as their places need: parentheses stand
where the condition needs them, and anywhere else around a whole part of it (`Tree.IsBound`). Each
token is spelled (`Spells`), keywords in any letter case and numerals with any number of zeros in
front, and there is white space between tokens (`SetsOut`). Every condition is written in some text,
with no more parentheses than it needs (`Expr.print`). Main statement: `parse_print`.

The text of a condition is that of its tree with the fewest parentheses (`Expr.tree`). A text in which
a condition is written is read back because its tokens are derived, and because each spelling is read
as its token wherever it stands (`Spells.isReadAs`).

**What it does not establish.** Only conditions whose operands have texts are written: a text with a
quote in it, or a name that is a keyword, has none. That these are all the texts which are read as a
condition is not claimed.
-/

set_option autoImplicit false

namespace Installer.Guard

/-! ## Spellings -/

/-- A name that a reference can have. -/
def IsName : List Char → Prop
  | [] => False
  | c :: rest => isNameStart c = true ∧ ∀ d ∈ rest, isNameChar d = true

instance : ∀ cs : List Char, Decidable (IsName cs)
  | [] => isFalse id
  | c :: rest =>
    decidable_of_iff (isNameStart c = true ∧ rest.all isNameChar = true)
      (and_congr_right' List.all_eq_true)

/-- The keyword that a token is written with. -/
def Token.keyword? : Token → Option String
  | .not => some "NOT"
  | .and => some "AND"
  | .or => some "OR"
  | .xor => some "XOR"
  | .leftParen | .rightParen | .comparison _ | .operand _ => none

/-- The words that are no variables. -/
def keywords : List String := ["NOT", "AND", "OR", "XOR"]

/-- The word in capital letters of ASCII. -/
def capitals (word : List Char) : String := String.ofList (word.map Char.toUpper)

/-- The symbol of a comparison. -/
def Comparison.symbol (c : Comparison) : List Char :=
  if c.ignoreCase then '~' :: c.relation.symbol.toList else c.relation.symbol.toList

/-- The characters spell a token. -/
inductive Spells : List Char → Token → Prop
  | leftParen : Spells ['('] .leftParen
  | rightParen : Spells [')'] .rightParen
  | comparison (c : Comparison) : Spells c.symbol (.comparison c)
  /-- In any letter case. -/
  | keyword {t : Token} {word : List Char} :
    t.keyword? = some (capitals word) → Spells word t
  | name (name : String) : Spells name.toList (.operand (.variable name))
  | state (kind : StateKind) (name : String) :
    Spells (kind.mark :: name.toList) (.operand (.state kind name))
  | environment (name : String) : Spells ('%' :: name.toList) (.operand (.environment name))
  | quoted (value : String) : Spells ('"' :: (value.toList ++ ['"'])) (.operand (.text value))
  | numeral {digits : List Char} : digits ≠ [] → (∀ d ∈ digits, d.isDigit = true) →
    Spells digits (.operand (.integer (Text.digitsFrom 0 digits)))
  | negative {digits : List Char} : digits ≠ [] → (∀ d ∈ digits, d.isDigit = true) →
    Spells ('-' :: digits) (.operand (.integer (-Text.digitsFrom 0 digits)))

/-- The operand has a text: names are names, a variable's name is no keyword in any letter case, a
quoted text holds no quote, and an integer has 64 bits. -/
def Operand.IsWritable : Operand → Prop
  | .variable name => IsName name.toList ∧ capitals name.toList ∉ keywords
  | .state _ name | .environment name => IsName name.toList
  | .text value => '"' ∉ value.toList
  | .integer value => Int64.minValue.toInt ≤ value ∧ value ≤ Int64.maxValue.toInt

instance : ∀ o : Operand, Decidable o.IsWritable
  | .variable _ => inferInstanceAs (Decidable (_ ∧ _))
  | .state _ _ | .environment _ => inferInstanceAs (Decidable (IsName _))
  | .text _ => inferInstanceAs (Decidable (_ ∉ _))
  | .integer _ => inferInstanceAs (Decidable (_ ∧ _))

/-- White space, one character or more. -/
def IsGap (cs : List Char) : Prop := cs ≠ [] ∧ ∀ c ∈ cs, Text.isBlank c = true

/-- The characters spell the tokens, with white space between. -/
inductive SetsOut : List Token → List Char → Prop
  | one {t : Token} {cs : List Char} : Spells cs t → SetsOut [t] cs
  | cons {t : Token} {cs gap rest : List Char} {ts : List Token} :
    Spells cs t → IsGap gap → SetsOut ts rest → SetsOut (t :: ts) (cs ++ (gap ++ rest))

/-- The text writes a condition, with white space at its ends or without. -/
def Expr.IsWrittenIn (e : Expr) (text : String) : Prop :=
  ∃ t : Tree, t.IsBound ∧ t.expr = e ∧ ∃ front body back : List Char,
    text.toList = front ++ (body ++ back) ∧ SetsOut t.tokens body ∧
      (∀ c ∈ front, Text.isBlank c = true) ∧ ∀ c ∈ back, Text.isBlank c = true

/-! ## A spelling is read as its token -/

/-- The lexer takes all the characters as one token. -/
def IsReadAs (cs : List Char) (t : Token) : Prop :=
  ∃ c rest, cs = c :: rest ∧ Text.isBlank c = false ∧ Token.read c rest = .ok (t, rest.length)

theorem IsName.name?_eq {cs : List Char} (h : IsName cs) : name? cs = some cs := by
  cases cs with
  | nil => cases h
  | cons c rest => rw [name?, if_pos h.1, List.takeWhile_eq_self_iff.mpr h.2]

theorem isNameChar_of_isNameStart {c : Char} (h : isNameStart c = true) : isNameChar c = true := by
  simp only [isNameStart, isNameChar, Char.isAlphanum, Bool.or_eq_true] at h ⊢
  exact .inl (h.imp .inl id)

theorem isNameChar_of_isDigit {c : Char} (h : c.isDigit = true) : isNameChar c = true := by
  simp [isNameChar, Char.isAlphanum, h]

/-- No part of a name is white space. -/
theorem isBlank_of_isNameChar {c : Char} (h : isNameChar c = true) : Text.isBlank c = false := by
  rw [Bool.eq_false_iff]
  intro hblank
  rw [isNameChar_of_isStop (.inl hblank)] at h
  cases h

/-- Where a word starts, the lexer takes the whole word. -/
theorem read_word {c : Char} {rest : List Char} (hc : isNameStart c = true)
    (hrest : ∀ d ∈ rest, isNameChar d = true) :
    Token.read c rest = .ok (Token.ofWord (c :: rest), rest.length) := by
  have hword : (Token.ofWord (c :: rest.takeWhile isNameChar)).Reads c rest _ := .word hc
  rw [List.takeWhile_eq_self_iff.mpr hrest] at hword
  exact hword.read

theorem ofWord_keyword {t : Token} {word : List Char} (h : t.keyword? = some (capitals word)) :
    Token.ofWord word = t := by
  unfold capitals at h
  unfold Token.ofWord
  cases t with
  | not | and | or | xor =>
    rw [← Option.some.inj h]
    rfl
  | leftParen | rightParen | comparison | operand => cases h

theorem ofWord_name {word : List Char} (h : capitals word ∉ keywords) :
    Token.ofWord word = .operand (.variable (String.ofList word)) := by
  simp only [keywords, List.mem_cons, List.not_mem_nil, or_false, not_or] at h
  unfold capitals at h
  obtain ⟨hnot, hand, hor, hxor⟩ := h
  unfold Token.ofWord
  split <;> first | contradiction | rfl

/-- A letter that becomes a letter in upper case was one. -/
theorem isAlpha_of_toUpper {c : Char} (h : c.toUpper.isAlpha = true) : c.isAlpha = true := by
  have halpha : c.isAlpha = (c.isUpper || (decide (c.val ≥ 97) && decide (c.val ≤ 122))) := rfl
  by_cases hlower : c.val ≥ 97 ∧ c.val ≤ 122
  · rw [halpha, decide_eq_true hlower.1, decide_eq_true hlower.2, Bool.and_self, Bool.or_true]
  · have hsame : c.toUpper = c := dif_neg hlower
    rwa [hsame] at h

/-- A keyword is made of letters. -/
theorem isAlpha_of_keyword {t : Token} {word : List Char} (h : t.keyword? = some (capitals word)) :
    word ≠ [] ∧ ∀ c ∈ word, c.isAlpha = true := by
  have hletters : ∀ s : String, t.keyword? = some s →
      s.toList ≠ [] ∧ ∀ c ∈ s.toList, c.isAlpha = true := by
    intro s hs
    cases t with
    | not | and | or | xor =>
      cases hs
      exact ⟨by decide, List.all_eq_true.mp (by decide)⟩
    | leftParen | rightParen | comparison | operand => cases hs
  obtain ⟨hne, hall⟩ := hletters _ h
  rw [capitals, String.toList_ofList] at hne hall
  refine ⟨fun hnil => hne (by rw [hnil]; rfl), fun c hc => ?_⟩
  exact isAlpha_of_toUpper (hall _ (List.mem_map_of_mem hc))

theorem isReadAs_word {word : List Char} (h : IsName word) :
    IsReadAs word (Token.ofWord word) := by
  cases word with
  | nil => cases h
  | cons c rest =>
    exact ⟨c, rest, rfl, isBlank_of_isNameChar (isNameChar_of_isNameStart h.1), read_word h.1 h.2⟩

theorem isName_of_letters {word : List Char} (hne : word ≠ [])
    (h : ∀ c ∈ word, c.isAlpha = true) : IsName word := by
  cases word with
  | nil => exact hne rfl
  | cons c rest =>
    refine ⟨by simp [isNameStart, h c], fun d hd => ?_⟩
    simp [isNameChar, Char.isAlphanum, h d (List.mem_cons_of_mem _ hd)]

theorem integer?_eq {value : Int} (h : (Operand.integer value).IsWritable) :
    integer? value = some (.integer value) := by
  rw [integer?, if_pos]
  rw [Bool.and_eq_true, decide_eq_true_eq, decide_eq_true_eq]
  exact h

theorem isReadAs_numeral {digits : List Char} (hne : digits ≠ [])
    (hall : ∀ d ∈ digits, d.isDigit = true)
    (hvalue : (Operand.integer (Text.digitsFrom 0 digits)).IsWritable) :
    IsReadAs digits (.operand (.integer (Text.digitsFrom 0 digits))) := by
  cases digits with
  | nil => exact absurd rfl hne
  | cons c rest =>
    obtain ⟨hc, hrest⟩ := List.forall_mem_cons.mp hall
    refine ⟨c, rest, rfl, isBlank_of_isNameChar (isNameChar_of_isDigit hc), ?_⟩
    have hstarts : startsNumeral c rest = true := by
      rw [startsNumeral, hc, Bool.true_or]
    have hminus : (c == '-') = false := by
      refine beq_false_of_ne ?_
      rintro rfl
      cases hc
    have htake := List.takeWhile_eq_self_iff.mpr hrest
    have hinteger : integer? (numeralValue c (rest.takeWhile Char.isDigit)) =
        some (.integer (Text.digitsFrom 0 (c :: rest))) := by
      rw [htake, numeralValue, hminus]
      exact integer?_eq hvalue
    have hwhole := (Token.Reads.numeral hstarts hinteger).read
    rwa [htake] at hwhole

theorem isReadAs_negative {digits : List Char} (hne : digits ≠ [])
    (hall : ∀ d ∈ digits, d.isDigit = true)
    (hvalue : (Operand.integer (-Text.digitsFrom 0 digits)).IsWritable) :
    IsReadAs ('-' :: digits) (.operand (.integer (-Text.digitsFrom 0 digits))) := by
  refine ⟨'-', digits, rfl, by decide, ?_⟩
  have hnumeral : startsNumeral '-' digits = true := by
    cases digits with
    | nil => exact absurd rfl hne
    | cons d digits => simp [startsNumeral, hall d List.mem_cons_self]
  have hvalue' : integer? (numeralValue '-' digits) =
      some (.integer (-Text.digitsFrom 0 digits)) := integer?_eq hvalue
  rw [← List.takeWhile_eq_self_iff.mpr hall] at hvalue'
  have hwhole := (Token.Reads.numeral hnumeral hvalue').read
  rwa [List.takeWhile_eq_self_iff.mpr hall] at hwhole

/-- A spelling of a token is read as the token. -/
theorem Spells.isReadAs {cs : List Char} {t : Token} (h : Spells cs t)
    (ht : ∀ o, t = .operand o → o.IsWritable) : IsReadAs cs t := by
  cases h with
  | leftParen | rightParen => exact ⟨_, _, rfl, by decide, rfl⟩
  | comparison c =>
    obtain ⟨relation, ignoreCase⟩ := c
    cases ignoreCase <;> cases relation <;> exact ⟨_, _, rfl, by decide, rfl⟩
  | keyword hword =>
    obtain ⟨hne, hletters⟩ := isAlpha_of_keyword hword
    have hread := isReadAs_word (isName_of_letters hne hletters)
    rwa [ofWord_keyword hword] at hread
  | name name =>
    obtain ⟨hname, hword⟩ := ht _ rfl
    have hread := isReadAs_word hname
    rwa [ofWord_name hword, String.ofList_toList] at hread
  | state kind name =>
    have hname := (ht _ rfl : IsName name.toList).name?_eq
    refine ⟨kind.mark, name.toList, rfl, by cases kind <;> decide, ?_⟩
    have hreads : Token.Reads kind.mark name.toList _ _ := .state hname
    rw [String.ofList_toList] at hreads
    exact hreads.read
  | environment name =>
    have hname := (ht _ rfl : IsName name.toList).name?_eq
    refine ⟨'%', name.toList, rfl, by decide, ?_⟩
    have hreads := Token.Reads.environment hname
    rw [String.ofList_toList] at hreads
    exact hreads.read
  | quoted value =>
    have hquote : '"' ∉ value.toList := ht _ rfl
    refine ⟨'"', value.toList ++ ['"'], rfl, by decide, ?_⟩
    have hvalue : (value.toList ++ ['"']).takeWhile (· != '"') = value.toList := by
      rw [List.takeWhile_append_of_pos]
      · simp
      · intro c hc
        rw [bne_iff_ne]
        rintro rfl
        exact hquote hc
    rw [read_quote, if_pos (by simp), hvalue, String.ofList_toList, List.length_append]
    rfl
  | numeral hne hall => exact isReadAs_numeral hne hall (ht _ rfl)
  | negative hne hall => exact isReadAs_negative hne hall (ht _ rfl)

/-! ## A text is parsed as the condition that it writes -/

/-- Tokens that are spelled with white space between are those of the characters. -/
theorem SetsOut.lexes {ts : List Token} {cs : List Char} (h : SetsOut ts cs)
    (hts : ∀ o, .operand o ∈ ts → o.IsWritable) : Lexes cs ts := by
  induction h with
  | @one t cs hspells =>
    obtain ⟨c, rest, rfl, hblank, hread⟩ := hspells.isReadAs fun o ho => hts o (by simp [ho])
    refine .token hblank hread ?_
    rw [List.drop_length]
    exact .nil
  | @cons t cs gap rest ts hspells hgap _ ih =>
    obtain ⟨c, more, rfl, hblank, hread⟩ := hspells.isReadAs fun o ho => hts o (by simp [ho])
    have hfirst : Lexes (c :: more) [t] := by
      refine .token hblank hread ?_
      rw [List.drop_length]
      exact .nil
    have hrest := ih fun o ho => hts o (List.mem_cons_of_mem _ ho)
    have hstops : Stops (gap ++ rest) := by
      obtain ⟨d, gap', rfl⟩ := List.exists_cons_of_ne_nil hgap.1
      rintro _ ⟨⟩
      exact .inl (hgap.2 d List.mem_cons_self)
    exact hfirst.append hstops ((lexes_blank_append hgap.2).mpr hrest)

/-- The operands among a tree's tokens are those of its condition. -/
theorem Tree.mem_operands {t : Tree} {o : Operand} (h : .operand o ∈ t.tokens) :
    o ∈ t.expr.operands := by
  induction t with
  | operand | compare => simpa [tokens, expr, Expr.operands] using h
  | paren t ih =>
    refine ih ?_
    simpa [tokens] using h
  | not t ih =>
    refine ih ?_
    simpa [tokens] using h
  | join c left right ihl ihr =>
    have hparts : .operand o ∈ left.tokens ∨ .operand o ∈ right.tokens := by
      cases c <;> simpa [tokens, Connective.token] using h
    have hmem : o ∈ left.expr.operands ++ right.expr.operands :=
      List.mem_append.mpr (hparts.imp ihl ihr)
    cases c <;> exact hmem

theorem Expr.IsWrittenIn.parse {e : Expr} {text : String} (h : e.IsWrittenIn text)
    (he : ∀ o ∈ e.operands, o.IsWritable) :
    Condition.parse text = .ok ⟨Text.trim text, e⟩ := by
  obtain ⟨t, hbound, rfl, front, body, back, htext, hbody, hfront, hback⟩ := h
  have hlexes : Lexes body t.tokens := hbody.lexes fun o ho => he o (Tree.mem_operands ho)
  have hend : Lexes back [] := by
    rw [← List.append_nil back, lexes_blank_append hback]
    exact .nil
  have hall := (lexes_blank_append hfront).mpr (hlexes.append (stops_of_blank hback) hend)
  rw [← htext, List.append_nil] at hall
  exact parse_eq_ok_iff.mpr ⟨⟨_, hall, hbound.derives (Nat.zero_le _)⟩, rfl⟩

/-! ## Every condition has a text -/

/-- The tree, in parentheses if it binds less tightly than a level. -/
def Tree.within (level : Level) (t : Tree) : Tree :=
  if level.strength ≤ t.level.strength then t else .paren t

/-- Two trees joined, in parentheses where the connective needs them. -/
def Tree.joined (c : Connective) (left right : Tree) : Tree :=
  .join c (left.within c.level) (right.within c.level.below)

/-- The tree of a condition with no parentheses but those it needs. -/
def Expr.tree : Expr → Tree
  | .operand o => .operand o
  | .compare left c right => .compare left c right
  | .not e => .not (e.tree.within .negation)
  | .and a b => .joined .and a.tree b.tree
  | .or a b => .joined .or a.tree b.tree
  | .xor a b => .joined .xor a.tree b.tree

/-- One spelling of each token, keywords in capitals. -/
def Token.spelling : Token → List Char
  | .leftParen => ['(']
  | .rightParen => [')']
  | .comparison c => c.symbol
  | .not => ['N', 'O', 'T']
  | .and => ['A', 'N', 'D']
  | .or => ['O', 'R']
  | .xor => ['X', 'O', 'R']
  | .operand (.variable name) => name.toList
  | .operand (.state kind name) => kind.mark :: name.toList
  | .operand (.environment name) => '%' :: name.toList
  | .operand (.text value) => '"' :: (value.toList ++ ['"'])
  | .operand (.integer (.ofNat n)) => Nat.toDigits 10 n
  | .operand (.integer (.negSucc n)) => '-' :: Nat.toDigits 10 (n + 1)

/-- The tokens with a blank between any two. -/
def setOut : List Token → List Char
  | [] => []
  | [t] => t.spelling
  | t :: ts => t.spelling ++ ([' '] ++ setOut ts)

/-- A text of a condition. -/
def Expr.print (e : Expr) : String := String.ofList (setOut e.tree.tokens)

namespace Tree

theorem expr_within (level : Level) (t : Tree) : (t.within level).expr = t.expr := by
  rw [within]
  split <;> rfl

theorem IsBound.within {t : Tree} (h : t.IsBound) (level : Level) : (t.within level).IsBound := by
  rw [Tree.within]
  split <;> exact h

theorem strength_within (level : Level) (t : Tree) :
    level.strength ≤ (t.within level).level.strength := by
  rw [within]
  split
  · assumption
  · show level.strength ≤ Level.primary.strength
    cases level <;> decide

theorem IsBound.joined {c : Connective} {left right : Tree} (hleft : left.IsBound)
    (hright : right.IsBound) : (Tree.joined c left right).IsBound := by
  have htight : c.level.strength < (right.within c.level.below).level.strength := by
    have hbelow : c.level.below.strength = c.level.strength + 1 := by
      cases c <;> rfl
    have hstrength := strength_within c.level.below right
    omega
  exact ⟨hleft.within _, hright.within _, strength_within _ _, htight⟩

end Tree

theorem Expr.isBound_tree (e : Expr) : e.tree.IsBound := by
  induction e with
  | operand | compare => trivial
  | not e ih => exact ⟨ih.within _, Tree.strength_within _ _⟩
  | and a b iha ihb | or a b iha ihb | xor a b iha ihb => exact iha.joined ihb

theorem Expr.expr_tree (e : Expr) : e.tree.expr = e := by
  induction e with
  | operand | compare => rfl
  | not e ih => rw [tree, Tree.expr, Tree.expr_within, ih]
  | and a b iha ihb | or a b iha ihb | xor a b iha ihb =>
    rw [tree, Tree.joined, Tree.expr, Tree.expr_within, Tree.expr_within, iha, ihb]
    rfl

theorem spells_spelling (t : Token) : Spells t.spelling t := by
  have hkeyword : ∀ (t : Token) (word : List Char), t.spelling = word →
      t.keyword? = some (capitals word) → Spells t.spelling t := by
    rintro t _ rfl hword
    exact .keyword hword
  have hdigits : ∀ n : Nat, ∀ d ∈ Nat.toDigits 10 n, d.isDigit = true := fun _ _ hd =>
    Text.isDigit_of_mem_toDigits hd
  match t with
  | .leftParen => exact .leftParen
  | .rightParen => exact .rightParen
  | .comparison c => exact .comparison c
  | .not | .and | .or | .xor => exact hkeyword _ _ rfl rfl
  | .operand (.variable name) => exact .name name
  | .operand (.state kind name) => exact .state kind name
  | .operand (.environment name) => exact .environment name
  | .operand (.text value) => exact .quoted value
  | .operand (.integer (.ofNat n)) =>
    have hspells := Spells.numeral Nat.toDigits_ne_nil (hdigits n)
    rwa [Text.digitsFrom_toDigits] at hspells
  | .operand (.integer (.negSucc n)) =>
    have hspells := Spells.negative Nat.toDigits_ne_nil (hdigits (n + 1))
    rwa [Text.digitsFrom_toDigits] at hspells

theorem setsOut_setOut : ∀ {ts : List Token}, ts ≠ [] → SetsOut ts (setOut ts)
  | [t], _ => .one (spells_spelling t)
  | t :: u :: ts, _ =>
    .cons (spells_spelling t) ⟨by decide, List.all_eq_true.mp (by decide)⟩
      (setsOut_setOut (List.cons_ne_nil u ts))

/-- Every condition is written in its text. -/
theorem Expr.isWrittenIn_print (e : Expr) : e.IsWrittenIn e.print := by
  have hne : e.tree.tokens ≠ [] :=
    (e.isBound_tree.derives (Nat.zero_le _) : Derives .whole _ _).ne_nil
  refine ⟨e.tree, e.isBound_tree, e.expr_tree, [], setOut e.tree.tokens, [], ?_, setsOut_setOut hne,
    nofun, nofun⟩
  rw [print, String.toList_ofList, List.nil_append, List.append_nil]

/-- A condition whose operands have texts is written in a text, and is read back from every text in
which it is written: with parentheses wherever it needs them and anywhere else around whole parts,
with any white space between tokens, with keywords in any letter case. -/
theorem parse_print {e : Expr} (he : ∀ o ∈ e.operands, o.IsWritable) :
    e.IsWrittenIn e.print ∧
      ∀ text, e.IsWrittenIn text → Condition.parse text = .ok ⟨Text.trim text, e⟩ :=
  ⟨e.isWrittenIn_print, fun _ htext => htext.parse he⟩

/-- `NOT (A.b OR %Path ~= -5)`. -/
def negated : Expr :=
  .not (.or (.operand (.variable "A.b"))
    (.compare (.environment "Path") ⟨.equal, true⟩ (.integer (-5))))

/-- A text of it, with more parentheses than it needs and in no particular case. -/
def negatedText : String := "nOt\t( A.b  oR ( %Path ~= -05 ) )\n"

theorem parse_print_negated : (∀ o ∈ negated.operands, o.IsWritable) ∧
    negated.IsWrittenIn negatedText ∧
      Condition.parse negatedText = .ok ⟨Text.trim negatedText, negated⟩ := by
  have hoperands : ∀ o ∈ negated.operands, o.IsWritable := by decide +kernel
  have hgap : ∀ {cs : List Char}, cs ≠ [] → cs.all Text.isBlank = true → IsGap cs :=
    fun hne hall => ⟨hne, List.all_eq_true.mp hall⟩
  have hspace : IsGap [' '] := hgap (by decide) (by decide)
  have hwritten : negated.IsWrittenIn negatedText := by
    refine ⟨.not (.paren (.join .or (.operand (.variable "A.b"))
      (.paren (.compare (.environment "Path") ⟨.equal, true⟩ (.integer (-5)))))), ?_, rfl, [],
      ['n', 'O', 't'] ++ (['\t'] ++ (['('] ++ ([' '] ++ ("A.b".toList ++ ([' ', ' '] ++
        (['o', 'R'] ++ ([' '] ++ (['('] ++ ([' '] ++ (('%' :: "Path".toList) ++ ([' '] ++
          (Comparison.symbol ⟨.equal, true⟩ ++ ([' '] ++ (('-' :: ['0', '5']) ++ ([' '] ++
            ([')'] ++ ([' '] ++ [')']))))))))))))))))), ['\n'], by decide +kernel, ?_, nofun,
      List.all_eq_true.mp (by decide)⟩
    · exact ⟨⟨trivial, trivial, by decide, by decide⟩, by decide⟩
    · refine .cons (.keyword (by decide +kernel)) (hgap (by decide) (by decide)) ?_
      refine .cons .leftParen hspace (.cons (.name _) (hgap (by decide) (by decide)) ?_)
      refine .cons (.keyword (by decide +kernel)) hspace (.cons .leftParen hspace ?_)
      refine .cons (.environment _) hspace (.cons (.comparison _) hspace ?_)
      exact .cons (.negative (by decide) (List.all_eq_true.mp (by decide))) hspace
        (.cons .rightParen hspace (.one .rightParen))
  exact ⟨hoperands, hwritten, (parse_print hoperands).2 _ hwritten⟩

end Installer.Guard
