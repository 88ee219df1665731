import Installer.Proofs.Guard.Positions
import Installer.Proofs.Guard.Printing

/-!
# What the lexer takes for a token

The characters that are taken spell the token, and the token can be written (`spelled_of_read`). No
longer stretch from there on spells one (`takes_of_read`), so what stands at a place decides the word and
the token (`Token.Takes.unique`). White space is in no word but a quoted text
(`Token.IsSpelledBy.isQuoted_or`).
-/

set_option autoImplicit false

namespace Installer.Guard

/-- The word spells the token, and the token is one that can be written. -/
def Token.IsSpelledBy (t : Token) (word : List Char) : Prop :=
  Spells word t ∧ ∀ o, t = .operand o → o.IsWritable

/-- The word spells the token, and it spells none with any more of what follows. -/
structure Token.Takes (t : Token) (word rest : List Char) : Prop where
  spelled : t.IsSpelledBy word
  longest : ∀ more, more <+: rest → more ≠ [] → ∀ u : Token, ¬u.IsSpelledBy (word ++ more)

/-- The token is a quoted text. -/
def Token.IsQuoted (t : Token) : Prop := ∃ value, t = .operand (.text value)

/-! ## The parts of a token -/

theorem take_length_takeWhile {p : Char → Bool} (cs : List Char) :
    cs.take (cs.takeWhile p).length = cs.takeWhile p :=
  (List.prefix_iff_eq_take.mp (List.takeWhile_prefix p)).symm

theorem take_of_name? {cs name : List Char} (h : name? cs = some name) :
    IsName name ∧ cs.take name.length = name := by
  cases cs with
  | nil => cases h
  | cons c rest =>
    rw [name?] at h
    split at h
    · next hc =>
      cases h
      refine ⟨⟨hc, fun d hd => List.mem_takeWhile_imp hd⟩, ?_⟩
      rw [List.length_cons, List.take_succ_cons, take_length_takeWhile]
    · cases h

theorem take_of_relation {cs : List Char} {relation : Relation} {length : Nat}
    (h : Relation.read? cs = some (relation, length)) :
    0 < length ∧ cs.take length = relation.symbol.toList := by
  rw [Relation.read?.eq_def] at h
  split at h <;> cases h <;> exact ⟨by decide, rfl⟩

/-- A quoted text goes up to its closing quote. -/
theorem take_quoted {rest : List Char} (h : '"' ∈ rest) :
    rest.take ((rest.takeWhile (· != '"')).length + 1) = rest.takeWhile (· != '"') ++ ['"'] := by
  induction rest with
  | nil => cases h
  | cons c rest ih =>
    by_cases hc : c = '"'
    · simp [hc]
    · have hrest : '"' ∈ rest := (List.mem_cons.mp h).resolve_left (Ne.symm hc)
      rw [List.takeWhile_cons_of_pos (by simpa using hc), List.length_cons, List.take_succ_cons,
        ih hrest, List.cons_append]

theorem integer?_eq_some {value : Int} {o : Operand} (h : integer? value = some o) :
    o = .integer value ∧ o.IsWritable := by
  rw [integer?] at h
  split at h
  · next hrange =>
    cases h
    rw [Bool.and_eq_true, decide_eq_true_eq, decide_eq_true_eq] at hrange
    exact ⟨rfl, hrange⟩
  · cases h

/-! ## What is taken spells the token -/

theorem isSpelledBy_operand {o : Operand} {word : List Char} (h : Spells word (.operand o))
    (ho : o.IsWritable) : (Token.operand o).IsSpelledBy word := by
  refine ⟨h, ?_⟩
  rintro _ ⟨⟩
  exact ho

theorem isSpelledBy_comparison (c : Comparison) : (Token.comparison c).IsSpelledBy c.symbol :=
  ⟨.comparison c, by simp⟩

/-- A word is the keyword that it is in capitals, or else a variable. -/
theorem isSpelledBy_ofWord {word : List Char} (h : IsName word) :
    (Token.ofWord word).IsSpelledBy word := by
  by_cases hword : capitals word ∈ keywords
  · obtain ⟨t, ht⟩ : ∃ t : Token, t.keyword? = some (capitals word) := by
      simp only [keywords, List.mem_cons, List.not_mem_nil, or_false] at hword
      rcases hword with h | h | h | h <;> rw [h]
      · exact ⟨.not, rfl⟩
      · exact ⟨.and, rfl⟩
      · exact ⟨.or, rfl⟩
      · exact ⟨.xor, rfl⟩
    rw [ofWord_keyword ht]
    refine ⟨.keyword ht, ?_⟩
    rintro o rfl
    cases ht
  · have hspells := Spells.name (String.ofList word)
    have hwritable : (Operand.variable (String.ofList word)).IsWritable := by
      show IsName _ ∧ _ ∉ _
      rw [String.toList_ofList]
      exact ⟨h, hword⟩
    rw [ofWord_name hword]
    rw [String.toList_ofList] at hspells
    exact isSpelledBy_operand hspells hwritable

/-- A name behind a mark refers to something. -/
theorem isSpelledBy_marked {mark : Char} {name : List Char} {o : Operand} (hname : IsName name)
    (h : Spells (mark :: (String.ofList name).toList) (.operand o))
    (ho : IsName (String.ofList name).toList → o.IsWritable) :
    (Token.operand o).IsSpelledBy (mark :: name) := by
  rw [String.toList_ofList] at h ho
  exact isSpelledBy_operand h (ho hname)

theorem isSpelledBy_numeral {c : Char} {rest : List Char} {o : Operand}
    (hstarts : startsNumeral c rest = true)
    (h : integer? (numeralValue c (rest.takeWhile Char.isDigit)) = some o) :
    (Token.operand o).IsSpelledBy (c :: rest.takeWhile Char.isDigit) := by
  obtain ⟨rfl, hwritable⟩ := integer?_eq_some h
  have hall : ∀ d ∈ rest.takeWhile Char.isDigit, d.isDigit = true := fun d hd =>
    List.mem_takeWhile_imp hd
  rw [startsNumeral, Bool.or_eq_true, Bool.and_eq_true, beq_iff_eq] at hstarts
  by_cases hminus : c = '-'
  · subst hminus
    -- a minus is no digit itself, so one follows
    have hhead := (hstarts.resolve_left (by decide)).2
    cases rest with
    | nil => cases hhead
    | cons d rest =>
      have hne : (d :: rest).takeWhile Char.isDigit ≠ [] := by
        rw [List.takeWhile_cons_of_pos (by simpa using hhead)]
        exact List.cons_ne_nil _ _
      exact isSpelledBy_operand (.negative hne hall) hwritable
  · have hdigit := hstarts.resolve_right fun h => hminus h.1
    rw [numeralValue, if_neg (by simpa using hminus)] at hwritable ⊢
    exact isSpelledBy_operand
      (.numeral (List.cons_ne_nil _ _) (List.forall_mem_cons.mpr ⟨hdigit, hall⟩)) hwritable

theorem isSpelledBy_quoted {rest : List Char} (h : '"' ∈ rest) :
    (Token.operand (.text (String.ofList (rest.takeWhile (· != '"'))))).IsSpelledBy
      ('"' :: rest.take ((rest.takeWhile (· != '"')).length + 1)) := by
  have hspells := Spells.quoted (String.ofList (rest.takeWhile (· != '"')))
  have hwritable : (Operand.text (String.ofList (rest.takeWhile (· != '"')))).IsWritable := by
    show '"' ∉ _
    rw [String.toList_ofList]
    intro hmem
    simpa using List.mem_takeWhile_imp hmem
  rw [String.toList_ofList] at hspells
  rw [take_quoted h]
  exact isSpelledBy_operand hspells hwritable

/-- What the lexer takes for a token spells it. -/
theorem spelled_of_read {c : Char} {rest : List Char} {t : Token} {taken : Nat}
    (h : Token.read c rest = .ok (t, taken)) : t.IsSpelledBy (c :: rest.take taken) := by
  cases reads_of_read h with
  | leftParen => exact ⟨.leftParen, by simp⟩
  | rightParen => exact ⟨.rightParen, by simp⟩
  | ignoringCase hrelation =>
    rw [(take_of_relation hrelation).2]
    exact isSpelledBy_comparison ⟨_, true⟩
  | environment hname =>
    obtain ⟨hname, htake⟩ := take_of_name? hname
    rw [htake]
    exact isSpelledBy_marked hname (.environment _) id
  | quoted hclosed => exact isSpelledBy_quoted hclosed
  | numeral hstarts hvalue =>
    rw [take_length_takeWhile]
    exact isSpelledBy_numeral hstarts hvalue
  | word hc =>
    rw [take_length_takeWhile]
    exact isSpelledBy_ofWord ⟨hc, fun d hd => List.mem_takeWhile_imp hd⟩
  | state hname =>
    obtain ⟨hname, htake⟩ := take_of_name? hname
    rw [htake]
    exact isSpelledBy_marked hname (.state _ _) id
  | comparison hrelation =>
    obtain ⟨hpos, htake⟩ := take_of_relation hrelation
    rw [← List.take_succ_cons, Nat.sub_add_cancel hpos, htake]
    exact isSpelledBy_comparison ⟨_, false⟩

/-! ## Words -/

section Words
variable {t u : Token} {word rest : List Char}

theorem Token.IsSpelledBy.isReadAs (h : t.IsSpelledBy word) : IsReadAs word t := h.1.isReadAs h.2

/-- A word spells one token. -/
theorem Token.IsSpelledBy.unique (h : t.IsSpelledBy word) (hu : u.IsSpelledBy word) : t = u := by
  obtain ⟨c, rest, rfl, -, hread⟩ := h.isReadAs
  obtain ⟨_, _, heq, -, hread'⟩ := hu.isReadAs
  cases heq
  rw [hread] at hread'
  cases hread'
  rfl

/-- A word starts with a character that is not white space. -/
theorem Token.IsSpelledBy.exists_cons (h : t.IsSpelledBy word) :
    ∃ c rest, word = c :: rest ∧ Text.isBlank c = false := by
  obtain ⟨c, rest, rfl, hblank, -⟩ := h.isReadAs
  exact ⟨c, rest, rfl, hblank⟩

theorem IsName.isBlank_eq_false {name : List Char} (h : IsName name) :
    ∀ c ∈ name, Text.isBlank c = false := by
  cases name with
  | nil => cases h
  | cons d rest =>
    refine List.forall_mem_cons.mpr
      ⟨isBlank_of_isNameChar (isNameChar_of_isNameStart h.1), fun c hc => ?_⟩
    exact isBlank_of_isNameChar (h.2 c hc)

/-- There is white space in no word but a quoted text. -/
theorem Token.IsSpelledBy.isQuoted_or (h : t.IsSpelledBy word) :
    t.IsQuoted ∨ ∀ c ∈ word, Text.isBlank c = false := by
  have hall : ∀ {cs : List Char}, cs.all (Text.isBlank · == false) = true →
      ∀ c ∈ cs, Text.isBlank c = false := fun h c hc => beq_iff_eq.mp (List.all_eq_true.mp h c hc)
  have hdigits : ∀ {digits : List Char}, (∀ d ∈ digits, d.isDigit = true) →
      ∀ d ∈ digits, Text.isBlank d = false := fun h d hd =>
    isBlank_of_isNameChar (isNameChar_of_isDigit (h d hd))
  obtain ⟨hspells, hwritable⟩ := h
  cases hspells with
  | quoted value => exact .inl ⟨value, rfl⟩
  | leftParen | rightParen => exact .inr (hall (by decide))
  | comparison comparison =>
    obtain ⟨relation, ignoreCase⟩ := comparison
    exact .inr (hall (by cases ignoreCase <;> cases relation <;> decide))
  | keyword hword =>
    refine .inr fun c hc => isBlank_of_isNameChar ?_
    simp [isNameChar, Char.isAlphanum, (isAlpha_of_keyword hword).2 c hc]
  | name name => exact .inr (hwritable _ rfl).1.isBlank_eq_false
  | state kind name =>
    have hname : IsName name.toList := hwritable _ rfl
    refine .inr (List.forall_mem_cons.mpr ⟨?_, hname.isBlank_eq_false⟩)
    cases kind <;> decide
  | environment name =>
    have hname : IsName name.toList := hwritable _ rfl
    exact .inr (List.forall_mem_cons.mpr ⟨by decide, hname.isBlank_eq_false⟩)
  | numeral _ hdigit => exact .inr (hdigits hdigit)
  | negative _ hdigit => exact .inr (List.forall_mem_cons.mpr ⟨by decide, hdigits hdigit⟩)

theorem Token.Takes.eq_nil {more : List Char} (h : t.Takes word rest) (hmore : more <+: rest)
    (hu : u.IsSpelledBy (word ++ more)) : more = [] := by
  by_contra hne
  exact h.longest more hmore hne u hu

/-- The characters at a place decide which word is taken there, and for which token. -/
theorem Token.Takes.unique {word' rest' : List Char} (h : t.Takes word rest)
    (hu : u.Takes word' rest') (hsame : word ++ rest = word' ++ rest') :
    t = u ∧ word = word' ∧ rest = rest' := by
  have hword : word = word' := by
    rcases List.append_eq_append_iff.mp hsame with ⟨more, rfl, hrest⟩ | ⟨more, rfl, hrest⟩
    · rw [h.eq_nil ⟨rest', hrest.symm⟩ hu.spelled, List.append_nil]
    · rw [hu.eq_nil ⟨rest, hrest.symm⟩ h.spelled, List.append_nil]
  subst hword
  exact ⟨h.spelled.unique hu.spelled, rfl, List.append_cancel_left hsame⟩

/-- The lexer takes the longest word that spells a token. -/
theorem takes_of_read {c : Char} {taken : Nat} (h : Token.read c rest = .ok (t, taken)) :
    t.Takes (c :: rest.take taken) (rest.drop taken) := by
  refine ⟨spelled_of_read h, ?_⟩
  rintro more ⟨back, hback⟩ hmore u hu
  have hlength : (rest.take taken).length = taken := List.length_take_of_le (read_eq_ok h).1
  have hword : rest.take taken ++ more = rest.take (taken + more.length) := by
    rw [List.take_add, ← hback, List.take_left]
  -- where the text breaks off behind the longer word, still no more is taken
  rw [List.cons_append] at hu
  obtain ⟨_, _, heq, -, hread⟩ := hu.isReadAs
  cases heq
  rw [hword, read_take h (Nat.le_add_right _ _)] at hread
  have hends : taken = (rest.take (taken + more.length)).length :=
    (Prod.mk.inj (Except.ok.inj hread)).2
  rw [← hword, List.length_append, hlength] at hends
  exact hmore (List.eq_nil_of_length_eq_zero (by omega))

end Words

end Installer.Guard
