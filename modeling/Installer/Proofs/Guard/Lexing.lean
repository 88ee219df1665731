import Installer.Guard.Lexer
import Mathlib.Data.List.TakeWhile

/-!
# The tokens of a text, wherever it stands

`Lexes cs ts` says that the characters are white space and tokens, and that the tokens are `ts`. The
lexer finds these and no others (`Lexes.exists_lexemes`, `lexes_of_lexemes`). A single token is read by
one rule for each kind (`read_iff`). It ends before white space and before a closing parenthesis, so
texts that are joined there have the tokens of both (`Lexes.append`), and white space at either end of
a text does not change its tokens (`lexes_trim`).
-/

set_option autoImplicit false

namespace Installer.Guard

theorem lexemesFrom_nil (offset : Nat) : lexemesFrom offset [] = .ok [] :=
  lexemesFrom.eq_def offset []

/-- The lexer drops white space, and goes on after a token. -/
theorem lexemesFrom_cons (offset : Nat) (c : Char) (rest : List Char) :
    lexemesFrom offset (c :: rest) =
      if Text.isBlank c then lexemesFrom (offset + c.utf8Size) rest
      else
        match Token.read c rest with
        | .error cause => .error ⟨offset, cause⟩
        | .ok (token, taken) =>
          match lexemesFrom (offset + byteLength (c :: rest.take taken)) (rest.drop taken) with
          | .error fault => .error fault
          | .ok more => .ok (⟨token, offset⟩ :: more) :=
  lexemesFrom.eq_def offset (c :: rest)

/-- The characters are white space and tokens, and these are the tokens. -/
inductive Lexes : List Char → List Token → Prop
  | nil : Lexes [] []
  | blank {c : Char} {rest : List Char} {ts : List Token} :
    Text.isBlank c = true → Lexes rest ts → Lexes (c :: rest) ts
  | token {c : Char} {rest : List Char} {t : Token} {taken : Nat} {ts : List Token} :
    Text.isBlank c = false → Token.read c rest = .ok (t, taken) → Lexes (rest.drop taken) ts →
      Lexes (c :: rest) (t :: ts)

/-- The lexer finds the tokens of a text, at whatever offset the text starts. -/
theorem Lexes.exists_lexemes {cs : List Char} {ts : List Token} (h : Lexes cs ts) (offset : Nat) :
    ∃ ls, lexemesFrom offset cs = .ok ls ∧ ls.map (·.token) = ts := by
  induction h generalizing offset with
  | nil => exact ⟨[], lexemesFrom_nil offset, rfl⟩
  | @blank c rest ts hblank _ ih =>
    obtain ⟨ls, hls, hmap⟩ := ih (offset + c.utf8Size)
    exact ⟨ls, by rw [lexemesFrom_cons, if_pos hblank, hls], hmap⟩
  | @token c rest t taken ts hblank hread _ ih =>
    obtain ⟨ls, hls, hmap⟩ := ih (offset + byteLength (c :: rest.take taken))
    refine ⟨⟨t, offset⟩ :: ls, ?_, by rw [List.map_cons, hmap]⟩
    rw [lexemesFrom_cons, if_neg (by simp [hblank]), hread]
    simp only [hls]

theorem lexes_of_lexemes {cs : List Char} {offset : Nat} {ls : List Lexeme}
    (h : lexemesFrom offset cs = .ok ls) : Lexes cs (ls.map (·.token)) := by
  induction offset, cs using lexemesFrom.induct generalizing ls with
  | case1 offset =>
    rw [lexemesFrom_nil] at h
    cases h
    exact .nil
  | case2 offset c rest hblank ih =>
    rw [lexemesFrom_cons, if_pos hblank] at h
    exact .blank hblank (ih h)
  | case3 offset c rest hblank cause hread =>
    rw [lexemesFrom_cons, if_neg hblank, hread] at h
    cases h
  | case4 offset c rest hblank t taken hread fault hrest ih =>
    rw [lexemesFrom_cons, if_neg hblank, hread] at h
    simp only [hrest] at h
    cases h
  | case5 offset c rest hblank t taken hread more hrest ih =>
    rw [lexemesFrom_cons, if_neg hblank, hread] at h
    simp only [hrest] at h
    cases h
    exact .token (by simpa using hblank) hread (ih hrest)

/-! ## Where a token ends -/

/-- A character before which every token but a quoted text ends. -/
def IsStop (c : Char) : Prop := Text.isBlank c = true ∨ c = ')'

/-- A text that starts with such a character, if it is not empty. -/
def Stops (suffix : List Char) : Prop := ∀ c ∈ suffix.head?, IsStop c

theorem stops_of_blank {suffix : List Char} (h : ∀ c ∈ suffix, Text.isBlank c = true) :
    Stops suffix := fun c hc => .inl (h c (List.mem_of_mem_head? hc))

/-- The code point of a name's character is that of a letter, a digit, an underscore or a dot. -/
theorem toNat_of_isNameChar {c : Char} (h : isNameChar c = true) :
    (65 ≤ c.toNat ∧ c.toNat ≤ 90) ∨ (97 ≤ c.toNat ∧ c.toNat ≤ 122) ∨
      (48 ≤ c.toNat ∧ c.toNat ≤ 57) ∨ c.toNat = 95 ∨ c.toNat = 46 := by
  have hdigit : c.isDigit = (decide (c.val ≥ 48) && decide (c.val ≤ 57)) := rfl
  have halpha : c.isAlpha = (decide (c.val ≥ 65 ∧ c.val ≤ 90) ||
    (decide (c.val ≥ 97) && decide (c.val ≤ 122))) := rfl
  simp only [isNameChar, Char.isAlphanum, halpha, hdigit, Bool.or_eq_true, Bool.and_eq_true,
    decide_eq_true_eq, beq_iff_eq, ge_iff_le, UInt32.le_iff_toNat_le] at h
  rcases h with (((h | h) | h) | rfl) | rfl
  · exact .inl h
  · exact .inr (.inl h)
  · exact .inr (.inr (.inl h))
  · exact .inr (.inr (.inr (.inl rfl)))
  · exact .inr (.inr (.inr (.inr rfl)))

theorem toNat_of_isBlank {c : Char} (h : Text.isBlank c = true) :
    c.toNat < 33 ∨ 127 < c.toNat := by
  simp only [Text.isBlank, Bool.or_eq_true, Bool.and_eq_true, decide_eq_true_eq, beq_iff_eq] at h
  omega

/-- A stop is no part of a name. -/
theorem isNameChar_of_isStop {c : Char} (h : IsStop c) : isNameChar c = false := by
  rcases h with h | rfl
  · have hblank := toNat_of_isBlank h
    by_contra hname
    have hcode := toNat_of_isNameChar (Bool.not_eq_false _ ▸ hname)
    omega
  · decide

/-- Nor does it start one. -/
theorem isNameStart_of_isStop {c : Char} (h : IsStop c) : isNameStart c = false := by
  have hname := isNameChar_of_isStop h
  simp only [isNameChar, Char.isAlphanum, Bool.or_eq_false_iff] at hname
  simp only [isNameStart, Bool.or_eq_false_iff]
  exact ⟨hname.1.1.1, hname.1.2⟩

/-- Nor is it a digit. -/
theorem isDigit_of_isStop {c : Char} (h : IsStop c) : c.isDigit = false := by
  have hname := isNameChar_of_isStop h
  simp only [isNameChar, Char.isAlphanum, Bool.or_eq_false_iff] at hname
  exact hname.1.1.2

/-- Nor is it a part of a relation's symbol. -/
theorem not_relation_of_isStop {c : Char} (h : IsStop c) : c ≠ '=' ∧ c ≠ '<' ∧ c ≠ '>' := by
  rcases h with h | rfl
  · have hblank := toNat_of_isBlank h
    refine ⟨?_, ?_, ?_⟩ <;> rintro rfl <;> revert hblank <;> decide
  · decide

/-- A relation's symbol has at most two characters. -/
theorem relation_cons_cons (c d : Char) (rest : List Char) :
    Relation.read? (c :: d :: rest) = Relation.read? [c, d] := by
  by_cases hc : c ∈ ['=', '<', '>']
  · simp only [List.mem_cons, List.not_mem_nil, or_false] at hc
    by_cases hd : d ∈ ['=', '<', '>']
    · simp only [List.mem_cons, List.not_mem_nil, or_false] at hd
      rcases hc with rfl | rfl | rfl <;> rcases hd with rfl | rfl | rfl <;> rfl
    · simp only [List.mem_cons, List.not_mem_nil, or_false, not_or] at hd
      rcases hc with rfl | rfl | rfl <;> simp [Relation.read?, hd]
  · simp only [List.mem_cons, List.not_mem_nil, or_false, not_or] at hc
    simp [Relation.read?, hc]

section Append
variable {suffix : List Char} (hstops : Stops suffix)
include hstops

theorem takeWhile_append_stops {p : Char → Bool} (hp : ∀ c, IsStop c → p c = false)
    (cs : List Char) : (cs ++ suffix).takeWhile p = cs.takeWhile p := by
  have hnone : suffix.takeWhile p = [] := by
    cases suffix with
    | nil => rfl
    | cons c suffix => rw [List.takeWhile_cons_of_neg (by simp [hp c (hstops c rfl)])]
  induction cs with
  | nil => rw [List.nil_append, hnone, List.takeWhile_nil]
  | cons c cs ih => rw [List.cons_append, List.takeWhile_cons, List.takeWhile_cons, ih]

theorem name?_append (cs : List Char) : name? (cs ++ suffix) = name? cs := by
  cases cs with
  | nil =>
    cases suffix with
    | nil => rfl
    | cons c suffix =>
      rw [List.nil_append, name?, isNameStart_of_isStop (hstops c rfl)]
      rfl
  | cons c cs =>
    rw [List.cons_append, name?, name?,
      takeWhile_append_stops hstops (fun _ => isNameChar_of_isStop)]

theorem relation_append (cs : List Char) :
    Relation.read? (cs ++ suffix) = Relation.read? cs := by
  cases suffix with
  | nil => rw [List.append_nil]
  | cons d suffix =>
    obtain ⟨hequal, hless, hgreater⟩ := not_relation_of_isStop (hstops d rfl)
    match cs with
    | [] => simp [Relation.read?, hequal, hless, hgreater]
    | [c] =>
      simp only [List.cons_append, List.nil_append, Relation.read?.eq_def]
      split <;> simp_all
    | c :: e :: cs => rw [List.cons_append, List.cons_append, relation_cons_cons,
        relation_cons_cons c e cs]

theorem startsNumeral_append (c : Char) (cs : List Char) :
    startsNumeral c (cs ++ suffix) = startsNumeral c cs := by
  cases cs with
  | nil =>
    cases suffix with
    | nil => rfl
    | cons d suffix => simp [startsNumeral, isDigit_of_isStop (hstops d rfl)]
  | cons d cs => rfl

end Append

/-- A quoted text is closed exactly if a quote follows. -/
theorem length_quoted_lt_iff {rest : List Char} :
    (rest.takeWhile (· != '"')).length < rest.length ↔ '"' ∈ rest := by
  induction rest with
  | nil => simp
  | cons c rest ih =>
    by_cases hc : c = '"'
    · simp [hc]
    · simp [hc, Ne.symm hc, ih]

theorem takeWhile_quoted_append {rest : List Char} (h : '"' ∈ rest) (suffix : List Char) :
    (rest ++ suffix).takeWhile (· != '"') = rest.takeWhile (· != '"') := by
  induction rest with
  | nil => cases h
  | cons c rest ih =>
    by_cases hc : c = '"'
    · simp [hc]
    · have hrest : '"' ∈ rest := (List.mem_cons.mp h).resolve_left (Ne.symm hc)
      rw [List.cons_append, List.takeWhile_cons, List.takeWhile_cons, ih hrest]

theorem read_quote (rest : List Char) : Token.read '"' rest =
    if '"' ∈ rest then
      .ok (.operand (.text (String.ofList (rest.takeWhile (· != '"')))),
        (rest.takeWhile (· != '"')).length + 1)
    else .error .unterminatedText := by
  simp only [Token.read, length_quoted_lt_iff]
  rfl

/-- A token is the same where the text goes on with a stop; only a quoted text has to be closed
before. -/
theorem read_append {c : Char} {rest suffix : List Char} (hstops : Stops suffix)
    (hquote : c = '"' → '"' ∈ rest ∨ '"' ∉ suffix) :
    Token.read c (rest ++ suffix) = Token.read c rest := by
  have hrelation := relation_append hstops (c :: rest)
  have hdigits := takeWhile_append_stops hstops (fun _ => isDigit_of_isStop) rest
  have hname := takeWhile_append_stops hstops (fun _ => isNameChar_of_isStop) rest
  rw [List.cons_append] at hrelation
  by_cases hc : c = '"'
  · subst hc
    rw [read_quote, read_quote]
    by_cases hclosed : '"' ∈ rest
    · rw [if_pos (List.mem_append_left _ hclosed), if_pos hclosed,
        takeWhile_quoted_append hclosed]
    · have hopen : '"' ∉ rest ++ suffix := by
        rw [List.mem_append, not_or]
        exact ⟨hclosed, (hquote rfl).resolve_left hclosed⟩
      rw [if_neg hopen, if_neg hclosed]
  · simp only [Token.read, relation_append hstops, name?_append hstops,
      startsNumeral_append hstops, hdigits, hname, hrelation, hc, beq_iff_eq, if_false]

/-! ## How a token is read -/

/-- The rules by which a token that starts with `c` is read, and how much of `rest` it takes. -/
inductive Token.Reads : (c : Char) → (rest : List Char) → Token → Nat → Prop
  | leftParen {rest : List Char} : Reads '(' rest .leftParen 0
  | rightParen {rest : List Char} : Reads ')' rest .rightParen 0
  | ignoringCase {rest : List Char} {relation : Relation} {length : Nat} :
    Relation.read? rest = some (relation, length) →
    Reads '~' rest (.comparison ⟨relation, true⟩) length
  | environment {rest name : List Char} : name? rest = some name →
    Reads '%' rest (.operand (.environment (String.ofList name))) name.length
  | quoted {rest : List Char} : '"' ∈ rest →
    Reads '"' rest (.operand (.text (String.ofList (rest.takeWhile (· != '"')))))
      ((rest.takeWhile (· != '"')).length + 1)
  | numeral {c : Char} {rest : List Char} {o : Operand} : startsNumeral c rest = true →
    integer? (numeralValue c (rest.takeWhile Char.isDigit)) = some o →
    Reads c rest (.operand o) (rest.takeWhile Char.isDigit).length
  | word {c : Char} {rest : List Char} : isNameStart c = true →
    Reads c rest (.ofWord (c :: rest.takeWhile isNameChar)) (rest.takeWhile isNameChar).length
  | state {kind : StateKind} {rest name : List Char} : name? rest = some name →
    Reads kind.mark rest (.operand (.state kind (String.ofList name))) name.length
  | comparison {c : Char} {rest : List Char} {relation : Relation} {length : Nat} :
    Relation.read? (c :: rest) = some (relation, length) →
    Reads c rest (.comparison ⟨relation, false⟩) (length - 1)

theorem eq_mark_of_ofMark? {c : Char} {kind : StateKind} (h : StateKind.ofMark? c = some kind) :
    c = kind.mark := by
  rw [StateKind.ofMark?.eq_def] at h
  split at h <;> cases h <;> rfl

theorem mem_of_relation {c : Char} {rest : List Char} {found : Relation × Nat}
    (h : Relation.read? (c :: rest) = some found) : c ∈ ['=', '<', '>'] := by
  by_contra hc
  simp only [List.mem_cons, List.not_mem_nil, or_false, not_or] at hc
  simp [Relation.read?, hc] at h

/-- A numeral starts with a digit or a minus. -/
theorem ne_of_startsNumeral {c : Char} {rest : List Char} (h : startsNumeral c rest = true)
    (d : Char) (hd : d.isDigit = false) (hminus : d ≠ '-') : (c == d) = false := by
  refine beq_false_of_ne ?_
  rintro rfl
  simp [startsNumeral, hd, hminus] at h

theorem ne_of_isNameStart {c : Char} (h : isNameStart c = true) (d : Char)
    (hd : isNameStart d = false) : (c == d) = false := by
  refine beq_false_of_ne ?_
  rintro rfl
  rw [hd] at h
  cases h

/-- A name does not start with a digit. -/
theorem isDigit_of_isNameStart {c : Char} (h : isNameStart c = true) : c.isDigit = false := by
  have hdigit : c.isDigit = (decide (c.val ≥ 48) && decide (c.val ≤ 57)) := rfl
  have halpha : c.isAlpha = (decide (c.val ≥ 65 ∧ c.val ≤ 90) ||
    (decide (c.val ≥ 97) && decide (c.val ≤ 122))) := rfl
  rw [Bool.eq_false_iff, hdigit]
  simp only [isNameStart, halpha, Bool.or_eq_true, Bool.and_eq_true, decide_eq_true_eq, beq_iff_eq,
    ge_iff_le, UInt32.le_iff_toNat_le, UInt32.reduceToNat, ne_eq] at h ⊢
  rintro ⟨hlow, hhigh⟩
  rcases h with (h | h) | rfl
  · omega
  · omega
  · revert hlow hhigh
    decide

theorem length_of_name? {cs name : List Char} (h : name? cs = some name) :
    name.length ≤ cs.length := by
  cases cs with
  | nil => cases h
  | cons c cs =>
    rw [name?] at h
    split at h
    · cases h
      exact Nat.succ_le_succ (List.takeWhile_prefix _).length_le
    · cases h

theorem length_of_relation {cs : List Char} {relation : Relation} {length : Nat}
    (h : Relation.read? cs = some (relation, length)) : length ≤ cs.length := by
  rw [Relation.read?.eq_def] at h
  split at h <;> cases h <;> simp

section Reading
variable {c : Char} {rest : List Char} {t : Token} {taken : Nat}

/-- What is read is read by one of the rules. -/
theorem reads_of_read (h : Token.read c rest = .ok (t, taken)) : t.Reads c rest taken := by
  rw [Token.read] at h
  split at h
  · next hc =>
    cases h
    rw [beq_iff_eq.mp hc]
    exact .leftParen
  split at h
  · next hc =>
    cases h
    rw [beq_iff_eq.mp hc]
    exact .rightParen
  split at h
  · next hc =>
    rw [beq_iff_eq.mp hc]
    split at h
    · next hrelation =>
      cases h
      exact .ignoringCase hrelation
    · cases h
  split at h
  · next hc =>
    rw [beq_iff_eq.mp hc]
    split at h
    · next hname =>
      cases h
      exact .environment hname
    · cases h
  split at h
  · next hc =>
    rw [beq_iff_eq.mp hc]
    dsimp only at h
    split at h
    · next hclosed =>
      cases h
      exact .quoted (length_quoted_lt_iff.mp hclosed)
    · cases h
  split at h
  · next hstarts =>
    dsimp only at h
    split at h
    · next hvalue =>
      cases h
      exact .numeral hstarts hvalue
    · cases h
  split at h
  · next hc =>
    cases h
    exact .word hc
  split at h
  · next hkind =>
    rw [eq_mark_of_ofMark? hkind]
    split at h
    · next hname =>
      cases h
      exact .state hname
    · cases h
  · next hrelation =>
    cases h
    exact .comparison hrelation
  · cases h

theorem Token.Reads.read (h : t.Reads c rest taken) : Token.read c rest = .ok (t, taken) := by
  cases h with
  | leftParen | rightParen => rfl
  | ignoringCase hrelation => simp [Token.read, hrelation]
  | environment hname => simp [Token.read, hname]
  | quoted hclosed => rw [read_quote, if_pos hclosed]
  | numeral hstarts hvalue =>
    have hother := ne_of_startsNumeral hstarts
    simp only [Token.read, hother '(' (by decide) (by decide), hother ')' (by decide) (by decide),
      hother '~' (by decide) (by decide), hother '%' (by decide) (by decide),
      hother '"' (by decide) (by decide), hstarts, hvalue, Bool.false_eq_true, if_false, if_true]
  | word hc =>
    have hother := ne_of_isNameStart hc
    have hnumeral : startsNumeral c rest = false := by
      rw [startsNumeral, isDigit_of_isNameStart hc, hother '-' (by decide)]
      rfl
    simp only [Token.read, hother '(' (by decide), hother ')' (by decide), hother '~' (by decide),
      hother '%' (by decide), hother '"' (by decide), hnumeral, hc, Bool.false_eq_true, if_false,
      if_true]
  | @state kind _ _ hname =>
    simp only [Token.read, StateKind.ofMark?_mark, hname]
    cases kind <;> rfl
  | comparison hrelation =>
    have hc := mem_of_relation hrelation
    simp only [Token.read, hrelation]
    simp only [List.mem_cons, List.not_mem_nil, or_false] at hc
    rcases hc with rfl | rfl | rfl <;> rfl

theorem read_iff : Token.read c rest = .ok (t, taken) ↔ t.Reads c rest taken :=
  ⟨reads_of_read, Token.Reads.read⟩

/-- A token takes no more than there is, and a quoted text is closed. -/
theorem read_eq_ok (h : Token.read c rest = .ok (t, taken)) :
    taken ≤ rest.length ∧ (c = '"' → '"' ∈ rest) := by
  by_cases hc : c = '"'
  · subst hc
    rw [read_quote] at h
    by_cases hclosed : '"' ∈ rest
    · rw [if_pos hclosed] at h
      cases h
      exact ⟨length_quoted_lt_iff.mpr hclosed, fun _ => hclosed⟩
    · rw [if_neg hclosed] at h
      cases h
  · refine ⟨?_, fun he => absurd he hc⟩
    cases reads_of_read h with
    | leftParen | rightParen => exact Nat.zero_le _
    | quoted => exact absurd rfl hc
    | ignoringCase hrelation => exact length_of_relation hrelation
    | environment hname | state hname => exact length_of_name? hname
    | numeral | word => exact (List.takeWhile_prefix _).length_le
    | comparison hrelation =>
      have hle := length_of_relation hrelation
      rw [List.length_cons] at hle
      omega

end Reading

/-! ## Joining texts -/

/-- Where a text ends before a stop, the tokens of what follows come after its own. -/
theorem Lexes.append {cs suffix : List Char} {ts us : List Token} (h : Lexes cs ts)
    (hstops : Stops suffix) (hsuffix : Lexes suffix us) : Lexes (cs ++ suffix) (ts ++ us) := by
  induction h with
  | nil => exact hsuffix
  | blank hblank _ ih => exact .blank hblank ih
  | @token c rest t taken ts hblank hread _ ih =>
    obtain ⟨htaken, hclosed⟩ := read_eq_ok hread
    have hlong : Token.read c (rest ++ suffix) = .ok (t, taken) := by
      rw [read_append hstops fun hc => .inl (hclosed hc), hread]
    rw [← List.drop_append_of_le_length htaken] at ih
    exact .token hblank hlong ih

theorem lexes_blank_append {blanks cs : List Char} {ts : List Token}
    (hblank : ∀ c ∈ blanks, Text.isBlank c = true) : Lexes (blanks ++ cs) ts ↔ Lexes cs ts := by
  induction blanks with
  | nil => rfl
  | cons c blanks ih =>
    obtain ⟨hc, hblanks⟩ := List.forall_mem_cons.mp hblank
    rw [← ih hblanks, List.cons_append]
    constructor
    · intro h
      cases h with
      | blank _ hrest => exact hrest
      | token hnot _ _ => rw [hc] at hnot; cases hnot
    · exact .blank hc

/-- White space at the end of a text has no tokens. -/
theorem Lexes.of_append_blank {blanks : List Char} (hblank : ∀ c ∈ blanks, Text.isBlank c = true) :
    ∀ {cs : List Char} {ts : List Token}, Lexes (cs ++ blanks) ts → Lexes cs ts
  | [], ts, h => by
    rw [List.nil_append, ← List.append_nil blanks, lexes_blank_append hblank] at h
    exact h
  | c :: rest, ts, h => by
    rw [List.cons_append] at h
    cases h with
    | blank hc hrest => exact .blank hc (Lexes.of_append_blank hblank hrest)
    | token hc hread hrest =>
      have hnone : '"' ∉ blanks := fun hmem => absurd (hblank _ hmem) (by decide)
      rw [read_append (stops_of_blank hblank) fun _ => .inr hnone] at hread
      rw [List.drop_append_of_le_length (read_eq_ok hread).1] at hrest
      exact .token hc hread (Lexes.of_append_blank hblank hrest)
termination_by cs => cs.length

/-- Trimming takes white space from both ends. -/
theorem exists_trim (cs : List Char) : ∃ front back, cs = front ++ (Text.trimChars cs ++ back) ∧
    (∀ c ∈ front, Text.isBlank c = true) ∧ ∀ c ∈ back, Text.isBlank c = true := by
  have hsplit := List.takeWhile_append_dropWhile (p := Text.isBlank)
    (l := (cs.dropWhile Text.isBlank).reverse)
  refine ⟨cs.takeWhile Text.isBlank,
    ((cs.dropWhile Text.isBlank).reverse.takeWhile Text.isBlank).reverse, ?_, ?_, ?_⟩
  · rw [Text.trimChars, ← List.reverse_append, hsplit, List.reverse_reverse,
      List.takeWhile_append_dropWhile]
  · exact fun c hc => List.mem_takeWhile_imp hc
  · exact fun c hc => List.mem_takeWhile_imp (List.mem_reverse.mp hc)

/-- A trimmed text has the same tokens. -/
theorem lexes_trim {cs : List Char} {ts : List Token} (h : Lexes cs ts) :
    Lexes (Text.trimChars cs) ts := by
  obtain ⟨front, back, hcs, hfront, hback⟩ := exists_trim cs
  rw [hcs, lexes_blank_append hfront] at h
  exact h.of_append_blank hback

end Installer.Guard
