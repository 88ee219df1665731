import Installer.Proofs.Guard.Lexing

/-!
# At which bytes of a text its tokens start

Every lexeme stands in the text, between two of its characters, and starts behind the one before
(`starts_of_lexemesFrom`). A token is the same where the text breaks off behind it (`read_take`), so the
lexer finds the tokens before a fault also where the text ends there (`lexemesFrom_eq_error`).
-/

set_option autoImplicit false

namespace Installer.Guard

/-! ## Bytes -/

theorem byteLength_eq (cs : List Char) : byteLength cs = (String.ofList cs).utf8ByteSize := by
  have hfold : ∀ (cs : List Char) (n : Nat),
      cs.foldl (fun n c => n + c.utf8Size) n = n + (String.ofList cs).utf8ByteSize := by
    intro cs
    induction cs with
    | nil => intro n; rfl
    | cons c cs ih =>
      intro n
      rw [List.foldl_cons, ih, String.ofList_cons, String.utf8ByteSize_append,
        String.utf8ByteSize_singleton, Nat.add_assoc]
  rw [byteLength, hfold, Nat.zero_add]

theorem byteLength_append (front back : List Char) :
    byteLength (front ++ back) = byteLength front + byteLength back := by
  rw [byteLength_eq, byteLength_eq, byteLength_eq, String.ofList_append,
    String.utf8ByteSize_append]

theorem byteLength_cons (c : Char) (cs : List Char) :
    byteLength (c :: cs) = c.utf8Size + byteLength cs := by
  rw [byteLength_eq, byteLength_eq, String.ofList_cons, String.utf8ByteSize_append,
    String.utf8ByteSize_singleton]

theorem byteLength_pos (c : Char) (cs : List Char) : 0 < byteLength (c :: cs) := by
  rw [byteLength_cons]
  exact Nat.lt_of_lt_of_le (Char.utf8Size_pos c) (Nat.le_add_right _ _)

/-! ## Texts that break off -/

theorem takeWhile_take {p : Char → Bool} {cs : List Char} {k : Nat}
    (h : (cs.takeWhile p).length ≤ k) : (cs.take k).takeWhile p = cs.takeWhile p := by
  rw [← List.take_takeWhile, List.take_of_length_le h]

theorem name?_take {cs name : List Char} {k : Nat} (h : name? cs = some name)
    (hk : name.length ≤ k) : name? (cs.take k) = some name := by
  cases cs with
  | nil => cases h
  | cons c cs =>
    rw [name?] at h
    split at h
    · next hc =>
      cases h
      obtain ⟨k, rfl⟩ : ∃ j, k = j + 1 := ⟨k - 1, by rw [List.length_cons] at hk; omega⟩
      rw [List.take_succ_cons, name?, if_pos hc, takeWhile_take (by simpa using hk)]
    · cases h

/-- A relation is the same where the text breaks off behind its symbol. -/
theorem relation_take {cs : List Char} {relation : Relation} {length k : Nat}
    (h : Relation.read? cs = some (relation, length)) (hk : length ≤ k) :
    Relation.read? (cs.take k) = some (relation, length) := by
  match cs, k with
  | [], _ => cases h
  | c :: rest, 0 =>
    rw [Relation.read?.eq_def] at h
    split at h <;> cases h <;> omega
  | [c], k + 1 =>
    rw [List.take_succ_cons, List.take_nil]
    exact h
  | c :: d :: rest, 1 =>
    rw [List.take_succ_cons, List.take_zero]
    rw [Relation.read?.eq_def] at h
    split at h <;> rename_i heq <;> cases h <;> first | omega | (cases heq; rfl)
  | c :: d :: rest, k + 2 =>
    rw [List.take_succ_cons, List.take_succ_cons, relation_cons_cons, ← relation_cons_cons c d rest, h]

/-- Whether a numeral starts is seen from its first digit. -/
theorem startsNumeral_take {c : Char} {rest : List Char} {k : Nat}
    (hk : startsNumeral c rest = true → (rest.takeWhile Char.isDigit).length ≤ k) :
    startsNumeral c (rest.take k) = startsNumeral c rest := by
  cases rest with
  | nil => rw [List.take_nil]
  | cons d rest =>
    cases k with
    | succ k => rfl
    | zero =>
      by_cases hd : d.isDigit = true
      · by_cases hc : c.isDigit = true
        · simp [startsNumeral, hc]
        · by_cases hminus : c = '-'
          · simp [startsNumeral, hd, hminus] at hk
          · simp [startsNumeral, hc, hminus]
      · simp [startsNumeral, hd]

/-- A token is the same where the text breaks off behind it. -/
theorem read_take {c : Char} {rest : List Char} {t : Token} {taken k : Nat}
    (h : Token.read c rest = .ok (t, taken)) (hk : taken ≤ k) :
    Token.read c (rest.take k) = .ok (t, taken) := by
  rw [read_iff] at h ⊢
  cases h with
  | leftParen => exact .leftParen
  | rightParen => exact .rightParen
  | ignoringCase hrelation => exact .ignoringCase (relation_take hrelation hk)
  | environment hname => exact .environment (name?_take hname hk)
  | quoted hclosed =>
    have hquoted : (rest.take k).takeWhile (· != '"') = rest.takeWhile (· != '"') :=
      takeWhile_take (Nat.le_of_succ_le hk)
    have hmem : '"' ∈ rest.take k := by
      rw [← length_quoted_lt_iff, hquoted, List.length_take]
      exact Nat.lt_min.mpr ⟨hk, length_quoted_lt_iff.mpr hclosed⟩
    rw [← hquoted]
    exact .quoted hmem
  | numeral hstarts hvalue =>
    rw [← takeWhile_take hk] at hvalue ⊢
    exact .numeral ((startsNumeral_take fun _ => hk).trans hstarts) hvalue
  | word hc =>
    rw [← takeWhile_take hk]
    exact .word hc
  | state hname => exact .state (name?_take hname hk)
  | comparison hrelation =>
    have hwhole := relation_take (k := k + 1) hrelation (by omega)
    rw [List.take_succ_cons] at hwhole
    exact .comparison hwhole

/-! ## Where lexemes stand -/

/-- The lexeme is read in the characters, at the byte at which it starts. -/
def StandsIn (offset : Nat) (cs : List Char) (l : Lexeme) : Prop :=
  ∃ front c back taken, cs = front ++ c :: back ∧ l.start = offset + byteLength front ∧
    Text.isBlank c = false ∧ Token.read c back = .ok (l.token, taken)

namespace StandsIn
variable {offset : Nat} {cs : List Char} {l : Lexeme}

theorem at_start {c : Char} {t : Token} {taken : Nat} (hc : ¬Text.isBlank c = true)
    (hread : Token.read c cs = .ok (t, taken)) : StandsIn offset (c :: cs) ⟨t, offset⟩ :=
  ⟨[], c, cs, taken, rfl, rfl, Bool.eq_false_iff.mpr hc, hread⟩

theorem after {front : List Char} (h : StandsIn (offset + byteLength front) cs l) :
    StandsIn offset (front ++ cs) l := by
  obtain ⟨more, c, back, taken, rfl, hstart, hread⟩ := h
  refine ⟨front ++ more, c, back, taken, (List.append_assoc _ _ _).symm, ?_, hread⟩
  rw [hstart, byteLength_append, Nat.add_assoc]

theorem after_char {c : Char} (h : StandsIn (offset + c.utf8Size) cs l) :
    StandsIn offset (c :: cs) l := by
  have hchar : byteLength [c] = c.utf8Size := byteLength_cons c []
  rw [← hchar] at h
  exact h.after

theorem after_token {c : Char} {taken : Nat}
    (h : StandsIn (offset + byteLength (c :: cs.take taken)) (cs.drop taken) l) :
    StandsIn offset (c :: cs) l := by
  have hwhole := h.after
  rwa [List.cons_append, List.take_append_drop] at hwhole

theorem le_start (h : StandsIn offset cs l) : offset ≤ l.start := by
  obtain ⟨front, c, back, taken, -, hstart, -⟩ := h
  rw [hstart]
  exact Nat.le_add_right _ _

theorem start_lt (h : StandsIn offset cs l) : l.start < offset + byteLength cs := by
  obtain ⟨front, c, back, taken, rfl, hstart, -⟩ := h
  have hback := byteLength_pos c back
  rw [byteLength_append]
  omega

end StandsIn

/-- The lexemes of characters stand in them, each behind the one before. -/
theorem starts_of_lexemesFrom {offset : Nat} {cs : List Char} {ls : List Lexeme}
    (h : lexemesFrom offset cs = .ok ls) :
    ls.Pairwise (·.start < ·.start) ∧ ∀ l ∈ ls, StandsIn offset cs l := by
  induction offset, cs using lexemesFrom.induct generalizing ls with
  | case1 offset =>
    rw [lexemesFrom_nil] at h
    cases h
    exact ⟨.nil, fun l hl => absurd hl List.not_mem_nil⟩
  | case2 offset c rest hblank ih =>
    rw [lexemesFrom_cons, if_pos hblank] at h
    obtain ⟨hascending, hstands⟩ := ih h
    exact ⟨hascending, fun l hl => (hstands l hl).after_char⟩
  | case3 offset c rest hblank cause hread =>
    rw [lexemesFrom_cons, if_neg hblank, hread] at h
    cases h
  | case4 offset c rest hblank t taken hread fault hrest ih =>
    rw [lexemesFrom_cons, if_neg hblank, hread] at h
    simp only [hrest] at h
    cases h
  | case5 offset c rest hblank t taken hread more hrest ih =>
    rw [lexemesFrom_cons, if_neg hblank, hread] at h
    simp only [hrest] at h
    cases h
    obtain ⟨hascending, hstands⟩ := ih hrest
    constructor
    · apply List.pairwise_cons.mpr
      refine ⟨fun l hl => ?_, hascending⟩
      have hle := (hstands l hl).le_start
      have hpos := byteLength_pos c (rest.take taken)
      show offset < l.start
      omega
    · exact List.forall_mem_cons.mpr ⟨.at_start hblank hread, fun l hl => (hstands l hl).after_token⟩

/-- Where the characters do not split into tokens, those before the fault do, into tokens of the whole,
and none can be read at the fault. -/
theorem lexemesFrom_eq_error {offset : Nat} {cs : List Char} {f : Fault}
    (h : lexemesFrom offset cs = .error f) :
    ∃ front c rest ls, cs = front ++ c :: rest ∧ f.offset = offset + byteLength front ∧
      lexemesFrom offset front = .ok ls ∧ (∀ l ∈ ls, StandsIn offset cs l) ∧
        Text.isBlank c = false ∧ Token.read c rest = .error f.cause := by
  induction offset, cs using lexemesFrom.induct with
  | case1 offset =>
    rw [lexemesFrom_nil] at h
    cases h
  | case2 offset c rest hblank ih =>
    rw [lexemesFrom_cons, if_pos hblank] at h
    obtain ⟨front, d, more, ls, hsplit, hoffset, hls, hstands, hbad⟩ := ih h
    refine ⟨c :: front, d, more, ls, ?_, ?_, ?_, fun l hl => (hstands l hl).after_char, hbad⟩
    · rw [hsplit, List.cons_append]
    · rw [hoffset, byteLength_cons, Nat.add_assoc]
    · rw [lexemesFrom_cons, if_pos hblank, hls]
  | case3 offset c rest hblank cause hread =>
    rw [lexemesFrom_cons, if_neg hblank, hread] at h
    cases h
    exact ⟨[], c, rest, [], rfl, rfl, lexemesFrom_nil offset,
      fun l hl => absurd hl List.not_mem_nil, Bool.eq_false_iff.mpr hblank, hread⟩
  | case4 offset c rest hblank t taken hread fault hrest ih =>
    rw [lexemesFrom_cons, if_neg hblank, hread] at h
    simp only [hrest] at h
    cases h
    obtain ⟨front, d, more, ls, hsplit, hoffset, hls, hstands, hbad⟩ := ih hrest
    have htaken := (read_eq_ok hread).1
    have hlength : (rest.take taken).length = taken := List.length_take_of_le htaken
    -- the token is read again where the text ends before the fault
    have hfront : rest.take taken ++ front = rest.take (taken + front.length) := by
      rw [List.take_add, hsplit, List.take_left]
    have hshort : Token.read c (rest.take taken ++ front) = .ok (t, taken) := by
      rw [hfront]
      exact read_take hread (Nat.le_add_right _ _)
    refine ⟨c :: (rest.take taken ++ front), d, more, ⟨t, offset⟩ :: ls, ?_, ?_, ?_, ?_, hbad⟩
    · rw [List.cons_append, List.append_assoc, ← hsplit, List.take_append_drop]
    · rw [hoffset, ← List.cons_append, byteLength_append, Nat.add_assoc]
    · rw [lexemesFrom_cons, if_neg hblank, hshort]
      dsimp only
      rw [List.take_left' hlength, List.drop_left' hlength, hls]
    · exact List.forall_mem_cons.mpr ⟨.at_start hblank hread, fun l hl => (hstands l hl).after_token⟩
  | case5 offset c rest hblank t taken hread more hrest ih =>
    rw [lexemesFrom_cons, if_neg hblank, hread] at h
    simp only [hrest] at h
    cases h

end Installer.Guard
