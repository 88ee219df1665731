import Installer.Proofs.Guard.Spelling

/-!
# Nothing of a text is lost in its tokens

A text that splits into tokens is white space and words in turn (`Covers`): each word is the longest that
spells a token, and its lexeme starts at the byte where it does. There is one such reading of a text
(`Covers.unique`), so a lexeme has its own word (`Extent`), and every character of the text is in its
place (`IsPlaced`): in one word, or in the white space between them. Main statement: `lexemes_cover`.

The lexer is looked at once, where its own reading is shown to cover the text
(`covers_of_lexemesFrom`). All else is about `Covers`, by induction on the words.

**What it does not establish.** There is no converse: a text may be white space and words in turn and
not split into tokens, as the digits of a number beyond 64 bits are the digits of two shorter ones.
-/

set_option autoImplicit false

namespace Installer.Guard

/-- A lexeme with the word that spells its token. -/
structure Extent where
  lexeme : Lexeme
  word : List Char

/-- From a byte on, the characters are white space and words in turn. -/
inductive Covers : Nat → List Char → List Extent → Prop
  | blank {offset : Nat} {gap : List Char} :
    (∀ c ∈ gap, Text.isBlank c = true) → Covers offset gap []
  | token {offset : Nat} {gap word rest : List Char} {t : Token} {es : List Extent} :
    (∀ c ∈ gap, Text.isBlank c = true) → t.Takes word rest →
    Covers (offset + byteLength (gap ++ word)) rest es →
    Covers offset (gap ++ (word ++ rest)) (⟨⟨t, offset + byteLength gap⟩, word⟩ :: es)

/-- The byte is one of those of the word. -/
def Extent.Holds (e : Extent) (byte : Nat) : Prop :=
  e.lexeme.start ≤ byte ∧ byte < e.lexeme.start + byteLength e.word

/-- The character at the byte is in exactly one word, a quoted text if it is white space; or it is white
space and in none. -/
def IsPlaced (es : List Extent) (byte : Nat) (c : Char) : Prop :=
  ((∃! e, e ∈ es ∧ e.Holds byte) ∧
    ∀ e ∈ es, e.Holds byte → Text.isBlank c = true → e.lexeme.token.IsQuoted) ∨
  Text.isBlank c = true ∧ ∀ e ∈ es, ¬e.Holds byte

/-! ## The lexer's reading of a text -/

/-- White space in front belongs to the first gap. -/
theorem Covers.after_blank {offset : Nat} {c : Char} {cs : List Char} {es : List Extent}
    (hc : Text.isBlank c = true) (h : Covers (offset + c.utf8Size) cs es) :
    Covers offset (c :: cs) es := by
  cases h with
  | blank hgap => exact .blank (List.forall_mem_cons.mpr ⟨hc, hgap⟩)
  | token hgap htakes hrest =>
    rw [Nat.add_assoc, ← byteLength_cons] at hrest ⊢
    exact .token (List.forall_mem_cons.mpr ⟨hc, hgap⟩) htakes hrest

/-- The words that the lexer takes cover the characters. -/
theorem covers_of_lexemesFrom {offset : Nat} {cs : List Char} {ls : List Lexeme}
    (h : lexemesFrom offset cs = .ok ls) :
    ∃ es : List Extent, es.map (·.lexeme) = ls ∧ Covers offset cs es := by
  induction offset, cs using lexemesFrom.induct generalizing ls with
  | case1 offset =>
    rw [lexemesFrom_nil] at h
    cases h
    exact ⟨[], rfl, .blank (by simp)⟩
  | case2 offset c rest hblank ih =>
    rw [lexemesFrom_cons, if_pos hblank] at h
    obtain ⟨es, hes, hcovers⟩ := ih h
    exact ⟨es, hes, hcovers.after_blank hblank⟩
  | case3 offset c rest hblank cause hread =>
    rw [lexemesFrom_cons, if_neg hblank, hread] at h
    cases h
  | case4 offset c rest hblank t taken hread fault hrest ih =>
    rw [lexemesFrom_cons, if_neg hblank, hread] at h
    simp only [hrest] at h
    cases h
  | case5 offset c rest hblank t taken hread more hrest ih =>
    rw [lexemesFrom_cons, if_neg hblank, hread] at h
    simp only [hrest] at h
    cases h
    obtain ⟨es, hes, hcovers⟩ := ih hrest
    have hwhole : Covers offset ([] ++ (c :: rest.take taken ++ rest.drop taken))
        (⟨⟨t, offset⟩, c :: rest.take taken⟩ :: es) := .token (by simp) (takes_of_read hread) hcovers
    rw [List.nil_append, List.cons_append, List.take_append_drop] at hwhole
    exact ⟨_, by rw [List.map_cons, hes], hwhole⟩

/-- The white space before a word ends where the word starts. -/
theorem takeWhile_gap {gap word : List Char} {t : Token} (hgap : ∀ c ∈ gap, Text.isBlank c = true)
    (h : t.IsSpelledBy word) (rest : List Char) :
    (gap ++ (word ++ rest)).takeWhile Text.isBlank = gap := by
  obtain ⟨c, more, rfl, hc⟩ := h.exists_cons
  rw [List.takeWhile_append_of_pos hgap, List.cons_append,
    List.takeWhile_cons_of_neg (by simp [hc]), List.append_nil]

/-- Where there is a word, not all is white space. -/
theorem not_blank_of_word {gap word rest : List Char} {t : Token} (h : t.IsSpelledBy word) :
    ¬∀ c ∈ gap ++ (word ++ rest), Text.isBlank c = true := by
  obtain ⟨c, more, rfl, hc⟩ := h.exists_cons
  intro hall
  rw [hall c (by simp)] at hc
  cases hc

namespace Covers
variable {offset : Nat} {cs : List Char} {es others : List Extent}

/-- There is one way in which white space and longest words follow each other. -/
theorem unique (h : Covers offset cs es) (hothers : Covers offset cs others) : es = others := by
  induction h generalizing others with
  | blank hgap =>
    cases hothers with
    | blank => rfl
    | token _ htakes _ => exact absurd hgap (not_blank_of_word htakes.spelled)
  | @token offset gap word rest t es hgap htakes hrest ih =>
    generalize hcs : gap ++ (word ++ rest) = cs at hothers
    cases hothers with
    | blank hgap' => exact absurd (hcs ▸ hgap') (not_blank_of_word htakes.spelled)
    | @token _ gap' word' rest' u others hgap' htakes' hrest' =>
      have hgaps : gap = gap' := by
        rw [← takeWhile_gap hgap htakes.spelled rest, hcs, takeWhile_gap hgap' htakes'.spelled rest']
      subst hgaps
      obtain ⟨rfl, rfl, rfl⟩ := htakes.unique htakes' (List.append_cancel_left hcs)
      rw [ih hrest']

/-! ## Where the words are -/

/-- Each word stands in the characters, and its lexeme starts at the byte where it does. -/
theorem located (h : Covers offset cs es) : ∀ e ∈ es, ∃ front back,
    cs = front ++ (e.word ++ back) ∧ e.lexeme.start = offset + byteLength front := by
  induction h with
  | blank => simp
  | @token offset gap word rest t es _ _ _ ih =>
    refine List.forall_mem_cons.mpr ⟨⟨gap, rest, rfl, rfl⟩, fun e he => ?_⟩
    obtain ⟨front, back, rfl, hstart⟩ := ih e he
    refine ⟨gap ++ (word ++ front), back, by simp only [List.append_assoc], ?_⟩
    simp only [hstart, byteLength_append, Nat.add_assoc]

/-- No word holds a byte before the characters. -/
theorem not_holds_of_lt (h : Covers offset cs es) {byte : Nat} (hlt : byte < offset) :
    ∀ e ∈ es, ¬e.Holds byte := by
  rintro e he ⟨hle, -⟩
  obtain ⟨front, back, -, hstart⟩ := h.located e he
  omega

end Covers

section Placing
variable {es : List Extent} {byte : Nat} {c : Char} {e : Extent}

theorem IsPlaced.of_holds (hholds : e.Holds byte)
    (hquoted : Text.isBlank c = true → e.lexeme.token.IsQuoted) (hothers : ∀ d ∈ es, ¬d.Holds byte) :
    IsPlaced (e :: es) byte c := by
  refine .inl ⟨⟨e, ⟨List.mem_cons_self, hholds⟩, ?_⟩, ?_⟩
  · rintro d ⟨hd, hd'⟩
    exact (List.mem_cons.mp hd).resolve_right fun hmem => hothers d hmem hd'
  · exact List.forall_mem_cons.mpr ⟨fun _ => hquoted, fun d hd hd' => absurd hd' (hothers d hd)⟩

theorem IsPlaced.of_blank (hblank : Text.isBlank c = true) (he : ¬e.Holds byte)
    (hothers : ∀ d ∈ es, ¬d.Holds byte) : IsPlaced (e :: es) byte c :=
  .inr ⟨hblank, List.forall_mem_cons.mpr ⟨he, hothers⟩⟩

/-- A word that does not hold the byte changes nothing. -/
theorem IsPlaced.cons (h : IsPlaced es byte c) (he : ¬e.Holds byte) : IsPlaced (e :: es) byte c := by
  rcases h with ⟨⟨d, ⟨hd, hholds⟩, honly⟩, hquoted⟩ | ⟨hblank, hnone⟩
  · refine .inl ⟨⟨d, ⟨List.mem_cons_of_mem e hd, hholds⟩, ?_⟩, ?_⟩
    · rintro other ⟨hother, hother'⟩
      rcases List.mem_cons.mp hother with rfl | hmem
      · exact absurd hother' he
      · exact honly other ⟨hmem, hother'⟩
    · exact List.forall_mem_cons.mpr ⟨fun hholds => absurd hholds he, hquoted⟩
  · exact .of_blank hblank he hnone

end Placing

/-- A character of joined texts is one of the first or one of the second. -/
theorem split_append {xs ys front back : List Char} {c : Char}
    (h : xs ++ ys = front ++ c :: back) :
    (∃ more, xs = front ++ c :: more) ∨ ∃ more, front = xs ++ more ∧ ys = more ++ c :: back := by
  rcases List.append_eq_append_iff.mp h with ⟨more, hfront, hys⟩ | ⟨more, hxs, hback⟩
  · exact .inr ⟨more, hfront, hys⟩
  · cases more with
    | nil => exact .inr ⟨[], by simpa using hxs.symm, hback.symm⟩
    | cons d more =>
      obtain ⟨rfl, -⟩ := List.cons.inj hback
      exact .inl ⟨more, hxs⟩

/-- Every character has its place. The induction is on the words; a character of the rest is behind the
first of them, and those of the gap and of the word are before all others. -/
theorem Covers.isPlaced {offset : Nat} {cs : List Char} {es : List Extent} (h : Covers offset cs es)
    {front back : List Char} {c : Char} (hcs : cs = front ++ c :: back) :
    IsPlaced es (offset + byteLength front) c := by
  induction h generalizing front with
  | blank hgap => exact .inr ⟨hgap c (by simp [hcs]), by simp⟩
  | @token offset gap word rest t es hgap htakes hrest ih =>
    rcases split_append hcs with ⟨more, rfl⟩ | ⟨more, rfl, hbehind⟩
    · have hpos := byteLength_pos c more
      rw [byteLength_append, byteLength_append] at hrest
      refine .of_blank (hgap c (by simp)) ?_ (hrest.not_holds_of_lt (by omega))
      simp only [Extent.Holds, byteLength_append]
      omega
    rcases split_append hbehind with ⟨tail, rfl⟩ | ⟨tail, rfl, htail⟩
    · have hpos := byteLength_pos c tail
      rw [byteLength_append, byteLength_append] at hrest
      refine .of_holds ?_ (fun hblank => ?_) (hrest.not_holds_of_lt ?_)
      · simp only [Extent.Holds, byteLength_append]
        omega
      · refine htakes.spelled.isQuoted_or.resolve_right fun hnone => ?_
        rw [hnone c (by simp)] at hblank
        cases hblank
      · rw [byteLength_append]
        omega
    · have hplaced := ih htail
      rw [Nat.add_assoc, ← byteLength_append, List.append_assoc] at hplaced
      refine hplaced.cons ?_
      simp only [Extent.Holds, byteLength_append]
      omega

/-- A text that splits into tokens is white space and the words of its lexemes in turn, and in no other
way. The lexemes start one behind the other, each at the byte of the text where its word stands. Every
character is in the word of exactly one of them, unless it is white space outside the quoted texts, and
then it is in none. -/
theorem lexemes_cover {text : String} {ls : List Lexeme} (h : lexemes text = .ok ls) :
    ∃ es : List Extent, es.map (·.lexeme) = ls ∧
      (∀ others, Covers 0 text.toList others ↔ others = es) ∧
      ls.Pairwise (·.start < ·.start) ∧
      (∀ e ∈ es, ∃ front back : String,
        text = front ++ (.ofList e.word ++ back) ∧ front.utf8ByteSize = e.lexeme.start) ∧
      ∀ front c back, text.toList = front ++ c :: back →
        IsPlaced es (String.ofList front).utf8ByteSize c := by
  obtain ⟨es, hes, hcovers⟩ := covers_of_lexemesFrom h
  refine ⟨es, hes, fun others => ⟨fun h => h.unique hcovers, fun heq => heq ▸ hcovers⟩,
    (starts_of_lexemesFrom h).1, fun e he => ?_, fun front c back htext => ?_⟩
  · obtain ⟨front, back, htext, hstart⟩ := hcovers.located e he
    refine ⟨.ofList front, .ofList back, ?_, ?_⟩
    · rw [← String.ofList_append, ← String.ofList_append, ← htext, String.ofList_toList]
    · rw [hstart, byteLength_eq, Nat.zero_add]
  · have hplaced := hcovers.isPlaced htext
    rwa [Nat.zero_add, byteLength_eq] at hplaced

/-- Words without white space between them, one of them with white space inside. -/
def crowded : String := "a<>\"é b\"AND-05>=%P~=x\t"

theorem lexemes_cover_crowded : ∃ es : List Extent,
    lexemes crowded = .ok (es.map (·.lexeme)) ∧
      es.map (·.lexeme.start) = [0, 1, 3, 9, 12, 15, 17, 19, 21] ∧ Covers 0 crowded.toList es ∧
      (∃! e, e ∈ es ∧ e.Holds 4) ∧ IsPlaced es 6 ' ' ∧ IsPlaced es 22 '\t' := by
  have hlexemes : lexemes crowded = .ok
      [⟨.operand (.variable "a"), 0⟩, ⟨.comparison ⟨.notEqual, false⟩, 1⟩,
        ⟨.operand (.text "é b"), 3⟩, ⟨.and, 9⟩, ⟨.operand (.integer (-5)), 12⟩,
        ⟨.comparison ⟨.atLeast, false⟩, 15⟩, ⟨.operand (.environment "P"), 17⟩,
        ⟨.comparison ⟨.equal, true⟩, 19⟩, ⟨.operand (.variable "x"), 21⟩] := by
    decide +kernel
  obtain ⟨es, hes, hcovers, -, -, hplaced⟩ := lexemes_cover hlexemes
  refine ⟨es, by rw [hes, hlexemes], ?_, (hcovers es).mpr rfl, ?_, ?_, ?_⟩
  · have hstarts := congrArg (List.map (·.start)) hes
    rwa [List.map_map] at hstarts
  · rcases hplaced ['a', '<', '>', '"'] 'é' " b\"AND-05>=%P~=x\t".toList (by decide +kernel) with
      ⟨hone, -⟩ | ⟨hblank, -⟩
    · exact hone
    · exact absurd hblank (by decide)
  · exact hplaced ['a', '<', '>', '"', 'é'] ' ' "b\"AND-05>=%P~=x\t".toList (by decide +kernel)
  · exact hplaced "a<>\"é b\"AND-05>=%P~=x".toList '\t' [] (by decide +kernel)

end Installer.Guard
