import Installer.Proofs.Guard.Progress
import Installer.Proofs.Guard.Positions

/-!
# Where a fault points

A text is refused between two of its characters or at its end (`parse_fault`). Either no token can be
read there, though what stands before it splits into tokens; or the text splits, and its tokens can be
continued to a condition up to there and no further. The offsets of lexemes ascend
(`starts_of_lexemesFrom`), so the tokens before the fault are those that start before it
(`tokensBefore_position`), whatever bytes their characters take.

**What it does not establish.** It is the place of the fault, not its wording. Continued are the
tokens before it: a text that ends in the middle of a token has its fault at the start of that token.
-/

set_option autoImplicit false

namespace Installer.Guard
open Result

/-- The tokens that start before the byte. -/
def tokensBefore (offset : Nat) (ls : List Lexeme) : List Token :=
  (ls.filter (·.start < offset)).map (·.token)

/-- The lexemes before those that start at a byte are the ones that start before it. -/
theorem tokensBefore_position {ending : Nat} {used rest : List Lexeme}
    (hascending : (used ++ rest).Pairwise (·.start < ·.start))
    (hending : ∀ l ∈ used ++ rest, l.start < ending) :
    tokensBefore (position ending rest) (used ++ rest) = used.map (·.token) := by
  obtain ⟨-, hrest, hused⟩ := List.pairwise_append.mp hascending
  have hbefore : ∀ l ∈ used, l.start < position ending rest := by
    intro l hl
    cases rest with
    | nil => exact hending l (List.mem_append_left _ hl)
    | cons t rest => exact hused l hl t List.mem_cons_self
  have hbehind : ∀ l ∈ rest, position ending rest ≤ l.start := by
    intro l hl
    cases rest with
    | nil => cases hl
    | cons t rest =>
      cases List.mem_cons.mp hl with
      | inl heq => exact Nat.le_of_eq (congrArg Lexeme.start heq.symm)
      | inr hmem => exact Nat.le_of_lt (List.rel_of_pairwise_cons hrest hmem)
  have hkept : used.filter (·.start < position ending rest) = used :=
    List.filter_eq_self.mpr fun l hl => decide_eq_true (hbefore l hl)
  have hdropped : rest.filter (·.start < position ending rest) = [] :=
    List.filter_eq_nil_iff.mpr fun l hl => by simpa using hbehind l hl
  rw [tokensBefore, List.filter_append, hkept, hdropped, List.append_nil]

/-- What stands before the fault splits into tokens of the text, and at the fault none can be read. -/
structure Fault.IsLexical (f : Fault) (front back : String) : Prop where
  front_splits : ∃ ls, lexemes front = .ok ls ∧ ∀ l ∈ ls, StandsIn 0 (front ++ back).toList l
  unreadable : ∃ c rest, back.toList = c :: rest ∧ Text.isBlank c = false ∧
    Token.read c rest = .error f.cause

/-- The tokens before the fault can be continued to a condition, and with the one at the fault, unless
the text ends there, they cannot. -/
structure Fault.IsSyntactic (f : Fault) (ending : Nat) (ls : List Lexeme) : Prop where
  viable : IsViable (tokensBefore f.offset ls)
  refused : f.offset ≠ ending → ls ≠ [] →
    ∃ t, ⟨t, f.offset⟩ ∈ ls ∧ ¬IsViable (tokensBefore f.offset ls ++ [t])

/-- The byte lies between two characters of the text or at one of its ends. -/
def IsBoundary (text : String) (offset : Nat) : Prop :=
  ∃ front back : String, text = front ++ back ∧ front.utf8ByteSize = offset

theorem eq_append_of_toList {text : String} {front back : List Char}
    (h : text.toList = front ++ back) : text = .ofList front ++ .ofList back := by
  rw [← String.ofList_append, ← h, String.ofList_toList]

theorem StandsIn.isBoundary {text : String} {l : Lexeme} (h : StandsIn 0 text.toList l) :
    IsBoundary text l.start := by
  obtain ⟨front, c, back, taken, hsplit, hstart, -⟩ := h
  refine ⟨.ofList front, .ofList (c :: back), eq_append_of_toList hsplit, ?_⟩
  rw [hstart, byteLength_eq, Nat.zero_add]

variable {text : String} {f : Fault}

/-- A text that does not split is refused where no token can be read. -/
theorem isLexical_of_lexemes (h : lexemes text = .error f) :
    ∃ front back : String, text = front ++ back ∧ front.utf8ByteSize = f.offset ∧
      f.IsLexical front back := by
  obtain ⟨front, c, rest, ls, hsplit, hoffset, hls, hstands, hblank, hread⟩ :=
    lexemesFrom_eq_error h
  have htext : text = .ofList front ++ .ofList (c :: rest) := eq_append_of_toList hsplit
  refine ⟨.ofList front, .ofList (c :: rest), htext, ?_, ⟨ls, ?_, ?_⟩, ⟨c, rest, ?_, hblank, hread⟩⟩
  · rw [hoffset, byteLength_eq, Nat.zero_add]
  · rw [lexemes, String.toList_ofList, hls]
  · rw [← htext]
    exact hstands
  · exact String.toList_ofList

/-- A text that splits is refused where its tokens cannot go on. -/
theorem isSyntactic_of_ofLexemes {ls : List Lexeme} (hls : lexemes text = .ok ls)
    (h : Expr.ofLexemes text.utf8ByteSize ls = .error f) :
    IsBoundary text f.offset ∧ f.IsSyntactic text.utf8ByteSize ls := by
  obtain ⟨hascending, hstands⟩ := starts_of_lexemesFrom hls
  have hending : ∀ l ∈ ls, l.start < text.utf8ByteSize := by
    intro l hl
    have hlt := (hstands l hl).start_lt
    rwa [byteLength_eq, String.ofList_toList, Nat.zero_add] at hlt
  by_cases hne : ls = []
  · subst hne
    cases h
    exact ⟨⟨"", text, by simp, rfl⟩, isViable_iff.mpr ⟨_, rfl⟩, fun _ hnil => absurd rfl hnil⟩
  obtain ⟨used, rest, rfl, hoffset, hviable, hrefused⟩ := viable_of_error h hne
  have hbefore : tokensBefore f.offset (used ++ rest) = used.map (·.token) := by
    rw [hoffset]
    exact tokensBefore_position hascending hending
  rw [← hbefore] at hviable hrefused
  cases rest with
  | nil =>
    have hatEnd : f.offset = text.utf8ByteSize := hoffset
    exact ⟨⟨text, "", by simp, hatEnd.symm⟩, hviable, fun hne => absurd hatEnd hne⟩
  | cons l rest =>
    have hmem : l ∈ used ++ l :: rest := List.mem_append_right _ List.mem_cons_self
    have hstart : f.offset = l.start := hoffset
    constructor
    · rw [hstart]
      exact (hstands l hmem).isBoundary
    · refine ⟨hviable, fun _ _ => ⟨l.token, ?_, hrefused l rfl⟩⟩
      rw [hstart]
      exact hmem

/-- The fault of a text that is no guard lies at a boundary of its characters. If the text does not
split into tokens, what stands before the fault does and no token can be read at it. If it does, the
tokens that start before the fault can be continued to a condition, and with the one at the fault they
cannot. -/
theorem parse_fault (h : Condition.parse text = .error f) :
    ∃ front back : String, text = front ++ back ∧ front.utf8ByteSize = f.offset ∧
      (∀ f', lexemes text = .error f' → f' = f ∧ f.IsLexical front back) ∧
      ∀ ls, lexemes text = .ok ls → f.IsSyntactic text.utf8ByteSize ls := by
  rw [Condition.parse] at h
  cases hlexemes : lexemes text with
  | error f' =>
    rw [hlexemes] at h
    cases h
    obtain ⟨front, back, htext, hoffset, hlexical⟩ := isLexical_of_lexemes hlexemes
    refine ⟨front, back, htext, hoffset, ?_, ?_⟩
    · rintro f' ⟨⟩
      exact ⟨rfl, hlexical⟩
    · intro ls hls
      cases hls
  | ok ls =>
    rw [hlexemes, ok_bind] at h
    have hread : Expr.ofLexemes text.utf8ByteSize ls = .error f := by
      cases bind_eq_error.mp h with
      | inl hread => exact hread
      | inr hdone =>
        obtain ⟨e, -, hdone⟩ := hdone
        cases hdone
    obtain ⟨⟨front, back, htext, hoffset⟩, hsyntactic⟩ := isSyntactic_of_ofLexemes hlexemes hread
    refine ⟨front, back, htext, hoffset, ?_, ?_⟩
    · intro f' hf'
      cases hf'
    · rintro ls' ⟨⟩
      exact hsyntactic

/-- A guard in which `AND` is missing between `B` and `C`, behind a character of two bytes. -/
def gapped : String := "\"é\" = A AND (NOT B C)"

theorem parse_fault_gapped : ∃ front back : String,
    Condition.parse gapped = .error ⟨20, .unclosedParen⟩ ∧ gapped = front ++ back ∧
      front.utf8ByteSize = 20 ∧
      IsViable [.operand (.text "é"), .comparison ⟨.equal, false⟩, .operand (.variable "A"), .and,
        .leftParen, .not, .operand (.variable "B")] ∧
      ¬IsViable [.operand (.text "é"), .comparison ⟨.equal, false⟩, .operand (.variable "A"), .and,
        .leftParen, .not, .operand (.variable "B"), .operand (.variable "C")] := by
  have hparse : Condition.parse gapped = .error ⟨20, .unclosedParen⟩ := by decide +kernel
  have hlexemes : lexemes gapped = .ok
      [⟨.operand (.text "é"), 0⟩, ⟨.comparison ⟨.equal, false⟩, 5⟩, ⟨.operand (.variable "A"), 7⟩,
        ⟨.and, 9⟩, ⟨.leftParen, 13⟩, ⟨.not, 14⟩, ⟨.operand (.variable "B"), 18⟩,
        ⟨.operand (.variable "C"), 20⟩, ⟨.rightParen, 21⟩] := by
    decide +kernel
  obtain ⟨front, back, htext, hoffset, -, hsyntactic⟩ := parse_fault hparse
  obtain ⟨hviable, hrefused⟩ := hsyntactic _ hlexemes
  obtain ⟨t, ht, hrefused⟩ := hrefused (by decide +kernel) (List.cons_ne_nil _ _)
  obtain rfl : t = .operand (.variable "C") := by simpa using ht
  exact ⟨front, back, hparse, htext, hoffset, hviable, hrefused⟩

end Installer.Guard
