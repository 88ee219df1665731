import Installer.Guard.Scope
import Installer.Proofs.Guard.Grammar
import Installer.Proofs.Guard.Lexing

/-!
# Guards by their texts, and guards joined

A text writes a condition if its tokens do (`parse_eq_ok_iff`). Trimming a text does not change what
it writes, and texts in parentheses with `AND` between them write the conjunction of what they write,
joined to the left (`writes_intercalate`).
-/

set_option autoImplicit false

namespace Installer.Guard
open Result

/-- The characters write a condition. -/
def Writes (cs : List Char) (e : Expr) : Prop := ∃ ts, Lexes cs ts ∧ Derives .whole e ts

/-- A text is parsed as the condition that it writes, and trimmed. -/
theorem parse_eq_ok_iff {text : String} {c : Condition} : Condition.parse text = .ok c ↔
    Writes text.toList c.expr ∧ c.text = Text.trim text := by
  constructor
  · intro h
    obtain ⟨ls, hls, hrest⟩ := bind_eq_ok.mp h
    obtain ⟨e, he, hdone⟩ := bind_eq_ok.mp hrest
    cases hdone
    exact ⟨⟨_, lexes_of_lexemes hls, ofLexemes_eq_ok_iff.mp he⟩, rfl⟩
  · rintro ⟨⟨ts, hlexes, hderives⟩, htext⟩
    obtain ⟨ls, hls, rfl⟩ := hlexes.exists_lexemes 0
    have he : Expr.ofLexemes text.utf8ByteSize ls = .ok c.expr := ofLexemes_eq_ok_iff.mpr hderives
    rw [Condition.parse, lexemes, hls, ok_bind, he, ok_bind, ← htext]
    rfl

theorem Writes.trim {cs : List Char} {e : Expr} (h : Writes cs e) :
    Writes (Text.trimChars cs) e := by
  obtain ⟨ts, hlexes, hderives⟩ := h
  exact ⟨ts, lexes_trim hlexes, hderives⟩

/-- What a parsed text writes is written by the text that the condition keeps. -/
theorem writes_of_parse {text : String} {c : Condition} (h : Condition.parse text = .ok c) :
    Writes c.text.toList c.expr := by
  obtain ⟨hwrites, htext⟩ := parse_eq_ok_iff.mp h
  rw [htext, Text.trim, String.toList_ofList]
  exact hwrites.trim

/-! ## Conjunctions -/

/-- A text in parentheses has its tokens between two of parentheses. -/
theorem lexes_paren {cs rest : List Char} {ts us : List Token} (h : Lexes cs ts)
    (hrest : Lexes rest us) :
    Lexes ('(' :: (cs ++ ')' :: rest)) (.leftParen :: (ts ++ .rightParen :: us)) := by
  have hstops : Stops (')' :: rest) := by
    rintro _ ⟨⟩
    exact .inr rfl
  have hclose : Lexes (')' :: rest) (.rightParen :: us) := .token (by decide) rfl hrest
  exact .token (by decide) rfl (h.append hstops hclose)

/-- The word between two guards is one token. -/
theorem lexes_and {rest : List Char} {ts : List Token} (h : Lexes rest ts) :
    Lexes (' ' :: 'A' :: 'N' :: 'D' :: ' ' :: rest) (.and :: ts) := by
  have hword : Token.ofWord ['A', 'N', 'D'] = .and := by decide +kernel
  have hread : Token.read 'A' ('N' :: 'D' :: ' ' :: rest) = .ok (.and, 2) := by
    rw [← hword]
    rfl
  have hblank : Lexes (' ' :: rest) ts := .blank (by decide) h
  exact .blank (by decide) (.token (by decide) hread hblank)

/-- A guard in parentheses, as it stands in a conjunction. -/
def parenthesized (g : String) : String := s!"({g})"

theorem toList_parenthesized (g : String) :
    (parenthesized g).toList = '(' :: (g.toList ++ [')']) := by
  simp [parenthesized, toString]

/-- The tokens of guards in parentheses that are joined to others. -/
def joinedTokens (tss : List (List Token)) : List Token :=
  tss.flatMap fun ts => .and :: .leftParen :: (ts ++ [.rightParen])

theorem lexes_intercalate {g : String} {ts : List Token} (hg : Lexes g.toList ts) :
    ∀ {gs : List String} {tss : List (List Token)},
      List.Forall₂ (fun g ts => Lexes g.toList ts) gs tss →
        Lexes (" AND ".intercalate ((g :: gs).map parenthesized)).toList
          (.leftParen :: (ts ++ .rightParen :: joinedTokens tss))
  | [], _, .nil => by
    rw [List.map_singleton, String.intercalate_singleton, toList_parenthesized]
    exact lexes_paren hg .nil
  | g' :: gs, ts' :: tss, .cons hg' hgs => by
    have hrest := lexes_paren hg (lexes_and (lexes_intercalate hg' hgs))
    rw [List.map_cons, List.map_cons, String.intercalate_cons_cons, String.toList_append,
      String.toList_append, toList_parenthesized]
    simpa [joinedTokens] using hrest

theorem derives_joined {tss : List (List Token)} {es : List Expr}
    (h : List.Forall₂ (fun ts e => Derives .whole e ts) tss es) : ∀ {a : Expr} {front : List Token},
      Derives .conjunction a front →
        Derives .conjunction (es.foldl .and a) (front ++ joinedTokens tss) := by
  induction h with
  | nil =>
    intro a front ha
    rwa [joinedTokens, List.flatMap_nil, List.append_nil]
  | cons hwhole _ ih =>
    intro a front ha
    have hjoined := ih (ha.and (.ofPrimary hwhole.paren))
    simpa [joinedTokens] using hjoined

/-- Guards in parentheses with `AND` between them write the conjunction of what each writes. -/
theorem writes_intercalate {g : String} {e : Expr} {gs : List String} {es : List Expr}
    (hg : Writes g.toList e) (hgs : List.Forall₂ (fun g e => Writes g.toList e) gs es) :
    Writes (" AND ".intercalate ((g :: gs).map parenthesized)).toList (es.foldl .and e) := by
  obtain ⟨ts, hlexes, hderives⟩ := hg
  have hall : ∃ tss, List.Forall₂ (fun g ts => Lexes g.toList ts) gs tss ∧
      List.Forall₂ (fun ts e => Derives .whole e ts) tss es := by
    induction hgs with
    | nil => exact ⟨[], .nil, .nil⟩
    | cons hwrites _ ih =>
      obtain ⟨ts, hlexes, hderives⟩ := hwrites
      obtain ⟨tss, hlexes', hderives'⟩ := ih
      exact ⟨ts :: tss, .cons hlexes hlexes', .cons hderives hderives'⟩
  obtain ⟨tss, hlexes', hderives'⟩ := hall
  have hfirst : Derives .conjunction e (.leftParen :: ts ++ [.rightParen]) :=
    .ofNegation (.ofPrimary (.paren hderives))
  refine ⟨_, lexes_intercalate hlexes hlexes', .ofDisjunction (.ofConjunction ?_)⟩
  simpa using derives_joined hderives' hfirst

/-! ## Checked guards -/

section Check
variable {action : String} {scope : Scope}

/-- A reference is accepted if it names something known that is not the guarded action. -/
theorem checkReference_eq_ok_iff {o : Operand} : checkReference action scope o = .ok () ↔
    ∀ name ∈ o.name?, name ≠ action ∧ name ∈ scope.namesFor o := by
  rw [checkReference]
  cases o.name? with
  | none => simp
  | some name =>
    by_cases hname : name = action
    · simp [hname]
    · by_cases hknown : name ∈ scope.namesFor o <;> simp [hname, hknown]

/-- The text is accepted as a guard of the action, and writes the condition. -/
def Accepts (action : String) (scope : Scope) (text : String) (e : Expr) : Prop :=
  ∃ c, check action text scope = .ok c ∧ c.expr = e

theorem check_eq_ok_iff {text : String} {c : Condition} : check action text scope = .ok c ↔
    Condition.parse text = .ok c ∧ ∀ o ∈ c.references, checkReference action scope o = .ok () := by
  rw [check]
  cases Condition.parse text with
  | error fault => simp
  | ok d =>
    rw [bind_eq_ok]
    constructor
    · rintro ⟨_, hreferences, hdone⟩
      cases hdone
      exact ⟨rfl, forM_eq_ok.mp hreferences⟩
    · rintro ⟨hd, hreferences⟩
      cases hd
      exact ⟨(), forM_eq_ok.mpr hreferences, rfl⟩

/-- A guard is checked by what is known, in whatever order it is. -/
theorem check_congr {scope scope' : Scope}
    (h : ∀ o name, name ∈ scope'.namesFor o ↔ name ∈ scope.namesFor o) (text : String) :
    check action text scope' = check action text scope := by
  have hreference : checkReference action scope' = checkReference action scope := by
    funext o
    rw [checkReference, checkReference]
    cases o.name? with
    | none => rfl
    | some name => rw [contains_congr (h o)]
  rw [check, check, hreference]

/-- An operand that has a name is a reference. -/
theorem isReference_of_name? {o : Operand} {name : String} (h : o.name? = some name) :
    o.isReference = true := by
  cases o with
  | environment | text | integer => cases h
  | _ => rfl

/-- Whatever an accepted guard names is known, and is not the guarded action. -/
theorem names_of_check {text : String} {c : Condition} (h : check action text scope = .ok c)
    {o : Operand} (ho : o ∈ c.expr.operands) {name : String} (hname : o.name? = some name) :
    name ≠ action ∧ name ∈ scope.namesFor o := by
  have hreference : o ∈ c.references := List.mem_filter.mpr ⟨ho, isReference_of_name? hname⟩
  exact checkReference_eq_ok_iff.mp ((check_eq_ok_iff.mp h).2 o hreference) name hname

/-- A guard is accepted by what it writes. -/
theorem accepts_iff {text : String} {e : Expr} : Accepts action scope text e ↔
    Writes text.toList e ∧
      ∀ o ∈ e.operands, o.isReference → checkReference action scope o = .ok () := by
  constructor
  · rintro ⟨c, hcheck, rfl⟩
    obtain ⟨hparse, hreferences⟩ := check_eq_ok_iff.mp hcheck
    exact ⟨(parse_eq_ok_iff.mp hparse).1,
      fun o ho href => hreferences o (List.mem_filter.mpr ⟨ho, href⟩)⟩
  · rintro ⟨hwrites, hreferences⟩
    refine ⟨⟨Text.trim text, e⟩, check_eq_ok_iff.mpr ⟨parse_eq_ok_iff.mpr ⟨hwrites, rfl⟩, ?_⟩, rfl⟩
    intro o ho
    obtain ⟨ho, href⟩ := List.mem_filter.mp ho
    exact hreferences o ho href

/-- The text that an accepted guard keeps is accepted as the same. -/
theorem accepts_of_check {text : String} {c : Condition} (h : check action text scope = .ok c) :
    Accepts action scope c.text c.expr := by
  obtain ⟨hparse, -⟩ := check_eq_ok_iff.mp h
  exact accepts_iff.mpr ⟨writes_of_parse hparse, (accepts_iff.mp ⟨c, h, rfl⟩).2⟩

theorem mem_operands_foldl {o : Operand} {es : List Expr} : ∀ {a : Expr},
    o ∈ (es.foldl .and a).operands → o ∈ a.operands ∨ ∃ e ∈ es, o ∈ e.operands := by
  induction es with
  | nil => exact fun ho => .inl ho
  | cons e es ih =>
    intro a ho
    rcases ih ho with ho | ⟨e', he', ho⟩
    · rcases List.mem_append.mp ho with ho | ho
      · exact .inl ho
      · exact .inr ⟨e, List.mem_cons_self, ho⟩
    · exact .inr ⟨e', List.mem_cons_of_mem _ he', ho⟩

/-- Accepted guards are accepted joined, and then write their conjunction. -/
theorem accepts_intercalate {g : String} {e : Expr} {gs : List String} {es : List Expr}
    (hg : Accepts action scope g e) (hgs : List.Forall₂ (Accepts action scope) gs es) :
    Accepts action scope (" AND ".intercalate ((g :: gs).map parenthesized)) (es.foldl .and e) := by
  obtain ⟨hwrites, hreferences⟩ := accepts_iff.mp hg
  refine accepts_iff.mpr ⟨writes_intercalate hwrites (hgs.imp fun _ _ h => (accepts_iff.mp h).1),
    fun o ho href => ?_⟩
  rcases mem_operands_foldl ho with ho | ⟨e', he', ho⟩
  · exact hreferences o ho href
  · obtain ⟨g', -, hg'⟩ := exists_related hgs.flip he'
    exact (accepts_iff.mp hg').2 o ho href

end Check
end Installer.Guard
