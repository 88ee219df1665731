import Installer.Proofs.Guard.Grammar

/-!
# The grammar rule by rule, and the trees of its texts

`InGrammar` is the grammar as its rules put it, with repetitions and without trees; it takes what
`Derives` does (`inGrammar_iff`). A `Tree` keeps the parentheses of a text and may group its parts in
any way; `Tree.IsBound` asks that each part binds as tightly as its place needs. Tokens have at most
one such tree (`Tree.eq_of_tokens_eq`). Main statement: `ofLexemes_isExact`.

The reader is a function, so tokens write one condition (`Derives.unique`). A condition has no trace
of its parentheses; they are marked by an operand that stands nowhere else, and from the one condition
of the marked tokens the tree can be told (`eq_of_expr_marked`).

**What it does not establish.** Lexemes are taken as given, at any offsets: how a text splits into
them is another matter. Where they are not in the grammar, the fault and its place are not looked at
here.
-/

set_option autoImplicit false

namespace Installer.Guard

/-- What joins two conditions. -/
inductive Connective
  | and
  | or
  | xor
  deriving DecidableEq

namespace Connective

def token : Connective → Token
  | .and => .and
  | .or => .or
  | .xor => .xor

def join : Connective → Expr → Expr → Expr
  | .and => .and
  | .or => .or
  | .xor => .xor

theorem join_injective {c d : Connective} {a b a' b' : Expr} (h : c.join a b = d.join a' b') :
    c = d ∧ a = a' ∧ b = b' := by
  cases c <;> cases d <;> simp_all [join]

/-- The level of what a connective joins; its parts are one level below. -/
def level : Connective → Level
  | .and => .conjunction
  | .or => .disjunction
  | .xor => .whole

end Connective

/-! ## The rules -/

/-- The tokens are in the grammar at a level. -/
inductive InGrammar : Level → List Token → Prop
  | operand (o : Operand) : InGrammar .primary [.operand o]
  | compare (left : Operand) (c : Comparison) (right : Operand) :
    InGrammar .primary [.operand left, .comparison c, .operand right]
  | paren {ts : List Token} : InGrammar .whole ts →
    InGrammar .primary (.leftParen :: ts ++ [.rightParen])
  | primary {ts : List Token} : InGrammar .primary ts → InGrammar .negation ts
  | not {ts : List Token} : InGrammar .negation ts → InGrammar .negation (.not :: ts)
  /-- A part, and any number of parts after it, each behind the connective. -/
  | chain (c : Connective) {first : List Token} {more : List (List Token)} :
    InGrammar c.level.below first → (∀ ts ∈ more, InGrammar c.level.below ts) →
      InGrammar c.level (first ++ more.flatMap (c.token :: ·))

theorem InGrammar.one (c : Connective) {ts : List Token} (h : InGrammar c.level.below ts) :
    InGrammar c.level ts := by
  have hchain : InGrammar c.level (ts ++ [].flatMap (c.token :: ·)) := .chain c h nofun
  rwa [List.flatMap_nil, List.append_nil] at hchain

/-- A chain goes on with one more part. -/
theorem InGrammar.more (c : Connective) {ts us : List Token} (h : InGrammar c.level ts)
    (hpart : InGrammar c.level.below us) : InGrammar c.level (ts ++ c.token :: us) := by
  generalize hlevel : c.level = level at h
  cases h with
  | operand | compare | paren | primary | not => cases c <;> cases hlevel
  | @chain d first more hfirst hmore =>
    obtain rfl : c = d := by
      revert hlevel
      cases c <;> cases d <;> simp [Connective.level]
    have hparts : ∀ vs ∈ more ++ [us], InGrammar c.level.below vs := by
      intro vs hvs
      rcases List.mem_append.mp hvs with hvs | hvs
      · exact hmore vs hvs
      · rwa [List.mem_singleton.mp hvs]
    have hchain := InGrammar.chain c hfirst hparts
    rwa [List.flatMap_append, List.flatMap_singleton, ← List.append_assoc] at hchain

namespace Derives
variable {level level' : Level} {a b e : Expr} {ts us : List Token}

/-- A connective joins what is at its level with a part after it. -/
theorem join (c : Connective) (ha : Derives c.level a ts) (hb : Derives c.level.below b us) :
    Derives c.level (c.join a b) (ts ++ c.token :: us) := by
  cases c with
  | and => exact .and ha hb
  | or => exact .or ha hb
  | xor => exact .xor ha hb

/-- What is derived one level below is derived. -/
theorem ofBelow (h : Derives level.below e ts) : Derives level e ts := by
  cases level with
  | primary => exact h
  | negation => exact .ofPrimary h
  | conjunction => exact .ofNegation h
  | disjunction => exact .ofConjunction h
  | whole => exact .ofDisjunction h

theorem inGrammar (h : Derives level e ts) : InGrammar level ts := by
  induction h with
  | operand o => exact .operand o
  | compare left c right => exact .compare left c right
  | paren _ ih => exact .paren ih
  | not _ ih => exact .not ih
  | and _ _ iha ihb => exact iha.more .and ihb
  | or _ _ iha ihb => exact iha.more .or ihb
  | xor _ _ iha ihb => exact iha.more .xor ihb
  | ofPrimary _ ih => exact .primary ih
  | ofNegation _ ih => exact ih.one .and
  | ofConjunction _ ih => exact ih.one .or
  | ofDisjunction _ ih => exact ih.one .xor

/-- Parts that follow what is derived are joined to it, one after the other. -/
theorem exists_chain (c : Connective) {more : List (List Token)} : ∀ {a : Expr} {ts : List Token},
    Derives c.level a ts → (∀ us ∈ more, ∃ b, Derives c.level.below b us) →
      ∃ e, Derives c.level e (ts ++ more.flatMap (c.token :: ·)) := by
  induction more with
  | nil =>
    intro a ts ha _
    exact ⟨a, by rwa [List.flatMap_nil, List.append_nil]⟩
  | cons us more ih =>
    intro a ts ha hmore
    obtain ⟨b, hb⟩ := hmore us List.mem_cons_self
    obtain ⟨e, he⟩ := ih (ha.join c hb) fun vs hvs => hmore vs (List.mem_cons_of_mem _ hvs)
    rw [List.append_assoc, List.cons_append] at he
    exact ⟨e, he⟩

end Derives

theorem InGrammar.exists_derives {level : Level} {ts : List Token} (h : InGrammar level ts) :
    ∃ e, Derives level e ts := by
  induction h with
  | operand o => exact ⟨_, .operand o⟩
  | compare left c right => exact ⟨_, .compare left c right⟩
  | paren _ ih =>
    obtain ⟨e, he⟩ := ih
    exact ⟨e, he.paren⟩
  | primary _ ih =>
    obtain ⟨e, he⟩ := ih
    exact ⟨e, .ofPrimary he⟩
  | not _ ih =>
    obtain ⟨e, he⟩ := ih
    exact ⟨_, he.not⟩
  | chain c _ _ ihfirst ihmore =>
    obtain ⟨a, ha⟩ := ihfirst
    exact ha.ofBelow.exists_chain c ihmore

/-- The rules take exactly what is derived. -/
theorem inGrammar_iff {level : Level} {ts : List Token} :
    InGrammar level ts ↔ ∃ e, Derives level e ts :=
  ⟨InGrammar.exists_derives, fun ⟨_, h⟩ => h.inGrammar⟩

/-! ## Trees with parentheses -/

/-- How tightly a level binds. -/
def Level.strength : Level → Nat
  | .whole => 0
  | .disjunction => 1
  | .conjunction => 2
  | .negation => 3
  | .primary => 4

theorem Level.strength_below {level level' : Level} (h : level.strength < level'.strength) :
    level.below.strength = level.strength + 1 := by
  cases level with
  | primary => cases level' <;> simp [Level.strength] at h
  | negation | conjunction | disjunction | whole => rfl

theorem Level.strength_injective {level level' : Level} (h : level.strength = level'.strength) :
    level = level' := by
  cases level <;> cases level' <;> first | rfl | cases h

/-- A condition with the parentheses of its text. -/
inductive Tree
  | operand (o : Operand)
  | compare (left : Operand) (c : Comparison) (right : Operand)
  | paren (t : Tree)
  | not (t : Tree)
  | join (c : Connective) (left right : Tree)

namespace Tree

def tokens : Tree → List Token
  | .operand o => [.operand o]
  | .compare left c right => [.operand left, .comparison c, .operand right]
  | .paren t => .leftParen :: t.tokens ++ [.rightParen]
  | .not t => .not :: t.tokens
  | .join c left right => left.tokens ++ c.token :: right.tokens

/-- The condition without the parentheses. -/
def expr : Tree → Expr
  | .operand o => .operand o
  | .compare left c right => .compare left c right
  | .paren t => t.expr
  | .not t => .not t.expr
  | .join c left right => c.join left.expr right.expr

/-- The level of what stands outermost. -/
def level : Tree → Level
  | .operand _ | .compare _ _ _ | .paren _ => .primary
  | .not _ => .negation
  | .join c _ _ => c.level

/-- Parts bind as their places need: what is negated at least as tightly as a negation, what stands
on the left of a connective at least as tightly as the connective, and what stands on its right more
tightly. -/
def IsBound : Tree → Prop
  | .operand _ | .compare _ _ _ => True
  | .paren t => t.IsBound
  | .not t => t.IsBound ∧ Level.negation.strength ≤ t.level.strength
  | .join c left right => left.IsBound ∧ right.IsBound ∧
      c.level.strength ≤ left.level.strength ∧ c.level.strength < right.level.strength

end Tree

/-- What is derived at a level is derived at every looser one. -/
theorem Derives.loosen {level level' : Level} {e : Expr} {ts : List Token}
    (h : Derives level e ts) (hle : level'.strength ≤ level.strength) : Derives level' e ts := by
  obtain ⟨n, hn⟩ := Nat.exists_eq_add_of_le hle
  induction n generalizing level' with
  | zero => rwa [← Level.strength_injective hn]
  | succ n ih =>
    have hbelow := Level.strength_below (show level'.strength < level.strength by omega)
    exact .ofBelow (ih (by omega) (by omega))

/-- A tree that is bound is derived at its level, and at every looser one. -/
theorem Tree.IsBound.derives {t : Tree} (h : t.IsBound) : ∀ {level : Level},
    level.strength ≤ t.level.strength → Derives level t.expr t.tokens := by
  induction t with
  | operand o =>
    intro level hle
    exact (Derives.operand o).loosen hle
  | compare left c right =>
    intro level hle
    exact (Derives.compare left c right).loosen hle
  | paren t ih =>
    intro level hle
    have hwhole : Derives .whole t.expr t.tokens := ih h (Nat.zero_le _)
    exact hwhole.paren.loosen hle
  | not t ih =>
    intro level hle
    exact (ih h.1 h.2).not.loosen hle
  | join c left right ihl ihr =>
    intro level hle
    obtain ⟨hleft, hright, hloose, htight⟩ := h
    have hparts : c.level.below.strength ≤ right.level.strength := by
      rw [Level.strength_below htight]
      exact htight
    exact ((ihl hleft hloose).join c (ihr hright hparts)).loosen hle

/-- The trees of two parts are joined to one. -/
theorem Tree.exists_join (c : Connective) {a b : Expr} {ts us : List Token}
    (ha : ∃ t : Tree, t.IsBound ∧ t.tokens = ts ∧ t.expr = a ∧
      c.level.strength ≤ t.level.strength)
    (hb : ∃ u : Tree, u.IsBound ∧ u.tokens = us ∧ u.expr = b ∧
      c.level.strength < u.level.strength) :
    ∃ t : Tree, t.IsBound ∧ t.tokens = ts ++ c.token :: us ∧ t.expr = c.join a b ∧
      c.level.strength ≤ t.level.strength := by
  obtain ⟨t, ht, rfl, rfl, hloose⟩ := ha
  obtain ⟨u, hu, rfl, rfl, htight⟩ := hb
  exact ⟨.join c t u, ⟨ht, hu, hloose, htight⟩, rfl, rfl, Nat.le_refl _⟩

/-- What is derived is written by a tree that is bound. -/
theorem Derives.exists_tree {level : Level} {e : Expr} {ts : List Token} (h : Derives level e ts) :
    ∃ t : Tree, t.IsBound ∧ t.tokens = ts ∧ t.expr = e ∧ level.strength ≤ t.level.strength := by
  induction h with
  | operand o => exact ⟨.operand o, trivial, rfl, rfl, Nat.le_refl _⟩
  | compare left c right => exact ⟨.compare left c right, trivial, rfl, rfl, Nat.le_refl _⟩
  | paren _ ih =>
    obtain ⟨t, hbound, rfl, rfl, -⟩ := ih
    exact ⟨.paren t, hbound, rfl, rfl, Nat.le_refl _⟩
  | not _ ih =>
    obtain ⟨t, hbound, rfl, rfl, hle⟩ := ih
    exact ⟨.not t, ⟨hbound, hle⟩, rfl, rfl, Nat.le_refl _⟩
  | and _ _ iha ihb => exact Tree.exists_join .and iha ihb
  | or _ _ iha ihb => exact Tree.exists_join .or iha ihb
  | xor _ _ iha ihb => exact Tree.exists_join .xor iha ihb
  | ofPrimary _ ih | ofNegation _ ih | ofConjunction _ ih | ofDisjunction _ ih =>
    obtain ⟨t, hbound, rfl, rfl, hle⟩ := ih
    exact ⟨t, hbound, rfl, rfl, Nat.le_trans (by decide) hle⟩

/-! ## One tree only

The reader drops parentheses, so that it gives one condition for the tokens does not yet give one
tree. Marking shows them to the reader: `(` becomes `(m AND (` and `)` becomes `))`, with an operand
`m` that stands nowhere else. -/

/-- Any tokens are those of lexemes. -/
theorem tokens_anywhere (ts : List Token) : (ts.map (Lexeme.mk · 0)).map (·.token) = ts := by
  rw [List.map_map]
  exact List.map_id ts

/-- Tokens write one condition. -/
theorem Derives.unique {a b : Expr} {ts : List Token} (ha : Derives .whole a ts)
    (hb : Derives .whole b ts) : a = b := by
  rw [← tokens_anywhere ts] at ha hb
  have hreada : Expr.ofLexemes 0 _ = .ok a := ofLexemes_eq_ok_iff.mpr ha
  have hreadb : Expr.ofLexemes 0 _ = .ok b := ofLexemes_eq_ok_iff.mpr hb
  exact Except.ok.inj (hreada.symm.trans hreadb)

/-- The operand that marks parentheses. -/
def Operand.mark : Operand := .variable ""

/-- Operands changed so that none is the mark. -/
def Operand.marked : Operand → Operand
  | .variable name => .variable ("_" ++ name)
  | o => o

theorem Operand.marked_ne_mark : ∀ o : Operand, o.marked ≠ mark
  | .variable name => by
    intro h
    have hempty : "_" ++ name = "" := Operand.variable.inj h
    simpa using congrArg String.length hempty
  | .state _ _ | .environment _ | .text _ | .integer _ => nofun

theorem Operand.marked_injective {o o' : Operand} (h : o.marked = o'.marked) : o = o' := by
  cases o <;> cases o' <;> simp_all [marked]

namespace Tree

/-- The tree with its parentheses marked. -/
def marked : Tree → Tree
  | .operand o => .operand o.marked
  | .compare left c right => .compare left.marked c right.marked
  | .paren t => .paren (.join .and (.operand .mark) (.paren t.marked))
  | .not t => .not t.marked
  | .join c left right => .join c left.marked right.marked

/-- What marking makes of one token. -/
def markedToken : Token → List Token
  | .leftParen => [.leftParen, .operand .mark, .and, .leftParen]
  | .rightParen => [.rightParen, .rightParen]
  | .operand o => [.operand o.marked]
  | t => [t]

theorem tokens_marked (t : Tree) : t.marked.tokens = t.tokens.flatMap markedToken := by
  induction t with
  | operand | compare => rfl
  | paren t ih => simp [marked, tokens, ih, markedToken, Connective.token]
  | not t ih => simp [marked, tokens, ih, markedToken]
  | join c left right ihl ihr =>
    cases c <;> simp [marked, tokens, ihl, ihr, markedToken, Connective.token]

theorem level_marked (t : Tree) : t.marked.level = t.level := by
  cases t <;> rfl

theorem IsBound.marked {t : Tree} (h : t.IsBound) : t.marked.IsBound := by
  induction t with
  | operand | compare => trivial
  | paren t ih =>
    have htight : Level.conjunction.strength < Level.primary.strength := by decide
    exact ⟨trivial, ih h, Nat.le_of_lt htight, htight⟩
  | not t ih =>
    refine ⟨ih h.1, ?_⟩
    rw [level_marked]
    exact h.2
  | join c left right ihl ihr =>
    obtain ⟨hleft, hright, hlevels⟩ := h
    refine ⟨ihl hleft, ihr hright, ?_⟩
    rwa [level_marked, level_marked]

/-- The mark is no tree's condition. -/
theorem expr_marked_ne (t : Tree) : t.marked.expr ≠ .operand .mark := by
  cases t with
  | operand o => exact fun h => o.marked_ne_mark (Expr.operand.inj h)
  | compare | paren | not => exact nofun
  | join c => cases c <;> exact nofun

/-- Without its parentheses a marked tree still shows where they were. -/
theorem eq_of_expr_marked {t u : Tree} (h : t.marked.expr = u.marked.expr) : t = u := by
  induction t generalizing u with
  | operand o =>
    cases u with
    | operand o' => rw [Operand.marked_injective (Expr.operand.inj h)]
    | compare | paren | not => cases h
    | join c => cases c <;> cases h
  | compare left c right =>
    cases u with
    | compare left' c' right' =>
      obtain ⟨hleft, rfl, hright⟩ := Expr.compare.inj h
      rw [Operand.marked_injective hleft, Operand.marked_injective hright]
    | operand | paren | not => cases h
    | join c => cases c <;> cases h
  | paren t ih =>
    cases u with
    | paren u => rw [ih (Expr.and.inj h).2]
    | operand | compare | not => cases h
    | join c left right =>
      cases c with
      | and => exact absurd (Expr.and.inj h).1.symm left.expr_marked_ne
      | or | xor => cases h
  | not t ih =>
    cases u with
    | not u => rw [ih (Expr.not.inj h)]
    | operand | compare | paren => cases h
    | join c => cases c <;> cases h
  | join c left right ihl ihr =>
    cases u with
    | operand | compare | not => cases c <;> cases h
    | paren u =>
      cases c with
      | and => exact absurd (Expr.and.inj h).1 left.expr_marked_ne
      | or | xor => cases h
    | join d left' right' =>
      obtain ⟨rfl, hleft, hright⟩ := Connective.join_injective h
      rw [ihl hleft, ihr hright]

/-- Tokens have at most one tree that is bound. -/
theorem eq_of_tokens_eq {t u : Tree} (ht : t.IsBound) (hu : u.IsBound)
    (h : t.tokens = u.tokens) : t = u := by
  have htd : Derives .whole t.marked.expr t.marked.tokens := ht.marked.derives (Nat.zero_le _)
  have hud : Derives .whole u.marked.expr u.marked.tokens := hu.marked.derives (Nat.zero_le _)
  rw [tokens_marked, h, ← tokens_marked] at htd
  exact eq_of_expr_marked (htd.unique hud)

/-- The tree that tokens write. -/
structure IsTreeOf (t : Tree) (ts : List Token) : Prop where
  bound : t.IsBound
  tokens : t.tokens = ts

end Tree

/-- Lexemes are read as a condition exactly if their tokens are in the grammar. Their tokens have then
one tree in which all parts bind as they should, and the condition is that tree without its
parentheses. -/
theorem ofLexemes_isExact (ending : Nat) (ts : List Lexeme) :
    ((∃ e, Expr.ofLexemes ending ts = .ok e) ↔ InGrammar .whole (ts.map (·.token))) ∧
    ∀ e, Expr.ofLexemes ending ts = .ok e ↔ ∃ t : Tree, t.expr = e ∧
      t.IsTreeOf (ts.map (·.token)) ∧ ∀ u : Tree, u.IsTreeOf (ts.map (·.token)) → u = t := by
  refine ⟨?_, fun e => ?_⟩
  · simp only [ofLexemes_eq_ok_iff, inGrammar_iff]
  · rw [ofLexemes_eq_ok_iff]
    constructor
    · intro h
      obtain ⟨t, hbound, htokens, hexpr, -⟩ := h.exists_tree
      refine ⟨t, hexpr, ⟨hbound, htokens⟩, fun u hu => ?_⟩
      exact Tree.eq_of_tokens_eq hu.bound hbound (hu.tokens.trans htokens.symm)
    · rintro ⟨t, rfl, ht, -⟩
      rw [← ht.tokens]
      exact ht.bound.derives (Nat.zero_le _)

/-- The lexemes of `A OR NOT B AND (C XOR D = 5)`. -/
def mixed : List Lexeme :=
  [⟨.operand (.variable "A"), 0⟩, ⟨.or, 2⟩, ⟨.not, 5⟩, ⟨.operand (.variable "B"), 9⟩, ⟨.and, 11⟩,
    ⟨.leftParen, 15⟩, ⟨.operand (.variable "C"), 16⟩, ⟨.xor, 18⟩, ⟨.operand (.variable "D"), 22⟩,
    ⟨.comparison ⟨.equal, false⟩, 24⟩, ⟨.operand (.integer 5), 26⟩, ⟨.rightParen, 27⟩]

theorem ofLexemes_isExact_mixed : InGrammar .whole (mixed.map (·.token)) ∧
    ∃ t : Tree, t.IsTreeOf (mixed.map (·.token)) ∧
      t.expr = .or (.operand (.variable "A")) (.and (.not (.operand (.variable "B")))
        (.xor (.operand (.variable "C"))
          (.compare (.variable "D") ⟨.equal, false⟩ (.integer 5)))) := by
  have hread : Expr.ofLexemes 28 mixed = .ok (.or (.operand (.variable "A"))
      (.and (.not (.operand (.variable "B"))) (.xor (.operand (.variable "C"))
        (.compare (.variable "D") ⟨.equal, false⟩ (.integer 5))))) := by
    decide +kernel
  obtain ⟨t, hexpr, htree, -⟩ := ((ofLexemes_isExact 28 mixed).2 _).mp hread
  exact ⟨(ofLexemes_isExact 28 mixed).1.mp ⟨_, hread⟩, t, htree, hexpr⟩

end Installer.Guard
