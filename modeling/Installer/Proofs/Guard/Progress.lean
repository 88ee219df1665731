import Installer.Proofs.Guard.Binding

/-!
# How far tokens are those of a guard

What may come next in a guard depends on how many parentheses are open and on what was read last, and
on nothing else (`Place`). Each token is taken where it may stand (`Place.next?`). What the grammar
derives leads from a place where a condition starts to one where it may end (`Derives.isPassage`); the
reader keeps to these places, and where it fails there is no next one (`readExpr_keeps`). As a guard
that breaks off can be completed from every place (`Place.after?_closing`), tokens can be continued to a
guard exactly if all of them are taken. Main statements: `isViable_iff`, `exists_place_of_error`.

The functions of the reader are gone through with one thing to keep (`KeepsTo`): a whole text of the
level is passed, or reading fails where the next token may not stand. Two such outcomes, one after the
other, are one again (`KeepsTo.bind`).

**What it does not establish.** Whether names are known plays no part: tokens go on to a guard or do
not, whatever they refer to.
-/

set_option autoImplicit false

namespace Installer.Guard
open Result

/-- What was read last. -/
inductive Stage
  /-- Nothing, a parenthesis, a negation or a connective: a condition starts. -/
  | start
  /-- An operand, which may be compared. -/
  | operand
  /-- The relation of a comparison, which needs another operand. -/
  | relation
  /-- A comparison or what stood in parentheses. -/
  | closed
  deriving DecidableEq

/-- Whether a condition may end here. -/
def Stage.isEnd : Stage → Bool
  | .operand | .closed => true
  | .start | .relation => false

/-- A place in a guard. -/
structure Place where
  /-- The number of open parentheses. -/
  depth : Nat
  stage : Stage
  deriving DecidableEq

namespace Place

/-- Where a guard starts. -/
def start : Place := ⟨0, .start⟩

/-- Whether a guard may end here. -/
def isEnd (p : Place) : Bool := p.depth == 0 && p.stage.isEnd

/-- The place after a token that may stand here. -/
def next? (p : Place) (t : Token) : Option Place :=
  match p.stage, t with
  | .start, .leftParen => some ⟨p.depth + 1, .start⟩
  | .start, .not => some ⟨p.depth, .start⟩
  | .start, .operand _ => some ⟨p.depth, .operand⟩
  | .operand, .comparison _ => some ⟨p.depth, .relation⟩
  | .relation, .operand _ => some ⟨p.depth, .closed⟩
  | .operand, .and | .operand, .or | .operand, .xor => some ⟨p.depth, .start⟩
  | .closed, .and | .closed, .or | .closed, .xor => some ⟨p.depth, .start⟩
  | .operand, .rightParen | .closed, .rightParen =>
    match p.depth with
    | 0 => none
    | n + 1 => some ⟨n, .closed⟩
  | _, _ => none

/-- The place after tokens each of which may stand where it stands. -/
def after? (p : Place) (ts : List Token) : Option Place := ts.foldlM next? p

theorem after?_cons (p : Place) (t : Token) (ts : List Token) :
    p.after? (t :: ts) = (p.next? t).bind (·.after? ts) := by
  rw [after?, List.foldlM_cons]
  rfl

theorem after?_append (p : Place) (ts us : List Token) :
    p.after? (ts ++ us) = (p.after? ts).bind (·.after? us) := by
  rw [after?, List.foldlM_append]
  rfl

/-- Tokens that are taken are taken from the front on. -/
theorem exists_after?_of_append {p q : Place} {ts us : List Token}
    (h : p.after? (ts ++ us) = some q) : ∃ r, p.after? ts = some r ∧ r.after? us = some q := by
  rw [after?_append] at h
  exact Option.bind_eq_some_iff.mp h

theorem after?_append_of {p q : Place} {ts us : List Token} (h : p.after? ts = some q) :
    p.after? (ts ++ us) = q.after? us := by
  rw [after?_append, h]
  rfl

/-- After the end of a condition a connective starts another one. -/
theorem next?_connective {n : Nat} {s : Stage} (hs : s.isEnd = true) (c : Connective) :
    next? ⟨n, s⟩ c.token = some ⟨n, .start⟩ := by
  cases s with
  | start | relation => cases hs
  | operand | closed => cases c <;> rfl

/-- After the end of a condition a parenthesis closes, if one is open. -/
theorem next?_rightParen {n : Nat} {s : Stage} (hs : s.isEnd = true) :
    next? ⟨n + 1, s⟩ .rightParen = some ⟨n, .closed⟩ := by
  cases s with
  | start | relation => cases hs
  | operand | closed => rfl

theorem next?_rightParen_outside (s : Stage) : next? ⟨0, s⟩ .rightParen = none := by
  cases s <;> rfl

/-! ## Completing a guard -/

/-- Tokens that complete a guard from here. -/
def closing : Place → List Token
  | ⟨n, .start⟩ | ⟨n, .relation⟩ => .operand (.integer 0) :: List.replicate n .rightParen
  | ⟨n, .operand⟩ | ⟨n, .closed⟩ => List.replicate n .rightParen

theorem after?_rightParens : ∀ (n : Nat) {s : Stage}, s.isEnd = true →
    ∃ q, (⟨n, s⟩ : Place).after? (List.replicate n .rightParen) = some q ∧ q.isEnd = true
  | 0, s, hs => ⟨⟨0, s⟩, rfl, hs⟩
  | n + 1, s, hs => by
    obtain ⟨q, hq, hend⟩ := after?_rightParens n (rfl : Stage.closed.isEnd = true)
    refine ⟨q, ?_, hend⟩
    rw [List.replicate_succ, after?_cons, next?_rightParen hs]
    exact hq

/-- From every place a guard can be completed. -/
theorem after?_closing (p : Place) : ∃ q, p.after? p.closing = some q ∧ q.isEnd = true := by
  obtain ⟨n, s⟩ := p
  cases s with
  | start =>
    rw [closing, after?_cons]
    exact after?_rightParens n (rfl : Stage.operand.isEnd = true)
  | relation =>
    rw [closing, after?_cons]
    exact after?_rightParens n (rfl : Stage.closed.isEnd = true)
  | operand => exact after?_rightParens n rfl
  | closed => exact after?_rightParens n rfl

end Place

/-- The tokens lead from where a condition starts to where it may end, however many parentheses are
open around them. -/
def IsPassage (ts : List Token) : Prop :=
  ∀ n, ∃ s, s.isEnd = true ∧ (⟨n, .start⟩ : Place).after? ts = some ⟨n, s⟩

theorem IsPassage.join (c : Connective) {ts us : List Token} (hts : IsPassage ts)
    (hus : IsPassage us) : IsPassage (ts ++ c.token :: us) := by
  intro n
  obtain ⟨s, hs, hleft⟩ := hts n
  obtain ⟨s', hs', hright⟩ := hus n
  refine ⟨s', hs', ?_⟩
  rw [Place.after?_append_of hleft, Place.after?_cons, Place.next?_connective hs c]
  exact hright

theorem IsPassage.paren {ts : List Token} (h : IsPassage ts) :
    IsPassage (.leftParen :: ts ++ [.rightParen]) := by
  intro n
  obtain ⟨s, hs, hinner⟩ := h (n + 1)
  have hopen : (⟨n, .start⟩ : Place).after? (.leftParen :: ts) = some ⟨n + 1, s⟩ := hinner
  refine ⟨.closed, rfl, ?_⟩
  rw [Place.after?_append_of hopen, Place.after?_cons, Place.next?_rightParen hs]
  rfl

theorem Derives.isPassage {level : Level} {e : Expr} {ts : List Token} (h : Derives level e ts) :
    IsPassage ts := by
  induction h with
  | operand o =>
    intro n
    exact ⟨.operand, rfl, rfl⟩
  | compare left c right =>
    intro n
    exact ⟨.closed, rfl, rfl⟩
  | paren _ ih => exact ih.paren
  | not _ ih => exact ih
  | and _ _ iha ihb => exact iha.join .and ihb
  | or _ _ iha ihb => exact iha.join .or ihb
  | xor _ _ iha ihb => exact iha.join .xor ihb
  | ofPrimary _ ih | ofNegation _ ih | ofConjunction _ ih | ofDisjunction _ ih => exact ih

/-! ## The reader keeps to the places -/

/-- Each lexeme may stand where it stands, from one place to the other. -/
def Leads (p : Place) (ls : List Lexeme) (q : Place) : Prop :=
  p.after? (ls.map (·.token)) = some q

theorem leads_one {p q : Place} {l : Lexeme} (h : p.next? l.token = some q) : Leads p [l] q := by
  rw [Leads, List.map_singleton, Place.after?_cons, h]
  rfl

theorem Leads.append {p q r : Place} {front back : List Lexeme} (h : Leads p front q)
    (h' : Leads q back r) : Leads p (front ++ back) r := by
  rw [Leads, List.map_append, Place.after?_append_of h]
  exact h'

/-- The tokens that may follow a whole text of the level. -/
def Level.leaves : Level → Token → Bool
  | _, .rightParen => true
  | .primary, .and | .negation, .and => true
  | .primary, .or | .negation, .or | .conjunction, .or => true
  | .primary, .xor | .negation, .xor | .conjunction, .xor | .disjunction, .xor => true
  | _, _ => false

/-- What may follow a part of a chain goes on with the chain, or follows the chain. -/
theorem Level.leaves_of_below (c : Connective) {t : Token} (h : c.level.below.leaves t = true)
    (hne : t ≠ c.token) : c.level.leaves t = true := by
  cases c <;> cases t <;> simp_all [Connective.level, Connective.token, Level.below, Level.leaves]

theorem Level.leaves_whole {t : Token} (h : Level.whole.leaves t = true) : t = .rightParen := by
  cases t <;> simp_all [Level.leaves]

/-- No lexeme follows that may stand here. -/
def Place.IsStuck (p : Place) (rest : List Lexeme) : Prop :=
  ∀ l ∈ rest.head?, p.next? l.token = none

/-- The lexemes write a whole text of the level, `n` parentheses deep: they lead to where a condition
may end, and only what leaves the level can follow. -/
def Passes (level : Level) (n : Nat) (used rest : List Lexeme) : Prop :=
  ∃ s, s.isEnd = true ∧ Leads ⟨n, .start⟩ used ⟨n, s⟩ ∧
    ∀ l ∈ rest.head?, (Place.next? ⟨n, s⟩ l.token).isSome → level.leaves l.token = true

/-- The lexemes break off where the fault is: those before it lead to a place where no guard may end
and the next one may not stand. -/
def Fails (ending : Nat) (p : Place) (ts : List Lexeme) (f : Fault) : Prop :=
  ∃ used q rest, ts = used ++ rest ∧ Leads p used q ∧ f.offset = position ending rest ∧
    q.isEnd = false ∧ q.IsStuck rest

/-- The outcome of reading a text of the level keeps to the places. -/
def KeepsTo (ending : Nat) (level : Level) (n : Nat) (ts : List Lexeme) :
    Except Fault (Expr × List Lexeme) → Prop
  | .ok (_, rest) => ∃ used, ts = used ++ rest ∧ Passes level n used rest
  | .error f => Fails ending ⟨n, .start⟩ ts f

section Keeps
variable {ending n m : Nat}

theorem Fails.after {p q : Place} {front ts : List Lexeme} {f : Fault} (h : Fails ending q ts f)
    (hfront : Leads p front q) : Fails ending p (front ++ ts) f := by
  obtain ⟨used, r, rest, rfl, hr, hrest⟩ := h
  exact ⟨front ++ used, r, rest, (List.append_assoc _ _ _).symm, hfront.append hr, hrest⟩

/-- Reading goes on from what was read, and a fault of the first step is one of the whole. -/
theorem KeepsTo.bind {inner outer : Level} {front ts : List Lexeme}
    {first : Except Fault (Expr × List Lexeme)}
    {next : Expr × List Lexeme → Except Fault (Expr × List Lexeme)}
    (h : KeepsTo ending inner m ts first) (hfront : Leads ⟨n, .start⟩ front ⟨m, .start⟩)
    (hnext : ∀ e used rest, ts = used ++ rest → Passes inner m used rest →
      KeepsTo ending outer n (front ++ ts) (next (e, rest))) :
    KeepsTo ending outer n (front ++ ts) (first >>= next) := by
  cases first with
  | error f => exact Fails.after h hfront
  | ok read =>
    obtain ⟨e, rest⟩ := read
    obtain ⟨used, hused, hpasses⟩ := h
    exact hnext e used rest hused hpasses

/-- Where an operand has to follow and none does, reading breaks off. -/
theorem readOperand_fails {p : Place} {ts : List Lexeme} {f : Fault}
    (h : readOperand ending ts = .error f) (hend : p.isEnd = false)
    (hstuck : ∀ l ∈ ts.head?, (∀ o, l.token ≠ .operand o) → p.next? l.token = none) :
    Fails ending p ts f := by
  refine ⟨[], p, ts, rfl, rfl, ?_, hend, ?_⟩
  · rw [readOperand.eq_def] at h
    split at h <;> cases h <;> rfl
  · intro l hl
    apply hstuck l hl
    intro o ho
    cases ts with
    | nil => cases hl
    | cons t ts =>
      obtain ⟨token, start⟩ := l
      cases hl
      subst ho
      cases h

/-- An operand or a comparison keeps to the places, where no negation and no parenthesis stands. -/
theorem readComparison_keeps {ts : List Lexeme}
    (hhead : ∀ l ∈ ts.head?, l.token ≠ .not ∧ l.token ≠ .leftParen) :
    KeepsTo ending .negation n ts (readComparison ending ts) := by
  rw [readComparison]
  cases hleft : readOperand ending ts with
  | error f =>
    refine readOperand_fails hleft (Bool.and_false _) fun l hl hoperand => ?_
    obtain ⟨hnot, hparen⟩ := hhead l hl
    cases htoken : l.token with
    | operand o => exact absurd htoken (hoperand o)
    | not => exact absurd htoken hnot
    | leftParen => exact absurd htoken hparen
    | _ => rfl
  | ok read =>
    obtain ⟨left, rest⟩ := read
    obtain ⟨start, rfl⟩ := readOperand_eq_ok hleft
    rw [ok_bind]
    dsimp only
    split
    · next c opening more =>
      have hfront : Leads ⟨n, .start⟩ [⟨.operand left, start⟩, ⟨.comparison c, opening⟩]
          ⟨n, .relation⟩ := rfl
      have hend : Place.isEnd ⟨n, .relation⟩ = false := Bool.and_false _
      cases hright : readOperand ending more with
      | error f =>
        refine Fails.after (readOperand_fails hright hend fun l _ hoperand => ?_) hfront
        cases htoken : l.token with
        | operand o => exact absurd htoken (hoperand o)
        | _ => rfl
      | ok read =>
        obtain ⟨right, last⟩ := read
        obtain ⟨start', rfl⟩ := readOperand_eq_ok hright
        refine ⟨[_, _, _], rfl, .closed, rfl, rfl, fun l _ hnext => ?_⟩
        revert hnext
        cases l.token <;> simp [Place.next?, Level.leaves]
    · next hcomparison =>
      refine ⟨[_], rfl, .operand, rfl, rfl, fun l hl hnext => ?_⟩
      cases rest with
      | nil => cases hl
      | cons t rest =>
        cases hl
        obtain ⟨token, opening⟩ := l
        cases token with
        | comparison c => exact absurd rfl (hcomparison c opening rest)
        | leftParen | not | operand => cases hnext
        | rightParen | and | or | xor => rfl

section Whole
variable {room : Nat} {whole : Reader Expr}

/-- A condition between parentheses keeps to the places, if it does without them. -/
theorem readParen_keeps {start : Nat} {ts : List Lexeme}
    (hwhole : KeepsTo ending .whole (n + 1) ts (whole ts)) :
    KeepsTo ending .negation n (⟨.leftParen, start⟩ :: ts)
      (readPrimary ending whole (⟨.leftParen, start⟩ :: ts)) := by
  have hfront : Leads ⟨n, .start⟩ [⟨.leftParen, start⟩] ⟨n + 1, .start⟩ := rfl
  rw [readPrimary]
  refine hwhole.bind hfront fun e used rest hused hpasses => ?_
  obtain ⟨s, hs, hlead, hleaves⟩ := hpasses
  have hinner : Leads ⟨n, .start⟩ (⟨.leftParen, start⟩ :: used) ⟨n + 1, s⟩ := hfront.append hlead
  dsimp only
  split
  · next closing more =>
    refine ⟨⟨.leftParen, start⟩ :: used ++ [⟨.rightParen, closing⟩], ?_, .closed, rfl,
      hinner.append (leads_one (Place.next?_rightParen hs)), fun l _ hnext => ?_⟩
    · rw [hused]
      simp
    · revert hnext
      cases l.token <;> simp [Place.next?, Level.leaves]
  · next hclosing =>
    refine ⟨⟨.leftParen, start⟩ :: used, ⟨n + 1, s⟩, rest, ?_, hinner, rfl, rfl, fun l hl => ?_⟩
    · rw [hused]
      rfl
    · -- only a parenthesis leaves the condition, and there is none
      by_contra hnext
      have htoken := Level.leaves_whole (hleaves l hl (Option.isSome_iff_ne_none.mpr hnext))
      cases rest with
      | nil => cases hl
      | cons t rest =>
        cases hl
        obtain ⟨token, closing⟩ := l
        cases htoken
        exact hclosing closing rest rfl

/-- Negations before a primary keep to the places, if the reader between parentheses does. -/
theorem readNegation_keeps
    (hwhole : ∀ n ts, ts.length < room → KeepsTo ending .whole n ts (whole ts)) :
    ∀ ts : List Lexeme, ts.length ≤ room →
      KeepsTo ending .negation n ts (readNegation ending whole ts) := by
  intro ts
  induction ts with
  | nil =>
    intro _
    rw [readNegation.eq_def]
    apply readComparison_keeps
    intro l hl
    cases hl
  | cons t ts ih =>
    intro hroom
    rw [List.length_cons] at hroom
    obtain ⟨token, start⟩ := t
    cases token with
    | not =>
      have hfront : Leads ⟨n, .start⟩ [⟨.not, start⟩] ⟨n, .start⟩ := rfl
      rw [readNegation]
      refine (ih (by omega)).bind hfront fun e used rest hused hpasses => ?_
      obtain ⟨s, hs, hlead, hleaves⟩ := hpasses
      refine ⟨⟨.not, start⟩ :: used, ?_, s, hs, hfront.append hlead, hleaves⟩
      rw [hused]
      rfl
    | leftParen =>
      rw [readNegation.eq_def]
      exact readParen_keeps (hwhole (n + 1) ts (by omega))
    | rightParen | comparison | and | or | xor | operand =>
      show KeepsTo ending .negation n _ (readComparison ending _)
      apply readComparison_keeps
      intro l hl
      cases hl
      constructor <;> simp

/-- A chain keeps to the places from where some of its parts have been read. -/
theorem chainFrom_keeps (c : Connective) {next : Reader Expr}
    (hnext : ∀ n ts, ts.length ≤ room → KeepsTo ending c.level.below n ts (next ts)) (k : Nat) :
    ∀ {front ts : List Lexeme} {left : Expr}, ts.length ≤ k → ts.length ≤ room →
      Passes c.level.below n front ts →
        KeepsTo ending c.level n (front ++ ts) (chainFrom c.token c.join next k left ts) := by
  induction k with
  | zero =>
    intro front ts left hk _ hfront
    obtain rfl := List.eq_nil_of_length_eq_zero (Nat.le_zero.mp hk)
    obtain ⟨s, hs, hlead, -⟩ := hfront
    exact ⟨front, rfl, s, hs, hlead, nofun⟩
  | succ k ih =>
    intro front ts left hk hroom hfront
    obtain ⟨s, hs, hlead, hleaves⟩ := hfront
    cases ts with
    | nil => exact ⟨front, rfl, s, hs, hlead, nofun⟩
    | cons t ts =>
      rw [List.length_cons] at hk hroom
      rw [chainFrom]
      split
      · next hlink =>
        have hstart : Leads ⟨n, .start⟩ (front ++ [t]) ⟨n, .start⟩ := by
          apply hlead.append
          apply leads_one
          rw [hlink]
          exact Place.next?_connective hs c
        rw [List.append_cons]
        refine (hnext n ts (by omega)).bind hstart fun e used rest hused hpasses => ?_
        obtain ⟨s', hs', hlead', hleaves'⟩ := hpasses
        subst hused
        rw [List.length_append] at hk hroom
        rw [← List.append_assoc]
        exact ih (by omega) (by omega) ⟨s', hs', hstart.append hlead', hleaves'⟩
      · next hlink =>
        refine ⟨front, rfl, s, hs, hlead, fun l hl hstands => ?_⟩
        have hbelow := hleaves l hl hstands
        cases hl
        exact Level.leaves_of_below c hbelow hlink

theorem chain_keeps (c : Connective) {next : Reader Expr}
    (hnext : ∀ n ts, ts.length ≤ room → KeepsTo ending c.level.below n ts (next ts)) (n : Nat)
    (ts : List Lexeme) (hroom : ts.length ≤ room) :
    KeepsTo ending c.level n ts (chain c.token c.join next ts) := by
  have hfront : Leads ⟨n, .start⟩ [] ⟨n, .start⟩ := rfl
  rw [chain]
  refine (hnext n ts hroom).bind hfront fun e used rest hused hpasses => ?_
  subst hused
  rw [List.length_append] at hroom
  exact chainFrom_keeps c hnext rest.length (Nat.le_refl _) (by omega) hpasses

end Whole

/-- The reader keeps to the places, with room for as many parentheses as there are lexemes. -/
theorem readExpr_keeps (room : Nat) : ∀ n ts, ts.length < room →
    KeepsTo ending .whole n ts (readExpr ending room ts) := by
  induction room with
  | zero =>
    intro n ts hroom
    exact absurd hroom (Nat.not_lt_zero _)
  | succ room ih =>
    intro n ts hroom
    have hnegation : ∀ n ts, ts.length ≤ room →
        KeepsTo ending .negation n ts (readNegation ending (readExpr ending room) ts) :=
      fun n ts hts => readNegation_keeps ih ts hts
    have hconjunction := chain_keeps .and hnegation
    have hdisjunction := chain_keeps .or hconjunction
    exact chain_keeps .xor hdisjunction n ts (Nat.le_of_lt_succ hroom)

end Keeps

/-! ## Viable tokens -/

/-- Where the lexemes are no condition, those before the fault lead to a place where what follows may
not stand, and where no guard may end if nothing follows. -/
theorem exists_place_of_error {ending : Nat} {ls : List Lexeme} {f : Fault}
    (h : Expr.ofLexemes ending ls = .error f) (hne : ls ≠ []) :
    ∃ used q rest, ls = used ++ rest ∧ Leads .start used q ∧ f.offset = position ending rest ∧
      (rest = [] → q.isEnd = false) ∧ q.IsStuck rest := by
  have hkeeps : KeepsTo ending .whole 0 ls (readExpr ending (ls.length + 1) ls) :=
    readExpr_keeps _ 0 ls (Nat.lt_succ_self _)
  rw [Expr.ofLexemes, if_neg (by simpa using hne)] at h
  cases hread : readExpr ending (ls.length + 1) ls with
  | error f' =>
    rw [hread] at h hkeeps
    cases h
    obtain ⟨used, q, rest, hused, hlead, hoffset, hend, hstuck⟩ := hkeeps
    exact ⟨used, q, rest, hused, hlead, hoffset, fun _ => hend, hstuck⟩
  | ok read =>
    obtain ⟨e, rest⟩ := read
    rw [hread] at h hkeeps
    obtain ⟨used, hused, s, hs, hlead, hleaves⟩ := hkeeps
    cases rest with
    | nil => cases h
    | cons t rest =>
      cases h
      refine ⟨used, ⟨0, s⟩, t :: rest, hused, hlead, rfl, fun hnil => absurd hnil (List.cons_ne_nil t rest),
        fun l hl => ?_⟩
      -- only a closing parenthesis could follow, and none is open
      by_contra hnext
      have htoken := Level.leaves_whole (hleaves l hl (Option.isSome_iff_ne_none.mpr hnext))
      rw [htoken] at hnext
      exact hnext (Place.next?_rightParen_outside s)

/-- Tokens that lead to where a guard may end are derived. -/
theorem exists_derives_of_after? {ts : List Token} {p : Place} (h : Place.start.after? ts = some p)
    (hend : p.isEnd = true) : ∃ e, Derives .whole e ts := by
  have hne : ts.map (Lexeme.mk · 0) ≠ [] := by
    intro hnil
    obtain rfl := List.map_eq_nil_iff.mp hnil
    cases h
    cases hend
  cases hread : Expr.ofLexemes 0 (ts.map (Lexeme.mk · 0)) with
  | ok e =>
    have hderives := ofLexemes_eq_ok_iff.mp hread
    rw [tokens_anywhere] at hderives
    exact ⟨e, hderives⟩
  | error f =>
    obtain ⟨used, q, rest, hsplit, hlead, -, hnone, hstuck⟩ := exists_place_of_error hread hne
    have hwhole := tokens_anywhere ts
    rw [hsplit, List.map_append] at hwhole
    rw [← hwhole, Place.after?_append_of hlead] at h
    cases rest with
    | nil =>
      cases h
      rw [hnone rfl] at hend
      cases hend
    | cons t rest =>
      rw [List.map_cons, Place.after?_cons, hstuck t rfl] at h
      cases h

/-- The tokens can be continued to some that the reader takes as a condition. -/
def IsViable (ts : List Token) : Prop :=
  ∃ (ending : Nat) (ls : List Lexeme) (e : Expr),
    ts <+: ls.map (·.token) ∧ Expr.ofLexemes ending ls = .ok e

/-- Tokens can be continued to a condition exactly if each of them may stand where it stands. -/
theorem isViable_iff {ts : List Token} : IsViable ts ↔ ∃ p, Place.start.after? ts = some p := by
  constructor
  · rintro ⟨ending, ls, e, ⟨more, hls⟩, hread⟩
    obtain ⟨s, -, hlead⟩ := (ofLexemes_eq_ok_iff.mp hread).isPassage 0
    rw [← hls] at hlead
    obtain ⟨p, hp, -⟩ := Place.exists_after?_of_append hlead
    exact ⟨p, hp⟩
  · rintro ⟨p, hp⟩
    obtain ⟨q, hq, hend⟩ := p.after?_closing
    rw [← Place.after?_append_of hp] at hq
    obtain ⟨e, he⟩ := exists_derives_of_after? hq hend
    rw [← tokens_anywhere (ts ++ p.closing)] at he
    refine ⟨0, _, e, ?_, ofLexemes_eq_ok_iff.mpr he⟩
    rw [tokens_anywhere]
    exact List.prefix_append _ _

/-- Where the lexemes are no condition, those before the fault can be continued to one, and with the
next one they cannot. -/
theorem viable_of_error {ending : Nat} {ls : List Lexeme} {f : Fault}
    (h : Expr.ofLexemes ending ls = .error f) (hne : ls ≠ []) :
    ∃ used rest, ls = used ++ rest ∧ f.offset = position ending rest ∧
      IsViable (used.map (·.token)) ∧
        ∀ l ∈ rest.head?, ¬IsViable (used.map (·.token) ++ [l.token]) := by
  obtain ⟨used, q, rest, hsplit, hlead, hoffset, -, hstuck⟩ := exists_place_of_error h hne
  refine ⟨used, rest, hsplit, hoffset, isViable_iff.mpr ⟨q, hlead⟩, fun l hl hviable => ?_⟩
  obtain ⟨p, hp⟩ := isViable_iff.mp hviable
  rw [Place.after?_append_of hlead, Place.after?_cons, hstuck l hl] at hp
  cases hp

end Installer.Guard
