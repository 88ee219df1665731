import Installer.Guard.Condition
import Installer.Proofs.Result

/-!
# The grammar of guards, and that the reader decides it

`Derives` is the grammar: at each level a connective joins what stands on its left at the same level
with what stands on its right one level below, so connectives associate to the left. What the reader
reads is derived (`readExpr_reads`), and what is derived is read up to a token that cannot continue
it (`Derives.read`). Main statement: `ofLexemes_eq_ok_iff`.

Both directions follow the reader function by function. What is read may be the front of a longer
chain, and so the induction over derivations says more than the main statement: reading gives the
condition, or arrives where the chain goes on from it (`ReadsBack`).

**What it does not establish.** Tokens that the grammar does not derive are refused, and where the
fault is put is not said here.
-/

set_option autoImplicit false

namespace Installer.Guard
open Result

/-- The levels of the grammar, from the tightest. -/
inductive Level
  | primary
  | negation
  | conjunction
  | disjunction
  | whole

/-- The tokens write a condition at a level. -/
inductive Derives : Level → Expr → List Token → Prop
  | operand (o : Operand) : Derives .primary (.operand o) [.operand o]
  | compare (left : Operand) (c : Comparison) (right : Operand) :
    Derives .primary (.compare left c right) [.operand left, .comparison c, .operand right]
  | paren {e : Expr} {ts : List Token} : Derives .whole e ts →
    Derives .primary e (.leftParen :: ts ++ [.rightParen])
  | not {e : Expr} {ts : List Token} : Derives .negation e ts →
    Derives .negation (.not e) (.not :: ts)
  | and {a b : Expr} {ts us : List Token} : Derives .conjunction a ts → Derives .negation b us →
    Derives .conjunction (.and a b) (ts ++ .and :: us)
  | or {a b : Expr} {ts us : List Token} : Derives .disjunction a ts → Derives .conjunction b us →
    Derives .disjunction (.or a b) (ts ++ .or :: us)
  | xor {a b : Expr} {ts us : List Token} : Derives .whole a ts → Derives .disjunction b us →
    Derives .whole (.xor a b) (ts ++ .xor :: us)
  | ofPrimary {e : Expr} {ts : List Token} : Derives .primary e ts → Derives .negation e ts
  | ofNegation {e : Expr} {ts : List Token} : Derives .negation e ts → Derives .conjunction e ts
  | ofConjunction {e : Expr} {ts : List Token} :
    Derives .conjunction e ts → Derives .disjunction e ts
  | ofDisjunction {e : Expr} {ts : List Token} : Derives .disjunction e ts → Derives .whole e ts

/-! ## What is read is derived -/

/-- What the reader takes off the front of the lexemes is derived. -/
def Reads (reader : Reader Expr) (level : Level) : Prop :=
  ∀ ts e rest, reader ts = .ok (e, rest) →
    ∃ used, ts = used ++ rest ∧ Derives level e (used.map (·.token))

theorem readOperand_eq_ok {ending : Nat} {ts rest : List Lexeme} {o : Operand}
    (h : readOperand ending ts = .ok (o, rest)) : ∃ start, ts = ⟨.operand o, start⟩ :: rest := by
  rw [readOperand.eq_def] at h
  split at h <;> cases h
  exact ⟨_, rfl⟩

theorem readComparison_reads (ending : Nat) : Reads (readComparison ending) .primary := by
  intro ts e rest h
  obtain ⟨⟨left, more⟩, hleft, hrest⟩ := bind_eq_ok.mp h
  obtain ⟨start, rfl⟩ := readOperand_eq_ok hleft
  dsimp only at hrest
  split at hrest
  · obtain ⟨⟨right, last⟩, hright, hdone⟩ := bind_eq_ok.mp hrest
    obtain ⟨start', rfl⟩ := readOperand_eq_ok hright
    cases hdone
    exact ⟨[_, _, _], rfl, .compare _ _ _⟩
  · cases hrest
    exact ⟨[_], rfl, .operand _⟩

section Whole
variable {ending : Nat} {whole : Reader Expr} (hwhole : Reads whole .whole)
include hwhole

theorem readPrimary_reads : Reads (readPrimary ending whole) .primary := by
  intro ts e rest h
  rw [readPrimary.eq_def] at h
  split at h
  · next opening _ =>
    obtain ⟨⟨inner, more⟩, hinner, hrest⟩ := bind_eq_ok.mp h
    obtain ⟨used, rfl, hderives⟩ := hwhole _ _ _ hinner
    dsimp only at hrest
    split at hrest
    · next start last =>
      cases hrest
      refine ⟨⟨.leftParen, opening⟩ :: used ++ [⟨.rightParen, start⟩], by simp, ?_⟩
      simpa using hderives.paren
    · cases hrest
  · exact readComparison_reads ending _ _ _ h

theorem readNegation_reads : Reads (readNegation ending whole) .negation := by
  intro ts
  induction ts with
  | nil =>
    intro e rest h
    obtain ⟨used, hused, hderives⟩ := readPrimary_reads hwhole _ _ _ h
    exact ⟨used, hused, .ofPrimary hderives⟩
  | cons t ts ih =>
    intro e rest h
    rw [readNegation.eq_def] at h
    split at h
    · next heq =>
      cases heq
      obtain ⟨⟨inner, more⟩, hinner, hrest⟩ := bind_eq_ok.mp h
      obtain ⟨used, rfl, hderives⟩ := ih _ _ hinner
      cases hrest
      exact ⟨⟨.not, _⟩ :: used, rfl, .not hderives⟩
    · obtain ⟨used, hused, hderives⟩ := readPrimary_reads hwhole _ _ _ h
      exact ⟨used, hused, .ofPrimary hderives⟩

end Whole

section Chain
variable {link : Token} {join : Expr → Expr → Expr} {next : Reader Expr} {inner outer : Level}
  (hnext : Reads next inner)
  (hmore : ∀ {a b ts us}, Derives outer a ts → Derives inner b us →
    Derives outer (join a b) (ts ++ link :: us))
include hnext hmore

/-- Parts that follow a derived front are derived together with it. -/
theorem chainFrom_reads (n : Nat) : ∀ {front ts rest : List Lexeme} {left e : Expr},
    Derives outer left (front.map (·.token)) → chainFrom link join next n left ts = .ok (e, rest) →
      ∃ used, front ++ ts = used ++ rest ∧ Derives outer e (used.map (·.token)) := by
  induction n with
  | zero =>
    intro front ts rest left e hleft h
    rw [chainFrom.eq_def] at h
    cases h
    exact ⟨front, rfl, hleft⟩
  | succ n ih =>
    intro front ts rest left e hleft h
    cases ts with
    | nil =>
      cases h
      exact ⟨front, rfl, hleft⟩
    | cons t more =>
      rw [chainFrom] at h
      split at h
      · next hlink =>
        obtain ⟨⟨right, last⟩, hright, hrest⟩ := bind_eq_ok.mp h
        obtain ⟨used, rfl, hderives⟩ := hnext _ _ _ hright
        have hjoined := hmore hleft hderives
        rw [← hlink, ← List.map_cons, ← List.map_append] at hjoined
        obtain ⟨all, hall, hderives⟩ := ih hjoined hrest
        exact ⟨all, by simpa using hall, hderives⟩
      · cases h
        exact ⟨front, rfl, hleft⟩

theorem chain_reads (hone : ∀ {e ts}, Derives inner e ts → Derives outer e ts) :
    Reads (chain link join next) outer := by
  intro ts e rest h
  obtain ⟨⟨left, more⟩, hleft, hrest⟩ := bind_eq_ok.mp h
  obtain ⟨used, rfl, hderives⟩ := hnext _ _ _ hleft
  exact chainFrom_reads hnext hmore _ (hone hderives) hrest

end Chain

/-- Whatever the reader reads as a condition is derived, however deep it may go. -/
theorem readExpr_reads (ending depth : Nat) : Reads (readExpr ending depth) .whole := by
  induction depth with
  | zero =>
    intro ts e rest h
    cases h
  | succ depth ih =>
    have hnegation : Reads (readNegation ending (readExpr ending depth)) .negation :=
      readNegation_reads ih
    have hconjunction := chain_reads hnegation .and .ofNegation
    have hdisjunction := chain_reads hconjunction .or .ofConjunction
    exact chain_reads hdisjunction .xor .ofDisjunction

/-! ## What is derived is read -/

/-- The tokens with which a text at a level can go on. -/
def Level.goesOn : Level → Token → Bool
  | _, .comparison _ => true
  | .conjunction, .and | .disjunction, .and | .whole, .and => true
  | .disjunction, .or | .whole, .or => true
  | .whole, .xor => true
  | _, _ => false

/-- What follows does not go on at the level. -/
def Ends (level : Level) (rest : List Lexeme) : Prop :=
  ∀ t ∈ rest.head?, level.goesOn t.token = false

/-- The level below, from which the parts of a level are taken. -/
def Level.below : Level → Level
  | .primary | .negation => .primary
  | .conjunction => .negation
  | .disjunction => .conjunction
  | .whole => .disjunction

theorem Ends.below {level : Level} {rest : List Lexeme} (h : Ends level rest) :
    Ends level.below rest := by
  rintro ⟨token, start⟩ ht
  have hends := h _ ht
  revert hends
  cases level <;> cases token <;> simp [Level.goesOn, Level.below]

section Chain
variable {link : Token} {join : Expr → Expr → Expr} {next : Reader Expr}

/-- Reading the lexemes comes to going on from the condition that they write. -/
def Arrives (link : Token) (join : Expr → Expr → Expr) (next : Reader Expr) (e : Expr)
    (ls rest : List Lexeme) : Prop :=
  ∃ n, rest.length ≤ n ∧ chain link join next (ls ++ rest) = chainFrom link join next n e rest

theorem arrives_one {e : Expr} {ls rest : List Lexeme} (h : next (ls ++ rest) = .ok (e, rest)) :
    Arrives link join next e ls rest :=
  ⟨rest.length, Nat.le_refl _, by rw [chain, h, ok_bind]⟩

theorem Arrives.more {a b : Expr} {ls us rest : List Lexeme} {t : Lexeme}
    (h : Arrives link join next a ls (t :: (us ++ rest))) (hlink : t.token = link)
    (hnext : next (us ++ rest) = .ok (b, rest)) :
    Arrives link join next (join a b) (ls ++ t :: us) rest := by
  obtain ⟨n, hn, hchain⟩ := h
  cases n with
  | zero => exact absurd hn (Nat.not_succ_le_zero _)
  | succ n =>
    rw [List.length_cons, List.length_append] at hn
    refine ⟨n, by omega, ?_⟩
    rw [List.append_assoc, List.cons_append, hchain, chainFrom, if_pos hlink, hnext, ok_bind]

/-- Where no further part follows, the chain is read. -/
theorem Arrives.done {e : Expr} {ls rest : List Lexeme} (h : Arrives link join next e ls rest)
    (hrest : ∀ t ∈ rest.head?, t.token ≠ link) :
    chain link join next (ls ++ rest) = .ok (e, rest) := by
  obtain ⟨n, -, hchain⟩ := h
  rw [hchain]
  cases rest with
  | nil => cases n <;> rfl
  | cons t rest =>
    cases n with
    | zero => rfl
    | succ n => rw [chainFrom, if_neg (hrest t rfl)]

end Chain

/-- The reader of a level, with as much room for parentheses as there is. -/
def readerAt (ending depth : Nat) : Level → Reader Expr
  | .primary => readPrimary ending (readExpr ending depth)
  | .negation => readNegation ending (readExpr ending depth)
  | .conjunction => chain .and .and <| readNegation ending (readExpr ending depth)
  | .disjunction => chain .or .or <| chain .and .and <| readNegation ending (readExpr ending depth)
  | .whole => readExpr ending (depth + 1)

/-- Reading the lexemes at a level gives the condition, or goes on from it. -/
def ReadsBack (ending depth : Nat) (e : Expr) (ls rest : List Lexeme) : Level → Prop
  | .primary => readerAt ending depth .primary (ls ++ rest) = .ok (e, rest)
  | .negation => readerAt ending depth .negation (ls ++ rest) = .ok (e, rest)
  | .conjunction => Arrives .and .and (readerAt ending depth .negation) e ls rest
  | .disjunction => Arrives .or .or (readerAt ending depth .conjunction) e ls rest
  | .whole => Arrives .xor .xor (readerAt ending depth .disjunction) e ls rest

theorem ReadsBack.read {ending depth : Nat} {e : Expr} {ls rest : List Lexeme} {level : Level}
    (h : ReadsBack ending depth e ls rest level) (hends : Ends level rest) :
    readerAt ending depth level (ls ++ rest) = .ok (e, rest) := by
  cases level with
  | primary | negation => exact h
  | conjunction | disjunction | whole =>
    refine h.done fun t ht hlink => ?_
    have hgoes := hends t ht
    rw [hlink] at hgoes
    cases hgoes

theorem readPrimary_of_operand {ending : Nat} {whole : Reader Expr} {o : Operand} {start : Nat}
    {rest : List Lexeme} : readPrimary ending whole (⟨.operand o, start⟩ :: rest) =
      readComparison ending (⟨.operand o, start⟩ :: rest) := by
  rw [readPrimary.eq_def]

/-- What a primary writes does not start with a negation. -/
theorem readNegation_of_primary {ending : Nat} {whole : Reader Expr} {ts rest : List Lexeme}
    {e : Expr} (h : readPrimary ending whole ts = .ok (e, rest)) :
    readNegation ending whole ts = .ok (e, rest) := by
  rw [readNegation.eq_def]
  split
  · cases h
  · exact h

/-- What is derived is read back, whatever follows that does not go on. -/
theorem Derives.readsBack {ending : Nat} {level : Level} {e : Expr} {ts : List Token}
    (h : Derives level e ts) : ∀ {depth : Nat} {ls rest : List Lexeme}, ls.map (·.token) = ts →
      ts.length ≤ depth → Ends level.below rest → ReadsBack ending depth e ls rest level := by
  induction h with
  | operand o =>
    intro depth ls rest hls _ hends
    obtain ⟨⟨_, start⟩, rfl, rfl⟩ := List.map_eq_singleton_iff.mp hls
    have hread : readComparison ending (⟨.operand o, start⟩ :: rest) = .ok (.operand o, rest) := by
      match rest, hends with
      | [], _ => rfl
      | ⟨.comparison _, _⟩ :: _, hends => exact absurd (hends _ rfl) (by simp [Level.goesOn])
      | ⟨.leftParen, _⟩ :: _, _ | ⟨.rightParen, _⟩ :: _, _ | ⟨.not, _⟩ :: _, _ => rfl
      | ⟨.and, _⟩ :: _, _ | ⟨.or, _⟩ :: _, _ | ⟨.xor, _⟩ :: _, _ | ⟨.operand _, _⟩ :: _, _ => rfl
    show readPrimary ending (readExpr ending depth) (⟨.operand o, start⟩ :: rest) = _
    rw [readPrimary_of_operand, hread]
  | compare left c right =>
    intro depth ls rest hls _ _
    obtain ⟨⟨_, start⟩, more, rfl, rfl, hmore⟩ := List.map_eq_cons_iff.mp hls
    obtain ⟨⟨_, _⟩, last, rfl, rfl, hlast⟩ := List.map_eq_cons_iff.mp hmore
    obtain ⟨⟨_, _⟩, rfl, rfl⟩ := List.map_eq_singleton_iff.mp hlast
    show readPrimary ending (readExpr ending depth) (⟨.operand left, start⟩ :: _) = _
    rw [readPrimary_of_operand]
    rfl
  | @paren e ts _ ih =>
    intro depth ls rest hls hdepth _
    obtain ⟨⟨_, opening⟩, more, rfl, rfl, hmore⟩ := List.map_eq_cons_iff.mp hls
    obtain ⟨inner, last, rfl, hinner, hlast⟩ := List.map_eq_append_iff.mp hmore
    obtain ⟨⟨_, closing⟩, rfl, rfl⟩ := List.map_eq_singleton_iff.mp hlast
    simp only [List.cons_append, List.length_cons, List.length_append] at hdepth
    obtain ⟨room, rfl⟩ : ∃ room, depth = room + 1 := ⟨depth - 1, by omega⟩
    have hclose : ∀ level : Level, Ends level (⟨.rightParen, closing⟩ :: rest) := by
      rintro level t ht
      cases ht
      cases level <;> rfl
    have hread : readExpr ending (room + 1) (inner ++ ⟨.rightParen, closing⟩ :: rest) =
        .ok (e, ⟨.rightParen, closing⟩ :: rest) :=
      (ih hinner (by omega) (hclose _)).read (hclose _)
    show readPrimary ending (readExpr ending (room + 1))
      (⟨.leftParen, opening⟩ :: (inner ++ [⟨.rightParen, closing⟩]) ++ rest) = _
    rw [List.cons_append, List.append_assoc, List.singleton_append, readPrimary, hread, ok_bind]
    rfl
  | @not e ts _ ih =>
    intro depth ls rest hls hdepth hends
    obtain ⟨⟨_, start⟩, inner, rfl, rfl, hinner⟩ := List.map_eq_cons_iff.mp hls
    have hread : readNegation ending (readExpr ending depth) (inner ++ rest) = .ok (e, rest) :=
      ih hinner (Nat.le_of_succ_le hdepth) hends
    show readNegation ending (readExpr ending depth) (⟨.not, start⟩ :: (inner ++ rest)) = _
    rw [readNegation, hread, ok_bind]
    rfl
  | @and a b ts us _ _ iha ihb =>
    intro depth ls rest hls hdepth hends
    obtain ⟨front, more, rfl, hfront, hmore⟩ := List.map_eq_append_iff.mp hls
    obtain ⟨t, back, rfl, htoken, hback⟩ := List.map_eq_cons_iff.mp hmore
    rw [List.length_append, List.length_cons] at hdepth
    have hlink : Ends .negation (t :: (back ++ rest)) := by
      rintro _ ⟨⟩
      rw [htoken]
      rfl
    have hroom : us.length ≤ depth := by omega
    exact (iha hfront (by omega) hlink).more htoken (ihb hback hroom hends.below)
  | @or a b ts us _ _ iha ihb =>
    intro depth ls rest hls hdepth hends
    obtain ⟨front, more, rfl, hfront, hmore⟩ := List.map_eq_append_iff.mp hls
    obtain ⟨t, back, rfl, htoken, hback⟩ := List.map_eq_cons_iff.mp hmore
    rw [List.length_append, List.length_cons] at hdepth
    have hlink : Ends .conjunction (t :: (back ++ rest)) := by
      rintro _ ⟨⟩
      rw [htoken]
      rfl
    have hroom : us.length ≤ depth := by omega
    have hread := (ihb hback hroom hends.below).read hends
    exact (iha hfront (by omega) hlink).more htoken hread
  | @xor a b ts us _ _ iha ihb =>
    intro depth ls rest hls hdepth hends
    obtain ⟨front, more, rfl, hfront, hmore⟩ := List.map_eq_append_iff.mp hls
    obtain ⟨t, back, rfl, htoken, hback⟩ := List.map_eq_cons_iff.mp hmore
    rw [List.length_append, List.length_cons] at hdepth
    have hlink : Ends .disjunction (t :: (back ++ rest)) := by
      rintro _ ⟨⟩
      rw [htoken]
      rfl
    have hroom : us.length ≤ depth := by omega
    have hread := (ihb hback hroom hends.below).read hends
    exact (iha hfront (by omega) hlink).more htoken hread
  | ofPrimary _ ih =>
    intro depth ls rest hls hdepth hends
    exact readNegation_of_primary (ih hls hdepth hends)
  | ofNegation _ ih =>
    intro depth ls rest hls hdepth hends
    exact arrives_one (ih hls hdepth hends.below)
  | ofConjunction _ ih =>
    intro depth ls rest hls hdepth hends
    exact arrives_one ((ih hls hdepth hends.below).read hends)
  | ofDisjunction _ ih =>
    intro depth ls rest hls hdepth hends
    exact arrives_one ((ih hls hdepth hends.below).read hends)

theorem Derives.ne_nil {level : Level} {e : Expr} {ts : List Token} (h : Derives level e ts) :
    ts ≠ [] := by
  induction h with
  | operand | compare | paren | not => exact List.cons_ne_nil _ _
  | and | or | xor => simp
  | ofPrimary _ ih | ofNegation _ ih | ofConjunction _ ih | ofDisjunction _ ih => exact ih

/-- Lexemes are read as a condition exactly if their tokens write it. -/
theorem ofLexemes_eq_ok_iff {ending : Nat} {ts : List Lexeme} {e : Expr} :
    Expr.ofLexemes ending ts = .ok e ↔ Derives .whole e (ts.map (·.token)) := by
  constructor
  · intro h
    rw [Expr.ofLexemes] at h
    split at h
    · cases h
    · obtain ⟨⟨read, rest⟩, hread, hdone⟩ := bind_eq_ok.mp h
      split at hdone
      · next heq =>
        cases heq
        cases hdone
        obtain ⟨used, hused, hderives⟩ := readExpr_reads _ _ _ _ _ hread
        rw [List.append_nil] at hused
        rwa [hused]
      · cases hdone
  · intro h
    have hends : ∀ level : Level, Ends level [] := fun _ _ ht => nomatch ht
    have hread : readExpr ending (ts.length + 1) (ts ++ []) = .ok (e, []) :=
      (h.readsBack rfl (Nat.le_of_eq (List.length_map _)) (hends _)).read (hends .whole)
    have hempty : ts.isEmpty = false := by
      rw [List.isEmpty_eq_false_iff]
      exact fun he => h.ne_nil (by rw [he]; rfl)
    rw [List.append_nil] at hread
    rw [Expr.ofLexemes, hempty, hread]
    rfl

end Installer.Guard
