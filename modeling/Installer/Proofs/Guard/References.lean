import Installer.Proofs.Guard.Conjunction

/-!
# The names that a guard's text holds

Reading neither drops nor repeats an operand, and moves none: the operands of a condition are those
among the tokens that write it (`Derives.operands_eq`), whatever parentheses and connectives stand
between them. The references of a condition are therefore the names in its text from left to right
(`references_of_parse`), and a guard is checked as if its tokens were, one after the other. Which
tokens may stand in the guard of an action is said by `Token.MayStand`, with no regard to the tree.
Main statement: `check_along_tokens`.

**What it does not establish.** What a condition comes to when it is evaluated is nowhere described; a
guard is a text with references, and the installer evaluates it.
-/

set_option autoImplicit false

namespace Installer.Guard
open Result

namespace Token

/-- The operand that a token is. -/
def operand? : Token → Option Operand
  | .operand o => some o
  | _ => none

/-- The variable or state that a token refers to. -/
def reference? : Token → Option Operand
  | .operand (.variable name) => some (.variable name)
  | .operand (.state kind name) => some (.state kind name)
  | _ => none

/-- The name of what a token refers to. -/
def name? : Token → Option String
  | .operand (.variable name) | .operand (.state _ name) => some name
  | _ => none

/-- A token may stand in the guard of an action unless it refers to something unknown, or to the
action itself. -/
def MayStand (action : String) (scope : Scope) : Token → Prop
  | .operand (.variable name) => name ∈ scope.variableNames ∧ name ≠ action
  | .operand (.state .featureAction name) | .operand (.state .featureInstalled name) =>
    name ∈ scope.features ∧ name ≠ action
  | .operand (.state .componentAction name) | .operand (.state .componentInstalled name) =>
    name ∈ scope.components ∧ name ≠ action
  | _ => True

instance (action : String) (scope : Scope) : (t : Token) → Decidable (t.MayStand action scope)
  | .operand (.variable _) => inferInstanceAs (Decidable (_ ∧ _))
  | .operand (.state .featureAction _) => inferInstanceAs (Decidable (_ ∧ _))
  | .operand (.state .featureInstalled _) => inferInstanceAs (Decidable (_ ∧ _))
  | .operand (.state .componentAction _) => inferInstanceAs (Decidable (_ ∧ _))
  | .operand (.state .componentInstalled _) => inferInstanceAs (Decidable (_ ∧ _))
  | .operand (.environment _) | .operand (.text _) | .operand (.integer _) => isTrue trivial
  | .leftParen | .rightParen | .comparison _ | .not | .and | .or | .xor => isTrue trivial

/-- The references are those operands that count as such. -/
theorem reference?_eq (t : Token) : t.reference? = t.operand?.filter Operand.isReference := by
  match t with
  | .operand (.variable _) | .operand (.state _ _) => rfl
  | .operand (.environment _) | .operand (.text _) | .operand (.integer _) => rfl
  | .leftParen | .rightParen | .comparison _ | .not | .and | .or | .xor => rfl

theorem name?_eq (t : Token) : t.name? = t.reference?.bind Operand.name? := by
  match t with
  | .operand (.variable _) | .operand (.state _ _) => rfl
  | .operand (.environment _) | .operand (.text _) | .operand (.integer _) => rfl
  | .leftParen | .rightParen | .comparison _ | .not | .and | .or | .xor => rfl

end Token

/-- The operands of what is derived are those of its tokens, in their order. -/
theorem Derives.operands_eq {level : Level} {e : Expr} {ts : List Token} (h : Derives level e ts) :
    e.operands = ts.filterMap Token.operand? := by
  induction h with
  | operand | compare => rfl
  | paren _ ih =>
    rw [List.cons_append, List.filterMap_cons_none rfl, List.filterMap_append, ih]
    exact (List.append_nil _).symm
  | not _ ih => exact ih
  | and _ _ iha ihb | or _ _ iha ihb | xor _ _ iha ihb =>
    rw [Expr.operands, iha, ihb, List.filterMap_append]
    rfl
  | ofPrimary _ ih | ofNegation _ ih | ofConjunction _ ih | ofDisjunction _ ih => exact ih

/-- A parsed text has tokens, and its references are those of the tokens, in their order. -/
theorem references_of_parse {text : String} {c : Condition} (h : Condition.parse text = .ok c) :
    ∃ ls, lexemes text = .ok ls ∧ c.references = ls.filterMap (·.token.reference?) := by
  obtain ⟨ls, hls, hread⟩ := bind_eq_ok.mp h
  obtain ⟨e, he, hdone⟩ := bind_eq_ok.mp hread
  cases hdone
  refine ⟨ls, hls, ?_⟩
  have hoperands : e.operands = (ls.map (·.token)).filterMap Token.operand? :=
    (ofLexemes_eq_ok_iff.mp he).operands_eq
  calc e.operands.filter Operand.isReference
      = (ls.map (·.token)).filterMap (fun t => t.operand?.filter Operand.isReference) := by
        rw [hoperands, List.filter_filterMap]
    _ = ls.filterMap (·.token.reference?) := by
        rw [List.filterMap_map]
        congr 1
        funext l
        exact l.token.reference?_eq.symm

section Check
variable {action : String} {scope : Scope}

/-- What a reference breaks: that it names the action counts before that it may be unknown. -/
theorem checkReference_eq_error_iff {o : Operand} {v : Violation} :
    checkReference action scope o = .error v ↔
      ∃ name, o.name? = some name ∧ ¬(name ≠ action ∧ name ∈ scope.namesFor o) ∧
        v = if name = action then .guardDependsOnAction action
          else .unknownGuardVariable action name := by
  rw [checkReference]
  cases o.name? with
  | none => simp
  | some name =>
    by_cases hname : name = action
    · simp [hname, @eq_comm _ v]
    · by_cases hknown : name ∈ scope.namesFor o <;> simp [hname, hknown, @eq_comm _ v]

/-- Checks what a token refers to, if it does. -/
def checkToken (action : String) (scope : Scope) (t : Token) : Except Violation Unit :=
  t.reference?.elim (.ok ()) (checkReference action scope)

/-- A token passes exactly if it may stand in the guard. -/
theorem checkToken_eq_ok_iff {t : Token} :
    checkToken action scope t = .ok () ↔ t.MayStand action scope := by
  match t with
  | .operand (.variable name) =>
    show checkReference action scope (.variable name) = .ok () ↔ _
    rw [checkReference_eq_ok_iff]
    simp [Token.MayStand, Operand.name?, Scope.namesFor, and_comm]
  | .operand (.state kind name) =>
    show checkReference action scope (.state kind name) = .ok () ↔ _
    rw [checkReference_eq_ok_iff]
    cases kind <;> simp [Token.MayStand, Operand.name?, Scope.namesFor, StateKind.isOfFeature,
      and_comm]
  | .operand (.environment _) | .operand (.text _) | .operand (.integer _) =>
    simp [checkToken, Token.reference?, Token.MayStand]
  | .leftParen | .rightParen | .comparison _ | .not | .and | .or | .xor =>
    simp [checkToken, Token.reference?, Token.MayStand]

/-- A token that may not stand in the guard has a name, and it is the name that is reported. -/
theorem checkToken_eq_error_iff {t : Token} {v : Violation} :
    checkToken action scope t = .error v ↔
      ¬t.MayStand action scope ∧ ∃ name, t.name? = some name ∧
        v = if name = action then .guardDependsOnAction action
          else .unknownGuardVariable action name := by
  rw [← checkToken_eq_ok_iff, checkToken, Token.name?_eq]
  cases t.reference? with
  | none => simp
  | some o =>
    simp only [Option.elim_some, Option.bind_some, checkReference_eq_ok_iff,
      checkReference_eq_error_iff]
    cases o.name? with
    | none => simp
    | some name => simp

/-- Names are checked where they stand among the tokens. -/
theorem forM_references (ls : List Lexeme) :
    (ls.filterMap (·.token.reference?)).forM (checkReference action scope) =
      ls.forM fun l => checkToken action scope l.token := by
  induction ls with
  | nil => rfl
  | cons l ls ih =>
    rw [List.filterMap_cons, List.forM, ← ih, checkToken]
    cases l.token.reference? <;> rfl

/-- The guard of a text that is parsed is checked token by token. -/
theorem check_of_parse {text : String} {c : Condition} (h : Condition.parse text = .ok c)
    {ls : List Lexeme} (hreferences : c.references = ls.filterMap (·.token.reference?)) :
    check action text scope =
      ls.forM (fun l => checkToken action scope l.token) >>= fun _ => .ok c := by
  unfold check
  rw [h, ← forM_references, ← hreferences]
  rfl

end Check

/-- A guard is accepted exactly if its text is a condition and every token in it, at whatever place,
may stand there; a text that is no condition is reported as such, and otherwise the first token that
may not stand there is reported. The references of a condition are the variables and states among
the tokens of its text, from left to right and with repeats. -/
theorem check_along_tokens (action text : String) (scope : Scope) :
    (∀ fault, Condition.parse text = .error fault →
      check action text scope = .error (.malformedGuard action fault)) ∧
    ∀ c, Condition.parse text = .ok c → ∃ ls, lexemes text = .ok ls ∧
      c.references = ls.filterMap (·.token.reference?) ∧
      (∀ d, check action text scope = .ok d ↔
        d = c ∧ ∀ l ∈ ls, l.token.MayStand action scope) ∧
      ∀ v, check action text scope = .error v ↔
        ∃ front l back, ls = front ++ l :: back ∧
          (∀ k ∈ front, k.token.MayStand action scope) ∧ ¬l.token.MayStand action scope ∧
            ∃ name, l.token.name? = some name ∧
              v = if name = action then .guardDependsOnAction action
                else .unknownGuardVariable action name := by
  refine ⟨fun fault h => ?_, fun c h => ?_⟩
  · unfold check
    rw [h]
  · obtain ⟨ls, hls, hreferences⟩ := references_of_parse h
    have hcheck : check action text scope =
        ls.forM (fun l => checkToken action scope l.token) >>= fun _ => .ok c :=
      check_of_parse h hreferences
    refine ⟨ls, hls, hreferences, fun d => ?_, fun v => ?_⟩
    · rw [hcheck, check_bind_eq_ok, forM_eq_ok]
      simp only [checkToken_eq_ok_iff, Except.ok.injEq]
      exact ⟨fun ⟨hall, hd⟩ => ⟨hd.symm, hall⟩, fun ⟨hd, hall⟩ => ⟨hall, hd.symm⟩⟩
    · rw [hcheck, bind_eq_error, forM_eq_error_iff]
      simp only [checkToken_eq_ok_iff, checkToken_eq_error_iff, reduceCtorEq, and_false,
        exists_false, or_false]

/-- A guard of an action `Launch` that names it, as a text, an environment variable and at last as a
variable. -/
def selfish : String := "\"Launch\" = %Launch OR NOT (&Core = 3) AND Launch <> Missing"

/-- Its tokens before the variable. -/
def selfishFront : List Lexeme :=
  [⟨.operand (.text "Launch"), 0⟩, ⟨.comparison ⟨.equal, false⟩, 9⟩,
    ⟨.operand (.environment "Launch"), 11⟩, ⟨.or, 19⟩, ⟨.not, 22⟩, ⟨.leftParen, 26⟩,
    ⟨.operand (.state .featureAction "Core"), 27⟩, ⟨.comparison ⟨.equal, false⟩, 33⟩,
    ⟨.operand (.integer 3), 35⟩, ⟨.rightParen, 36⟩, ⟨.and, 38⟩]

/-- Its tokens after the variable. -/
def selfishBack : List Lexeme :=
  [⟨.comparison ⟨.notEqual, false⟩, 49⟩, ⟨.operand (.variable "Missing"), 52⟩]

theorem check_along_tokens_selfish : ∃ c, Condition.parse selfish = .ok c ∧
    c.references = [.state .featureAction "Core", .variable "Launch", .variable "Missing"] ∧
      check "Launch" selfish ⟨builtins, ["Core"], []⟩ = .error (.guardDependsOnAction "Launch") := by
  have hlexemes : lexemes selfish =
      .ok (selfishFront ++ ⟨.operand (.variable "Launch"), 42⟩ :: selfishBack) := by
    decide +kernel
  obtain ⟨c, hparse⟩ : ∃ c, Condition.parse selfish = .ok c :=
    exists_of_isOk (by decide +kernel)
  obtain ⟨ls, hls, hreferences, -, herror⟩ :=
    (check_along_tokens "Launch" selfish ⟨builtins, ["Core"], []⟩).2 c hparse
  obtain rfl : selfishFront ++ ⟨.operand (.variable "Launch"), 42⟩ :: selfishBack = ls :=
    Except.ok.inj (hlexemes.symm.trans hls)
  refine ⟨c, hparse, hreferences, (herror _).mpr ?_⟩
  exact ⟨selfishFront, _, selfishBack, rfl, by decide, by decide, "Launch", rfl, rfl⟩

end Installer.Guard
