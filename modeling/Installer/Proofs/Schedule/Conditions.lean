import Installer.Proofs.Guard.Conjunction
import Installer.Proofs.Schedule.Checks
import Installer.Proofs.Schedule.Numbers
import Installer.Proofs.Schedule.Soundness

/-!
# The conditions of the steps

Guards that are accepted for an action make a condition that is accepted for it
(`conditionOf_accepts`), and the guards of an action's links are those that the rules declare
(`guardsOf_related`). So the condition of a step is the conjunction of the declared guards, as these
are parsed (`conditionOf_conjoins`), and it is accepted as a guard of the step in the scope in which
the schedule is made (`make_conditions`). Main statement: `make_conjoins`.

The guards of links are related to those of rules one by one, so that the induction is on guards alone
(`exists_conditions`). What the joined text writes is known of texts in parentheses.

**What it does not establish.** Conditions are compared as trees, with the guards in the order of the
rules. The text of a condition is put together from the guards in parentheses and is not asked to be
short.
-/

set_option autoImplicit false

namespace Installer.Schedule
open Guard Result

section Links
variable {scope : Guard.Scope} {links : List Link} {step : String}

/-- The guards of the links of a step, in the order of the rules. -/
def guardsOf (links : List Link) (step : String) : List String :=
  (links.filter (·.subject = step)).filterMap (·.guard)

/-- Accepted guards make a condition that is accepted for the step and writes their conjunction. -/
theorem conditionOf_accepts {guard : String} {e : Expr} {guards : List String} {es : List Expr}
    (hguards : guardsOf links step = guard :: guards) (he : Accepts step scope guard e)
    (hes : List.Forall₂ (Accepts step scope) guards es) :
    ∃ text, conditionOf links step = some text ∧ Accepts step scope text (es.foldl .and e) := by
  rw [guardsOf] at hguards
  cases hes with
  | nil => exact ⟨guard, by rw [conditionOf, hguards], he⟩
  | cons he' hes' =>
    refine ⟨_, ?_, accepts_intercalate he (.cons he' hes')⟩
    rw [conditionOf, hguards]
    rfl

theorem conditionOf_eq_none (hguards : guardsOf links step = []) :
    conditionOf links step = none := by
  rw [guardsOf] at hguards
  rw [conditionOf, hguards]

end Links

/-! ## The conjunction of the declared guards -/

/-- The guards that rules declare for a step, in the order of the rules. -/
def declaredGuards (rules : List Manifest.Rule) (step : String) : List String :=
  (rules.filter (·.action = step)).filterMap (·.condition)

/-- What the guards of an action come to: no condition without guards, and otherwise one that the
action may have and that is the conjunction, joined to the left, of the guards in their order. -/
inductive Conjoins (action : String) (scope : Guard.Scope) : List String → Option String → Prop
  | unguarded : Conjoins action scope [] none
  | guarded {guard text : String} {guards : List String} {first whole : Condition}
    {others : List Condition} :
    Condition.parse guard = .ok first →
    List.Forall₂ (fun g c => Condition.parse g = .ok c) guards others →
    Condition.parse text = .ok whole → Guard.check action text scope = .ok whole →
    whole.expr = (others.map (·.expr)).foldl .and first.expr →
      Conjoins action scope (guard :: guards) (some text)

/-- A link keeps the guard of its rule, checked and trimmed. -/
theorem guardOf_related {scope : Guard.Scope} {r : Manifest.Rule} {kept : Option String}
    (h : guardOf scope r = .ok kept) :
    Option.Rel (fun guard kept => ∃ c, Guard.check r.action guard scope = .ok c ∧ c.text = kept)
      r.condition kept := by
  unfold guardOf at h
  split at h
  · next hnone =>
    cases h
    rw [hnone]
    exact .none
  · next guard hguard =>
    simp only [throw_bind, ite_error_eq_ok, bind_eq_ok] at h
    obtain ⟨-, c, hcheck, hdone⟩ := h
    cases hdone
    rw [hguard]
    exact .some ⟨c, hcheck, rfl⟩

/-- The guards of the links of a step are those that the rules declare for it, checked and
trimmed. -/
theorem guardsOf_related {scope : Guard.Scope} {steps : List String} {rules : List Manifest.Rule}
    {links : List Link} {step : String}
    (h : List.Forall₂ (fun r l => Link.ofRule steps scope r = .ok l) rules links) :
    List.Forall₂ (fun guard kept => ∃ c, Guard.check step guard scope = .ok c ∧ c.text = kept)
      (declaredGuards rules step) (guardsOf links step) := by
  induction h with
  | nil => exact .nil
  | @cons r l rules links hlink _ ih =>
    obtain ⟨hsubject, -, -, -, -, hguard⟩ := Link.ofRule_eq_ok hlink
    simp only [declaredGuards, guardsOf, List.filter_cons, hsubject] at ih ⊢
    by_cases hstep : r.action = step
    · subst hstep
      simp only [decide_true, if_true, List.filterMap_cons]
      have hrelated := guardOf_related hguard
      clear hguard
      generalize r.condition = guard, l.guard = kept at hrelated ⊢
      cases hrelated with
      | none => exact ih
      | some hkept => exact .cons hkept ih
    · simpa only [hstep, decide_false, Bool.false_eq_true, if_false] using ih

/-- Guards that are checked and trimmed stand for the conditions that they were declared as. -/
theorem exists_conditions {scope : Guard.Scope} {step : String} {guards kept : List String}
    (h : List.Forall₂ (fun guard kept => ∃ c, Guard.check step guard scope = .ok c ∧ c.text = kept)
      guards kept) :
    ∃ cs, List.Forall₂ (fun guard c => Condition.parse guard = .ok c) guards cs ∧
      List.Forall₂ (Accepts step scope) kept (cs.map (·.expr)) := by
  induction h with
  | nil => exact ⟨[], .nil, .nil⟩
  | cons hguard _ ih =>
    obtain ⟨c, hcheck, rfl⟩ := hguard
    obtain ⟨cs, hparse, haccepts⟩ := ih
    exact ⟨c :: cs, .cons (check_eq_ok_iff.mp hcheck).1 hparse,
      .cons (accepts_of_check hcheck) haccepts⟩

/-- The condition of the links of a step conjoins the guards that the rules declare for it. -/
theorem conditionOf_conjoins {scope : Guard.Scope} {steps : List String}
    {rules : List Manifest.Rule} {links : List Link} {step : String}
    (hlinks : rules.mapM (Link.ofRule steps scope) = .ok links) :
    Conjoins step scope (declaredGuards rules step) (conditionOf links step) := by
  have hguards : List.Forall₂ _ (declaredGuards rules step) (guardsOf links step) :=
    guardsOf_related (mapM_eq_ok.mp hlinks)
  generalize declaredGuards rules step = declared at hguards
  generalize hkept : guardsOf links step = kept at hguards
  cases hguards with
  | nil =>
    rw [conditionOf_eq_none hkept]
    exact .unguarded
  | @cons guard keptGuard guards keptGuards hfirst hothers =>
    obtain ⟨first, hcheck, rfl⟩ := hfirst
    obtain ⟨others, hparse, haccepts⟩ := exists_conditions hothers
    obtain ⟨text, htext, whole, hwhole, hexpr⟩ :=
      conditionOf_accepts hkept (accepts_of_check hcheck) haccepts
    rw [htext]
    exact .guarded (check_eq_ok_iff.mp hcheck).1 hparse (check_eq_ok_iff.mp hwhole).1 hwhole hexpr

/-- The condition of a step is accepted as a guard of the step. -/
theorem make_conditions {declared : List Manifest.Action} {rules : List Manifest.Rule}
    {fileKeys : List String} {scope : Guard.Scope} {s : Schedule}
    (h : Schedule.make declared rules fileKeys scope = .ok s) {t : Step} (ht : t ∈ s.steps)
    {text : String} (htext : t.condition = some text) : ∃ e, Accepts t.name scope text e := by
  obtain ⟨-, links, hlinks, hstages⟩ := make_eq_ok h
  obtain ⟨order, pinned, -, -, -, hsteps⟩ := hstages.ordered
  obtain ⟨name, number, rfl⟩ := exists_stepOf hsteps ht
  rw [stepOf_condition] at htext
  rw [stepOf_name]
  split at htext
  · cases htext
  · have hconjoins : Conjoins name scope (declaredGuards rules name) (conditionOf links name) :=
      conditionOf_conjoins hlinks
    rw [htext] at hconjoins
    generalize declaredGuards rules name = guards at hconjoins
    cases hconjoins with
    | @guarded _ _ _ _ whole _ _ _ _ hcheck _ => exact ⟨whole.expr, whole, hcheck, rfl⟩

/-- In every schedule that is made, each action has a step, and the condition of the step conjoins
the guards that the rules declare for the action: it is accepted for the action in the scope of the
schedule. Besides, an accepted guard writes the same condition when the white space around it is
trimmed. -/
theorem make_conjoins {declared : List Manifest.Action} {rules : List Manifest.Rule}
    {fileKeys : List String} {scope : Guard.Scope} {s : Schedule}
    (h : Schedule.make declared rules fileKeys scope = .ok s) :
    (∀ d ∈ declared, (∃ t ∈ s.steps, t.name = d.id ∧ t.kind = .action) ∧
      ∀ t ∈ s.steps, t.name = d.id → Conjoins d.id scope (declaredGuards rules d.id) t.condition) ∧
    ∀ (action text : String) (other : Guard.Scope) (c : Condition),
      Guard.check action text other = .ok c → Condition.parse (Text.trim text) = .ok c := by
  refine ⟨fun d hd => ⟨?_, ?_⟩, ?_⟩
  · have hmem : (d.id, StepKind.action) ∈ s.steps.map fun t => (t.name, t.kind) := by
      refine (make_complete h).mem_iff.mpr (List.mem_append_right _ ?_)
      exact List.mem_map.mpr ⟨d, hd, rfl⟩
    obtain ⟨t, ht, heq⟩ := List.mem_map.mp hmem
    exact ⟨t, ht, congrArg Prod.fst heq, congrArg Prod.snd heq⟩
  · intro t ht hname
    obtain ⟨hactions, links, hlinks, hstages⟩ := make_eq_ok h
    obtain ⟨order, pinned, -, -, -, hsteps⟩ := hstages.ordered
    obtain ⟨name, number, rfl⟩ := exists_stepOf hsteps ht
    rw [stepOf_name] at hname
    have hphase : ¬(Phase.ofName? name).isSome := by
      rw [Phase.ofName?_isSome_iff, hname]
      exact ((actionsAfter_eq_ok hactions).2.2 d hd).1
    rw [stepOf_condition, if_neg hphase, hname]
    exact conditionOf_conjoins hlinks
  · intro action text other c hcheck
    obtain ⟨hwrites, htext⟩ := parse_eq_ok_iff.mp (check_eq_ok_iff.mp hcheck).1
    refine parse_eq_ok_iff.mpr ⟨?_, by rw [htext, Text.trim_trim]⟩
    rw [Text.trim, String.toList_ofList]
    exact hwrites.trim

/-- Two guards in white space: the connective of the first binds weaker than the one that joins
them, and the text in the second holds a parenthesis. -/
theorem make_conjoins_two :
    ∃ s, Schedule.make [⟨"Configure", "SetupExe", .deferred, true, some .check, "/quiet"⟩]
        [⟨"Configure", none, some "InstallFiles", some " Installed XOR PATCH\t"⟩,
          ⟨"Configure", some "InstallFinalize", none, none⟩,
          ⟨"Configure", none, some "CreateShortcuts", some "REMOVE ~= \"ALL) \" "⟩]
        ["SetupExe"] ⟨Guard.builtins, [], []⟩ = .ok s ∧
      ∀ t ∈ s.steps, t.name = "Configure" →
        Conjoins "Configure" ⟨Guard.builtins, [], []⟩
          [" Installed XOR PATCH\t", "REMOVE ~= \"ALL) \" "] t.condition := by
  have hmade : (Schedule.make [⟨"Configure", "SetupExe", .deferred, true, some .check, "/quiet"⟩]
      [⟨"Configure", none, some "InstallFiles", some " Installed XOR PATCH\t"⟩,
        ⟨"Configure", some "InstallFinalize", none, none⟩,
        ⟨"Configure", none, some "CreateShortcuts", some "REMOVE ~= \"ALL) \" "⟩]
      ["SetupExe"] ⟨Guard.builtins, [], []⟩).isOk = true := by decide +kernel
  obtain ⟨s, hs⟩ := exists_of_isOk hmade
  exact ⟨s, hs, ((make_conjoins hs).1 _ (List.mem_singleton_self _)).2⟩

end Installer.Schedule
