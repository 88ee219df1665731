import Installer.Proofs.Precedence.Window
import Installer.Proofs.Schedule.Soundness

/-!
# The script window is enforced exactly

The rules order the steps (`Precedes`). An action of the script is forced out of it if a path leads
to it from the script's last phase or from it to the script's first phase. If an action is forced
out, the first one declared is refused; if none is, the actions are held inside the script together,
without a cycle, and only the numbering can still fail. Main statement: `make_script_exact`.

Being forced out is a path along the edges of phases and rules (`isForcedOut_iff`), and the search for
paths decides it. Holding free actions, however many, changes nothing about what lies outside
(`reaches_holdScript_iff`). So pinning can be followed action by action: it holds what is free and
stops at the first that is not.

**What it does not establish.** Rules without a contradiction are a premise: a contradiction is
reported before the window is looked at. Which gap is too small, where one is, is not said.
-/

set_option autoImplicit false

namespace Installer.Schedule
open Precedence Relation Result

/-- What the phases and the rules put directly before what: a phase before the next one, and the
two steps of a rule on the side that it names. -/
inductive Precedes (rules : List Manifest.Rule) : String → String → Prop
  | phase {a b : String} : (a, b) ∈ Phase.names.zip Phase.names.tail → Precedes rules a b
  | after {r : Manifest.Rule} {anchor : String} :
    r ∈ rules → r.after = some anchor → Precedes rules anchor r.action
  | before {r : Manifest.Rule} {anchor : String} :
    r ∈ rules → r.before = some anchor → Precedes rules r.action anchor

/-- The phases and the rules put a step outside the script. -/
def IsForcedOut (rules : List Manifest.Rule) (step : String) : Prop :=
  TransGen (Precedes rules) Phase.installFinalize.name step ∨
    TransGen (Precedes rules) step Phase.installInitialize.name

/-- The first action of the script, as declared, that is forced out of it. -/
def IsFirstForcedOut (rules : List Manifest.Rule) (declared : List Manifest.Action)
    (id : String) : Prop :=
  ∃ earlier a later, declared = earlier ++ a :: later ∧ a.id = id ∧ a.execute.isInScript ∧
    IsForcedOut rules a.id ∧ ∀ b ∈ earlier, b.execute.isInScript → ¬IsForcedOut rules b.id

/-! ## Holding the actions of the script -/

/-- The edges with actions held inside the script. -/
abbrev holdScript (edges : List (String × String)) (held : List String) : List (String × String) :=
  hold edges Phase.installInitialize.name Phase.installFinalize.name held

/-- An action that the edges leave free to be inside the script. -/
abbrev FreeInScript (edges : List (String × String)) (id : String) : Prop :=
  Free edges Phase.installInitialize.name Phase.installFinalize.name id

theorem holdScript_append (edges : List (String × String)) (held : List String) (id : String) :
    holdScript edges held ++ scriptEdges id = holdScript edges (held ++ [id]) := by
  simp [holdScript, hold, scriptEdges]

theorem reaches_or_iff {edges : List (String × String)} {id : String} :
    (reaches edges Phase.installFinalize.name id ||
      reaches edges id Phase.installInitialize.name) = true ↔ ¬FreeInScript edges id := by
  rw [Bool.or_eq_true, reaches_iff, reaches_iff]
  constructor
  · rintro (h | h) hfree
    · exact hfree.notAfter h
    · exact hfree.notBefore h
  · intro h
    by_contra hnone
    obtain ⟨hafter, hbefore⟩ := not_or.mp hnone
    exact h ⟨hafter, hbefore⟩

section Pinning
variable {edges : List (String × String)} {held : List String} {a : Action} {rest : List Action}

theorem pin_immediate (hout : ¬a.execute.isInScript) : pin edges (a :: rest) = pin edges rest := by
  rw [pin, if_pos (by simpa using hout)]

variable (hacyclic : Acyclic edges)
  (hway : Route edges Phase.installInitialize.name Phase.installFinalize.name)
include hacyclic hway

/-- What is asked of an action is decided by the edges alone, however many free ones are held
already. -/
theorem reaches_holdScript_iff (hheld : ∀ id ∈ held, FreeInScript edges id) (id : String) :
    (reaches (holdScript edges held) Phase.installFinalize.name id ||
      reaches (holdScript edges held) id Phase.installInitialize.name) = true ↔
      ¬FreeInScript edges id :=
  reaches_or_iff.trans (not_congr (free_hold_iff hacyclic hway hheld))

theorem pin_free (hheld : ∀ id ∈ held, FreeInScript edges id) (hin : a.execute.isInScript)
    (hfree : FreeInScript edges a.id) :
    pin (holdScript edges held) (a :: rest) = pin (holdScript edges (held ++ [a.id])) rest := by
  have hreach := reaches_holdScript_iff hacyclic hway hheld a.id
  rw [pin, if_neg (by simpa using hin), if_neg (fun h => hreach.mp h hfree), holdScript_append]

theorem pin_forced (hheld : ∀ id ∈ held, FreeInScript edges id) (hin : a.execute.isInScript)
    (hforced : ¬FreeInScript edges a.id) :
    pin (holdScript edges held) (a :: rest) = .error (.deferredOutsideScript a.id) := by
  have hreach := reaches_holdScript_iff hacyclic hway hheld a.id
  rw [pin, if_neg (by simpa using hin), if_pos (hreach.mpr hforced)]

/-- Free actions before the others are held one by one. -/
theorem pin_append {earlier : List Action} (later : List Action)
    (hheld : ∀ id ∈ held, FreeInScript edges id)
    (hfree : ∀ a ∈ earlier, a.execute.isInScript → FreeInScript edges a.id) :
    ∃ more, (∀ id ∈ more, FreeInScript edges id) ∧
      pin (holdScript edges held) (earlier ++ later) = pin (holdScript edges more) later := by
  induction earlier generalizing held with
  | nil => exact ⟨held, hheld, rfl⟩
  | cons a earlier ih =>
    obtain ⟨ha, hearlier⟩ := List.forall_mem_cons.mp hfree
    by_cases hin : a.execute.isInScript = true
    · have hmore : ∀ id ∈ held ++ [a.id], FreeInScript edges id := by
        intro id hid
        rcases List.mem_append.mp hid with hid | hid
        · exact hheld id hid
        · exact List.mem_singleton.mp hid ▸ ha hin
      rw [List.cons_append, pin_free hacyclic hway hheld hin (ha hin)]
      exact ih hmore hearlier
    · rw [List.cons_append, pin_immediate hin]
      exact ih hheld hearlier

/-- Pinning succeeds where all actions of the script are free, and gives edges without a cycle. -/
theorem exists_pin_of_free {actions : List Action}
    (hfree : ∀ a ∈ actions, a.execute.isInScript → FreeInScript edges a.id) :
    ∃ pinned, pin edges actions = .ok pinned ∧ Acyclic pinned := by
  have hnone : ∀ id ∈ ([] : List String), FreeInScript edges id :=
    fun _ hid => absurd hid List.not_mem_nil
  obtain ⟨more, hmore, hpin⟩ := pin_append hacyclic hway [] hnone hfree
  refine ⟨holdScript edges more, ?_, acyclic_hold hacyclic hway hmore⟩
  simpa [holdScript, hold, pin] using hpin

/-- Pinning refuses the first action of the script that is not free. -/
theorem pin_first_forced {earlier later : List Action}
    (hfree : ∀ b ∈ earlier, b.execute.isInScript → FreeInScript edges b.id)
    (hin : a.execute.isInScript) (hforced : ¬FreeInScript edges a.id) :
    pin edges (earlier ++ a :: later) = .error (.deferredOutsideScript a.id) := by
  have hnone : ∀ id ∈ ([] : List String), FreeInScript edges id :=
    fun _ hid => absurd hid List.not_mem_nil
  obtain ⟨more, hmore, hpin⟩ := pin_append hacyclic hway (a :: later) hnone hfree
  rw [pin_forced hacyclic hway hmore hin hforced] at hpin
  simpa [holdScript, hold] using hpin

end Pinning

/-! ## The script of a schedule -/

section Script
variable {fileKeys : List String} {declared : List Manifest.Action} {rules : List Manifest.Rule}
  {scope : Guard.Scope} {actions : List Action} {links : List Link}

/-- The links of accepted rules have the edges that the rules and phases ask for. -/
theorem edge_ruleEdges_iff (hlinks : rules.mapM (Link.ofRule (stepNames actions) scope) = .ok links)
    {a b : String} : Edge (ruleEdges links) a b ↔ Precedes rules a b := by
  constructor
  · intro h
    rcases List.mem_append.mp h with hphase | hlink
    · exact .phase hphase
    · obtain ⟨l, hl, hedge⟩ := List.mem_map.mp hlink
      obtain ⟨r, hr, hof⟩ := exists_of_mem_result hlinks hl
      obtain ⟨hsubject, -, -, -, hanchor, -⟩ := Link.ofRule_eq_ok hof
      have hside := anchorOf_eq_ok hanchor
      cases hs : l.anchor.side with
      | before =>
        simp only [hs] at hside
        simp only [Link.edge, hs, hsubject] at hedge
        cases hedge
        exact .before hr hside.1
      | after =>
        simp only [hs] at hside
        simp only [Link.edge, hs, hsubject] at hedge
        cases hedge
        exact .after hr hside.1
  · intro h
    cases h with
    | phase hphase => exact List.mem_append_left _ hphase
    | after hr hafter =>
      obtain ⟨l, hl, hof⟩ := exists_result_of_mem hlinks hr
      exact List.mem_append_right _
        (List.mem_map.mpr ⟨l, hl, (Link.edge_of_rule hof).1 _ hafter⟩)
    | before hr hbefore =>
      obtain ⟨l, hl, hof⟩ := exists_result_of_mem hlinks hr
      exact List.mem_append_right _
        (List.mem_map.mpr ⟨l, hl, (Link.edge_of_rule hof).2 _ hbefore⟩)

theorem edge_ruleEdges (hlinks : rules.mapM (Link.ofRule (stepNames actions) scope) = .ok links) :
    Edge (ruleEdges links) = Precedes rules := by
  funext a b
  exact propext (edge_ruleEdges_iff hlinks)

/-- The phases lead from the first of the script to its last. -/
theorem script_way (links : List Link) : Route (ruleEdges links) Phase.installInitialize.name
    Phase.installFinalize.name := by
  have hphases : reaches phaseChain Phase.installInitialize.name Phase.installFinalize.name =
      true := by decide +kernel
  rcases reflTransGen_iff_eq_or_transGen.mp (reaches_iff.mp hphases) with he | hpath
  · exact absurd he (by decide)
  · exact Route.mono hpath (List.subset_append_left _ _)

/-- An action is forced out exactly if the edges of the rules do not leave it free. -/
theorem isForcedOut_iff (hlinks : rules.mapM (Link.ofRule (stepNames actions) scope) = .ok links)
    {id : String} (hid : id ∉ Phase.names) :
    IsForcedOut rules id ↔ ¬FreeInScript (ruleEdges links) id := by
  have hfirst : id ≠ Phase.installInitialize.name := fun he => hid (he ▸ by decide)
  have hlast : id ≠ Phase.installFinalize.name := fun he => hid (he ▸ by decide)
  rw [IsForcedOut, ← edge_ruleEdges hlinks]
  constructor
  · rintro (h | h) hfree
    · exact hfree.notAfter h.to_reflTransGen
    · exact hfree.notBefore h.to_reflTransGen
  · intro h
    by_contra hnone
    obtain ⟨hafter, hbefore⟩ := not_or.mp hnone
    refine h ⟨fun hpath => ?_, fun hpath => ?_⟩
    · exact (reflTransGen_iff_eq_or_transGen.mp hpath).elim hlast hafter
    · exact (reflTransGen_iff_eq_or_transGen.mp hpath).elim (fun he => hfirst he.symm) hbefore

/-- Where the actions of the script are inside it, the last check finds nothing. -/
theorem checkScript_of_keeps {order : List String} (hkeeps : Keeps links actions order) :
    checkScript actions order = .ok () := by
  refine forM_eq_ok.mpr fun step _ => ?_
  split
  · next a hfind =>
    have ha : a ∈ actions := List.mem_of_find?_eq_some hfind
    have hid : a.id = step := by simpa using List.find?_some hfind
    split
    · next hout =>
      obtain ⟨hin, hout⟩ := Bool.and_eq_true_iff.mp hout
      have hscript := hkeeps.script a ha hin
      have hfirst := idxOf_lt_of_sublist hkeeps.nodup
        ((List.sublist_append_left [_, a.id] [_]).trans hscript)
      have hlast := idxOf_lt_of_sublist hkeeps.nodup
        ((List.sublist_cons_self _ [a.id, _]).trans hscript)
      simp [isInsideScript, ← hid, hfirst, hlast] at hout
    · rfl
  · rfl

/-- A list has a first element of a kind, or none. -/
theorem exists_first {α : Type} (p : α → Prop) (l : List α) : (∀ a ∈ l, ¬p a) ∨
    ∃ earlier a later, l = earlier ++ a :: later ∧ p a ∧ ∀ b ∈ earlier, ¬p b := by
  induction l with
  | nil => exact .inl fun _ ha => absurd ha List.not_mem_nil
  | cons a l ih =>
    by_cases ha : p a
    · exact .inr ⟨[], a, l, rfl, ha, fun _ hb => absurd hb List.not_mem_nil⟩
    · rcases ih with hnone | ⟨earlier, c, later, rfl, hc, hearlier⟩
      · exact .inl (List.forall_mem_cons.mpr ⟨ha, hnone⟩)
      · exact .inr ⟨a :: earlier, c, later, rfl, hc, List.forall_mem_cons.mpr ⟨ha, hearlier⟩⟩

/-- Pinned edges lead from step to step. -/
theorem mem_of_pinned
    (hlinks : rules.mapM (Link.ofRule (stepNames actions) scope) = .ok links)
    {pinned : List (String × String)} (hpin : pin (ruleEdges links) actions = .ok pinned)
    {a b : String} (hab : Edge pinned a b) : a ∈ stepNames actions := by
  rw [pin_eq_ok hpin] at hab
  rcases List.mem_append.mp hab with hrule | hscript
  · exact (mem_of_ruleEdges hlinks hrule).1
  · obtain ⟨c, hc, he⟩ := List.mem_flatMap.mp hscript
    have hc : c ∈ actions := (List.mem_filter.mp hc).1
    simp only [scriptEdges, List.mem_cons, Prod.mk.injEq, List.not_mem_nil, or_false] at he
    rcases he with ⟨rfl, -⟩ | ⟨rfl, -⟩
    · exact List.mem_append_left _ (by decide)
    · exact List.mem_append_right _ (List.mem_map_of_mem hc)

/-- Where the phases and rules make no cycle and force no action of the script out of it, all of them
are held inside it without a cycle, the steps are ordered, and no action is found outside. -/
theorem exists_order_of_free (hactions : checkActions fileKeys declared = .ok actions)
    (hlinks : rules.mapM (Link.ofRule (stepNames actions) scope) = .ok links)
    (hacyclic : Acyclic (ruleEdges links))
    (hfree : ∀ a ∈ actions, a.execute.isInScript → FreeInScript (ruleEdges links) a.id) :
    ∃ pinned order, pin (ruleEdges links) actions = .ok pinned ∧ Acyclic pinned ∧
      orderSteps links (stepNames actions) pinned = .ok order ∧
      checkScript actions order = .ok () := by
  obtain ⟨pinned, hpin, hpinned⟩ := exists_pin_of_free hacyclic (script_way links) hfree
  obtain ⟨order, horder⟩ := exists_orderSteps links
    (fun a b hab => mem_of_pinned hlinks hpin hab) hpinned
  exact ⟨pinned, order, hpin, hpinned, horder,
    checkScript_of_keeps (keeps_of_orderSteps hactions hlinks hpin horder)⟩

/-- The first action that is forced out, as declared, is the first that pinning refuses. -/
theorem pin_of_isFirstForcedOut (hactions : checkActions fileKeys declared = .ok actions)
    (hlinks : rules.mapM (Link.ofRule (stepNames actions) scope) = .ok links)
    (hacyclic : Acyclic (ruleEdges links)) {id : String}
    (hfirst : IsFirstForcedOut rules declared id) :
    pin (ruleEdges links) actions = .error (.deferredOutsideScript id) := by
  obtain ⟨earlier, d, later, rfl, rfl, hin, hforced, hearlier⟩ := hfirst
  have hphase : ∀ e ∈ earlier ++ d :: later, e.id ∉ Phase.names :=
    fun e he => ((actionsAfter_eq_ok hactions).2.2 e he).1
  have hall := checkActions_settles hactions
  obtain ⟨before, a, after, rfl, hbefore, hsettles⟩ := forall₂_split hall
  rw [← hsettles.id]
  refine pin_first_forced hacyclic (script_way links) (fun b hb hbin => ?_)
    (hsettles.execute ▸ hin) ?_
  · obtain ⟨e, he, hbe⟩ := exists_related hbefore hb
    rw [hbe.id]
    refine not_not.mp fun hnot => hearlier e he (hbe.execute ▸ hbin) ?_
    exact (isForcedOut_iff hlinks (hphase e (List.mem_append_left _ he))).mpr hnot
  · rw [hsettles.id]
    exact (isForcedOut_iff hlinks (hphase d (by simp))).mp hforced

/-- Where no action is the first that is forced out, none is. -/
theorem free_of_no_first (hactions : checkActions fileKeys declared = .ok actions)
    (hlinks : rules.mapM (Link.ofRule (stepNames actions) scope) = .ok links)
    (hnone : ∀ id, ¬IsFirstForcedOut rules declared id) :
    ∀ a ∈ actions, a.execute.isInScript → FreeInScript (ruleEdges links) a.id := by
  intro a ha hin
  obtain ⟨d, hd, hsettles⟩ := exists_related (checkActions_settles hactions) ha
  have hphase : d.id ∉ Phase.names := ((actionsAfter_eq_ok hactions).2.2 d hd).1
  rw [hsettles.id]
  refine not_not.mp fun hnot => ?_
  have hforced := (isForcedOut_iff hlinks hphase).mpr hnot
  rcases exists_first (fun e => e.execute.isInScript = true ∧ IsForcedOut rules e.id) declared
    with hall | ⟨earlier, e, later, hsplit, ⟨hein, he⟩, hearlier⟩
  · exact hall d hd ⟨hsettles.execute ▸ hin, hforced⟩
  · exact hnone e.id ⟨earlier, e, later, hsplit, rfl, hein, he,
      fun b hb hbin hbforced => hearlier b hb ⟨hbin, hbforced⟩⟩

end Script

/-- Checked actions and rules without a contradiction: an action is refused for being outside the
script exactly if it is the first that the phases and rules force out. If there is none, the actions
of the script are held inside it without a cycle, they are ordered so that none is found outside,
and the schedule is made unless a gap between phases is too small. -/
theorem make_script_exact {fileKeys : List String} {declared : List Manifest.Action}
    {rules : List Manifest.Rule} {scope : Guard.Scope} {actions : List Action} {links : List Link}
    (hactions : checkActions fileKeys declared = .ok actions)
    (hlinks : rules.mapM (Link.ofRule (stepNames actions) scope) = .ok links)
    (hsubjects : ∀ d ∈ declared, ∃ r ∈ rules, r.action = d.id)
    (hacyclic : ∀ step, ¬TransGen (Precedes rules) step step) :
    (∀ id, Schedule.make declared rules fileKeys scope = .error (.deferredOutsideScript id) ↔
      IsFirstForcedOut rules declared id) ∧
    ((∀ id, ¬IsFirstForcedOut rules declared id) →
      (∃ pinned order, pin (ruleEdges links) actions = .ok pinned ∧ Acyclic pinned ∧
        orderSteps links (stepNames actions) pinned = .ok order ∧
        checkScript actions order = .ok ()) ∧
      ((∃ s, Schedule.make declared rules fileKeys scope = .ok s) ∨
        ∃ anchor, Schedule.make declared rules fileKeys scope =
          .error (.sequenceGapExhausted anchor))) := by
  have hgraph : Acyclic (ruleEdges links) := by
    rw [Acyclic, Route, edge_ruleEdges hlinks]
    exact hacyclic
  have hmake := make_of_checks hactions hlinks fun a ha => by
    obtain ⟨d, hd, hsettles⟩ := exists_related (checkActions_settles hactions) ha
    obtain ⟨r, hr, hsubject⟩ := hsubjects d hd
    obtain ⟨l, hl, hof⟩ := exists_result_of_mem hlinks hr
    exact ⟨l, hl, (Link.ofRule_eq_ok hof).1.trans (hsubject.trans hsettles.id.symm)⟩
  obtain ⟨first, hfirst⟩ := exists_orderSteps links
    (fun a b hab => (mem_of_ruleEdges hlinks hab).1) hgraph
  rw [hfirst, ok_bind] at hmake
  have hrefused : ∀ id, IsFirstForcedOut rules declared id →
      Schedule.make declared rules fileKeys scope = .error (.deferredOutsideScript id) := by
    intro id hid
    rw [hmake, pin_of_isFirstForcedOut hactions hlinks hgraph hid, error_bind]
  have hordered : (∀ id, ¬IsFirstForcedOut rules declared id) → _ := fun hnone =>
    exists_order_of_free hactions hlinks hgraph (free_of_no_first hactions hlinks hnone)
  have hmade : (∀ id, ¬IsFirstForcedOut rules declared id) →
      (∃ s, Schedule.make declared rules fileKeys scope = .ok s) ∨
        ∃ anchor, Schedule.make declared rules fileKeys scope =
          .error (.sequenceGapExhausted anchor) := by
    intro hnone
    obtain ⟨pinned, order, hpin, -, horder, hscript⟩ := hordered hnone
    rw [hpin, ok_bind, horder, ok_bind, hscript, ok_bind] at hmake
    cases hnumber : numberFrom (conditionOf links) 0 sequenceStart order with
    | ok steps => exact .inl ⟨⟨actions, steps⟩, by rw [hmake, hnumber]; rfl⟩
    | error v =>
      obtain ⟨anchor, rfl⟩ := numberFrom_eq_error hnumber
      exact .inr ⟨anchor, by rw [hmake, hnumber]; rfl⟩
  refine ⟨fun id => ⟨fun herror => ?_, hrefused id⟩, fun hnone => ⟨hordered hnone, hmade hnone⟩⟩
  by_cases hsome : ∃ other, IsFirstForcedOut rules declared other
  · obtain ⟨other, hother⟩ := hsome
    have heq := (hrefused other hother).symm.trans herror
    cases heq
    exact hother
  · rcases hmade (not_exists.mp hsome) with ⟨s, hs⟩ | ⟨anchor, hgap⟩
    · rw [hs] at herror; cases herror
    · rw [hgap] at herror; cases herror

/-- An action of the script that a rule puts after the last of the script's phases. -/
theorem make_script_exact_late :
    IsFirstForcedOut [⟨"Configure", none, some "InstallFinalize", none⟩]
      [⟨"Configure", "SetupExe", .deferred, true, some .check, ""⟩] "Configure" := by
  have hactions : checkActions ["SetupExe"]
      [⟨"Configure", "SetupExe", .deferred, true, some .check, ""⟩] =
      .ok [⟨"Configure", "SetupExe", .deferred, true, .check, ""⟩] := by decide +kernel
  have hlinks : [(⟨"Configure", none, some "InstallFinalize", none⟩ : Manifest.Rule)].mapM
      (Link.ofRule (stepNames [⟨"Configure", "SetupExe", .deferred, true, .check, ""⟩])
        ⟨Guard.builtins, [], []⟩) =
      .ok [⟨"Configure", ⟨"InstallFinalize", .after⟩, none⟩] := by decide +kernel
  have hnodup : (Phase.names ++ ["Configure"]).Nodup := by decide +kernel
  have hacyclic : ∀ step, ¬TransGen
      (Precedes [⟨"Configure", none, some "InstallFinalize", none⟩]) step step := by
    rw [← edge_ruleEdges hlinks]
    exact acyclic_of_sublist hnodup (by decide +kernel)
  exact ((make_script_exact hactions hlinks (by simp) hacyclic).1 "Configure").mp
    (by decide +kernel)

end Installer.Schedule
