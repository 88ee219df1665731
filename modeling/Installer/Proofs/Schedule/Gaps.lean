import Installer.Proofs.Schedule.Numbers

/-!
# The gaps between the phases

A gap lies before the first phase, between two phases that come one after the other, or after the
last. Actions that stand in the gaps are numbered gap by gap (`numberFrom_eq_numbered`), and if they do
not all fit, the first gap that is too small is named (`numberFrom_eq_exhausted`).
-/

set_option autoImplicit false

namespace Installer.Schedule
open Result

/-- What lies between two phases. Nothing opens the first gap, and nothing closes the last. -/
structure Gap where
  opening : Option Phase
  closing : Option Phase
  deriving DecidableEq, Repr

/-- The gaps after an opening, with the phases that come after it. -/
def gapsFrom (opening : Option Phase) : List Phase → List Gap
  | [] => [⟨opening, none⟩]
  | p :: rest => ⟨opening, some p⟩ :: gapsFrom (some p) rest

namespace Gap

/-- The gaps, in order. -/
def all : List Gap := gapsFrom none Phase.all

/-- The number that the actions in a gap come after. -/
def number (g : Gap) : Nat := g.opening.elim 0 Phase.number

/-- What a gap is called by. -/
def name (g : Gap) : String := g.opening.elim sequenceStart Phase.name

theorem number_of_opening {g : Gap} {p : Phase} (h : g.opening = some p) : g.number = p.number := by
  rw [number, h, Option.elim_some]

/-- Every phase opens a gap. -/
theorem exists_opening (p : Phase) : ∃ g ∈ all, g.opening = some p := by
  cases p <;> decide

/-- Every phase closes a gap. -/
theorem exists_closing (q : Phase) : ∃ g ∈ all, g.closing = some q := by
  cases q <;> decide

theorem numbers_ascending : all.Pairwise (·.number < ·.number) := by decide

theorem number_injective : ∀ g ∈ all, ∀ g' ∈ all, g.number = g'.number → g = g' := by
  decide +kernel

/-- There is room for an action in every gap. -/
theorem wide : ∀ g ∈ all, ∀ q ∈ g.closing, g.number + 1 < q.number := by decide

/-- A gap is closed before a later one is opened. -/
theorem closes : ∀ g ∈ all, ∀ g' ∈ all, g.number < g'.number →
    ∃ q ∈ g.closing, ∃ p ∈ g'.opening, q.number ≤ p.number := by decide +kernel

/-- Whether so many actions fit in a gap: there are fewer of them than its two numbers differ by. -/
def Fits (g : Gap) (n : Nat) : Prop := ∀ p ∈ g.closing, n < p.number - g.number

instance (g : Gap) (n : Nat) : Decidable (g.Fits n) :=
  inferInstanceAs (Decidable (∀ p ∈ g.closing, n < p.number - g.number))

/-- The phase that opens a gap and the actions in it. -/
def steps (g : Gap) (actions : List String) : List String :=
  (g.opening.map Phase.name).toList ++ actions

/-- The same with their numbers, one after the other. -/
def numbered (condition : String → Option String) (g : Gap) (actions : List String) : List Step :=
  g.opening.toList.map (fun p => stepOf condition p.name p.number) ++
    (actions.zipIdx (g.number + 1)).map fun a => stepOf condition a.1 a.2

end Gap

/-! ## Numbering a gap -/

section Numbering
variable {condition : String → Option String} {previous : Nat} {opening : String}
  {rest : List String}

/-- A phase has its own number and opens a gap. -/
theorem numberFrom_phase (p : Phase) :
    numberFrom condition previous opening (p.name :: rest) =
      (numberFrom condition p.number p.name rest).map (stepOf condition p.name p.number :: ·) := by
  have hphase : Phase.ofName? p.name = some p := Keyword.read?_spelling p
  simp only [numberFrom, hphase, stepOf]
  cases numberFrom condition p.number p.name rest <;> rfl

section Action
variable {a : String} (hname : Phase.ofName? a = none)
include hname

/-- An action takes the next number, if this is lower than that of the next phase. -/
theorem numberFrom_action
    (hfits : ∀ p ∈ rest.findSome? Phase.ofName?, previous + 1 < p.number) :
    numberFrom condition previous opening (a :: rest) =
      (numberFrom condition (previous + 1) opening rest).map
        (stepOf condition a (previous + 1) :: ·) := by
  have hnext : ((rest.findSome? Phase.ofName?).any fun p => p.number ≤ previous + 1) = false := by
    cases hfind : rest.findSome? Phase.ofName? with
    | none => rfl
    | some p => simpa using hfits p (by simp [hfind])
  simp only [numberFrom, hname, hnext, Bool.false_eq_true, if_false, stepOf]
  cases numberFrom condition (previous + 1) opening rest <;> rfl

theorem numberFrom_exhausted {p : Phase} (hnext : rest.findSome? Phase.ofName? = some p)
    (hfull : p.number ≤ previous + 1) :
    numberFrom condition previous opening (a :: rest) =
      .error (.sequenceGapExhausted opening) := by
  simp only [numberFrom, hname, hnext, Option.any_some, hfull, decide_true, if_true, throw_bind]

end Action

section Run
variable {run : List String} (hrun : ∀ a ∈ run, Phase.ofName? a = none)
include hrun

/-- The next phase after a run of actions. -/
theorem findSome?_run : (run ++ rest).findSome? Phase.ofName? = rest.findSome? Phase.ofName? := by
  rw [List.findSome?_append, List.findSome?_eq_none_iff.mpr hrun, Option.none_or]

/-- Actions before the next phase take the next numbers, if they fit. -/
theorem numberFrom_run
    (hfits : ∀ p ∈ rest.findSome? Phase.ofName?, previous + run.length < p.number) :
    numberFrom condition previous opening (run ++ rest) =
      (numberFrom condition (previous + run.length) opening rest).map
        ((run.zipIdx (previous + 1)).map (fun a => stepOf condition a.1 a.2) ++ ·) := by
  induction run generalizing previous with
  | nil =>
    show numberFrom condition previous opening rest =
      (numberFrom condition previous opening rest).map ([] ++ ·)
    cases numberFrom condition previous opening rest <;> rfl
  | cons a run ih =>
    obtain ⟨ha, hrest⟩ := List.forall_mem_cons.mp hrun
    have hlength : previous + (a :: run).length = previous + 1 + run.length := by
      simp only [List.length_cons]
      omega
    rw [hlength] at hfits ⊢
    rw [List.cons_append, numberFrom_action ha fun p hp => ?_, ih hrest hfits]
    · cases numberFrom condition (previous + 1 + run.length) opening rest <;> rfl
    · rw [findSome?_run hrest] at hp
      exact Nat.lt_of_le_of_lt (Nat.le_add_right _ _) (hfits p hp)

/-- If they do not fit, the gap is named. -/
theorem numberFrom_run_exhausted {p : Phase} (hnext : rest.findSome? Phase.ofName? = some p)
    (hprevious : previous < p.number) (hfull : p.number ≤ previous + run.length) :
    numberFrom condition previous opening (run ++ rest) =
      .error (.sequenceGapExhausted opening) := by
  induction run generalizing previous with
  | nil => exact absurd hfull (Nat.not_le.mpr hprevious)
  | cons a run ih =>
    obtain ⟨ha, hrest⟩ := List.forall_mem_cons.mp hrun
    have hafter : (run ++ rest).findSome? Phase.ofName? = some p := by
      rw [findSome?_run hrest, hnext]
    rw [List.cons_append]
    by_cases hone : p.number ≤ previous + 1
    · exact numberFrom_exhausted ha hafter hone
    · have hfits : ∀ q ∈ (run ++ rest).findSome? Phase.ofName?, previous + 1 < q.number := by
        rw [hafter]
        rintro q ⟨⟩
        exact Nat.not_le.mp hone
      have hmore : p.number ≤ previous + 1 + run.length := by
        simp only [List.length_cons] at hfull
        omega
      rw [numberFrom_action ha hfits, ih hrest (Nat.not_le.mp hone) hmore]
      rfl

end Run
end Numbering

/-! ## Numbering all gaps -/

section Gap
variable {condition : String → Option String} {previous : Nat} {opening : String}
  {rest : List String} {g : Gap}
  (hstart : g.opening = none → previous = 0 ∧ opening = sequenceStart)
include hstart

/-- What opens a gap has its own number, and the steps after it are counted from there. -/
theorem numberFrom_opening :
    numberFrom condition previous opening ((g.opening.map Phase.name).toList ++ rest) =
      (numberFrom condition g.number g.name rest).map
        (g.opening.toList.map (fun p => stepOf condition p.name p.number) ++ ·) := by
  obtain ⟨o, c⟩ := g
  cases o with
  | none =>
    obtain ⟨rfl, rfl⟩ := hstart rfl
    show numberFrom condition 0 sequenceStart rest =
      (numberFrom condition 0 sequenceStart rest).map ([] ++ ·)
    cases numberFrom condition 0 sequenceStart rest <;> rfl
  | some p => exact numberFrom_phase p

variable {actions : List String} (hactions : ∀ a ∈ actions, Phase.ofName? a = none)
  (hnext : rest.findSome? Phase.ofName? = g.closing)
include hactions hnext

/-- Actions that fit in a gap are numbered in it. -/
theorem numberFrom_gap (hfits : g.Fits actions.length) :
    numberFrom condition previous opening (g.steps actions ++ rest) =
      (numberFrom condition (g.number + actions.length) g.name rest).map
        (g.numbered condition actions ++ ·) := by
  have hrun : ∀ p ∈ rest.findSome? Phase.ofName?, g.number + actions.length < p.number := by
    intro p hp
    have hlt := hfits p (hnext ▸ hp)
    omega
  rw [Gap.steps, List.append_assoc, numberFrom_opening hstart, numberFrom_run hactions hrun]
  cases numberFrom condition (g.number + actions.length) g.name rest with
  | error v => rfl
  | ok more => simp only [Except.map, Gap.numbered, List.append_assoc]

/-- Actions that do not fit exhaust the gap. -/
theorem numberFrom_gap_exhausted (hwide : ∀ p ∈ g.closing, g.number < p.number)
    (hfull : ¬g.Fits actions.length) :
    numberFrom condition previous opening (g.steps actions ++ rest) =
      .error (.sequenceGapExhausted g.name) := by
  simp only [Gap.Fits, not_forall, Nat.not_lt] at hfull
  obtain ⟨p, hp, hle⟩ := hfull
  have hlt := hwide p hp
  rw [Gap.steps, List.append_assoc, numberFrom_opening hstart,
    numberFrom_run_exhausted hactions (hnext.trans hp) hlt (by omega)]
  rfl

end Gap

/-- The phase after a gap is the one that closes it. -/
theorem findSome?_gaps (fill : Gap → List String) (p : Phase) (phases : List Phase) :
    ((gapsFrom (some p) phases).flatMap fun g => g.steps (fill g)).findSome? Phase.ofName? =
      some p := by
  have hphase : Phase.ofName? p.name = some p := Keyword.read?_spelling p
  cases phases <;> simp [gapsFrom, Gap.steps, hphase]

section Gaps
variable {condition : String → Option String} {fill : Gap → List String}
  (hfill : ∀ g, ∀ a ∈ fill g, Phase.ofName? a = none)
include hfill

/-- Actions that fit in every gap are numbered gap by gap. -/
theorem numberFrom_eq_numbered {o : Option Phase} {phases : List Phase} {previous : Nat}
    {opening : String} (hstart : o = none → previous = 0 ∧ opening = sequenceStart)
    (hfits : ∀ g ∈ gapsFrom o phases, g.Fits (fill g).length) :
    numberFrom condition previous opening ((gapsFrom o phases).flatMap fun g => g.steps (fill g)) =
      .ok ((gapsFrom o phases).flatMap fun g => g.numbered condition (fill g)) := by
  induction phases generalizing o previous opening with
  | nil =>
    rw [gapsFrom, List.flatMap_singleton, List.flatMap_singleton,
      ← List.append_nil (Gap.steps _ _),
      numberFrom_gap hstart (hfill _) rfl (hfits _ (List.mem_singleton_self _))]
    simp [numberFrom, Except.map]
  | cons p rest ih =>
    obtain ⟨hfirst, hrest⟩ := List.forall_mem_cons.mp hfits
    rw [gapsFrom, List.flatMap_cons, List.flatMap_cons,
      numberFrom_gap hstart (hfill _) (findSome?_gaps fill p rest) hfirst,
      ih (o := some p) (absurd · (Option.some_ne_none p)) hrest]
    rfl

/-- Otherwise the first gap in which they do not fit is named. -/
theorem numberFrom_eq_exhausted {o : Option Phase} {phases : List Phase} {previous : Nat}
    {opening : String} (hstart : o = none → previous = 0 ∧ opening = sequenceStart)
    (hwide : ∀ g ∈ gapsFrom o phases, ∀ p ∈ g.closing, g.number < p.number) {g : Gap}
    (hfind : (gapsFrom o phases).find? (fun g => ¬g.Fits (fill g).length) = some g) :
    numberFrom condition previous opening ((gapsFrom o phases).flatMap fun g => g.steps (fill g)) =
      .error (.sequenceGapExhausted g.name) := by
  induction phases generalizing o previous opening with
  | nil =>
    -- The last gap is not closed, so everything fits.
    have hfull := List.find?_some hfind
    rw [gapsFrom, List.find?_singleton] at hfind
    split at hfind
    · cases hfind
      simp [Gap.Fits] at hfull
    · cases hfind
  | cons p rest ih =>
    obtain ⟨hfirst, hrest⟩ := List.forall_mem_cons.mp hwide
    rw [gapsFrom, List.flatMap_cons]
    rw [gapsFrom, List.find?_cons] at hfind
    by_cases hfits : Gap.Fits ⟨o, some p⟩ (fill ⟨o, some p⟩).length
    · simp only [hfits, not_true_eq_false, decide_false] at hfind
      rw [numberFrom_gap hstart (hfill _) (findSome?_gaps fill p rest) hfits,
        ih (o := some p) (absurd · (Option.some_ne_none p)) hrest hfind]
      rfl
    · simp only [hfits, not_false_eq_true, decide_true] at hfind
      cases hfind
      exact numberFrom_gap_exhausted hstart (hfill _) (findSome?_gaps fill p rest) hfirst hfits

theorem numberFrom_all (hfits : ∀ g ∈ Gap.all, g.Fits (fill g).length) :
    numberFrom condition 0 sequenceStart (Gap.all.flatMap fun g => g.steps (fill g)) =
      .ok (Gap.all.flatMap fun g => g.numbered condition (fill g)) :=
  numberFrom_eq_numbered hfill (fun _ => ⟨rfl, rfl⟩) hfits

theorem numberFrom_all_exhausted {g : Gap}
    (hfind : Gap.all.find? (fun g => ¬g.Fits (fill g).length) = some g) :
    numberFrom condition 0 sequenceStart (Gap.all.flatMap fun g => g.steps (fill g)) =
      .error (.sequenceGapExhausted g.name) :=
  numberFrom_eq_exhausted hfill (fun _ => ⟨rfl, rfl⟩)
    (fun g hg p hp => Nat.lt_of_succ_lt (Gap.wide g hg p hp)) hfind

end Gaps
end Installer.Schedule
