import Installer.Proofs.Result
import Installer.Schedule.Basic
import Mathlib.Data.List.Chain

/-!
# The numbers of the steps

A phase has its own number and an action the next one after the step before it (`ordinals`). Where
the phases come in order, numbering succeeds only if these numbers ascend, so every action fits
between the phases around it (`ordinals_ascending`). A number is a word of 32 bits; the words ascend
as long as the numbers fit in them (`words_ascending`).

The numbers are looked at as numbers first, and as words only in the end, so that no step of the
induction speaks of overflow.

**What it does not establish.** Beyond 32 bits the words start again from zero, so that the last gap,
which has no end, is the only one where numbers could fail to ascend.
-/

set_option autoImplicit false

namespace Installer.Schedule
open Result

/-- The numbers of the steps of an order, after a step with the number `previous`, before they are
cut to words. -/
def ordinals : (previous : Nat) → List String → List Nat
  | _, [] => []
  | previous, step :: rest =>
    let number := (Phase.ofName? step).elim (previous + 1) Phase.number
    number :: ordinals number rest

/-- The step with a name and a number; only an action has a condition. -/
def stepOf (condition : String → Option String) (name : String) (number : Nat) : Step :=
  match Phase.ofName? name with
  | some _ => ⟨name, .phase, .ofNat number, none⟩
  | none => ⟨name, .action, .ofNat number, condition name⟩

section StepOf
variable (condition : String → Option String) (name : String) (number : Nat)

@[simp] theorem stepOf_name : (stepOf condition name number).name = name := by
  unfold stepOf
  split <;> rfl

@[simp] theorem stepOf_number : (stepOf condition name number).number = .ofNat number := by
  unfold stepOf
  split <;> rfl

theorem stepOf_kind : (stepOf condition name number).kind =
    if (Phase.ofName? name).isSome then .phase else .action := by
  unfold stepOf
  split <;> next h => simp [h]

theorem stepOf_condition : (stepOf condition name number).condition =
    if (Phase.ofName? name).isSome then none else condition name := by
  unfold stepOf
  split <;> next h => simp [h]

end StepOf

@[simp] theorem length_ordinals (previous : Nat) (order : List String) :
    (ordinals previous order).length = order.length := by
  induction order generalizing previous with
  | nil => rfl
  | cons step rest ih => simp only [ordinals, List.length_cons, ih]

variable {condition : String → Option String}

/-- Numbering gives the steps of the order, with the numbers of the order. -/
theorem numberFrom_eq_ok {previous : Nat} {opening : String} {order : List String}
    {steps : List Step} (h : numberFrom condition previous opening order = .ok steps) :
    steps = List.zipWith (stepOf condition) order (ordinals previous order) := by
  induction order generalizing previous opening steps with
  | nil =>
    cases h
    rfl
  | cons step rest ih =>
    rw [numberFrom] at h
    split at h
    · next phase hphase =>
      obtain ⟨more, hmore, heq⟩ := bind_eq_ok.mp h
      cases heq
      simp only [ordinals, List.zipWith_cons_cons, stepOf, hphase, Option.elim_some, ← ih hmore]
    · next hnone =>
      simp only [throw_bind, ite_error_eq_ok, bind_eq_ok] at h
      obtain ⟨-, more, hmore, heq⟩ := h
      cases heq
      simp only [ordinals, List.zipWith_cons_cons, stepOf, hnone, Option.elim_none, ← ih hmore]

/-- Each of the steps has the name of one in the order. -/
theorem exists_stepOf {previous : Nat} {opening : String} {order : List String} {steps : List Step}
    (h : numberFrom condition previous opening order = .ok steps) {t : Step} (ht : t ∈ steps) :
    ∃ name number, t = stepOf condition name number := by
  rw [numberFrom_eq_ok h, ← List.map_uncurry_zip_eq_zipWith] at ht
  obtain ⟨⟨name, number⟩, -, rfl⟩ := List.mem_map.mp ht
  exact ⟨name, number, rfl⟩

section Views
variable (condition) (previous : Nat) (order : List String)

/-- What the steps of an order show that does not depend on their numbers. -/
theorem map_steps_left {β : Type} {f : Step → β} {g : String → β}
    (h : ∀ name number, f (stepOf condition name number) = g name) :
    (List.zipWith (stepOf condition) order (ordinals previous order)).map f = order.map g := by
  induction order generalizing previous with
  | nil => rfl
  | cons step rest ih => simp only [ordinals, List.zipWith_cons_cons, List.map_cons, h, ih]

theorem map_steps_number :
    (List.zipWith (stepOf condition) order (ordinals previous order)).map (·.number) =
      (ordinals previous order).map UInt32.ofNat := by
  induction order generalizing previous with
  | nil => rfl
  | cons step rest ih =>
    simp only [ordinals, List.zipWith_cons_cons, List.map_cons, stepOf_number, ih]

/-- The phases among the steps carry their own numbers. -/
theorem map_steps_phases :
    ((List.zipWith (stepOf condition) order (ordinals previous order)).filter
        (·.kind = .phase)).map (fun t => (t.name, t.number)) =
      (order.filterMap Phase.ofName?).map fun p => (p.name, .ofNat p.number) := by
  induction order generalizing previous with
  | nil => rfl
  | cons step rest ih =>
    cases hstep : Phase.ofName? step with
    | some phase =>
      have hname : step = phase.name := Keyword.read?_eq_some_iff.mp hstep
      simp only [ordinals, List.zipWith_cons_cons, List.filter_cons, stepOf_kind, hstep,
        Option.isSome_some, if_true, decide_true, List.map_cons, stepOf_name, stepOf_number,
        Option.elim_some, List.filterMap_cons, ih, ← hname]
    | none =>
      simp only [ordinals, List.zipWith_cons_cons, List.filter_cons, stepOf_kind, hstep,
        Option.isSome_none, Bool.false_eq_true, if_false, reduceCtorEq, decide_false,
        List.filterMap_cons, ih]

end Views

/-- Numbering fails only because a gap is too small. -/
theorem numberFrom_eq_error {previous : Nat} {opening : String} {order : List String}
    {v : Violation} (h : numberFrom condition previous opening order = .error v) :
    ∃ anchor, v = .sequenceGapExhausted anchor := by
  induction order generalizing previous opening with
  | nil => cases h
  | cons step rest ih =>
    rw [numberFrom] at h
    split at h
    · next phase hphase =>
      cases hrest : numberFrom condition phase.number step rest with
      | ok more => rw [hrest] at h; cases h
      | error e =>
        rw [hrest] at h
        cases h
        exact ih hrest
    · next hnone =>
      split at h
      · cases h
        exact ⟨opening, rfl⟩
      · cases hrest : numberFrom condition (previous + 1) opening rest with
        | ok more => rw [hrest] at h; cases h
        | error e =>
          rw [hrest] at h
          cases h
          exact ih hrest

/-- Each step is numbered higher than the one before it. At a phase this is so because the phases
come in order; at an action, because it was checked against the phase that comes next. -/
theorem ordinals_ascending {previous : Nat} {opening : String} {order : List String}
    {steps : List Step}
    (hphases : (order.filterMap Phase.ofName?).Pairwise (·.number < ·.number))
    (hnext : ∀ next, order.findSome? Phase.ofName? = some next → previous < next.number)
    (h : numberFrom condition previous opening order = .ok steps) :
    (previous :: ordinals previous order).IsChain (· < ·) := by
  induction order generalizing previous opening steps with
  | nil => exact .singleton _
  | cons step rest ih =>
    rw [numberFrom] at h
    split at h
    · next phase hphase =>
      obtain ⟨more, hmore, -⟩ := bind_eq_ok.mp h
      simp only [List.filterMap_cons, hphase, List.pairwise_cons] at hphases
      have hlt : previous < phase.number := hnext phase (by simp [hphase])
      have hrest := ih hphases.2 (fun next hsome => ?_) hmore
      · simp only [ordinals, hphase, Option.elim_some]
        exact .cons_cons hlt hrest
      · obtain ⟨name, hname, hof⟩ := List.exists_of_findSome?_eq_some hsome
        exact hphases.1 next (List.mem_filterMap.mpr ⟨name, hname, hof⟩)
    · next hnone =>
      simp only [throw_bind, ite_error_eq_ok, bind_eq_ok] at h
      obtain ⟨hfits, more, hmore, -⟩ := h
      simp only [List.filterMap_cons, hnone] at hphases
      have hrest := ih hphases (fun next hsome => ?_) hmore
      · simp only [ordinals, hnone, Option.elim_none]
        exact .cons_cons (Nat.lt_succ_self previous) hrest
      · simpa [hsome] using hfits

/-- The actions after the last phase are all that is numbered above it. -/
theorem ordinals_le {previous : Nat} {order : List String} {n : Nat}
    (h : n ∈ ordinals previous order) :
    n ≤ max previous Phase.installFinalize.number +
      (order.filter fun step => (Phase.ofName? step).isNone).length := by
  induction order generalizing previous with
  | nil => cases h
  | cons step rest ih =>
    cases hstep : Phase.ofName? step with
    | some phase =>
      have hlast : phase.number ≤ Phase.installFinalize.number := by cases phase <;> decide
      simp only [ordinals, hstep, Option.elim_some] at h
      simp only [List.filter_cons, hstep, Option.isNone_some, Bool.false_eq_true, if_false]
      rcases List.mem_cons.mp h with rfl | h
      · omega
      · have hrest := ih h
        omega
    | none =>
      simp only [ordinals, hstep, Option.elim_none] at h
      simp only [List.filter_cons, hstep, Option.isNone_none, if_true, List.length_cons]
      rcases List.mem_cons.mp h with rfl | h
      · omega
      · have hrest := ih h
        omega

/-- Ascending numbers that fit in words are ascending words. -/
theorem words_ascending {ns : List Nat} (h : ns.Pairwise (· < ·)) (hfit : ∀ n ∈ ns, n < UInt32.size) :
    (ns.map UInt32.ofNat).Pairwise (· < ·) := by
  rw [List.pairwise_map]
  refine h.imp_of_mem fun {a b} ha hb hab => ?_
  rw [UInt32.lt_iff_toNat_lt, UInt32.toNat_ofNat_of_lt' (hfit a ha),
    UInt32.toNat_ofNat_of_lt' (hfit b hb)]
  exact hab

end Installer.Schedule
