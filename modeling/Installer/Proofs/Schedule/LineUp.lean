import Installer.Proofs.Precedence.Greedy
import Installer.Proofs.Schedule.Gaps
import Installer.Proofs.Schedule.Ranks

/-!
# Steps that line up by their ranks

By rank alone, an action comes after each phase with a lower number and before each phase with the
same number or a higher one. So the steps fall into the gaps between the phases (`lineUp_eq_gaps`).

**What it does not establish.** It is about ranks alone. Rules may put steps elsewhere, and when they
do not is for others to show.
-/

set_option autoImplicit false

namespace Installer.Schedule
open Precedence

/-- A rank is above the number of the phase that opens a gap, and not above that of the phase that
closes it. -/
def Gap.Covers (g : Gap) (rank : Int) : Prop :=
  (∀ p ∈ g.opening, (p.number : Int) < rank) ∧ ∀ p ∈ g.closing, rank ≤ p.number

instance (g : Gap) (rank : Int) : Decidable (g.Covers rank) :=
  inferInstanceAs (Decidable (_ ∧ _))

/-- The actions whose ranks are in a gap, as they line up. -/
def ranged (ranks : List (String × Int)) (steps : List String) (g : Gap) : List String :=
  (lineUp (grade ranks) steps).filter fun a =>
    a ∉ Phase.names ∧ g.Covers (rankIn ranks a)

section Grades
variable (ranks : List (String × Int))

theorem rankIn_name (p : Phase) : rankIn ranks p.name = p.number := by
  rw [rankIn, Phase.ofName?_name]

theorem grade_name (p : Phase) : grade ranks p.name = 2 * p.number + 1 := by
  rw [grade, rankIn_name, Phase.ofName?_name]
  rfl

theorem grade_action {a : String} (h : a ∉ Phase.names) : grade ranks a = 2 * rankIn ranks a := by
  rw [grade, if_neg (fun hsome => h ((Phase.ofName?_isSome_iff a).mp hsome)), Int.add_zero]

theorem two_mul_rank_le_grade (step : String) : 2 * rankIn ranks step ≤ grade ranks step := by
  unfold grade
  split <;> omega

theorem grade_le_two_mul_rank (step : String) : grade ranks step ≤ 2 * rankIn ranks step + 1 := by
  unfold grade
  split <;> omega

end Grades

section Gaps
variable {ranks : List (String × Int)} {steps : List String}

theorem mem_ranged {g : Gap} {a : String} :
    a ∈ ranged ranks steps g ↔ a ∈ steps ∧ a ∉ Phase.names ∧ g.Covers (rankIn ranks a) := by
  rw [ranged, List.mem_filter, (lineUp_perm _ _).mem_iff, decide_eq_true_iff]

/-- Every rank is in a gap. -/
theorem exists_covers (rank : Int) : ∀ (o : Option Phase) (phases : List Phase),
    (∀ p ∈ o, (p.number : Int) < rank) → ∃ g ∈ gapsFrom o phases, g.Covers rank
  | o, [], h => ⟨⟨o, none⟩, List.mem_singleton_self _, h, nofun⟩
  | o, q :: rest, h => by
    by_cases hq : rank ≤ q.number
    · exact ⟨⟨o, some q⟩, List.mem_cons_self, h, by rintro _ ⟨⟩; exact hq⟩
    · obtain ⟨g, hg, hcovers⟩ := exists_covers rank (some q) rest
        (by rintro _ ⟨⟩; exact not_le.mp hq)
      exact ⟨g, List.mem_cons_of_mem _ hg, hcovers⟩

/-- What is in a gap that a phase opens has at least the grade of the phase. -/
theorem le_grade_of_mem_steps {p : Phase} {c : Option Phase} {x : String}
    (hx : x ∈ Gap.steps ⟨some p, c⟩ (ranged ranks steps ⟨some p, c⟩)) :
    2 * (p.number : Int) + 1 ≤ grade ranks x := by
  rcases List.mem_cons.mp hx with rfl | hx
  · exact (grade_name ranks p).ge
  · obtain ⟨-, hnot, hcovers⟩ := mem_ranged.mp hx
    have hlt := hcovers.1 p rfl
    rw [grade_action ranks hnot]
    omega

/-- So has what comes in a later gap. -/
theorem le_grade_of_mem {p : Phase} {phases : List Phase}
    (hascending : (p :: phases).Pairwise (·.number < ·.number)) {x : String}
    (hx : x ∈ (gapsFrom (some p) phases).flatMap fun g => g.steps (ranged ranks steps g)) :
    2 * (p.number : Int) + 1 ≤ grade ranks x := by
  induction phases generalizing p with
  | nil =>
    rw [gapsFrom, List.flatMap_singleton] at hx
    exact le_grade_of_mem_steps hx
  | cons q rest ih =>
    obtain ⟨hlower, hrest⟩ := List.pairwise_cons.mp hascending
    rw [gapsFrom, List.flatMap_cons] at hx
    rcases List.mem_append.mp hx with hx | hx
    · exact le_grade_of_mem_steps hx
    · have hlt := hlower q List.mem_cons_self
      have hle := ih hrest hx
      omega

/-- What is in a gap that a phase closes has a lower grade than the phase, if what opens the gap
has. -/
theorem grade_lt_of_mem_steps {o : Option Phase} {q : Phase} (ho : ∀ p ∈ o, p.number < q.number)
    {x : String} (hx : x ∈ Gap.steps ⟨o, some q⟩ (ranged ranks steps ⟨o, some q⟩)) :
    grade ranks x < 2 * (q.number : Int) + 1 := by
  rcases List.mem_append.mp hx with hx | hx
  · obtain ⟨p, hp, rfl⟩ := Option.map_eq_some_iff.mp (Option.mem_toList.mp hx)
    have hlt := ho p hp
    rw [grade_name]
    omega
  · obtain ⟨-, hnot, hcovers⟩ := mem_ranged.mp hx
    have hle := hcovers.2 q rfl
    rw [grade_action ranks hnot]
    omega

theorem pairwise_ranged (ranks : List (String × Int)) (hnodup : steps.Nodup)
    (g : Gap) : (ranged ranks steps g).Pairwise (Ahead (grade ranks) steps) :=
  (lineUp_pairwise _ hnodup).sublist List.filter_sublist

/-- The phase that opens a gap and the actions in its range line up. -/
theorem pairwise_steps (hnodup : steps.Nodup) (g : Gap) :
    (g.steps (ranged ranks steps g)).Pairwise (Ahead (grade ranks) steps) := by
  have hranged := pairwise_ranged ranks hnodup g
  obtain ⟨o, c⟩ := g
  cases o with
  | none => exact hranged
  | some p =>
    refine List.pairwise_cons.mpr ⟨fun a ha => .inl ?_, hranged⟩
    obtain ⟨-, hnot, hcovers⟩ := mem_ranged.mp ha
    have hlt := hcovers.1 p rfl
    rw [grade_name, grade_action ranks hnot]
    omega

/-- Gap by gap, everything lines up. -/
theorem pairwise_gaps (hnodup : steps.Nodup) {o : Option Phase} {phases : List Phase}
    (hascending : (o.toList ++ phases).Pairwise (·.number < ·.number)) :
    ((gapsFrom o phases).flatMap fun g => g.steps (ranged ranks steps g)).Pairwise
      (Ahead (grade ranks) steps) := by
  induction phases generalizing o with
  | nil =>
    rw [gapsFrom, List.flatMap_singleton]
    exact pairwise_steps hnodup _
  | cons q rest ih =>
    obtain ⟨-, hrest, hlower⟩ := List.pairwise_append.mp hascending
    rw [gapsFrom, List.flatMap_cons]
    refine List.pairwise_append.mpr ⟨pairwise_steps hnodup _, ih (o := some q) hrest, ?_⟩
    intro x hx y hy
    have hlt := grade_lt_of_mem_steps
      (fun p hp => hlower p (Option.mem_toList.mpr hp) q List.mem_cons_self) hx
    exact .inl (lt_of_lt_of_le hlt (le_grade_of_mem hrest hy))

/-- Steps that line up fall into the gaps between the phases. -/
theorem lineUp_eq_gaps (hnodup : steps.Nodup) (hphases : Phase.names ⊆ steps) :
    lineUp (grade ranks) steps = Gap.all.flatMap fun g => g.steps (ranged ranks steps g) := by
  have hgaps : (Gap.all.flatMap fun g => g.steps (ranged ranks steps g)).Pairwise
      (Ahead (grade ranks) steps) :=
    pairwise_gaps hnodup (o := none) (List.pairwise_map.mp Phase.numbers_ascending)
  refine eq_of_pairwise_ahead ?_ (lineUp_pairwise _ hnodup) hgaps
  refine (lineUp_perm _ _).trans
    ((List.perm_ext_iff_of_nodup hnodup (hgaps.imp Ahead.ne)).mpr fun x => ?_)
  simp only [List.mem_flatMap, Gap.steps, List.mem_append, Option.mem_toList, Option.map_eq_some_iff]
  constructor
  · intro hx
    by_cases hphase : x ∈ Phase.names
    · obtain ⟨p, -, rfl⟩ := List.mem_map.mp hphase
      obtain ⟨g, hg, hopening⟩ := Gap.exists_opening p
      exact ⟨g, hg, .inl ⟨p, hopening, rfl⟩⟩
    · obtain ⟨g, hg, hcovers⟩ := exists_covers (rankIn ranks x) none Phase.all fun p hp =>
        absurd hp (Option.not_mem_none p)
      exact ⟨g, hg, .inr (mem_ranged.mpr ⟨hx, hphase, hcovers⟩)⟩
  · rintro ⟨g, -, ⟨p, -, rfl⟩ | hx⟩
    · exact hphases (Phase.name_mem p)
    · exact (mem_ranged.mp hx).1

end Gaps
end Installer.Schedule
