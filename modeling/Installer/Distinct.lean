/-!
# Names that are used once, and names without their repeats

The first name that is taken (`firstTaken?`), by a name before it or by one of those that are there
already, and the names without those that came before (`firsts`). Both go by the names alone: whose
names they are is for those who use this.
-/

set_option autoImplicit false

namespace Installer.Distinct

/-- The first of the names that is taken, by the names `taken` or one before it. -/
def firstTaken? (taken : List String) : List String → Option String
  | [] => none
  | name :: rest => if taken.contains name then some name else firstTaken? (name :: taken) rest

/-- It does not matter in which order names were taken before, nor how often. -/
theorem firstTaken?_congr {taken taken' names : List String}
    (h : ∀ name, name ∈ taken ↔ name ∈ taken') :
    firstTaken? taken names = firstTaken? taken' names := by
  induction names generalizing taken taken' with
  | nil => rfl
  | cons name rest ih =>
    have hcontains : taken.contains name = taken'.contains name := by
      rw [Bool.eq_iff_iff, List.contains_iff_mem, List.contains_iff_mem, h]
    have hrest : firstTaken? (name :: taken) rest = firstTaken? (name :: taken') rest :=
      ih fun other => by simp only [List.mem_cons, h]
    rw [firstTaken?, firstTaken?, hcontains, hrest]

/-- No name is taken exactly if the names differ from each other and from those taken before. -/
theorem firstTaken?_eq_none_iff {names : List String} : ∀ {taken : List String},
    firstTaken? taken names = none ↔ names.Nodup ∧ ∀ name ∈ names, name ∉ taken := by
  induction names with
  | nil => simp [firstTaken?]
  | cons name rest ih =>
    intro taken
    by_cases h : name ∈ taken
    · simp [firstTaken?, h]
    · simp only [firstTaken?, List.contains_eq_mem, h, decide_false, Bool.false_eq_true,
        ↓reduceIte, ih, List.nodup_cons, List.mem_cons, not_or, forall_eq_or_imp,
        not_false_eq_true, true_and]
      constructor
      · rintro ⟨hrest, hfree⟩
        exact ⟨⟨fun hmem => (hfree name hmem).1 rfl, hrest⟩, fun n hn => (hfree n hn).2⟩
      · rintro ⟨⟨hname, hrest⟩, hfree⟩
        exact ⟨hrest, fun n hn => ⟨fun he => hname (he ▸ hn), hfree n hn⟩⟩

/-- A name is the first that is taken exactly if no name before it is, and it is taken before the names
or stands among those before it. -/
theorem firstTaken?_eq_some_iff {name : String} {names : List String} : ∀ {taken : List String},
    firstTaken? taken names = some name ↔ ∃ front back, names = front ++ name :: back ∧
      firstTaken? taken front = none ∧ (name ∈ taken ∨ name ∈ front) := by
  induction names with
  | nil => simp [firstTaken?]
  | cons n rest ih =>
    intro taken
    by_cases htaken : n ∈ taken
    · rw [firstTaken?, if_pos (List.contains_iff_mem.mpr htaken)]
      constructor
      · intro h
        cases h
        exact ⟨[], rest, rfl, rfl, .inl htaken⟩
      · rintro ⟨front, back, hsplit, hfree, -⟩
        cases front with
        | nil =>
          cases hsplit
          rfl
        | cons m front =>
          cases hsplit
          simp [firstTaken?, htaken] at hfree
    · have hnot : ¬taken.contains n = true := fun h => htaken (List.contains_iff_mem.mp h)
      rw [firstTaken?, if_neg hnot, ih]
      constructor
      · rintro ⟨front, back, rfl, hfree, hname⟩
        refine ⟨n :: front, back, rfl, by rwa [firstTaken?, if_neg hnot], ?_⟩
        simpa only [List.mem_cons, or_assoc, or_left_comm] using hname
      · rintro ⟨front, back, hsplit, hfree, hname⟩
        cases front with
        | nil =>
          cases hsplit
          exact absurd hname (by simp [htaken])
        | cons m front =>
          cases hsplit
          rw [firstTaken?, if_neg hnot] at hfree
          refine ⟨front, back, rfl, hfree, ?_⟩
          simpa only [List.mem_cons, or_assoc, or_left_comm] using hname

/-- Of names followed by others none is taken if none of the first is, and none of the others
after them. -/
theorem firstTaken?_append_eq_none_iff {taken names more : List String} :
    firstTaken? taken (names ++ more) = none ↔
      firstTaken? taken names = none ∧ firstTaken? (names ++ taken) more = none := by
  simp only [firstTaken?_eq_none_iff, List.nodup_append, List.mem_append, or_imp,
    forall_and, not_or]
  constructor
  · rintro ⟨⟨hnames, hmore, hapart⟩, hfree, hfree'⟩
    exact ⟨⟨hnames, hfree⟩, hmore, fun name hm hn => hapart name hn name hm rfl, hfree'⟩
  · rintro ⟨⟨hnames, hfree⟩, hmore, hapart, hfree'⟩
    exact ⟨⟨hnames, hmore, fun name hn _ hm heq => hapart name (heq ▸ hm) hn⟩, hfree, hfree'⟩

/-- A name that is taken is there twice, with those taken before. -/
theorem two_le_count_of_firstTaken? {name : String} {taken names : List String}
    (h : firstTaken? taken names = some name) : 2 ≤ taken.count name + names.count name := by
  obtain ⟨front, back, rfl, -, hname⟩ := firstTaken?_eq_some_iff.mp h
  rw [List.count_append, List.count_cons_self]
  cases hname with
  | inl htaken =>
    have hearlier : 0 < taken.count name := List.count_pos_iff.mpr htaken
    omega
  | inr hfront =>
    have hearlier : 0 < front.count name := List.count_pos_iff.mpr hfront
    omega

/-- The same names without repeats, each where it stands first. -/
def firsts : List String → List String
  | [] => []
  | name :: rest => name :: (firsts rest).filter (· ≠ name)

@[simp] theorem mem_firsts {name : String} {names : List String} :
    name ∈ firsts names ↔ name ∈ names := by
  induction names with
  | nil => simp [firsts]
  | cons n rest ih =>
    by_cases h : name = n <;> simp [firsts, h, ih]

theorem nodup_firsts : ∀ names : List String, (firsts names).Nodup
  | [] => .nil
  | name :: rest => by
    simp only [firsts, List.nodup_cons, List.mem_filter, ne_eq, decide_not, Bool.not_eq_true',
      decide_eq_false_iff_not, not_true_eq_false, and_false, not_false_eq_true, true_and]
    exact (nodup_firsts rest).filter _

/-- The same names, each once, in the order in which they come first. -/
structure AreFirsts (names once : List String) : Prop where
  nodup : once.Nodup
  mem : ∀ name, name ∈ once ↔ name ∈ names
  ordered : once.Pairwise (names.idxOf · < names.idxOf ·)

theorem areFirsts_firsts (names : List String) : AreFirsts names (firsts names) := by
  refine ⟨nodup_firsts names, fun _ => mem_firsts, ?_⟩
  induction names with
  | nil => exact .nil
  | cons name rest ih =>
    have hnext : ∀ other ∈ (firsts rest).filter (· ≠ name),
        (name :: rest).idxOf other = rest.idxOf other + 1 := by
      intro other hother
      have hne : other ≠ name := by simpa using (List.mem_filter.mp hother).2
      rw [List.idxOf_cons, beq_false_of_ne hne.symm, cond_false]
    rw [firsts, List.pairwise_cons]
    constructor
    · intro other hother
      rw [List.idxOf_cons_self, hnext other hother]
      exact Nat.succ_pos _
    · refine (ih.filter _).imp_of_mem fun hx hy hlt => ?_
      rw [hnext _ hx, hnext _ hy]
      exact Nat.succ_lt_succ hlt

end Installer.Distinct
