import Mathlib.Data.List.Forall2

/-!
# Results of steps that stop at the first failure

What a success of the whole says of each step, and which step a failure comes from. The lemmas are
about `Except` and lists: nothing of installers is in them, and most of what follows builds on them.
-/

set_option autoImplicit false

namespace Installer.Result
variable {ε α β : Type}

/-- Two steps succeed exactly if the first does and then the second on what it gives. -/
theorem bind_eq_ok {x : Except ε α} {f : α → Except ε β} {b : β} :
    x >>= f = .ok b ↔ ∃ a, x = .ok a ∧ f a = .ok b := by
  constructor
  · intro h
    cases x with
    | error e => cases h
    | ok a => exact ⟨a, rfl, h⟩
  · rintro ⟨a, rfl, hf⟩
    exact hf

/-- Two steps fail exactly if the first does, or the second on what the first gives. -/
theorem bind_eq_error {x : Except ε α} {f : α → Except ε β} {e : ε} :
    x >>= f = .error e ↔ x = .error e ∨ ∃ a, x = .ok a ∧ f a = .error e := by
  cases x with
  | error e' =>
    constructor
    · intro h
      cases h
      exact .inl rfl
    · rintro (h | ⟨_, ha, -⟩)
      · cases h
        rfl
      · cases ha
  | ok a =>
    constructor
    · intro h
      exact .inr ⟨a, rfl, h⟩
    · rintro (h | ⟨_, ha, hf⟩)
      · cases h
      · cases ha
        exact hf

/-- A result that is changed succeeds exactly if it does. -/
theorem map_eq_ok {x : Except ε α} {f : α → β} {b : β} :
    x.map f = .ok b ↔ ∃ a, x = .ok a ∧ f a = b := by
  cases x <;> simp [Except.map]

theorem map_eq_error {x : Except ε α} {f : α → β} {e : ε} :
    x.map f = .error e ↔ x = .error e := by
  cases x <;> simp [Except.map]

theorem map_bind {γ : Type} {x : Except ε α} {f : α → Except ε β} {g : β → γ} :
    (x >>= f).map g = x >>= fun a => (f a).map g := by
  cases x <;> rfl

theorem map_andThen {γ : Type} {x : Except ε α} {f : α → β} {g : β → Except ε γ} :
    x.map f >>= g = x >>= fun a => g (f a) := by
  cases x <;> rfl

/-- A check comes before a step. -/
theorem check_bind_eq_ok {x : Except ε Unit} {f : Unit → Except ε β} {b : β} :
    x >>= f = .ok b ↔ x = .ok () ∧ f () = .ok b :=
  bind_eq_ok.trans ⟨fun ⟨_, hx, hf⟩ => ⟨hx, hf⟩, fun ⟨hx, hf⟩ => ⟨(), hx, hf⟩⟩

theorem exists_of_isOk {x : Except ε α} (h : x.isOk = true) : ∃ a, x = .ok a := by
  cases x with
  | error e => cases h
  | ok a => exact ⟨a, rfl⟩

@[simp] theorem ok_bind (a : α) (f : α → Except ε β) : Except.ok a >>= f = f a := rfl

@[simp] theorem error_bind (e : ε) (f : α → Except ε β) : Except.error e >>= f = .error e := rfl

@[simp] theorem throw_bind (e : ε) (f : α → Except ε β) : throw e >>= f = .error e := rfl

/-- A check that refuses in one case succeeds exactly if the case does not arise and the rest
succeeds. -/
theorem ite_error_eq_ok {p : Prop} [Decidable p] {e : ε} {x : Except ε α} {a : α} :
    (if p then .error e else x) = .ok a ↔ ¬p ∧ x = .ok a := by
  by_cases hp : p <;> simp [hp]

/-- A check that refuses in one case fails with another error only by what comes after it. -/
theorem ite_error_eq_error {p : Prop} [Decidable p] {e e' : ε} {x : Except ε α} :
    (if p then .error e else x) = .error e' ↔ (p ∧ e = e') ∨ (¬p ∧ x = .error e') := by
  by_cases hp : p <;> simp [hp]

/-- A step over a list succeeds exactly if it does on every element, with what it gives there. -/
theorem mapM_eq_ok {f : α → Except ε β} : ∀ {as : List α} {bs : List β},
    as.mapM f = .ok bs ↔ List.Forall₂ (fun a b => f a = .ok b) as bs
  | [], bs => by
    rw [List.mapM_nil, List.forall₂_nil_left_iff]
    exact ⟨fun h => by cases h; rfl, fun h => by rw [h]; rfl⟩
  | a :: as, bs => by
    rw [List.mapM_cons]
    constructor
    · intro h
      obtain ⟨b, hb, hrest⟩ := bind_eq_ok.mp h
      obtain ⟨bs', hbs, heq⟩ := bind_eq_ok.mp hrest
      cases heq
      exact .cons hb (mapM_eq_ok.mp hbs)
    · intro h
      cases h with
      | cons hb hbs => rw [hb, ok_bind, mapM_eq_ok.mpr hbs]; rfl

/-- Lists whose elements are related one by one: each on the left has one on the right. -/
theorem exists_related {R : α → β → Prop} {as : List α} {bs : List β} (h : List.Forall₂ R as bs)
    {a : α} (ha : a ∈ as) : ∃ b ∈ bs, R a b := by
  induction h with
  | nil => cases ha
  | cons hab _ ih =>
    rcases List.mem_cons.mp ha with rfl | ha
    · exact ⟨_, List.mem_cons_self, hab⟩
    · obtain ⟨b, hb, hr⟩ := ih ha
      exact ⟨b, List.mem_cons_of_mem _ hb, hr⟩

/-- Related lists look the same where related elements do. -/
theorem map_eq_map_of_related {γ : Type} {R : α → β → Prop} {as : List α} {bs : List β}
    (h : List.Forall₂ R as bs) {f : α → γ} {g : β → γ} (hR : ∀ a b, R a b → g b = f a) :
    bs.map g = as.map f := by
  induction h with
  | nil => rfl
  | cons hab _ ih => rw [List.map_cons, List.map_cons, hR _ _ hab, ih]

/-- Lists whose elements are related one by one are so around each element. -/
theorem forall₂_split {R : α → β → Prop} {as : List α} {front : List β} {b : β} {back : List β}
    (h : List.Forall₂ R as (front ++ b :: back)) :
    ∃ front' a back', as = front' ++ a :: back' ∧ List.Forall₂ R front' front ∧ R a b := by
  induction front generalizing as with
  | nil =>
    cases h with
    | cons hab _ => exact ⟨[], _, _, rfl, .nil, hab⟩
  | cons c front ih =>
    cases h with
    | cons hac hrest =>
      obtain ⟨front', a, back', rfl, hfront, hab⟩ := ih hrest
      exact ⟨_ :: front', a, back', rfl, .cons hac hfront, hab⟩

/-- Lists that are related one by one to related lists are related through these. -/
theorem forall₂_square {α' β' : Type} {T : α → α' → Prop} {R : α → β → Prop} {S : α' → β' → Prop}
    {as : List α} {as' : List α'} {bs : List β} {bs' : List β'} (h : List.Forall₂ T as as')
    (hleft : List.Forall₂ R as bs) (hright : List.Forall₂ S as' bs') :
    List.Forall₂ (fun b b' => ∃ a a', T a a' ∧ R a b ∧ S a' b') bs bs' := by
  induction h generalizing bs bs' with
  | nil =>
    cases hleft
    cases hright
    exact .nil
  | cons haa' _ ih =>
    cases hleft with
    | cons hab hleft =>
      cases hright with
      | cons hab' hright => exact .cons ⟨_, _, haa', hab, hab'⟩ (ih hleft hright)

/-- What two steps over one list give is related through the elements of the list. -/
theorem forall₂_of_mapM {γ : Type} {f : α → Except ε β} {g : α → Except ε γ} {as : List α}
    {bs : List β} {cs : List γ} (h : as.mapM f = .ok bs) (h' : as.mapM g = .ok cs) :
    List.Forall₂ (fun b c => ∃ a ∈ as, f a = .ok b ∧ g a = .ok c) bs cs := by
  have hsame : List.Forall₂ (fun a a' => a' = a ∧ a ∈ as) as as :=
    List.forall₂_same.mpr fun a ha => ⟨rfl, ha⟩
  refine (forall₂_square hsame (mapM_eq_ok.mp h) (mapM_eq_ok.mp h')).imp ?_
  rintro b c ⟨_, _, ⟨rfl, ha⟩, hb, hc⟩
  exact ⟨_, ha, hb, hc⟩

theorem mapM_congr {f g : α → Except ε β} {as : List α} (h : ∀ a ∈ as, f a = g a) :
    as.mapM f = as.mapM g := by
  induction as with
  | nil => rfl
  | cons a as ih =>
    obtain ⟨ha, has⟩ := List.forall_mem_cons.mp h
    rw [List.mapM_cons, List.mapM_cons, ha, ih has]

/-- What a step over a list gives is given by the step on an element of the list. -/
theorem exists_of_mem_result {f : α → Except ε β} {as : List α} {bs : List β}
    (h : as.mapM f = .ok bs) {b : β} (hb : b ∈ bs) : ∃ a ∈ as, f a = .ok b :=
  exists_related (mapM_eq_ok.mp h).flip hb

/-- A step over a list gives something for every element. -/
theorem exists_result_of_mem {f : α → Except ε β} {as : List α} {bs : List β}
    (h : as.mapM f = .ok bs) {a : α} (ha : a ∈ as) : ∃ b ∈ bs, f a = .ok b :=
  exists_related (mapM_eq_ok.mp h) ha

/-- A step over a list fails exactly if it fails on an element after it has succeeded on all those
before. -/
theorem mapM_eq_error_iff {f : α → Except ε β} {e : ε} {as : List α} :
    as.mapM f = .error e ↔ ∃ front a back, as = front ++ a :: back ∧
      (∀ b ∈ front, ∃ c, f b = .ok c) ∧ f a = .error e := by
  induction as with
  | nil =>
    rw [List.mapM_nil]
    constructor
    · intro h
      cases h
    · rintro ⟨front, a, back, hsplit, -⟩
      simp at hsplit
  | cons a as ih =>
    rw [List.mapM_cons, bind_eq_error]
    constructor
    · rintro (ha | ⟨b, hb, h⟩)
      · exact ⟨[], a, as, rfl, nofun, ha⟩
      · rcases bind_eq_error.mp h with has | ⟨_, -, hdone⟩
        · obtain ⟨front, a', back, rfl, hfront, ha'⟩ := ih.mp has
          exact ⟨a :: front, a', back, rfl, List.forall_mem_cons.mpr ⟨⟨b, hb⟩, hfront⟩, ha'⟩
        · cases hdone
    · rintro ⟨front, a', back, hsplit, hfront, ha'⟩
      cases front with
      | nil =>
        cases hsplit
        exact .inl ha'
      | cons c front =>
        cases hsplit
        obtain ⟨⟨b, hb⟩, hfront⟩ := List.forall_mem_cons.mp hfront
        exact .inr ⟨b, hb, bind_eq_error.mpr (.inl (ih.mpr ⟨front, a', back, rfl, hfront, ha'⟩))⟩

/-- A step over a list fails on some element. -/
theorem exists_of_mapM_error {f : α → Except ε β} {e : ε} {as : List α}
    (h : as.mapM f = .error e) : ∃ a ∈ as, f a = .error e := by
  obtain ⟨front, a, back, rfl, -, ha⟩ := mapM_eq_error_iff.mp h
  exact ⟨a, by simp, ha⟩

/-- A step over a list fails exactly if it fails on some element. -/
theorem exists_mapM_error_iff {f : α → Except ε β} {as : List α} :
    (∃ e, as.mapM f = .error e) ↔ ∃ a ∈ as, ∃ e, f a = .error e := by
  constructor
  · rintro ⟨e, h⟩
    obtain ⟨a, ha, hfail⟩ := exists_of_mapM_error h
    exact ⟨a, ha, e, hfail⟩
  · rintro ⟨a, ha, e, hfail⟩
    cases h : as.mapM f with
    | error e => exact ⟨e, rfl⟩
    | ok bs =>
      obtain ⟨b, -, hb⟩ := exists_result_of_mem h ha
      rw [hfail] at hb
      cases hb

/-- A step over a list gives something exactly if it does on every element. -/
theorem exists_mapM_ok_iff {f : α → Except ε β} {as : List α} :
    (∃ bs, as.mapM f = .ok bs) ↔ ∀ a ∈ as, ∃ b, f a = .ok b := by
  constructor
  · rintro ⟨bs, h⟩ a ha
    obtain ⟨b, -, hb⟩ := exists_result_of_mem h ha
    exact ⟨b, hb⟩
  · intro hall
    cases h : as.mapM f with
    | ok bs => exact ⟨bs, rfl⟩
    | error e =>
      obtain ⟨a, ha, hfail⟩ := exists_of_mapM_error h
      obtain ⟨b, hb⟩ := hall a ha
      rw [hfail] at hb
      cases hb

/-- A check over a list succeeds exactly if it does on every element. -/
theorem forM_eq_ok {f : α → Except ε Unit} : ∀ {as : List α},
    as.forM f = .ok () ↔ ∀ a ∈ as, f a = .ok ()
  | [] => by simp [List.forM, pure, Except.pure]
  | a :: as => by
    rw [List.forM, bind_eq_ok, List.forall_mem_cons]
    constructor
    · rintro ⟨_, ha, has⟩
      exact ⟨ha, forM_eq_ok.mp has⟩
    · rintro ⟨ha, has⟩
      exact ⟨(), ha, forM_eq_ok.mpr has⟩

/-- A check over a list fails exactly if it fails on an element after it has succeeded on all those
before. -/
theorem forM_eq_error_iff {f : α → Except ε Unit} {e : ε} {as : List α} :
    as.forM f = .error e ↔ ∃ front a back, as = front ++ a :: back ∧
      (∀ b ∈ front, f b = .ok ()) ∧ f a = .error e := by
  induction as with
  | nil =>
    constructor
    · intro h
      cases h
    · rintro ⟨front, a, back, hsplit, -⟩
      simp at hsplit
  | cons a as ih =>
    rw [List.forM, bind_eq_error, ih]
    constructor
    · rintro (ha | ⟨_, ha, front, b, back, rfl, hfront, hb⟩)
      · exact ⟨[], a, as, rfl, nofun, ha⟩
      · exact ⟨a :: front, b, back, rfl, List.forall_mem_cons.mpr ⟨ha, hfront⟩, hb⟩
    · rintro ⟨front, b, back, hsplit, hfront, hb⟩
      cases front with
      | nil =>
        cases hsplit
        exact .inl hb
      | cons c front =>
        cases hsplit
        obtain ⟨ha, hfront⟩ := List.forall_mem_cons.mp hfront
        exact .inr ⟨(), ha, front, b, back, rfl, hfront, hb⟩

/-- A check over a list fails on some element. -/
theorem exists_of_forM_error {f : α → Except ε Unit} {e : ε} {as : List α}
    (h : as.forM f = .error e) : ∃ a ∈ as, f a = .error e := by
  obtain ⟨front, a, back, rfl, -, ha⟩ := forM_eq_error_iff.mp h
  exact ⟨a, by simp, ha⟩

/-- What is optional is checked where there is one. -/
theorem forM_toList_eq_ok {f : α → Except ε Unit} {o : Option α} :
    o.toList.forM f = .ok () ↔ ∀ a ∈ o, f a = .ok () := by
  rw [forM_eq_ok]
  simp only [Option.mem_toList, Option.mem_def]

/-- A search by a test finds the first element that has what is tested. -/
theorem find?_eq_some_iff_first {test : α → Bool} {P : α → Prop} {as : List α}
    (h : ∀ a ∈ as, test a = true ↔ P a) {a : α} :
    as.find? test = some a ↔
      ∃ front back, as = front ++ a :: back ∧ (∀ b ∈ front, ¬P b) ∧ P a := by
  rw [List.find?_eq_some_iff_append]
  constructor
  · rintro ⟨ha, front, back, hsplit, hfront⟩
    refine ⟨front, back, hsplit, fun b hb hP => ?_, (h a (by simp [hsplit])).mp ha⟩
    have hkept := hfront b hb
    rw [(h b (by simp [hsplit, hb])).mpr hP] at hkept
    cases hkept
  · rintro ⟨front, back, hsplit, hfront, ha⟩
    refine ⟨(h a (by simp [hsplit])).mpr ha, front, back, hsplit, fun b hb => ?_⟩
    rw [Bool.not_eq_true', ← Bool.not_eq_true, h b (by simp [hsplit, hb])]
    exact hfront b hb

/-- A check against known names does not see in which order they are known. -/
theorem contains_congr {known known' : List String} (h : ∀ name, name ∈ known' ↔ name ∈ known) :
    known'.contains = known.contains := by
  funext name
  simp only [List.contains_eq_mem, h]

end Installer.Result
