import Installer.CommandLine.Program
import Installer.Proofs.Disk.Writing

/-!
# How programs run, one request after another

A program in two parts runs the second where the first has left the world (`run_bind`), and fails
where one of the parts does (`run_bind_eq_error`). A program that only reads leaves the world as it
was (`OnlyReads.world`). Files are prepared without a change that anyone sees
(`run_stageAsked_eq_ok`).

A program runs alone: between two of its requests nothing happens to the disk.
-/

set_option autoImplicit false

namespace Installer.CommandLine.Program
variable {α β : Type}

/-! ## Requests -/

theorem run_bind (p : Program α) (f : α → Program β) (w : World) : (p >>= f).run w =
    match p.run w with
    | (.ok a, w') => (f a).run w'
    | (.error e, w') => (.error e, w') := by
  change (p.bind f).run w = _
  induction p generalizing w with
  | done a => rfl
  | fail e => rfl
  | read path next ih => exact ih (w.disk.read? path) w
  | stage o path content next ih =>
    simp only [bind, run]
    split
    · exact ih true _
    · exact ih false w
  | persist o next ih =>
    simp only [bind, run]
    split
    · exact ih true _
    · exact ih false w
  | print text next ih => exact ih _

theorem run_bind_eq_ok {p : Program α} {f : α → Program β} {w w' : World} {b : β} :
    (p >>= f).run w = (.ok b, w') ↔
      ∃ a w₁, p.run w = (.ok a, w₁) ∧ (f a).run w₁ = (.ok b, w') := by
  rw [run_bind]
  rcases p.run w with ⟨e | a, w₁⟩
  · constructor
    · intro h
      cases h
    · rintro ⟨_, _, h, -⟩
      cases h
  · constructor
    · exact fun h => ⟨a, w₁, rfl, h⟩
    · rintro ⟨_, _, h, hf⟩
      cases h
      exact hf

theorem run_bind_eq_error {p : Program α} {f : α → Program β} {w w' : World} {e : Failure} :
    (p >>= f).run w = (.error e, w') ↔ p.run w = (.error e, w') ∨
      ∃ a w₁, p.run w = (.ok a, w₁) ∧ (f a).run w₁ = (.error e, w') := by
  rw [run_bind]
  rcases p.run w with ⟨e₁ | a, w₁⟩
  · constructor
    · intro h
      cases h
      exact .inl rfl
    · rintro (h | ⟨_, _, h, -⟩)
      · cases h
        rfl
      · cases h
  · constructor
    · exact fun h => .inr ⟨a, w₁, rfl, h⟩
    · rintro (h | ⟨_, _, h, hf⟩)
      · cases h
      · cases h
        exact hf

theorem run_stageFile (o : Output) (path content : String) (w : World) :
    (stageFile o path content).run w =
      if w.disk.canStage path then (.ok (), { w with staged := (o, path, content) :: w.staged })
      else (.error (.unwritable path), w) := by
  unfold stageFile run
  split <;> rfl

theorem run_persistFile (o : Output) (path : String) (w : World) :
    (persistFile o path).run w =
      match w.persist? o with
      | some disk => (.ok (), { w with disk })
      | none => (.error (.unwritable path), w) := by
  unfold persistFile run
  split <;> simp [*] <;> rfl

theorem run_ofExcept_eq_ok {ε : Type} {failure : ε → Failure} {x : Except ε α} {a : α}
    {w w' : World} : (Program.ofExcept failure x).run w = (.ok a, w') ↔ x = .ok a ∧ w = w' := by
  cases x with
  | ok b =>
    show (Except.ok b, w) = (.ok a, w') ↔ _
    simp
  | error e =>
    show (Except.error (failure e), w) = (.ok a, w') ↔ _
    simp

theorem run_readFile_eq_ok {path text : String} {w w' : World} :
    (readFile path).run w = (.ok text, w') ↔ w.disk.read? path = some text ∧ w = w' := by
  unfold readFile run
  cases w.disk.read? path with
  | some found =>
    show (Except.ok found, w) = (.ok text, w') ↔ _
    simp
  | none =>
    show (Except.error (Failure.unreadable path), w) = (.ok text, w') ↔ _
    simp

theorem run_ofExcept_eq_error {ε : Type} {failure : ε → Failure} {x : Except ε α} {f : Failure}
    {w w' : World} : (Program.ofExcept failure x).run w = (.error f, w') ↔
      ∃ e, x = .error e ∧ failure e = f ∧ w = w' := by
  cases x with
  | ok b =>
    show (Except.ok b, w) = (.error f, w') ↔ _
    simp
  | error e =>
    show (Except.error (failure e), w) = (.error f, w') ↔ _
    simp

theorem run_readFile_eq_error {path : String} {f : Failure} {w w' : World} :
    (readFile path).run w = (.error f, w') ↔
      w.disk.read? path = none ∧ .unreadable path = f ∧ w = w' := by
  unfold readFile run
  cases w.disk.read? path with
  | some found =>
    show (Except.ok found, w) = (.error f, w') ↔ _
    simp
  | none =>
    show (Except.error (Failure.unreadable path), w) = (.error f, w') ↔ _
    simp

/-- What is done for something that may be given is done if it is. -/
theorem run_forM_toList (a? : Option α) (f : α → Program Unit) (w : World) :
    (a?.toList.forM f).run w =
      match a? with
      | none => (.ok (), w)
      | some a => (f a).run w := by
  cases a? with
  | none => rfl
  | some a =>
    change (f a >>= fun _ => pure ()).run w = (f a).run w
    rw [run_bind]
    rcases (f a).run w with ⟨_ | _, w'⟩ <;> rfl

/-! ## Programs that only read -/

/-- Nothing is prepared, moved or printed. -/
inductive OnlyReads : Program α → Prop
  | done (a : α) : OnlyReads (.done a)
  | fail (f : Failure) : OnlyReads (.fail f)
  | read (path : String) (next : Option String → Program α) :
    (∀ answer, OnlyReads (next answer)) → OnlyReads (.read path next)

namespace OnlyReads

theorem bind {p : Program α} {f : α → Program β} (hp : p.OnlyReads)
    (hf : ∀ a, (f a).OnlyReads) : (p >>= f).OnlyReads := by
  induction hp with
  | done a => exact hf a
  | fail e => exact .fail e
  | read path next _ ih => exact .read path _ ih

theorem ofExcept {ε : Type} (failure : ε → Failure) (x : Except ε α) :
    (Program.ofExcept failure x).OnlyReads := by
  cases x with
  | ok a => exact .done a
  | error e => exact .fail (failure e)

theorem readFile (path : String) : (Program.readFile path).OnlyReads := by
  refine .read path _ fun answer => ?_
  cases answer with
  | some text => exact .done text
  | none => exact .fail (.unreadable path)

theorem world {p : Program α} (h : p.OnlyReads) (w : World) : (p.run w).2 = w := by
  induction h with
  | done | fail => rfl
  | read path next _ ih => exact ih (w.disk.read? path)

theorem run_eq {p : Program α} {r : Except Failure α} {w : World} (h : p.OnlyReads)
    (hr : (p.run w).1 = r) : p.run w = (r, w) :=
  Prod.ext hr (h.world w)

/-- After a program that only reads, a failure finds the world as it was, or comes from the rest. -/
theorem run_bind_eq_error {p : Program α} {f : α → Program β} {w w' : World} {e : Failure}
    (hp : p.OnlyReads) (h : (p >>= f).run w = (.error e, w')) :
    w' = w ∨ ∃ a, p.run w = (.ok a, w) ∧ (f a).run w = (.error e, w') := by
  have hworld := hp.world w
  rcases Program.run_bind_eq_error.mp h with hfirst | ⟨a, w₁, hfirst, hrest⟩
  · rw [hfirst] at hworld
    exact .inl hworld
  · rw [hfirst] at hworld
    obtain rfl : w₁ = w := hworld
    exact .inr ⟨a, hfirst, hrest⟩

end OnlyReads

/-! ## Files that may be asked for -/

section Asked
variable {o : Output} {w w' : World}

theorem run_stageAsked_eq_ok {path? : Option String} {content : String} :
    (stageAsked o (path?.map (·, content))).run w = (.ok (), w') ↔
      (∀ path ∈ path?, w.disk.canStage path = true) ∧
        w' = { w with staged := path?.toList.map (o, ·, content) ++ w.staged } := by
  rw [stageAsked, run_forM_toList]
  cases path? with
  | none => simp [@eq_comm World w']
  | some path =>
    simp only [Option.map_some, run_stageFile]
    by_cases h : w.disk.canStage path = true <;> simp [h, @eq_comm World w']

/-- What cannot be prepared changes nothing. -/
theorem run_stageAsked_eq_error {asked : Option (String × String)} {e : Failure}
    (h : (stageAsked o asked).run w = (.error e, w')) :
    w' = w := by
  rw [stageAsked, run_forM_toList] at h
  cases asked with
  | none => simp at h
  | some file =>
    simp only [run_stageFile] at h
    split at h
    · cases h
    · cases h
      rfl

end Asked

end Installer.CommandLine.Program
