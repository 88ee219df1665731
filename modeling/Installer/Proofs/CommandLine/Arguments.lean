import Installer.CommandLine.Invocation
import Installer.Proofs.Result

/-!
# Arguments that both commands accept

Validating has no flags of its own, so compiling reads what validating accepts in the same way
(`readArguments_of_validate`). A command line that asks for either, depending on one word, asks for
the same otherwise, and for no file to be written (`readRequest_both`).

An argument before the command settles which command is run, or is passed over (`readRequest_cons`).
So the induction on these arguments comes to the word that differs, and from there on both commands
read the same arguments.

Only command lines that ask for a run are compared. What is told of a wrong one may differ: to
validating some flags are unknown.
-/

set_option autoImplicit false

namespace Installer.CommandLine
open Result

/-! ## Flags -/

/-- The letters of validating take no value. -/
theorem Flag.ofLetter?_validate (c : Char) : Flag.ofLetter? .validate c = none := by
  refine List.find?_eq_none.mpr fun f _ => ?_
  cases f <;> simp [Flag.isFor, Flag.letter?]

theorem Flag.ofName?_of_validate {name : String} {f : Flag}
    (h : Flag.ofName? .validate name = some f) :
    Flag.ofName? .compile name = some f ∧ f.isFor .validate = true := by
  obtain ⟨hread, hfor⟩ := Option.filter_eq_some_iff.mp h
  refine ⟨Option.filter_eq_some_iff.mpr ⟨hread, ?_⟩, hfor⟩
  cases f <;> rfl

/-! ## What has been given -/

namespace Given

/-- Every flag that has a value is one of validating. -/
def IsForValidating (g : Given) : Prop := ∀ entry ∈ g.values, entry.1.isFor .validate = true

/-- What has been read, and the flag whose value is to come, are of validating. -/
def AllForValidating (r : Given × Option Flag) : Prop :=
  r.1.IsForValidating ∧ ∀ f ∈ r.2, f.isFor .validate = true

namespace IsForValidating

theorem none : Given.none.IsForValidating := nofun

variable {g g' : Given} (hg : g.IsForValidating)
include hg

theorem setQuiet (h : g.setQuiet = .ok g') : g'.IsForValidating := by
  obtain ⟨-, h⟩ := ite_error_eq_ok.mp h
  cases h
  exact hg

theorem setManifest {path : String} (h : g.setManifest path = .ok g') : g'.IsForValidating := by
  obtain ⟨-, h⟩ := ite_error_eq_ok.mp h
  obtain ⟨-, h⟩ := ite_error_eq_ok.mp h
  cases h
  exact hg

theorem setValue {f : Flag} {value : String} (hf : f.isFor .validate = true)
    (h : g.setValue f value = .ok g') : g'.IsForValidating := by
  obtain ⟨-, h⟩ := ite_error_eq_ok.mp h
  obtain ⟨-, h⟩ := ite_error_eq_ok.mp h
  cases h
  exact List.forall_mem_cons.mpr ⟨hf, hg⟩

theorem foldlM_setManifest {paths : List String} (h : paths.foldlM Given.setManifest g = .ok g') :
    g'.IsForValidating := by
  induction paths generalizing g with
  | nil =>
    cases h
    exact hg
  | cons path paths ih =>
    rw [List.foldlM_cons] at h
    obtain ⟨g₁, hset, h⟩ := bind_eq_ok.mp h
    exact ih (hg.setManifest hset) h

/-- A flag that is not of validating has no value. -/
theorem value?_eq (env : Environment) {f : Flag} (hf : f.isFor .validate = false) :
    g.value? env f = .ok .none := by
  have hlookup : g.values.lookup f = .none := by
    refine List.lookup_eq_none_iff.mpr fun entry hentry => ?_
    rw [bne_iff_ne]
    rintro rfl
    exact absurd (hg entry hentry) (by simp [hf])
  have hname : f.environmentName? = .none := by
    cases f <;> first | rfl | cases hf
  rw [Given.value?, hlookup, hname]
  rfl

end IsForValidating

/-- The command only says what is done with what was given. -/
theorem invocation_eq_map (g : Given) (command : Command) (env : Environment) :
    g.invocation command env =
      (g.invocation .validate env).map fun i => { i with command := command } := by
  unfold Given.invocation
  cases g.manifest with
  | none => rfl
  | some manifest =>
    simp only [map_bind]
    congr 1
    funext version
    cases version with
    | none => rfl
    | some version =>
      simp only [map_bind]
      rfl

theorem command_of_invocation {g : Given} {command : Command} {env : Environment} {i : Invocation}
    (h : g.invocation command env = .ok i) : i.command = command := by
  rw [g.invocation_eq_map] at h
  obtain ⟨_, -, rfl⟩ := map_eq_ok.mp h
  rfl

/-- An invocation with flags of validating writes no file. -/
theorem IsForValidating.writesNothing {g : Given} {env : Environment} {i : Invocation}
    (hg : g.IsForValidating) (h : g.invocation .validate env = .ok i) :
    i.out = .none ∧ i.wxs = .none := by
  have hout := hg.value?_eq env (show Flag.isFor .validate .out = false from rfl)
  have hwxs := hg.value?_eq env (show Flag.isFor .validate .wxs = false from rfl)
  unfold Given.invocation at h
  rw [hout, hwxs] at h
  cases hmanifest : g.manifest with
  | none =>
    rw [hmanifest] at h
    cases h
  | some manifest =>
    rw [hmanifest] at h
    obtain ⟨_ | _, -, h⟩ := bind_eq_ok.mp h
    · cases h
    -- The eight values that both commands take, one after the other.
    · iterate 8 obtain ⟨_, -, h⟩ := bind_eq_ok.mp h
      cases h
      exact ⟨rfl, rfl⟩

end Given

/-! ## Reading -/

section Read
variable {g : Given} {r : Given × Option Flag} (hg : g.IsForValidating)
include hg

theorem readLetters_of_validate {cs : List Char} (h : readLetters .validate cs g = .ok r) :
    readLetters .compile cs g = .ok r ∧ Given.AllForValidating r := by
  induction cs generalizing g with
  | nil =>
    cases h
    exact ⟨rfl, hg, nofun⟩
  | cons c cs ih =>
    unfold readLetters at h ⊢
    obtain ⟨hhelp, h⟩ := ite_error_eq_ok.mp h
    rw [if_neg hhelp]
    split at h
    · next hquiet =>
      obtain ⟨g', hset, h⟩ := bind_eq_ok.mp h
      rw [if_pos hquiet, hset]
      exact ih (hg.setQuiet hset) h
    · rw [Flag.ofLetter?_validate] at h
      cases h

theorem readNamed_of_validate {name : String} {value : Option String}
    (h : readNamed .validate name value g = .ok r) :
    readNamed .compile name value g = .ok r ∧ Given.AllForValidating r := by
  have hhelp : name ≠ helpName := by
    rintro rfl
    unfold readNamed at h
    cases value <;> cases h
  unfold readNamed at h ⊢
  rw [if_neg hhelp] at h ⊢
  by_cases hquiet : name = quietName
  · rw [if_pos hquiet] at h ⊢
    obtain ⟨-, hmap⟩ := ite_error_eq_ok.mp h
    obtain ⟨g', hset, rfl⟩ := map_eq_ok.mp hmap
    exact ⟨h, hg.setQuiet hset, nofun⟩
  · rw [if_neg hquiet] at h ⊢
    cases hname : Flag.ofName? .validate name with
    | none =>
      rw [hname] at h
      cases h
    | some f =>
      obtain ⟨hcompile, hfor⟩ := Flag.ofName?_of_validate hname
      rw [hname] at h
      rw [hcompile]
      refine ⟨h, ?_⟩
      cases value with
      | none =>
        cases h
        exact ⟨hg, by simpa using hfor⟩
      | some v =>
        obtain ⟨g', hset, rfl⟩ := map_eq_ok.mp h
        exact ⟨hg.setValue hfor hset, nofun⟩

theorem readArgument_of_validate {a : Argument} (h : readArgument .validate a g = .ok r) :
    readArgument .compile a g = .ok r ∧ Given.AllForValidating r := by
  cases a with
  | escape =>
    cases h
    exact ⟨rfl, hg, nofun⟩
  | named name value => exact readNamed_of_validate hg h
  | letters cs => exact readLetters_of_validate hg h
  | plain text =>
    refine ⟨h, ?_⟩
    obtain ⟨g', hset, rfl⟩ := map_eq_ok.mp h
    exact ⟨hg.setManifest hset, nofun⟩

end Read

/-- Compiling reads what validating accepts in the same way. -/
theorem readArguments_of_validate {args : List String} {g g' : Given} (hg : g.IsForValidating)
    (h : readArguments .validate args g = .ok g') :
    readArguments .compile args g = .ok g' ∧ g'.IsForValidating := by
  fun_induction readArguments .validate args g with
  | case1 g =>
    cases h
    exact ⟨rfl, hg⟩
  | case2 text rest g hescape =>
    refine ⟨?_, hg.foldlM_setManifest h⟩
    rw [readArguments, hescape]
    exact h
  | case3 | case5 | case7 => cases h
  | case4 text rest g g₁ hescape hread ih =>
    obtain ⟨hcompile, hfor⟩ := readArgument_of_validate hg hread
    unfold readArguments
    simp only [hcompile]
    exact ih hfor.1 h
  | case6 text g g₁ f value rest hvalue hescape hread ih =>
    obtain ⟨hcompile, hfor⟩ := readArgument_of_validate hg hread
    obtain ⟨g₂, hset, h⟩ := bind_eq_ok.mp h
    unfold readArguments
    simp only [hcompile, hvalue, ↓reduceIte, hset, ok_bind]
    exact ih g₂ (hfor.1.setValue (hfor.2 f rfl) hset) h

section Request
variable {env : Environment} {front rest : List String} {quiet : Bool} {i j : Invocation}

/-- A run is asked for by arguments that are in order. -/
theorem readCommand_eq_run {command : Command} :
    readCommand env command rest = .ok (.run i) ↔
      ∃ g, readArguments command rest Given.none = .ok g ∧ g.invocation command env = .ok i := by
  rw [readCommand]
  cases readArguments command rest Given.none with
  | error stop => cases stop <;> simp
  | ok g => simp [map_eq_ok]

/-- The command that stands on the command line is done. -/
theorem command_of_readCommand {command : Command}
    (h : readCommand env command rest = .ok (.run i)) : i.command = command := by
  obtain ⟨_, -, hinvocation⟩ := readCommand_eq_run.mp h
  exact Given.command_of_invocation hinvocation

/-- What can be validated can be compiled. -/
theorem readCommand_of_validate (h : readCommand env .validate rest = .ok (.run i)) :
    readCommand env .compile rest = .ok (.run { i with command := .compile }) ∧
      i.out = none ∧ i.wxs = none := by
  obtain ⟨g, hread, hinvocation⟩ := readCommand_eq_run.mp h
  obtain ⟨hsame, hfor⟩ := readArguments_of_validate .none hread
  refine ⟨readCommand_eq_run.mpr ⟨g, hsame, ?_⟩, hfor.writesNothing hinvocation⟩
  rw [g.invocation_eq_map, hinvocation]
  rfl

/-- A command's word is read as the command. -/
theorem readRequest_command (command : Command) :
    readRequest env (Keyword.spelling command :: rest) quiet = readCommand env command rest := by
  have hform : Argument.ofText (Keyword.spelling command) = .plain (Keyword.spelling command) := by
    cases command <;> decide +kernel
  have hhelp : Keyword.spelling command ≠ helpName := by cases command <;> decide
  have hread : Keyword.read? (Keyword.spelling command) = some command := by
    cases command <;> rfl
  rw [readRequest, hform]
  simp only [if_neg hhelp, hread]

/-- The first argument settles the command of a run, or it is passed over, whatever follows. -/
theorem readRequest_cons (env : Environment) (text : String) (quiet : Bool) :
    (∀ rest rest' i j, readRequest env (text :: rest) quiet = .ok (.run i) →
      readRequest env (text :: rest') quiet = .ok (.run j) → i.command = j.command) ∨
    ∃ quiet', ∀ rest, readRequest env (text :: rest) quiet = readRequest env rest quiet' := by
  simp only [readRequest]
  cases Argument.ofText text with
  | escape =>
    left
    intro rest rest' i j hi
    cases hi
  | plain word =>
    left
    intro rest rest' i j hi hj
    by_cases hhelp : word = helpName
    · simp only [if_pos hhelp] at hi
      obtain ⟨_, -, hi⟩ := map_eq_ok.mp hi
      cases hi
    · simp only [if_neg hhelp] at hi hj
      cases hword : (Keyword.read? word : Option Command) with
      | none =>
        rw [hword] at hi
        cases hi
      | some command =>
        rw [hword] at hi hj
        rw [command_of_readCommand hi, command_of_readCommand hj]
  | letters cs =>
    simp only
    cases readFirstLetters cs quiet with
    | error e =>
      left
      intro rest rest' i j hi
      cases hi
    | ok answer =>
      cases answer with
      | inl request =>
        -- Whatever the letters ask for, no argument after them changes it.
        left
        intro rest rest' i j hi hj
        cases hi
        cases hj
        rfl
      | inr quiet => exact .inr ⟨quiet, fun _ => rfl⟩
  | named name value =>
    by_cases hquiet : name = quietName ∧ value = none ∧ quiet = false
    · obtain ⟨rfl, rfl, rfl⟩ := hquiet
      exact .inr ⟨true, fun _ => rfl⟩
    · left
      intro rest rest' i j hi
      obtain ⟨hknown, hi⟩ := ite_error_eq_ok.mp hi
      obtain ⟨hplain, hi⟩ := ite_error_eq_ok.mp hi
      by_cases hhelp : name = helpName
      · rw [if_pos hhelp] at hi
        cases hi
      by_cases hversion : name = versionName
      · rw [if_neg hhelp, if_pos hversion] at hi
        cases hi
      rw [if_neg hhelp, if_neg hversion] at hi
      obtain ⟨hfirst, -⟩ := ite_error_eq_ok.mp hi
      exact absurd ⟨by simpa [hhelp, hversion] using hknown, by simpa using hplain,
        by simpa using hfirst⟩ hquiet

/-- Where one word decides what is asked for, all else that is asked for is the same. -/
theorem readRequest_both (hi : readRequest env (front ++ "validate" :: rest) quiet = .ok (.run i))
    (hj : readRequest env (front ++ "compile" :: rest) quiet = .ok (.run j))
    (hne : i.command ≠ j.command) :
    j = { i with command := .compile } ∧ i.command = .validate ∧ i.out = none ∧ i.wxs = none := by
  induction front generalizing quiet with
  | nil =>
    rw [List.nil_append] at hi hj
    have hvalidate := (readRequest_command .validate).symm.trans hi
    have hcompile := (readRequest_command .compile).symm.trans hj
    obtain ⟨hsame, hwrites⟩ := readCommand_of_validate hvalidate
    cases hcompile.symm.trans hsame
    exact ⟨rfl, command_of_readCommand hvalidate, hwrites⟩
  | cons text front ih =>
    rw [List.cons_append] at hi hj
    rcases readRequest_cons env text quiet with hsettled | ⟨quiet', hpassed⟩
    · exact absurd (hsettled _ _ i j hi hj) hne
    · rw [hpassed] at hi hj
      exact ih hi hj

end Request
end Installer.CommandLine
