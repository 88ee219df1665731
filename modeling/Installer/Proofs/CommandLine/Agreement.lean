import Installer.Proofs.CommandLine.Arguments
import Installer.Proofs.CommandLine.Success

/-!
# Validating and compiling agree

Both commands resolve a package in the same way and fail where that fails, with a code that tells a
broken rule (`Invocation.BreaksRule`) from everything else. What validating says of the package is
the fingerprint of what compiling prints. Main statement: `run_agrees`.

Resolving is shown to be one list of steps that may fail, the same for both commands (`resolve_eq`),
and each step is asked whether its failures are broken rules.

The two command lines differ in one word and ask for a run each. Where one of them asks for help, or
is wrong, nothing is compared.
-/

set_option autoImplicit false

namespace Installer.CommandLine
open Program Result

theorem Failure.exitCode_eq_one_iff {f : Failure} : f.exitCode = 1 ↔ ∃ v, f = .violation v := by
  cases f <;> simp [exitCode]

theorem Failure.exitCode_eq_two_iff {f : Failure} : f.exitCode = 2 ↔ ¬ ∃ v, f = .violation v := by
  cases f <;> simp [exitCode]

theorem Failure.settings_ne_violation (f : SettingsFault) (v : Violation) :
    Failure.settings f ≠ .violation v := by
  intro h
  cases h

theorem Failure.document_ne_violation (path : String) (f : Json.Fault) (v : Violation) :
    Failure.document path f ≠ .violation v := by
  intro h
  cases h

/-! ## Broken rules -/

namespace Program
variable {α β ε : Type} {f : α → Program β} {w w' : World} {v : Violation}

/-- A step whose failures are no broken rules has succeeded where a rule is broken. -/
theorem run_ofExcept_bind_eq_violation_iff {failure : ε → Failure} {x : Except ε α}
    (hfailure : ∀ e, failure e ≠ .violation v) :
    (Program.ofExcept failure x >>= f).run w = (.error (.violation v), w') ↔
      ∃ a, x = .ok a ∧ (f a).run w = (.error (.violation v), w') := by
  rw [run_bind_eq_error]
  constructor
  · rintro (h | ⟨a, _, h, hrest⟩)
    · obtain ⟨e, -, he, -⟩ := run_ofExcept_eq_error.mp h
      exact absurd he (hfailure e)
    · obtain ⟨ha, rfl⟩ := run_ofExcept_eq_ok.mp h
      exact ⟨a, ha, hrest⟩
  · rintro ⟨a, ha, hrest⟩
    exact .inr ⟨a, w, run_ofExcept_eq_ok.mpr ⟨ha, rfl⟩, hrest⟩

theorem run_readFile_bind_eq_violation_iff {path : String} {f : String → Program β} :
    (readFile path >>= f).run w = (.error (.violation v), w') ↔
      ∃ text, w.disk.read? path = some text ∧ (f text).run w = (.error (.violation v), w') := by
  rw [run_bind_eq_error]
  constructor
  · rintro (h | ⟨text, _, h, hrest⟩)
    · obtain ⟨-, he, -⟩ := run_readFile_eq_error.mp h
      cases he
    · obtain ⟨htext, rfl⟩ := run_readFile_eq_ok.mp h
      exact ⟨text, htext, hrest⟩
  · rintro ⟨text, htext, hrest⟩
    exact .inr ⟨text, w, run_readFile_eq_ok.mpr ⟨htext, rfl⟩, hrest⟩

/-- Where a rule is broken, it is one that the step checks, or one that is checked later. -/
theorem run_check_bind_eq_violation_iff {x : Except Violation α} :
    (Program.ofExcept .violation x >>= f).run w = (.error (.violation v), w') ↔
      x = .error v ∧ w = w' ∨ ∃ a, x = .ok a ∧ (f a).run w = (.error (.violation v), w') := by
  rw [run_bind_eq_error]
  constructor
  · rintro (h | ⟨a, _, h, hrest⟩)
    · obtain ⟨e, he, heq, hworld⟩ := run_ofExcept_eq_error.mp h
      cases heq
      exact .inl ⟨he, hworld⟩
    · obtain ⟨ha, rfl⟩ := run_ofExcept_eq_ok.mp h
      exact .inr ⟨a, ha, hrest⟩
  · rintro (⟨he, hworld⟩ | ⟨a, ha, hrest⟩)
    · exact .inl (run_ofExcept_eq_error.mpr ⟨v, he, rfl, hworld⟩)
    · exact .inr ⟨a, w, run_ofExcept_eq_ok.mpr ⟨ha, rfl⟩, hrest⟩

end Program

namespace Invocation
variable {i : Invocation} {d : Disk} {p : Package}

/-- All that is given is in order: the settings, the manifest, and the earlier package if there is
one. -/
structure Passes (i : Invocation) (d : Disk) (p : Package) : Prop where
  settings : i.settings.check = .ok ()
  compiles : i.Compiles d p
  baseline : ∀ path ∈ i.baseline, ∃ text b, d.read? path = some text ∧
    Package.ofText text = .ok b ∧ p.checkBaseline b = .ok ()

/-- A rule is broken, by the manifest or by its package against the earlier one; the settings are in
order, and so is what has to be read to get there. -/
inductive BreaksRule (i : Invocation) (d : Disk) : Prop
  | compile {text : String} {m : Manifest} {v : Violation} : i.settings.check = .ok () →
      d.read? i.manifest = some text → Manifest.ofText text = .ok m →
      m.compile i.settings = .error v → BreaksRule i d
  | baseline {path text : String} {p b : Package} {v : Violation} : i.settings.check = .ok () →
      i.Compiles d p → path ∈ i.baseline → d.read? path = some text →
      Package.ofText text = .ok b → p.checkBaseline b = .error v → BreaksRule i d

/-! ## Resolving -/

/-- Holds a package against the earlier one, if there is one. -/
def holdAgainst (baseline : Option String) (p : Package) : Program Package :=
  match baseline with
  | none => return p
  | some path => do
    let text ← Program.readFile path
    let b ← Program.ofExcept (.document path) (Package.ofText text)
    Program.ofExcept .violation (p.checkBaseline b)
    return p

/-- The manifest is compiled before its package is held against the earlier one. -/
theorem resolve_eq (i : Invocation) : i.resolve = (do
    Program.ofExcept .settings i.settings.check
    let text ← Program.readFile i.manifest
    let m ← Program.ofExcept (.document i.manifest) (Manifest.ofText text)
    let p ← Program.ofExcept .violation (m.compile i.settings)
    holdAgainst i.baseline p) := rfl

theorem run_holdAgainst_eq_ok_iff {baseline : Option String} {q : Package} {w : World} :
    (holdAgainst baseline q).run (.ofDisk d) = (.ok p, w) ↔
      (∀ path ∈ baseline, ∃ text b, d.read? path = some text ∧ Package.ofText text = .ok b ∧
        q.checkBaseline b = .ok ()) ∧ q = p ∧ .ofDisk d = w := by
  cases baseline with
  | none =>
    show (Except.ok q, World.ofDisk d) = (.ok p, w) ↔ _
    simp
  | some path =>
    simp only [holdAgainst, run_bind_eq_ok, run_readFile_eq_ok, run_ofExcept_eq_ok,
      Option.mem_some_iff, forall_eq']
    constructor
    · rintro ⟨text, _, ⟨hread, rfl⟩, b, _, ⟨hb, rfl⟩, _, _, ⟨hcheck, rfl⟩, hdone⟩
      cases hdone
      exact ⟨⟨text, b, hread, hb, hcheck⟩, rfl, rfl⟩
    · rintro ⟨⟨text, b, hread, hb, hcheck⟩, rfl, rfl⟩
      exact ⟨text, _, ⟨hread, rfl⟩, b, _, ⟨hb, rfl⟩, (), _, ⟨hcheck, rfl⟩, rfl⟩

/-- A package is resolved exactly if all that is given is in order. -/
theorem run_resolve_eq_ok_iff : i.resolve.run (.ofDisk d) = (.ok p, .ofDisk d) ↔ i.Passes d p := by
  simp only [resolve_eq, run_bind_eq_ok, run_readFile_eq_ok, run_ofExcept_eq_ok]
  constructor
  · rintro ⟨_, _, ⟨hsettings, rfl⟩, text, _, ⟨hread, rfl⟩, m, _, ⟨hm, rfl⟩, q, _, ⟨hq, rfl⟩, h⟩
    obtain ⟨hbaseline, rfl, -⟩ := run_holdAgainst_eq_ok_iff.mp h
    exact ⟨hsettings, ⟨text, m, hread, hm, hq⟩, hbaseline⟩
  · rintro ⟨hsettings, ⟨text, m, hread, hm, hq⟩, hbaseline⟩
    exact ⟨(), _, ⟨hsettings, rfl⟩, text, _, ⟨hread, rfl⟩, m, _, ⟨hm, rfl⟩, p, _, ⟨hq, rfl⟩,
      run_holdAgainst_eq_ok_iff.mpr ⟨hbaseline, rfl, rfl⟩⟩

theorem run_holdAgainst_eq_violation_iff {baseline : Option String} {w : World} {v : Violation} :
    (holdAgainst baseline p).run (.ofDisk d) = (.error (.violation v), w) ↔
      (∃ path ∈ baseline, ∃ text b, d.read? path = some text ∧ Package.ofText text = .ok b ∧
        p.checkBaseline b = .error v) ∧ .ofDisk d = w := by
  cases baseline with
  | none =>
    show (Except.ok p, World.ofDisk d) = (.error (Failure.violation v), w) ↔ _
    simp
  | some path =>
    rw [holdAgainst, run_readFile_bind_eq_violation_iff]
    simp only [run_ofExcept_bind_eq_violation_iff fun f => Failure.document_ne_violation path f v,
      run_check_bind_eq_violation_iff, Option.mem_some_iff, exists_eq_left']
    constructor
    · rintro ⟨text, hread, b, hb, ⟨hcheck, hworld⟩ | ⟨_, -, hdone⟩⟩
      · exact ⟨⟨text, b, hread, hb, hcheck⟩, hworld⟩
      · cases hdone
    · rintro ⟨⟨text, b, hread, hb, hcheck⟩, hworld⟩
      exact ⟨text, hread, b, hb, .inl ⟨hcheck, hworld⟩⟩

/-- Resolving fails by a broken rule exactly if one is broken. -/
theorem run_resolve_eq_violation_iff :
    (∃ v, i.resolve.run (.ofDisk d) = (.error (.violation v), .ofDisk d)) ↔ i.BreaksRule d := by
  simp only [resolve_eq,
    run_ofExcept_bind_eq_violation_iff fun f => Failure.settings_ne_violation f _,
    run_readFile_bind_eq_violation_iff,
    run_ofExcept_bind_eq_violation_iff fun f => Failure.document_ne_violation i.manifest f _,
    run_check_bind_eq_violation_iff, run_holdAgainst_eq_violation_iff]
  constructor
  · rintro ⟨v, _, hsettings, text, hread, m, hm, ⟨hv, -⟩ | ⟨p, hp, ⟨path, hpath, earlier, b,
      hearlier, hb, hcheck⟩, -⟩⟩
    · exact .compile hsettings hread hm hv
    · exact .baseline hsettings ⟨text, m, hread, hm, hp⟩ hpath hearlier hb hcheck
  · rintro (⟨hsettings, hread, hm, hv⟩ | ⟨hsettings, ⟨text, m, hread, hm, hp⟩, hpath, hearlier, hb,
      hcheck⟩)
    · exact ⟨_, (), hsettings, _, hread, _, hm, .inl ⟨hv, trivial⟩⟩
    · exact ⟨_, (), hsettings, text, hread, m, hm,
        .inr ⟨_, hp, ⟨_, hpath, _, _, hearlier, hb, hcheck⟩, trivial⟩⟩

end Invocation

/-! ## Runs -/

section Run
variable {args : List String} {env : Environment} {disk : Disk} {i : Invocation} {p : Package}

/-- A run fails where resolving fails. -/
theorem run_of_resolve_error {f : Failure} (h : readRequest env args false = .ok (.run i))
    (hr : i.resolve.run (.ofDisk disk) = (.error f, .ofDisk disk)) :
    run args env disk = ⟨f.exitCode, "", disk⟩ := by
  have hprogram : i.program.run (.ofDisk disk) = (.error f, .ofDisk disk) := by
    unfold Invocation.program
    cases i.command with
    | compile => exact run_bind_eq_error.mpr (.inl hr)
    | validate => exact run_bind_eq_error.mpr (.inl hr)
  rw [run_of_readRequest h, hprogram]
  rfl

/-- Validating tells what the package is and its fingerprint. -/
theorem run_of_validate (h : readRequest env args false = .ok (.run i))
    (hcommand : i.command = .validate)
    (hr : i.resolve.run (.ofDisk disk) = (.ok p, .ofDisk disk)) :
    run args env disk = ⟨0, validLine p ++ fingerprintLine p, disk⟩ := by
  have hprogram : i.program.run (.ofDisk disk) =
      (.ok (), ⟨disk, [], "" ++ (validLine p ++ fingerprintLine p)⟩) := by
    unfold Invocation.program
    rw [hcommand]
    exact run_bind_eq_ok.mpr ⟨p, _, hr, rfl⟩
  rw [run_of_readRequest h, hprogram, String.empty_append]

/-- Compiling prints the package if no file is asked for. -/
theorem run_of_compile (h : readRequest env args false = .ok (.run i))
    (hcommand : i.command = .compile) (hout : i.out = none) (hwxs : i.wxs = none)
    (hr : i.resolve.run (.ofDisk disk) = (.ok p, .ofDisk disk)) :
    run args env disk = ⟨0, p.text, disk⟩ := by
  have hdeliver : (i.deliver p).run (.ofDisk disk) = (.ok (), ⟨disk, [], "" ++ p.text⟩) := by
    obtain ⟨source, hsource⟩ := Invocation.exists_source_of_resolve hr
    rw [Invocation.run_deliver hsource]
    unfold Invocation.write Invocation.prepare Invocation.give
    rw [hout, hwxs]
    rfl
  have hprogram : i.program.run (.ofDisk disk) = (.ok (), ⟨disk, [], "" ++ p.text⟩) := by
    unfold Invocation.program
    rw [hcommand]
    exact run_bind_eq_ok.mpr ⟨p, _, hr, hdeliver⟩
  rw [run_of_readRequest h, hprogram, String.empty_append]

end Run

/-- Where one word decides whether a command line asks for validating or for compiling, both runs end
with the same code. It is 0 if all is in order, and then the fingerprint that validating tells is
that of what compiling prints, which is the package; it is 1 if a rule is broken, and 2 otherwise. -/
theorem run_agrees {front rest : List String} {env : Environment} {disk : Disk} {i j : Invocation}
    (hi : readRequest env (front ++ "validate" :: rest) false = .ok (.run i))
    (hvalidate : i.command = .validate)
    (hj : readRequest env (front ++ "compile" :: rest) false = .ok (.run j))
    (hcompile : j.command = .compile) :
    let validated := run (front ++ "validate" :: rest) env disk
    let compiled := run (front ++ "compile" :: rest) env disk
    j = { i with command := .compile } ∧
      validated.exitCode = compiled.exitCode ∧
      (compiled.exitCode = 0 ↔ ∃ p, i.Passes disk p) ∧
      (compiled.exitCode = 1 ↔ i.BreaksRule disk) ∧
      (compiled.exitCode = 2 ↔ ¬ i.BreaksRule disk ∧ ¬ ∃ p, i.Passes disk p) ∧
      ∀ p, i.Passes disk p → compiled.printed = p.text ∧ validated.printed =
        validLine p ++ ("sha256:" ++ Package.fingerprintOf compiled.printed ++ "\n") := by
  obtain ⟨rfl, -, hout, hwxs⟩ := readRequest_both hi hj (by simp [hvalidate, hcompile])
  intro validated compiled
  obtain ⟨r, hr⟩ : ∃ r, i.resolve.run (.ofDisk disk) = (r, .ofDisk disk) :=
    ⟨_, i.onlyReads_resolve.run_eq rfl⟩
  have hpasses : ∀ p, i.Passes disk p ↔ r = .ok p := by
    simp only [← Invocation.run_resolve_eq_ok_iff, hr, Prod.mk.injEq, and_true, implies_true]
  have hbreaks : i.BreaksRule disk ↔ ∃ v, r = .error (.violation v) := by
    simp only [← Invocation.run_resolve_eq_violation_iff, hr, Prod.mk.injEq, and_true]
  simp only [hpasses, hbreaks]
  cases r with
  | ok p =>
    have hvalidated : validated = ⟨0, validLine p ++ fingerprintLine p, disk⟩ :=
      run_of_validate hi hvalidate hr
    have hcompiled : compiled = ⟨0, p.text, disk⟩ := run_of_compile hj hcompile hout hwxs hr
    rw [hvalidated, hcompiled]
    simp [fingerprintLine_eq]
  | error f =>
    have hvalidated : validated = ⟨f.exitCode, "", disk⟩ := run_of_resolve_error hi hr
    have hcompiled : compiled = ⟨f.exitCode, "", disk⟩ := run_of_resolve_error hj hr
    rw [hvalidated, hcompiled]
    simp [f.exitCode_ne_zero, Failure.exitCode_eq_one_iff, Failure.exitCode_eq_two_iff]

/-- Arguments after the command, for a platform. -/
def plainArguments (platform : String) : List String :=
  ["m.json", "--version=1.0.0", "--platform", platform]

/-- What those arguments ask for. -/
def plainInvocation (command : Command) (platform : String) : Invocation where
  command := command
  manifest := "m.json"
  settings := ⟨some platform, "1.0.0", "release", none, none, none, none, none⟩
  baseline := none
  out := none
  wxs := none

/-- A manifest for a platform that is known, and one that is not. -/
theorem run_agrees_platforms :
    (∃ p : Package,
      (run ("-q" :: "compile" :: plainArguments "x64") .bare crowdedDisk).printed =
        p.text ∧
      (run ("-q" :: "validate" :: plainArguments "x64") .bare crowdedDisk).printed =
        validLine p ++ ("sha256:" ++ Package.fingerprintOf p.text ++ "\n")) ∧
    (run ("-q" :: "validate" :: plainArguments "arm64") .bare crowdedDisk).exitCode = 1 ∧
    (plainInvocation .validate "arm64").BreaksRule crowdedDisk := by
  have hvalidate (platform : String) (h : platform = "x64" ∨ platform = "arm64") :
      readRequest .bare (["-q"] ++ "validate" :: plainArguments platform) false =
        .ok (.run (plainInvocation .validate platform)) := by
    rcases h with rfl | rfl <;> decide +kernel
  have hcompile (platform : String) (h : platform = "x64" ∨ platform = "arm64") :
      readRequest .bare (["-q"] ++ "compile" :: plainArguments platform) false =
        .ok (.run (plainInvocation .compile platform)) := by
    rcases h with rfl | rfl <;> decide +kernel
  have hknown : (run (["-q"] ++ "compile" :: plainArguments "x64") .bare
      crowdedDisk).exitCode = 0 := by
    decide +kernel
  have hunknown : (run (["-q"] ++ "compile" :: plainArguments "arm64") .bare
      crowdedDisk).exitCode = 1 := by
    decide +kernel
  constructor
  · obtain ⟨-, -, hzero, -, -, hprinted⟩ := @run_agrees _ _ _ crowdedDisk _ _
      (hvalidate "x64" (.inl rfl)) rfl (hcompile "x64" (.inl rfl)) rfl
    obtain ⟨p, hp⟩ := hzero.mp hknown
    obtain ⟨hpackage, hline⟩ := hprinted p hp
    rw [hpackage] at hline
    exact ⟨p, hpackage, hline⟩
  · obtain ⟨-, hsame, -, hone, -⟩ := @run_agrees _ _ _ crowdedDisk _ _
      (hvalidate "arm64" (.inr rfl)) rfl (hcompile "arm64" (.inr rfl)) rfl
    exact ⟨hsame.trans hunknown, hone.mp hunknown⟩

end Installer.CommandLine
