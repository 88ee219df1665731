import Installer.CommandLine.Run
import Installer.Proofs.CommandLine.Running
import Installer.Proofs.Result
import Installer.Proofs.Wix.Ending

/-!
# What a failed run leaves behind

Resolving an invocation only reads, and preparing files shows nothing, so that a run that fails there
prints nothing and leaves every file as it was. The files are moved into place one after the other,
though: where the source has no place to be moved to, the package is already written or printed
(`Invocation.IsCutShort`). Main statement: `run_failure`.

A run is taken apart at its requests (`run_bind_eq_error`). Up to the files that are prepared nothing
is seen of it; of the two moves after that only the second can fail once something is seen
(`run_write_eq_error`).

A file that was prepared and not moved is no file of the disk: removing it is left to the system. Nor
is anything said of a run that the system breaks off.
-/

set_option autoImplicit false

namespace Installer.CommandLine
open Program

namespace Invocation
variable {i : Invocation} {p : Package} {d : Disk}

/-- Resolving only reads. -/
theorem onlyReads_resolve (i : Invocation) : i.resolve.OnlyReads := by
  refine .bind (.ofExcept _ _) fun _ => .bind (.readFile _) fun _ => .bind (.ofExcept _ _) fun _ =>
    .bind (.ofExcept _ _) fun _ => ?_
  split
  · exact .done _
  · exact .bind (.readFile _) fun _ => .bind (.ofExcept _ _) fun _ =>
      .bind (.ofExcept _ _) fun _ => .done _

/-- The package is that of the manifest on the disk, with the settings that are given. -/
def Compiles (i : Invocation) (d : Disk) (p : Package) : Prop :=
  ∃ text m, d.read? i.manifest = some text ∧ Manifest.ofText text = .ok m ∧
    m.compile i.settings = .ok p

/-- What an invocation resolves to is the package of its manifest. -/
theorem compiles_of_resolve {w : World} (h : i.resolve.run (.ofDisk d) = (.ok p, w)) :
    i.Compiles d p := by
  obtain ⟨_, w₁, hsettings, h⟩ := run_bind_eq_ok.mp h
  obtain ⟨-, rfl⟩ := run_ofExcept_eq_ok.mp hsettings
  obtain ⟨text, w₂, hread, h⟩ := run_bind_eq_ok.mp h
  obtain ⟨htext, rfl⟩ := run_readFile_eq_ok.mp hread
  obtain ⟨m, w₃, hparse, h⟩ := run_bind_eq_ok.mp h
  obtain ⟨hmanifest, rfl⟩ := run_ofExcept_eq_ok.mp hparse
  obtain ⟨q, w₄, hmake, h⟩ := run_bind_eq_ok.mp h
  obtain ⟨hcompile, rfl⟩ := run_ofExcept_eq_ok.mp hmake
  -- An earlier package is only held against what was compiled.
  have hq : q = p := by
    split at h
    · cases h
      rfl
    · obtain ⟨_, _, -, h⟩ := run_bind_eq_ok.mp h
      obtain ⟨_, _, -, h⟩ := run_bind_eq_ok.mp h
      obtain ⟨_, _, -, h⟩ := run_bind_eq_ok.mp h
      cases h
      rfl
  exact ⟨text, m, htext, hmanifest, hq ▸ hcompile⟩

/-- What resolves has a source. -/
theorem exists_source_of_resolve {w : World} (h : i.resolve.run (.ofDisk d) = (.ok p, w)) :
    ∃ text, Wix.source? p = some text := by
  obtain ⟨_, m, -, -, hcompile⟩ := compiles_of_resolve h
  exact Wix.exists_source_of_compile hcompile

/-- What is seen of a package that is given out: it is in its file, or has been printed. -/
def Gives (i : Invocation) (p : Package) (before : Disk) (printed : String) (after : Disk) : Prop :=
  match i.out with
  | none => printed = p.text ∧ after = before
  | some path => printed = "" ∧ before.write? path p.text = some after

/-- The source can be prepared, but not moved into its place: that is a directory, or the path is not
that of a file. -/
def LacksSourcePlace (i : Invocation) (d : Disk) : Prop :=
  ∃ path ∈ i.wxs, d.canStage path = true ∧ ¬d.IsWritable path

/-- The files that are prepared before either is moved. -/
def preparedFiles (i : Invocation) (p : Package) (source : String) :
    List (Output × String × String) :=
  i.wxs.toList.map (.source, ·, source) ++ i.out.toList.map (.package, ·, p.text)

variable {source : String}

theorem persist?_package {path printed : String} (hout : i.out = some path) :
    World.persist? ⟨d, i.preparedFiles p source, printed⟩ .package = d.write? path p.text := by
  unfold preparedFiles
  rw [hout]
  cases i.wxs <;> rfl

theorem persist?_source {path printed : String} (hwxs : i.wxs = some path) :
    World.persist? ⟨d, i.preparedFiles p source, printed⟩ .source = d.write? path source := by
  unfold preparedFiles
  rw [hwxs]
  rfl

/-- Making the source of a package that has one. -/
theorem run_render (hsource : Wix.source? p = some source) (w : World) :
    (i.render p).run w = (.ok (i.wxs.map (·, source)), w) := by
  unfold render
  cases i.wxs with
  | none => rfl
  | some path =>
    rw [hsource]
    rfl

/-- A package that has a source is written with it. -/
theorem run_deliver (hsource : Wix.source? p = some source) (w : World) :
    (i.deliver p).run w = (i.write p (i.wxs.map (·, source))).run w := by
  unfold deliver
  rw [run_bind, run_render hsource]

theorem run_prepare_eq_ok {w : World} :
    (i.prepare p (i.wxs.map (·, source))).run (.ofDisk d) = (.ok (), w) ↔
      (∀ path ∈ i.out, d.canStage path = true) ∧ (∀ path ∈ i.wxs, d.canStage path = true) ∧
        w = ⟨d, i.preparedFiles p source, ""⟩ := by
  constructor
  · intro h
    obtain ⟨_, w₁, hpackage, hsource⟩ := run_bind_eq_ok.mp h
    obtain ⟨hout, rfl⟩ := run_stageAsked_eq_ok.mp hpackage
    obtain ⟨hwxs, rfl⟩ := run_stageAsked_eq_ok.mp hsource
    exact ⟨hout, hwxs, by simp [preparedFiles, World.ofDisk]⟩
  · rintro ⟨hout, hwxs, rfl⟩
    refine run_bind_eq_ok.mpr ⟨(), _, run_stageAsked_eq_ok.mpr ⟨hout, rfl⟩, ?_⟩
    exact run_stageAsked_eq_ok.mpr ⟨hwxs, by simp [preparedFiles, World.ofDisk]⟩

/-- Where files cannot be prepared, nothing is to be seen. -/
theorem run_prepare_eq_error {w : World} {f : Failure}
    (h : (i.prepare p (i.wxs.map (·, source))).run (.ofDisk d) = (.error f, w)) :
    w.printed = "" ∧ w.disk = d := by
  rcases run_bind_eq_error.mp h with h | ⟨_, w₁, hout, h⟩
  · obtain rfl := run_stageAsked_eq_error h
    exact ⟨rfl, rfl⟩
  · obtain ⟨-, rfl⟩ := run_stageAsked_eq_ok.mp hout
    obtain rfl := run_stageAsked_eq_error h
    exact ⟨rfl, rfl⟩

/-- Giving out a package makes no directory and removes none. -/
theorem Gives.sameFolders {printed : String} {e : Disk} (h : i.Gives p d printed e) :
    Disk.SameFolders d e := by
  unfold Gives at h
  split at h
  · rw [h.2]
    exact ⟨rfl, fun _ => rfl⟩
  · exact Disk.sameFolders_of_write? h.2

/-- A package is given out, or nothing changes since its place is taken. -/
theorem run_give {w : World} {r : Except Failure Unit}
    (h : (i.give p).run ⟨d, i.preparedFiles p source, ""⟩ = (r, w)) :
    (r = .ok () ∧ i.Gives p d w.printed w.disk ∧ w.staged = i.preparedFiles p source) ∨
      ∃ path ∈ i.out, ¬d.IsWritable path ∧ r = .error (.unwritable path) ∧
        w = ⟨d, i.preparedFiles p source, ""⟩ := by
  unfold give at h
  cases hout : i.out with
  | none =>
    rw [hout] at h
    cases h
    exact .inl ⟨rfl, by simp [Gives, hout], rfl⟩
  | some path =>
    simp only [hout, run_persistFile, persist?_package hout] at h
    split at h
    · next e hwrite =>
      cases h
      exact .inl ⟨rfl, by simp [Gives, hout, hwrite], rfl⟩
    · next hwrite =>
      cases h
      exact .inr ⟨path, rfl, Disk.write?_eq_none_iff.mp hwrite, rfl, rfl⟩

/-- The source is the last that can fail, for want of a place. -/
theorem run_persistSource_eq_error {w w' : World} {f : Failure}
    (hstaged : w.staged = i.preparedFiles p source) :
    (i.wxs.toList.forM (persistFile .source)).run w = (.error f, w') ↔
      ∃ path ∈ i.wxs, f = .unwritable path ∧ ¬w.disk.IsWritable path ∧ w = w' := by
  obtain ⟨e, staged, printed⟩ := w
  obtain rfl : staged = i.preparedFiles p source := hstaged
  rw [run_forM_toList]
  cases hwxs : i.wxs with
  | none => simp
  | some path =>
    simp only [run_persistFile, persist?_source hwxs]
    cases hwrite : e.write? path source with
    | none =>
      have hplace := Disk.write?_eq_none_iff.mp hwrite
      simp [hplace, @eq_comm _ f]
    | some e' =>
      have hplace : e.IsWritable path := Disk.exists_write?_iff.mp ⟨e', hwrite⟩
      simp [hplace]

/-- An invocation that fails when it has given out the package: all is in order but the place of the
source. -/
structure IsCutShort (i : Invocation) (p : Package) (d : Disk) : Prop where
  command : i.command = .compile
  resolves : i.resolve.run (.ofDisk d) = (.ok p, .ofDisk d)
  package : ∀ path ∈ i.out, d.IsWritable path
  source : i.LacksSourcePlace d

/-- Where writing fails, nothing is to be seen, or the package was given out and the source lacks its
place. -/
theorem run_write_eq_error {w : World} {f : Failure}
    (h : (i.write p (i.wxs.map (·, source))).run (.ofDisk d) = (.error f, w)) :
    (w.printed = "" ∧ w.disk = d) ∨ (i.LacksSourcePlace d ∧ i.Gives p d w.printed w.disk) := by
  rcases run_bind_eq_error.mp h with h | ⟨_, w₁, hprepare, h⟩
  · exact .inl (run_prepare_eq_error h)
  obtain ⟨-, hstage, rfl⟩ := run_prepare_eq_ok.mp hprepare
  rcases run_bind_eq_error.mp h with h | ⟨_, w₂, hgive, h⟩
  · rcases run_give h with ⟨hok, -⟩ | ⟨_, -, -, -, rfl⟩
    · cases hok
    · exact .inl ⟨rfl, rfl⟩
  rcases run_give hgive with ⟨-, hgives, hstaged⟩ | ⟨_, -, -, hfailed, -⟩
  -- From here on the package is given out, and only the source can still fail.
  · rcases run_bind_eq_error.mp h with h | ⟨_, w₃, -, h⟩
    · obtain ⟨path, hpath, -, hplace, rfl⟩ := (run_persistSource_eq_error hstaged).mp h
      refine .inr ⟨⟨path, hpath, hstage path hpath, ?_⟩, hgives⟩
      rwa [hgives.sameFolders.isWritable]
    · rw [run_forM_toList] at h
      cases hout : i.out <;> rw [hout] at h <;> cases h
  · cases hfailed

/-- An invocation that is cut short gives out its package. -/
theorem IsCutShort.run_deliver (h : i.IsCutShort p d) : ∃ path w,
    (i.deliver p).run (.ofDisk d) = (.error (.unwritable path), w) ∧
      i.Gives p d w.printed w.disk := by
  obtain ⟨source, hsource⟩ := exists_source_of_resolve h.resolves
  obtain ⟨path, hpath, hstage, hplace⟩ := h.source
  have hprepare : (i.prepare p (i.wxs.map (·, source))).run (.ofDisk d) =
      (.ok (), ⟨d, i.preparedFiles p source, ""⟩) := by
    refine run_prepare_eq_ok.mpr ⟨fun out hout => (h.package out hout).canStage, ?_, rfl⟩
    intro wxs hwxs
    rwa [Option.mem_unique hwxs hpath]
  obtain ⟨r, w, hgive⟩ : ∃ r w, (i.give p).run ⟨d, i.preparedFiles p source, ""⟩ = (r, w) :=
    ⟨_, _, rfl⟩
  rw [Invocation.run_deliver hsource]
  rcases run_give hgive with ⟨rfl, hgives, hstaged⟩ | ⟨out, hout, hrefused, -⟩
  · refine ⟨path, w, ?_, hgives⟩
    refine run_bind_eq_error.mpr (.inr ⟨(), _, hprepare, ?_⟩)
    refine run_bind_eq_error.mpr (.inr ⟨(), w, hgive, run_bind_eq_error.mpr (.inl ?_)⟩)
    refine (run_persistSource_eq_error hstaged).mpr ⟨path, hpath, rfl, ?_, rfl⟩
    rwa [← hgives.sameFolders.isWritable]
  · exact absurd (h.package out hout) hrefused

/-- What is given out to a file is given out to one that can be written. -/
theorem Gives.isWritable {printed : String} {e : Disk} (h : i.Gives p d printed e) :
    ∀ path ∈ i.out, d.IsWritable path := by
  intro path hpath
  rw [Gives, Option.mem_def.mp hpath] at h
  exact Disk.exists_write?_iff.mp ⟨e, h.2⟩

/-- A program that fails shows nothing, or is cut short. -/
theorem run_program_eq_error {w : World} {f : Failure}
    (h : i.program.run (.ofDisk d) = (.error f, w)) :
    (w.printed = "" ∧ w.disk = d) ∨ ∃ p, i.IsCutShort p d := by
  unfold program at h
  cases hcommand : i.command with
  | compile =>
    rw [hcommand] at h
    rcases (onlyReads_resolve i).run_bind_eq_error h with rfl | ⟨p, hresolve, h⟩
    · exact .inl ⟨rfl, rfl⟩
    · obtain ⟨source, hsource⟩ := exists_source_of_resolve hresolve
      rw [run_deliver hsource] at h
      rcases run_write_eq_error h with hsame | ⟨hplace, hgives⟩
      · exact .inl hsame
      · exact .inr ⟨p, hcommand, hresolve, hgives.isWritable, hplace⟩
  | validate =>
    rw [hcommand] at h
    rcases (onlyReads_resolve i).run_bind_eq_error h with rfl | ⟨_, -, h⟩
    · exact .inl ⟨rfl, rfl⟩
    · cases h

/-- The program of an invocation that is cut short fails with the package given out. -/
theorem IsCutShort.run_program (h : i.IsCutShort p d) : ∃ path w,
    i.program.run (.ofDisk d) = (.error (.unwritable path), w) ∧ i.Gives p d w.printed w.disk := by
  obtain ⟨path, w, hdeliver, hgives⟩ := h.run_deliver
  refine ⟨path, w, ?_, hgives⟩
  unfold program
  rw [h.command]
  exact run_bind_eq_error.mpr (.inr ⟨p, _, h.resolves, hdeliver⟩)

end Invocation

section Run
variable {args : List String} {env : Environment} {disk : Disk} {i : Invocation} {p : Package}

/-- A run comes to what its program comes to. -/
theorem run_of_readRequest (h : readRequest env args false = .ok (.run i)) :
    run args env disk = match i.program.run (.ofDisk disk) with
      | (.ok (), w) => ⟨0, w.printed, w.disk⟩
      | (.error f, w) => ⟨f.exitCode, w.printed, w.disk⟩ := by
  unfold run CommandLine.program
  rw [h]
  rfl

/-- A run that is cut short fails with the package given out. -/
theorem run_of_isCutShort (h : readRequest env args false = .ok (.run i))
    (hcut : i.IsCutShort p disk) : (run args env disk).exitCode = 2 ∧
      i.Gives p disk (run args env disk).printed (run args env disk).disk := by
  obtain ⟨path, w, hprogram, hgives⟩ := hcut.run_program
  rw [run_of_readRequest h, hprogram]
  exact ⟨rfl, hgives⟩

end Run

/-- A run that fails prints nothing and leaves every file as it was, unless it is cut short; a run
that is cut short has given out the package. -/
theorem run_failure (args : List String) (env : Environment) (disk : Disk) :
    ((run args env disk).exitCode ≠ 0 →
      ((run args env disk).printed = "" ∧ (run args env disk).disk = disk) ∨
        ∃ i p, readRequest env args false = .ok (.run i) ∧ i.IsCutShort p disk) ∧
    ∀ i p, readRequest env args false = .ok (.run i) → i.IsCutShort p disk →
      (run args env disk).exitCode = 2 ∧
        i.Gives p disk (run args env disk).printed (run args env disk).disk := by
  refine ⟨fun hfailed => ?_, fun i p => run_of_isCutShort⟩
  cases hrequest : readRequest env args false with
  | error e =>
    unfold run CommandLine.program
    rw [hrequest]
    exact .inl ⟨rfl, rfl⟩
  | ok request =>
    cases request with
    | version | help =>
      unfold run CommandLine.program at hfailed
      rw [hrequest] at hfailed
      exact absurd rfl hfailed
    | run i =>
      rw [run_of_readRequest hrequest] at hfailed ⊢
      obtain ⟨r, w, hprogram⟩ : ∃ r w, i.program.run (.ofDisk disk) = (r, w) := ⟨_, _, rfl⟩
      rw [hprogram] at hfailed ⊢
      cases r with
      | ok => exact absurd rfl hfailed
      | error f =>
        rcases Invocation.run_program_eq_error hprogram with hsame | ⟨p, hcut⟩
        · exact .inl hsame
        · exact .inr ⟨i, p, rfl, hcut⟩

/-- A manifest, and a directory where the source is to be. -/
def crowdedDisk : Disk := .ofFiles ["work"]
  [("m.json", "\x7b\"product\":\x7b\"name\":\"Acme\",\"manufacturer\":\"Acme\"," ++
      "\"upgrade_code\":\"3F2504E0-4F89-11D3-9A0C-0305E82C3301\"\x7d\x7d"),
    ("dist/readme.txt", "")]

def crowdedArguments : List String :=
  ["compile", "m.json", "--version", "1.0.0", "--out", "out.json", "--wxs", "dist"]

/-- What the arguments ask for. -/
def crowdedInvocation : Invocation where
  command := .compile
  manifest := "m.json"
  settings := ⟨none, "1.0.0", "release", none, none, none, none, none⟩
  baseline := none
  out := some "out.json"
  wxs := some "dist"

theorem readRequest_crowded : readRequest .bare crowdedArguments false =
    .ok (.run crowdedInvocation) := by
  decide +kernel

theorem isCutShort_crowded : ∃ p, crowdedInvocation.IsCutShort p crowdedDisk := by
  have hmade : (crowdedInvocation.resolve.run (.ofDisk crowdedDisk)).1.isOk = true := by
    decide +kernel
  obtain ⟨p, hp⟩ := Result.exists_of_isOk hmade
  refine ⟨p, rfl, crowdedInvocation.onlyReads_resolve.run_eq hp, ?_, ?_⟩
  · intro path hpath
    cases hpath
    exact ⟨["work", "out.json"], by decide +kernel, by decide +kernel⟩
  · refine ⟨"dist", rfl, by decide +kernel, ?_⟩
    rintro ⟨l, hl, hfree⟩
    have hplace : crowdedDisk.fileAt? (.ofText "dist") = some ["work", "dist"] := by
      decide +kernel
    rw [hplace] at hl
    cases hl
    exact absurd hfree (by decide +kernel)

/-- Without a command nothing is done, and with a directory where the source is to be the package is
given out. -/
theorem run_failure_crowded :
    ((run [] .bare crowdedDisk).printed = "" ∧
      (run [] .bare crowdedDisk).disk = crowdedDisk) ∧
    (run crowdedArguments .bare crowdedDisk).exitCode = 2 ∧
      ∃ p, crowdedInvocation.Gives p crowdedDisk
        (run crowdedArguments .bare crowdedDisk).printed
        (run crowdedArguments .bare crowdedDisk).disk := by
  refine ⟨?_, ?_⟩
  · rcases (run_failure [] .bare crowdedDisk).1 (by decide) with hsame | ⟨i, p, hread, -⟩
    · exact hsame
    · cases hread
  · obtain ⟨p, hcut⟩ := isCutShort_crowded
    obtain ⟨hexit, hgives⟩ :=
      (run_failure crowdedArguments .bare crowdedDisk).2 _ p readRequest_crowded hcut
    exact ⟨hexit, p, hgives⟩

/-- The run fails, and the package is in a file that was not there before. -/
theorem run_leaves_package :
    (run crowdedArguments .bare crowdedDisk).exitCode = 2 ∧
      crowdedDisk.read? "out.json" = none ∧
      ∃ p : Package,
        (run crowdedArguments .bare crowdedDisk).disk.contents? ["work", "out.json"] =
          some p.text := by
  obtain ⟨p, hcut⟩ := isCutShort_crowded
  obtain ⟨hexit, hgives⟩ := run_of_isCutShort readRequest_crowded hcut
  refine ⟨hexit, by decide +kernel, p, ?_⟩
  obtain ⟨l, hl, -, hput⟩ := Disk.write?_eq_some_iff.mp hgives.2
  have hplace : crowdedDisk.fileAt? (.ofText "out.json") = some ["work", "out.json"] := by
    decide +kernel
  rw [hplace] at hl
  cases hl
  rw [← hput]
  exact Disk.contents?_put_self _ _ _

end Installer.CommandLine
