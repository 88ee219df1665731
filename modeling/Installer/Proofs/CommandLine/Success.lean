import Installer.Proofs.CommandLine.Failure

/-!
# What a successful run leaves behind

A run that compiles into a file leaves the package in the file and the source, if it is asked for,
in its own, tells the fingerprint of the package, and changes no other file. The source is moved
last, so it takes the place of the package where both paths lead to one file. Main statement:
`run_into_file`.

Two paths lead to one file if they do by their parts; a disk has no links here.
-/

set_option autoImplicit false

namespace Installer.CommandLine
open Program

/-- What a disk comes to when a file is written to it, if there is a path for it. -/
def WritesAsked (d : Disk) (path? : Option String) (content : String) (after : Disk) : Prop :=
  match path? with
  | none => after = d
  | some path => d.write? path content = some after

theorem Failure.exitCode_ne_zero (f : Failure) : f.exitCode ≠ 0 := by
  cases f <;> simp [exitCode]

namespace Invocation
variable {i : Invocation} {p : Package} {d : Disk} {path source : String}

/-- Moving the source into its place, if it is asked for. -/
theorem run_persistSource_eq_ok {w w' : World} (hstaged : w.staged = i.preparedFiles p source)
    (h : (i.wxs.toList.forM (persistFile .source)).run w = (.ok (), w')) :
    w'.printed = w.printed ∧ WritesAsked w.disk i.wxs source w'.disk := by
  obtain ⟨e, staged, printed⟩ := w
  obtain rfl : staged = i.preparedFiles p source := hstaged
  rw [run_forM_toList] at h
  cases hwxs : i.wxs with
  | none =>
    rw [hwxs] at h
    cases h
    exact ⟨rfl, rfl⟩
  | some _ =>
    simp only [hwxs, run_persistFile, persist?_source hwxs] at h
    split at h
    · next e' hwrite =>
      cases h
      exact ⟨rfl, hwrite⟩
    · cases h

/-- A package that is delivered into a file is written there, then the source, and then the path and
the fingerprint are printed. -/
theorem run_write_eq_ok {w : World} (hout : i.out = some path)
    (h : (i.write p (i.wxs.map (·, source))).run (.ofDisk d) = (.ok (), w)) :
    w.printed = path ++ "\n" ++ fingerprintLine p ∧
      ∃ e, d.write? path p.text = some e ∧ WritesAsked e i.wxs source w.disk := by
  obtain ⟨_, w₁, hprepare, h⟩ := run_bind_eq_ok.mp h
  obtain ⟨-, -, rfl⟩ := run_prepare_eq_ok.mp hprepare
  obtain ⟨_, w₂, hgive, h⟩ := run_bind_eq_ok.mp h
  obtain ⟨_, w₃, hsource, h⟩ := run_bind_eq_ok.mp h
  rcases run_give hgive with ⟨-, hgives, hstaged⟩ | ⟨_, -, -, hfailed, -⟩
  · rw [Gives, hout] at hgives
    obtain ⟨hprinted, hdisk⟩ := run_persistSource_eq_ok hstaged hsource
    rw [run_forM_toList, hout] at h
    cases h
    refine ⟨?_, w₂.disk, hgives.2, hdisk⟩
    show w₃.printed ++ _ = _
    rw [hprinted, hgives.1, String.empty_append]
  · cases hfailed

end Invocation

theorem fingerprintLine_eq (p : Package) :
    fingerprintLine p = "sha256:" ++ Package.fingerprintOf p.text ++ "\n" := rfl

/-- No package's text is a source: the one starts with a brace, the other with a tag. -/
theorem text_ne_source {p : Package} {source : String} (hsource : Wix.source? p = some source) :
    p.text ≠ source := by
  have htext : p.text.toList.head? = some '\x7b' := by
    rw [Package.text, Json.Codec.toText, Json.Value.canonical, String.toList_ofList]
    rfl
  obtain ⟨e, -, rfl⟩ := Option.map_eq_some_iff.mp hsource
  have hdeclaration : e.document.toList.head? = some '<' := by
    rw [Xml.Element.document, String.toList_ofList, List.append_assoc, List.head?_append]
    rfl
  intro h
  rw [h, hdeclaration] at htext
  exact absurd htext (by decide)

/-- Of a file that is written, and then another if there is one: the second is there; the first is
there exactly if the second is not the same; all others are as they were. -/
theorem reads_of_writes {d e after : Disk} {path content other : String} {second? : Option String}
    (hfirst : d.write? path content = some e) (hsecond : WritesAsked e second? other after)
    (hne : content ≠ other) :
    (after.read? path = some content ↔
      ∀ second ∈ second?, d.fileAt? (.ofText second) ≠ d.fileAt? (.ofText path)) ∧
    (∀ second ∈ second?, after.read? second = some other) ∧
    ∀ l, d.fileAt? (.ofText path) ≠ some l →
      (∀ second ∈ second?, d.fileAt? (.ofText second) ≠ some l) →
        after.contents? l = d.contents? l := by
  have hpath := Disk.read?_of_write? hfirst rfl
  cases second? with
  | none =>
    obtain rfl : after = e := hsecond
    exact ⟨⟨fun _ => nofun, fun _ => hpath⟩, nofun,
      fun _ hl _ => Disk.contents?_of_write? hfirst hl⟩
  | some second =>
    have hfolders := Disk.sameFolders_of_write? hfirst
    have hsecond : e.write? second other = some after := hsecond
    simp only [Option.mem_some_iff, forall_eq', hfolders.fileAt?]
    refine ⟨?_, Disk.read?_of_write? hsecond rfl, fun l hl hother => ?_⟩
    · by_cases hsame : e.fileAt? (.ofText path) = e.fileAt? (.ofText second)
      · rw [Disk.read?_of_write? hsecond hsame]
        simp [hsame, Ne.symm hne]
      · rw [Disk.read?_of_write?_ne hsecond hsame, hpath]
        simp [Ne.symm hsame]
    · rw [Disk.contents?_of_write? hsecond hother]
      exact Disk.contents?_of_write? hfirst (by rwa [hfolders.fileAt?])

section Run
variable {args : List String} {env : Environment} {disk : Disk} {i : Invocation} {path : String}

/-- A run that compiles into a file and succeeds has written the package, and then the source. -/
theorem run_writes (hrequest : readRequest env args false = .ok (.run i))
    (hcommand : i.command = .compile) (hout : i.out = some path)
    (hexit : (run args env disk).exitCode = 0) :
    ∃ p source e, i.Compiles disk p ∧ Wix.source? p = some source ∧
      (run args env disk).printed =
        path ++ "\n" ++ ("sha256:" ++ Package.fingerprintOf p.text ++ "\n") ∧
      disk.write? path p.text = some e ∧
      WritesAsked e i.wxs source (run args env disk).disk := by
  rw [run_of_readRequest hrequest] at hexit ⊢
  obtain ⟨r, w, hprogram⟩ : ∃ r w, i.program.run (.ofDisk disk) = (r, w) := ⟨_, _, rfl⟩
  rw [hprogram] at hexit ⊢
  cases r with
  | error f => exact absurd hexit f.exitCode_ne_zero
  | ok =>
    unfold Invocation.program at hprogram
    rw [hcommand] at hprogram
    obtain ⟨p, w₁, hresolve, hdeliver⟩ := run_bind_eq_ok.mp hprogram
    obtain rfl : w₁ = .ofDisk disk := by
      have hworld := i.onlyReads_resolve.world (.ofDisk disk)
      rwa [hresolve] at hworld
    obtain ⟨source, hsource⟩ := Invocation.exists_source_of_resolve hresolve
    rw [Invocation.run_deliver hsource] at hdeliver
    obtain ⟨hprinted, e, hwrites⟩ := Invocation.run_write_eq_ok hout hdeliver
    rw [fingerprintLine_eq] at hprinted
    exact ⟨p, source, e, Invocation.compiles_of_resolve hresolve, hsource, hprinted, hwrites⟩

end Run

/-- A run that compiles into a file and succeeds prints the path of the file and the fingerprint of
the package. The source is where it was asked for, and all files but the two are as they were. The
package is in its file exactly if the source was not asked for in the same one. -/
theorem run_into_file {args : List String} {env : Environment} {disk : Disk} {i : Invocation}
    {path : String} (hrequest : readRequest env args false = .ok (.run i))
    (hcommand : i.command = .compile) (hout : i.out = some path)
    (hexit : (run args env disk).exitCode = 0) :
    ∃ p source, i.Compiles disk p ∧ Wix.source? p = some source ∧
      (run args env disk).printed =
        path ++ "\n" ++ ("sha256:" ++ Package.fingerprintOf p.text ++ "\n") ∧
      ((run args env disk).disk.read? path = some p.text ↔
        ∀ wxs ∈ i.wxs, disk.fileAt? (.ofText wxs) ≠ disk.fileAt? (.ofText path)) ∧
      (∀ wxs ∈ i.wxs, (run args env disk).disk.read? wxs = some source) ∧
      ∀ l, disk.fileAt? (.ofText path) ≠ some l →
        (∀ wxs ∈ i.wxs, disk.fileAt? (.ofText wxs) ≠ some l) →
          (run args env disk).disk.contents? l = disk.contents? l := by
  obtain ⟨p, source, e, hcompiles, hsource, hprinted, hpackage, hwritten⟩ :=
    run_writes hrequest hcommand hout hexit
  exact ⟨p, source, hcompiles, hsource, hprinted,
    reads_of_writes hpackage hwritten (text_ne_source hsource)⟩

/-- The arguments for a package and a source. -/
def pairArguments (out wxs : String) : List String :=
  ["compile", "m.json", "--version", "1.0.0", "--out", out, "--wxs", wxs]

/-- What those arguments ask for. -/
def pairInvocation (out wxs : String) : Invocation :=
  { crowdedInvocation with out := some out, wxs := some wxs }

/-- The package and the source are in two files beside the manifest. -/
theorem run_into_file_apart : ∃ p source, Wix.source? p = some source ∧
    (run (pairArguments "out.json" "out.wxs") .bare crowdedDisk).disk.read? "out.json" =
      some p.text ∧
    (run (pairArguments "out.json" "out.wxs") .bare crowdedDisk).disk.read? "out.wxs" =
      some source := by
  have hrequest : readRequest .bare (pairArguments "out.json" "out.wxs") false =
      .ok (.run (pairInvocation "out.json" "out.wxs")) := by
    decide +kernel
  have hexit :
      (run (pairArguments "out.json" "out.wxs") .bare crowdedDisk).exitCode = 0 := by
    decide +kernel
  obtain ⟨p, source, -, hsource, -, hpackage, hwritten, -⟩ := run_into_file hrequest rfl rfl hexit
  refine ⟨p, source, hsource, hpackage.mpr ?_, hwritten "out.wxs" rfl⟩
  intro wxs hmem
  cases hmem
  decide +kernel

/-- Two paths that lead to one file: the run succeeds and tells the fingerprint of the package, but
the file holds the source. -/
theorem run_overwrites_package : ∃ p, ∃ content ≠ p.text,
    (pairInvocation "setup.out" "./setup.out").Compiles crowdedDisk p ∧
    (run (pairArguments "setup.out" "./setup.out") .bare crowdedDisk).exitCode = 0 ∧
    (run (pairArguments "setup.out" "./setup.out") .bare crowdedDisk).printed =
      "setup.out" ++ "\n" ++ ("sha256:" ++ Package.fingerprintOf p.text ++ "\n") ∧
    (run (pairArguments "setup.out" "./setup.out") .bare crowdedDisk).disk.read?
      "setup.out" = some content := by
  have hrequest : readRequest .bare (pairArguments "setup.out" "./setup.out") false =
      .ok (.run (pairInvocation "setup.out" "./setup.out")) := by
    decide +kernel
  have hexit :
      (run (pairArguments "setup.out" "./setup.out") .bare crowdedDisk).exitCode = 0 := by
    decide +kernel
  obtain ⟨p, source, e, hcompiles, hsource, hprinted, hpackage, hwritten⟩ :=
    run_writes hrequest rfl rfl hexit
  refine ⟨p, source, (text_ne_source hsource).symm, hcompiles, hexit, hprinted, ?_⟩
  refine Disk.read?_of_write? hwritten ?_
  simp only [← (Disk.sameFolders_of_write? hpackage).fileAt?]
  decide +kernel

end Installer.CommandLine
