import Installer.Disk.Basic

/-!
# Writing a file changes no directory

A file is written where its directory exists and where there is no directory already
(`write?_eq_some_iff`). Afterwards the same directories exist (`sameFolders_of_write?`), so paths
lead where they led before, and what could be prepared or written then still can. The file holds what
was written (`read?_of_write?`), and every other file what it held (`contents?_of_write?`).

**What it does not establish.** A write that fails leaves no disk to speak of: `write?` has none then.
What a system does with a file that is half written is no matter here, and neither are links, by which
two places are one file.
-/

set_option autoImplicit false

namespace Installer.Disk

section Directories
variable {d : Disk} {l k : Location}

theorem isDirectory_iff : d.isDirectory l = true ↔
    (∃ k ∈ d.working :: d.folders, l <+: k) ∨ ∃ f ∈ d.files, l <+: f.1 ∧ l ≠ f.1 := by
  unfold isDirectory
  simp only [Bool.or_eq_true, List.any_eq_true, List.isPrefixOf_iff_prefix, Bool.and_eq_true,
    decide_eq_true_eq]

/-- The directories around a directory exist. -/
theorem isDirectory_around (h : l <+: k) (hk : d.isDirectory k = true) :
    d.isDirectory l = true := by
  rw [isDirectory_iff] at hk ⊢
  rcases hk with ⟨m, hm, hkm⟩ | ⟨f, hf, hkf, hne⟩
  · exact .inl ⟨m, hm, h.trans hkm⟩
  · refine .inr ⟨f, hf, h.trans hkf, fun heq => hne ?_⟩
    subst heq
    exact hkf.eq_of_length_le h.length_le

theorem isDirectory_working : d.isDirectory d.working = true :=
  isDirectory_iff.mpr (.inl ⟨d.working, List.mem_cons_self, List.prefix_rfl⟩)

theorem isDirectory_start (p : Path) : d.isDirectory (d.start p) = true := by
  unfold start
  split
  · exact isDirectory_around List.nil_prefix isDirectory_working
  · exact isDirectory_working

/-- Steps from a directory lead to a directory. -/
theorem isDirectory_walk {steps : List String} (hl : d.isDirectory l = true)
    (h : d.walk l steps = some k) : d.isDirectory k = true := by
  induction steps generalizing l with
  | nil =>
    cases h
    exact hl
  | cons s steps ih =>
    rw [walk] at h
    split at h
    · exact ih (isDirectory_around (List.dropLast_prefix l) hl) h
    · split at h
      · next hnext => exact ih hnext h
      · cases h

/-- A file is in a directory. -/
theorem fileAt?_eq_some {p : Path} (h : d.fileAt? p = some l) :
    ∃ parent name, l = parent ++ [name] ∧ d.isDirectory parent = true := by
  unfold fileAt? at h
  obtain ⟨name, -, h⟩ := Option.bind_eq_some_iff.mp h
  obtain ⟨parent, hparent, h⟩ := Option.bind_eq_some_iff.mp h
  cases h
  exact ⟨parent, name, rfl, isDirectory_walk (isDirectory_start p.parent) hparent⟩

end Directories

/-- The same directories exist on two disks. -/
structure SameFolders (d e : Disk) : Prop where
  working : d.working = e.working
  isDirectory : ∀ l, d.isDirectory l = e.isDirectory l

namespace SameFolders
variable {d e : Disk} (h : SameFolders d e)

include h

theorem walk (l : Location) (steps : List String) : d.walk l steps = e.walk l steps := by
  induction steps generalizing l with
  | nil => rfl
  | cons s steps ih => rw [Disk.walk, Disk.walk, h.isDirectory, ih, ih]

theorem directoryAt? (p : Path) : d.directoryAt? p = e.directoryAt? p := by
  unfold Disk.directoryAt? start
  rw [h.walk, h.working]

theorem fileAt? (p : Path) : d.fileAt? p = e.fileAt? p := by
  unfold Disk.fileAt?
  rw [h.directoryAt?]

end SameFolders

/-- Whether a file that is prepared can be moved to a path. -/
def IsWritable (d : Disk) (path : String) : Prop :=
  ∃ l, d.fileAt? (.ofText path) = some l ∧ d.isDirectory l = false

/-- What can be moved to a path can be prepared for it. -/
theorem IsWritable.canStage {d : Disk} {path : String} (h : d.IsWritable path) :
    d.canStage path = true := by
  obtain ⟨l, hl, -⟩ := h
  unfold fileAt? at hl
  obtain ⟨name, -, hl⟩ := Option.bind_eq_some_iff.mp hl
  obtain ⟨parent, hparent, -⟩ := Option.bind_eq_some_iff.mp hl
  unfold Disk.canStage
  rw [hparent]
  rfl

theorem SameFolders.isWritable {d e : Disk} (h : SameFolders d e) {path : String} :
    d.IsWritable path ↔ e.IsWritable path := by
  unfold IsWritable
  simp only [h.fileAt?, h.isDirectory]

section Writing
variable {d e : Disk} {path content : String}

theorem write?_eq_some_iff : d.write? path content = some e ↔
    ∃ l, d.fileAt? (.ofText path) = some l ∧ d.isDirectory l = false ∧ d.put l content = e := by
  unfold write?
  refine Option.bind_eq_some_iff.trans (exists_congr fun l => and_congr_right fun _ => ?_)
  by_cases hl : d.isDirectory l = true <;> simp [hl]

/-- Whether a file can be written does not depend on what is written. -/
theorem exists_write?_iff : (∃ e, d.write? path content = some e) ↔ d.IsWritable path := by
  simp only [write?_eq_some_iff]
  constructor
  · rintro ⟨e, l, hl, hfree, -⟩
    exact ⟨l, hl, hfree⟩
  · rintro ⟨l, hl, hfree⟩
    exact ⟨_, l, hl, hfree, rfl⟩

theorem write?_eq_none_iff : d.write? path content = none ↔ ¬d.IsWritable path := by
  rw [← @exists_write?_iff d path content, ← Option.isSome_iff_exists]
  simp

/-- A file that is put into a directory, where no directory is, makes no directory and removes
none. -/
theorem sameFolders_put {parent : Location} {name : String}
    (hparent : d.isDirectory parent = true) :
    SameFolders d (d.put (parent ++ [name]) content) := by
  refine ⟨rfl, fun m => ?_⟩
  rw [Bool.eq_iff_iff]
  constructor
  · intro hm
    rcases isDirectory_iff.mp hm with hfolder | ⟨f, hf, hmf, hne⟩
    · exact isDirectory_iff.mpr (.inl hfolder)
    · refine isDirectory_iff.mpr (.inr ?_)
      -- What was there before goes, and the new file is in the same directories.
      by_cases heq : f.1 = parent ++ [name]
      · exact ⟨(parent ++ [name], content), List.mem_cons_self, heq ▸ hmf, heq ▸ hne⟩
      · exact ⟨f, List.mem_cons_of_mem _ (List.mem_filter.mpr ⟨hf, by simpa using heq⟩), hmf, hne⟩
  · intro hm
    rcases isDirectory_iff.mp hm with hfolder | ⟨f, hf, hmf, hne⟩
    · exact isDirectory_iff.mpr (.inl hfolder)
    · rcases List.mem_cons.mp hf with rfl | hf
      · refine isDirectory_around ?_ hparent
        exact (List.prefix_concat_iff.mp hmf).resolve_left hne
      · exact isDirectory_iff.mpr (.inr ⟨f, (List.mem_filter.mp hf).1, hmf, hne⟩)

theorem sameFolders_of_write? (h : d.write? path content = some e) : SameFolders d e := by
  obtain ⟨l, hl, -, rfl⟩ := write?_eq_some_iff.mp h
  obtain ⟨parent, name, rfl, hparent⟩ := fileAt?_eq_some hl
  exact sameFolders_put hparent

/-- What has been written to a path is read from it, and from every other path to the same file. -/
theorem read?_of_write? (h : d.write? path content = some e) {other : String}
    (hsame : d.fileAt? (.ofText other) = d.fileAt? (.ofText path)) :
    e.read? other = some content := by
  have hfolders := sameFolders_of_write? h
  obtain ⟨l, hl, -, rfl⟩ := write?_eq_some_iff.mp h
  rw [read?, ← hfolders.fileAt?, hsame, hl, Option.bind_some, contents?_put_self]

/-- Writing a file leaves every other file as it was. -/
theorem contents?_of_write? (h : d.write? path content = some e) {l : Location}
    (hl : d.fileAt? (.ofText path) ≠ some l) : e.contents? l = d.contents? l := by
  obtain ⟨k, hk, -, rfl⟩ := write?_eq_some_iff.mp h
  refine contents?_put_of_ne d content fun heq => hl ?_
  rw [hk, heq]

theorem read?_of_write?_ne (h : d.write? path content = some e) {other : String}
    (hother : d.fileAt? (.ofText other) ≠ d.fileAt? (.ofText path)) :
    e.read? other = d.read? other := by
  rw [read?, read?, ← (sameFolders_of_write? h).fileAt?]
  cases hfile : d.fileAt? (.ofText other) with
  | none => rfl
  | some l =>
    rw [Option.bind_some, Option.bind_some]
    exact contents?_of_write? h fun hl => hother (hfile.trans hl.symm)

end Writing
end Installer.Disk
