import Installer.Identity

/-!
# What identifies a key path, part by part

An identity is a text of parts with bars between them, and a part may hold bars of its own. So two
identities are the same where the key paths are, and where the text between two bars is counted to
the part before it in the one and to the part after it in the other (`KeyPath.identity_eq_iff`). That
takes a bar in the place of one key path and in the name of the other. Main statement:
`keyPathIdentity?_eq_iff`.

It is all a matter of where the bars are. Two texts with a bar in them are cut alike, or one cut is
before the other (`append_cons_eq_iff`). Kinds and hives have no bars, so only the last two parts can
shift.

**What it does not establish.** The case of letters does not count in an identity, so key paths are
compared after it is taken away. That different identities give different keys is no matter of theirs:
it is a premise wherever keys are derived.
-/

set_option autoImplicit false

namespace Installer

/-- A text has a bar in it. -/
def HasBar (s : String) : Prop := '|' ∈ s.toList

instance (s : String) : Decidable (HasBar s) := inferInstanceAs (Decidable (_ ∈ _))

/-! ## Parts with bars between them -/

/-- A bar cuts two texts in the same way, or one bar is before the other. -/
theorem append_cons_eq_iff {bar : Char} {a b c d : List Char} :
    a ++ bar :: b = c ++ bar :: d ↔ (a = c ∧ b = d) ∨
      (∃ m, c = a ++ bar :: m ∧ b = m ++ bar :: d) ∨ ∃ m, a = c ++ bar :: m ∧ d = m ++ bar :: b := by
  constructor
  · intro h
    rcases List.append_eq_append_iff.mp h with ⟨m, rfl, hrest⟩ | ⟨m, rfl, hrest⟩
    · cases m with
      | nil => exact .inl ⟨(List.append_nil a).symm, (List.cons.inj hrest).2⟩
      | cons x m =>
        obtain ⟨rfl, rfl⟩ := List.cons.inj hrest
        exact .inr (.inl ⟨m, rfl, rfl⟩)
    · cases m with
      | nil => exact .inl ⟨List.append_nil c, (List.cons.inj hrest).2.symm⟩
      | cons x m =>
        obtain ⟨rfl, rfl⟩ := List.cons.inj hrest
        exact .inr (.inr ⟨m, rfl, rfl⟩)
  · rintro (⟨rfl, rfl⟩ | ⟨m, rfl, rfl⟩ | ⟨m, rfl, rfl⟩) <;> simp

/-- The text `m` between two bars ends the first part in one pair, and starts the second in the
other. -/
def Shifts (a b c d : String) : Prop :=
  ∃ m, c = joinIdentity [a, m] ∧ b = joinIdentity [m, d]

theorem joinIdentity_cons (a b : String) (parts : List String) :
    joinIdentity (a :: b :: parts) = joinIdentity [a, joinIdentity (b :: parts)] := by
  simp only [joinIdentity, String.intercalate_cons_cons, String.intercalate_singleton]

theorem toList_joinIdentity (a b : String) :
    (joinIdentity [a, b]).toList = a.toList ++ '|' :: b.toList := by
  simp [joinIdentity, String.intercalate_cons_cons]

theorem joinIdentity_pair_eq_iff {a b c d : String} : joinIdentity [a, b] = joinIdentity [c, d] ↔
    (a = c ∧ b = d) ∨ Shifts a b c d ∨ Shifts c d a b := by
  have hshift : ∀ a b c d : String, Shifts a b c d ↔
      ∃ m, c.toList = a.toList ++ '|' :: m ∧ b.toList = m ++ '|' :: d.toList := by
    intro a b c d
    constructor
    · rintro ⟨m, rfl, rfl⟩
      exact ⟨m.toList, toList_joinIdentity a m, toList_joinIdentity m d⟩
    · rintro ⟨m, hc, hb⟩
      refine ⟨String.ofList m, String.toList_inj.mp ?_, String.toList_inj.mp ?_⟩
      · rw [toList_joinIdentity, String.toList_ofList, hc]
      · rw [toList_joinIdentity, String.toList_ofList, hb]
  rw [hshift, hshift, ← String.toList_inj, toList_joinIdentity, toList_joinIdentity,
    append_cons_eq_iff, String.toList_inj, String.toList_inj]

theorem Shifts.hasBar {a b c d : String} (h : Shifts a b c d) : HasBar c ∧ HasBar b := by
  obtain ⟨m, rfl, rfl⟩ := h
  unfold HasBar
  rw [toList_joinIdentity, toList_joinIdentity]
  simp

/-- A first part without a bar can be told. -/
theorem joinIdentity_cons_eq_iff {a b c d : String} {parts parts' : List String} (ha : ¬HasBar a)
    (hc : ¬HasBar c) : joinIdentity (a :: b :: parts) = joinIdentity (c :: d :: parts') ↔
      a = c ∧ joinIdentity (b :: parts) = joinIdentity (d :: parts') := by
  rw [joinIdentity_cons a, joinIdentity_cons c, joinIdentity_pair_eq_iff]
  constructor
  · rintro (h | h | h)
    · exact h
    · exact absurd h.hasBar.1 hc
    · exact absurd h.hasBar.1 ha
  · exact .inl

/-! ## Key paths -/

/-- Where a key path is; as letter case does not count, its texts are in lower case. -/
inductive KeyPath
  /-- A file in a directory. -/
  | file (directory name : String)
  /-- A value of a registry key. -/
  | registry (root : Hive) (key name : String)
  deriving DecidableEq

namespace KeyPath

/-- The text that identifies a key path. -/
def identity : KeyPath → String
  | .file directory name => joinIdentity ["file", directory, name]
  | .registry root key name => joinIdentity ["registry", Keyword.spelling root, key, name]

/-- The directory or the registry key. -/
def place : KeyPath → String
  | .file directory _ => directory
  | .registry _ key _ => key

/-- The name of the file or of the value. -/
def name : KeyPath → String
  | .file _ name => name
  | .registry _ _ name => name

/-- Two key paths of one kind, and of one hive, that a bar cuts into place and name at another
spot. -/
def IsShifted : KeyPath → KeyPath → Prop
  | .file a b, .file c d => Shifts a b c d
  | .registry root a b, .registry root' c d => root = root' ∧ Shifts a b c d
  | _, _ => False

theorem IsShifted.hasBar {k l : KeyPath} (h : k.IsShifted l) : HasBar l.place ∧ HasBar k.name := by
  cases k with
  | file a b =>
    cases l with
    | file c d => exact Shifts.hasBar h
    | registry => cases h
  | registry root a b =>
    cases l with
    | file => cases h
    | registry root' c d => exact Shifts.hasBar h.2

theorem spelling_no_bar (root : Hive) : ¬HasBar (Keyword.spelling root) := by
  cases root <;> decide

/-- Identities are the same where the key paths are the same or shifted. -/
theorem identity_eq_iff {k l : KeyPath} :
    k.identity = l.identity ↔ k = l ∨ k.IsShifted l ∨ l.IsShifted k := by
  have hfile : ¬HasBar "file" := by decide
  have hregistry : ¬HasBar "registry" := by decide
  have hkinds : "file" ≠ "registry" := by decide
  cases k with
  | file a b =>
    cases l with
    | file c d =>
      rw [identity, identity, joinIdentity_cons_eq_iff hfile hfile, joinIdentity_pair_eq_iff]
      simp [IsShifted]
    | registry root c d =>
      rw [identity, identity, joinIdentity_cons_eq_iff hfile hregistry]
      simp [IsShifted, hkinds]
  | registry root a b =>
    cases l with
    | file c d =>
      rw [identity, identity, joinIdentity_cons_eq_iff hregistry hfile]
      simp [IsShifted, hkinds.symm]
    | registry root' c d =>
      rw [identity, identity, joinIdentity_cons_eq_iff hregistry hregistry,
        joinIdentity_cons_eq_iff (spelling_no_bar root) (spelling_no_bar root'),
        joinIdentity_pair_eq_iff]
      by_cases hroot : root = root'
      · subst hroot
        simp [IsShifted]
      · have hspelling : Keyword.spelling root ≠ Keyword.spelling root' :=
          fun h => hroot (Keyword.spelling_injective h)
        simp [IsShifted, hroot, Ne.symm hroot, hspelling]

/-- Without a bar in the place of one and in the name of the other, the identity tells key paths. -/
theorem identity_eq_iff_of_no_bar {k l : KeyPath} (hkl : ¬(HasBar l.place ∧ HasBar k.name))
    (hlk : ¬(HasBar k.place ∧ HasBar l.name)) : k.identity = l.identity ↔ k = l := by
  rw [identity_eq_iff]
  constructor
  · rintro (h | h | h)
    · exact h
    · exact absurd h.hasBar hkl
    · exact absurd h.hasBar hlk
  · exact .inl

end KeyPath

namespace Item

/-- Where an item is that can be a key path, under the path of the directory it is installed in. -/
def keyPathIn? (installPath : String) : Item → Option KeyPath
  | .file f => some (.file (Text.lower installPath) (Text.lower f.installedName))
  | .registry r => some (.registry r.root (Text.lower r.key) (Text.lower (r.name.getD "")))
  | .environment _ | .shortcut _ | .removeFolder _ => none

theorem keyPathIdentity?_eq_map (installPath : String) (i : Item) :
    i.keyPathIdentity? installPath = (i.keyPathIn? installPath).map KeyPath.identity := by
  cases i <;> rfl

/-- Items are identified alike exactly if their key paths are the same or shifted; and exactly if
they are the same, unless there is a bar in the place of one and in the name of the other. -/
theorem keyPathIdentity?_eq_iff {installPath installPath' : String} {i j : Item} {k l : KeyPath}
    (hi : i.keyPathIn? installPath = some k) (hj : j.keyPathIn? installPath' = some l) :
    (i.keyPathIdentity? installPath = j.keyPathIdentity? installPath' ↔
      k = l ∨ k.IsShifted l ∨ l.IsShifted k) ∧
    (¬(HasBar l.place ∧ HasBar k.name) → ¬(HasBar k.place ∧ HasBar l.name) →
      (i.keyPathIdentity? installPath = j.keyPathIdentity? installPath' ↔ k = l)) := by
  rw [keyPathIdentity?_eq_map, keyPathIdentity?_eq_map, hi, hj, Option.map_some, Option.map_some,
    Option.some_inj]
  exact ⟨KeyPath.identity_eq_iff, KeyPath.identity_eq_iff_of_no_bar⟩

/-- The value `Version` of a key with a bar in its name. -/
def barredKey : Item := .registry
  ⟨"Version", .localMachine, "Acme|Editor", some "Version", "1", .string, true⟩

/-- A value with a bar in its name, of another key. -/
def barredName : Item := .registry
  ⟨"Version", .localMachine, "Acme", some "Editor|Version", "1", .string, true⟩

theorem keyPathIn?_barred :
    barredKey.keyPathIn? "" = some (.registry .localMachine "acme|editor" "version") ∧
      barredName.keyPathIn? "" = some (.registry .localMachine "acme" "editor|version") := by
  decide +kernel

/-- Values of different keys are identified alike. -/
theorem keyPathIdentity?_confuses_barred :
    barredKey.keyPathIdentity? "" = barredName.keyPathIdentity? "" ∧
      barredKey.keyPathIn? "" ≠ barredName.keyPathIn? "" := by
  rw [keyPathIdentity?_eq_map, keyPathIdentity?_eq_map, keyPathIn?_barred.1, keyPathIn?_barred.2]
  decide

/-- The two values are identified alike, though each is another key path; two files without bars are
not. -/
theorem keyPathIdentity?_eq_iff_barred :
    barredName.keyPathIdentity? "" = barredKey.keyPathIdentity? "" ∧
    (Item.file ⟨"AcmeExe", "bin/acme.exe", none, true⟩).keyPathIdentity? "Acme" ≠
      (Item.file ⟨"AcmeHelp", "bin/acme.chm", none, true⟩).keyPathIdentity? "Acme" := by
  obtain ⟨hkey, hname⟩ := keyPathIn?_barred
  refine ⟨(keyPathIdentity?_eq_iff hname hkey).1.mpr (.inr (.inl ⟨rfl, "editor", rfl, rfl⟩)), ?_⟩
  have hprogram : (Item.file ⟨"AcmeExe", "bin/acme.exe", none, true⟩).keyPathIn? "Acme" =
      some (.file "acme" "acme.exe") := by
    decide +kernel
  have hhelp : (Item.file ⟨"AcmeHelp", "bin/acme.chm", none, true⟩).keyPathIn? "Acme" =
      some (.file "acme" "acme.chm") := by
    decide +kernel
  have hplain := (keyPathIdentity?_eq_iff hprogram hhelp).2 (by decide) (by decide)
  exact fun h => absurd (hplain.mp h) (by decide)

end Item
end Installer
