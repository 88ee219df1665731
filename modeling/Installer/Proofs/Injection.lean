import Installer.Injection
import Installer.Proofs.Template

/-!
# Templates with the values of a build

The names that have a value are fixed, whatever the values are (`mem_names_of_meaning`), and each of
them can stand between braces. Main statement: `expand_composes`.

**What it does not establish.** That a value was injected is not asked for: where one is missing, the
template that names it fails.
-/

set_option autoImplicit false

namespace Installer.Injection
open Result

/-- The names that a build knows. -/
def names : List String :=
  ["version", "platform", "win64", "program_files", "profile", "binary", "icon", "license",
    "banner", "dialog"]

theorem assets_of_ofSettings {s : Settings} {versionTemplate : String} {i : Injection}
    (h : ofSettings s versionTemplate = .ok i) : i.assets = s.assets := by
  obtain ⟨platform, -, h⟩ := bind_eq_ok.mp h
  obtain ⟨text, -, h⟩ := bind_eq_ok.mp h
  obtain ⟨version, -, h⟩ := bind_eq_ok.mp h
  cases h
  rfl

/-- What has a value is one of the names that every build knows. -/
theorem mem_names_of_meaning {s : Settings} {versionTemplate : String} {i : Injection}
    (h : ofSettings s versionTemplate = .ok i) {name value : String}
    (hmeaning : i.meaning name = .value value) : name ∈ names := by
  rw [meaning, meaningWith] at hmeaning
  split at hmeaning
  · next hlookup =>
    obtain ⟨front, back, hentries, -⟩ := List.lookup_eq_some_iff.mp hlookup
    rw [assets_of_ofSettings h] at hentries
    have hnames : names = (front ++ (name, some _) :: back).map Prod.fst :=
      congrArg (List.map Prod.fst) hentries
    rw [hnames]
    simp
  · cases hmeaning
  · cases hmeaning

/-- A name that a build knows can stand between braces. -/
theorem isReference_of_mem_names : ∀ name ∈ names, name ≠ "" ∧ '\x7d' ∉ name.toList := by
  decide

/-- Expansion goes through a template once, from left to right. What follows a template that expands and
does not end in `$` is expanded as if it stood alone, and fails as it does alone, told with the whole
template. A text without `$` stands for itself, and a name for its value, whatever the value holds. -/
theorem expand_composes {s : Settings} {versionTemplate : String} {i : Injection}
    (h : ofSettings s versionTemplate = .ok i) :
    (∀ a b x, i.expand a = .ok x → a.toList.getLast? ≠ some '$' →
      (∀ y, i.expand b = .ok y → i.expand (a ++ b) = .ok (x ++ y)) ∧
      ∀ v, i.expand b = .error v →
        (∃ name, v = .missingInjectedValue name ∧
          i.expand (a ++ b) = .error (.missingInjectedValue name)) ∨
        ∃ fault, v = .malformedTemplate b fault ∧
          i.expand (a ++ b) = .error (.malformedTemplate (a ++ b) fault)) ∧
    (∀ text : String, '$' ∉ text.toList → i.expand text = .ok text) ∧
    ∀ name value, i.meaning name = .value value →
      i.expand (Template.reference name) = .ok value := by
  refine ⟨fun a b x ha hend => ?_, fun text => Template.expand_of_not_mem, fun name value hvalue => ?_⟩
  · have happend : Template.expandChars i.meaning (a ++ b).toList =
        (Template.expandChars i.meaning b.toList).map (x.toList ++ ·) := by
      rw [String.toList_append]
      exact Template.expandChars_append (Template.expand_eq_ok_iff.mp ha) hend b.toList
    refine ⟨fun y hb => ?_, fun v hb => ?_⟩
    · apply Template.expand_eq_ok_iff.mpr
      rw [happend, Template.expand_eq_ok_iff.mp hb, String.toList_append]
      rfl
    · obtain ⟨failure, hfailure, rfl⟩ := Template.expand_eq_error_iff.mp hb
      rw [hfailure] at happend
      have hwhole : i.expand (a ++ b) = .error (failure.violation (a ++ b)) :=
        Template.expand_eq_error_iff.mpr ⟨failure, happend, rfl⟩
      cases failure with
      | malformed fault => exact .inr ⟨fault, rfl, hwhole⟩
      | missing name => exact .inl ⟨name, rfl, hwhole⟩
  · obtain ⟨hempty, hbrace⟩ := isReference_of_mem_names name (mem_names_of_meaning h hvalue)
    exact Template.expand_reference hvalue hempty hbrace

/-- Values that look like templates. -/
def lookalikes : Settings where
  platform := some "x64"
  version := " 1.2.3 "
  profile := "release"
  binary := none
  icon := some "$\x7bversion\x7d$$\x7b"
  license := some "$"
  banner := none
  dialog := none

/-- What a build with them settles. -/
def lookalike : Injection where
  platform := .x64
  version := ⟨1, 2, 3, none⟩
  selector := some "x64"
  versionTemplate := "$\x7bversion\x7d"
  profile := "release"
  assets := lookalikes.assets

/-- A template of them with an escape and a `$` that opens nothing. -/
def opening : String := "$$\x7bx\x7d, $1 "

theorem expand_composes_lookalike :
    ofSettings lookalikes "$\x7bversion\x7d" = .ok lookalike ∧
    opening.toList.getLast? ≠ some '$' ∧ lookalike.expand opening = .ok "$\x7bx\x7d, $1 " ∧
    lookalike.expand (opening ++ Template.reference "icon") =
      .ok ("$\x7bx\x7d, $1 " ++ "$\x7bversion\x7d$$\x7b") ∧
    lookalike.expand (opening ++ Template.reference "binary") =
      .error (.missingInjectedValue "binary") ∧
    lookalike.expand (opening ++ "$$$\x7b$\x7b") =
      .error (.malformedTemplate (opening ++ "$$$\x7b$\x7b") .unterminated) := by
  have hsettled : ofSettings lookalikes "$\x7bversion\x7d" = .ok lookalike := by decide +kernel
  have hend : opening.toList.getLast? ≠ some '$' := by decide
  have hopening : lookalike.expand opening = .ok "$\x7bx\x7d, $1 " := by decide +kernel
  obtain ⟨happend, -, hvalue⟩ := expand_composes hsettled
  refine ⟨hsettled, hend, hopening, ?_, ?_, ?_⟩
  · exact (happend _ _ _ hopening hend).1 _ (hvalue "icon" _ (by decide +kernel))
  · have hmissing : lookalike.expand (Template.reference "binary") =
        .error (.missingInjectedValue "binary") := by decide +kernel
    rcases (happend _ _ _ hopening hend).2 _ hmissing with ⟨name, hname, hwhole⟩ | ⟨_, hfault, _⟩
    · cases hname
      exact hwhole
    · cases hfault
  · have hfault : lookalike.expand "$$$\x7b$\x7b" =
        .error (.malformedTemplate "$$$\x7b$\x7b" .unterminated) := by decide +kernel
    rcases (happend _ _ _ hopening hend).2 _ hfault with ⟨_, hname, _⟩ | ⟨fault, heq, hwhole⟩
    · cases hname
    · cases heq
      exact hwhole

end Installer.Injection
