import Installer.Text.Decimal
import Mathlib.Data.List.Forall2
import Mathlib.Data.Nat.Digits.Defs

/-!
# Numerals and pieces

A numeral is told by its digits and their places (`IsNumeral`), and that is what is read
(`decimal?_eq_some_iff`); leading zeros do not count. The pieces of a text are the only ones without
the separator that give the text when they are joined by it (`pieces_eq_iff`).
-/

set_option autoImplicit false

namespace Installer.Text

/-! ## Numerals -/

/-- The number that a digit stands for. -/
def digitValue (c : Char) : Nat := c.toNat - '0'.toNat

/-- Digits of the number `n`, at least one, of which the last stands in the place of the ones. -/
structure IsNumeral (cs : List Char) (n : Nat) : Prop where
  nonempty : cs ≠ []
  digits : ∀ c ∈ cs, c.isDigit = true
  value : Nat.ofDigits 10 (cs.map digitValue).reverse = n

/-- Reading from the left counts each digit in its place. -/
theorem digitsFrom_zero (cs : List Char) :
    digitsFrom 0 cs = Nat.ofDigits 10 (cs.map digitValue).reverse := by
  rw [Nat.ofDigits_eq_foldr, List.foldr_reverse, List.foldl_map, digitsFrom]
  congr 1
  funext n c
  rw [digitValue, Nat.mul_comm, Nat.add_comm]
  rfl

/-- Read is exactly the number that the digits write. -/
theorem decimal?_eq_some_iff {cs : List Char} {n : Nat} : decimal? cs = some n ↔ IsNumeral cs n := by
  have hreads : (cs.isEmpty || !cs.all Char.isDigit) = true ↔
      ¬(cs ≠ [] ∧ ∀ c ∈ cs, c.isDigit = true) := by
    rw [Bool.or_eq_true, List.isEmpty_iff, Bool.not_eq_true', ← Bool.not_eq_true, List.all_eq_true,
      not_and_or, not_not]
  rw [decimal?, digitsFrom_zero]
  constructor
  · intro h
    split at h
    · cases h
    · next hread =>
      obtain ⟨hnonempty, hdigits⟩ := not_not.mp (mt hreads.mpr hread)
      exact ⟨hnonempty, hdigits, Option.some.inj h⟩
  · intro h
    rw [if_neg fun hempty => hreads.mp hempty ⟨h.nonempty, h.digits⟩, h.value]

theorem isDigit_of_mem_toDigits {n : Nat} {c : Char} (h : c ∈ Nat.toDigits 10 n) :
    c.isDigit = true :=
  Nat.isDigit_of_mem_toDigits (by decide) (by decide) h

theorem digitsFrom_toDigits (n : Nat) : digitsFrom 0 (Nat.toDigits 10 n) = n := by
  have hfold : ∀ (cs : List Char) (m : Nat), digitsFrom m cs = Nat.ofDigitChars 10 cs m := by
    intro cs m
    simp only [digitsFrom, Nat.ofDigitChars_eq_foldl, Nat.mul_comm]
  rw [hfold, Nat.ofDigitChars_ten_toDigits]

/-- A number is written as a numeral of itself. -/
theorem isNumeral_decimal (n : Nat) : IsNumeral (decimal n).toList n := by
  rw [decimal, String.toList_ofList]
  refine ⟨Nat.toDigits_ne_nil, fun c hc => isDigit_of_mem_toDigits hc, ?_⟩
  rw [← digitsFrom_zero, digitsFrom_toDigits]

/-! ## Pieces -/

variable {separator : Char} {cs : List Char}

theorem pieces_eq_splitOn (separator : Char) (cs : List Char) :
    pieces separator cs = cs.splitOn separator := by
  induction cs with
  | nil => rfl
  | cons c cs ih =>
    rw [pieces, List.splitOn_cons_eq_if_modifyHead, ih]
    split
    · rfl
    · cases h : cs.splitOn separator with
      | nil => exact absurd h (List.splitOn_ne_nil separator cs)
      | cons piece more => rfl

theorem separator_not_mem_of_mem_pieces {piece : List Char} (h : piece ∈ pieces separator cs) :
    separator ∉ piece := by
  induction cs generalizing piece with
  | nil =>
    rw [pieces, List.mem_singleton] at h
    rw [h]
    exact List.not_mem_nil
  | cons c cs ih =>
    rw [pieces] at h
    split at h
    · rcases List.mem_cons.mp h with rfl | h
      · exact List.not_mem_nil
      · exact ih h
    · next hc =>
      have hother : separator ≠ c := fun heq => hc (beq_iff_eq.mpr heq.symm)
      split at h
      · rw [List.mem_singleton] at h
        rw [h, List.mem_singleton]
        exact hother
      · next first more hpieces =>
        rw [hpieces] at ih
        rcases List.mem_cons.mp h with rfl | h
        · rw [List.mem_cons, not_or]
          exact ⟨hother, ih List.mem_cons_self⟩
        · exact ih (List.mem_cons_of_mem first h)

/-- A text is cut in the one way in which joining gives it back. -/
theorem pieces_eq_iff {ps : List (List Char)} : pieces separator cs = ps ↔
    ps ≠ [] ∧ (∀ piece ∈ ps, separator ∉ piece) ∧ [separator].intercalate ps = cs := by
  constructor
  · rintro rfl
    refine ⟨?_, fun piece => separator_not_mem_of_mem_pieces, ?_⟩
    · rw [pieces_eq_splitOn]
      exact List.splitOn_ne_nil separator cs
    · rw [pieces_eq_splitOn, List.intercalate_splitOn]
  · rintro ⟨hne, hpieces, rfl⟩
    rw [pieces_eq_splitOn, List.splitOn_intercalate separator hpieces hne]

/-- What stands in a joined text is the separator or stands in a piece. -/
theorem mem_intercalate {ps : List (List Char)} {c : Char}
    (h : c ∈ [separator].intercalate ps) : c = separator ∨ ∃ piece ∈ ps, c ∈ piece := by
  induction ps with
  | nil => cases h
  | cons first more ih =>
    cases more with
    | nil =>
      rw [List.intercalate_singleton] at h
      exact .inr ⟨first, List.mem_cons_self, h⟩
    | cons second more =>
      rw [List.intercalate_cons_cons, List.append_assoc, List.mem_append, List.mem_append,
        List.mem_singleton] at h
      rcases h with hfirst | hseparator | hmore
      · exact .inr ⟨first, List.mem_cons_self, hfirst⟩
      · exact .inl hseparator
      · refine (ih hmore).imp_right ?_
        rintro ⟨piece, hpiece, hc⟩
        exact ⟨piece, List.mem_cons_of_mem first hpiece, hc⟩

end Installer.Text
