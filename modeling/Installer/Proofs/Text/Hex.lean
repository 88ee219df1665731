import Installer.Text.Hex
import Mathlib.Algebra.Ring.Nat
import Mathlib.Data.List.Basic
import Mathlib.Data.List.Induction

/-!
# Numbers read back from their hexadecimal digits

Read are exactly the digits of a number, each in either letter case (`hexNumber?_eq_some_iff`).
-/

set_option autoImplicit false

namespace Installer.Text

/-- Digits are in lower case. -/
theorem toLower_toUpper_hexDigit {n : Nat} (h : n < 16) :
    (hexDigit n).toUpper.toLower = hexDigit n := by
  revert n
  decide

@[simp] theorem length_hexDigits (count n : Nat) : (hexDigits count n).length = count := by
  simp [hexDigits]

/-- The last digit is written after the digits of a sixteenth. -/
theorem hexDigits_succ (count n : Nat) :
    hexDigits (count + 1) n = hexDigits count (n / 16) ++ [hexDigit (n % 16)] := by
  rw [hexDigits, hexDigits, List.range_succ, List.map_append, List.map_singleton]
  congr 1
  · refine List.map_congr_left fun i hi => ?_
    have hlt : i < count := List.mem_range.mp hi
    have hpower : count + 1 - 1 - i = (count - 1 - i) + 1 := by omega
    have hfour : n >>> 4 = n / 16 := by omega
    rw [hpower, Nat.mul_succ, Nat.add_comm, Nat.shiftRight_add, hfour]
  · simp

/-- As many digits as a number needs are read as the number, however each digit is spelled. -/
theorem hexNumber?_map_hexDigits {spell : Char → Char}
    (hspell : ∀ {n : Nat}, n < 16 → hexValue? (spell (hexDigit n)) = some n) (count : Nat) :
    ∀ {n : Nat}, n < 16 ^ count → hexNumber? ((hexDigits count n).map spell) = some n := by
  induction count with
  | zero =>
    intro n h
    rw [Nat.pow_zero, Nat.lt_one_iff] at h
    rw [h]
    rfl
  | succ count ih =>
    intro n h
    have hfront : n / 16 < 16 ^ count := by
      rw [Nat.div_lt_iff_lt_mul (by decide), ← Nat.pow_succ]
      exact h
    have hread := ih hfront
    rw [hexNumber?] at hread ⊢
    rw [hexDigits_succ, List.map_append, List.foldlM_append, hread]
    simp only [Option.bind_eq_bind, Option.bind_some, List.map_cons, List.map_nil,
      List.foldlM_cons, List.foldlM_nil, hspell (Nat.mod_lt n (by decide : 16 > 0)),
      Option.map_some]
    rw [Nat.div_add_mod']
    rfl

theorem hexNumber?_hexDigits (count : Nat) {n : Nat} (h : n < 16 ^ count) :
    hexNumber? (hexDigits count n) = some n := by
  have hread : hexNumber? ((hexDigits count n).map id) = some n :=
    hexNumber?_map_hexDigits hexValue?_hexDigit count h
  rwa [List.map_id] at hread

/-- Digits tell the numbers that are as short. -/
theorem hexDigits_injective {count m n : Nat} (hm : m < 16 ^ count) (hn : n < 16 ^ count)
    (h : hexDigits count m = hexDigits count n) : m = n := by
  have hread := hexNumber?_hexDigits count hm
  rw [h, hexNumber?_hexDigits count hn] at hread
  exact (Option.some.inj hread).symm

/-! ## Which digits are read -/

/-- The code points of hexadecimal digits, in either letter case. -/
def hexCodes : List Nat := List.range' 48 10 ++ (List.range' 97 6 ++ List.range' 65 6)

theorem toNat_mem_hexCodes {c : Char} {d : Nat} (h : hexValue? c = some d) :
    c.toNat ∈ hexCodes := by
  simp only [hexCodes, List.mem_append, List.mem_range'_1]
  unfold hexValue? at h
  split at h
  · next hdigit =>
    obtain ⟨hfirst, hlast⟩ := Char.isDigit_iff_toNat.mp hdigit
    exact .inl ⟨hfirst, Nat.lt_succ_of_le hlast⟩
  · split at h
    · next hlower =>
      simp only [Bool.and_eq_true, decide_eq_true_eq] at hlower
      exact .inr (.inl ⟨hlower.1, Nat.lt_succ_of_le hlower.2⟩)
    · split at h
      · next hupper =>
        simp only [Bool.and_eq_true, decide_eq_true_eq] at hupper
        exact .inr (.inr ⟨hupper.1, Nat.lt_succ_of_le hupper.2⟩)
      · cases h

/-- A character with a value is the digit of the value, letter case aside. -/
theorem hexDigit_of_hexValue? {c : Char} {d : Nat} (h : hexValue? c = some d) :
    d < 16 ∧ hexDigit d = c.toLower := by
  have hdigits : ∀ n ∈ hexCodes,
      ((hexValue? (Char.ofNat n)).all fun d => d < 16 && hexDigit d == (Char.ofNat n).toLower) =
        true := by
    decide
  have hc := hdigits c.toNat (toNat_mem_hexCodes h)
  rw [Char.ofNat_toNat, h, Option.all_some, Bool.and_eq_true, decide_eq_true_eq, beq_iff_eq] at hc
  exact hc

/-- Only a capital has another form in lower case. -/
theorem toLower_eq_or_capital (c : Char) : c.toLower = c ∨ c.toNat ∈ List.range' 65 26 := by
  by_cases hupper : c.val ≥ 'A'.val ∧ c.val ≤ 'Z'.val
  · exact .inr (List.mem_range'_1.mpr ⟨hupper.1, Nat.lt_succ_of_le hupper.2⟩)
  · exact .inl (dif_neg hupper)

theorem hexValue?_toLower (c : Char) : hexValue? c.toLower = hexValue? c := by
  rcases toLower_eq_or_capital c with hsame | hcapital
  · rw [hsame]
  · have hletters : ∀ n ∈ List.range' 65 26,
        hexValue? (Char.ofNat n).toLower = hexValue? (Char.ofNat n) := by
      decide
    have hc := hletters c.toNat hcapital
    rwa [Char.ofNat_toNat] at hc

/-- Hexadecimal digits are read as the one number that is as short and is written in them, letter
case aside. -/
theorem hexNumber?_eq_some_iff {cs : List Char} {n : Nat} : hexNumber? cs = some n ↔
    n < 16 ^ cs.length ∧ cs.map Char.toLower = hexDigits cs.length n := by
  constructor
  · intro h
    induction cs using List.reverseRecOn generalizing n with
    | nil =>
      cases h
      exact ⟨by decide, rfl⟩
    | append_singleton front c ih =>
      rw [hexNumber?, List.foldlM_append] at h
      obtain ⟨m, hm, h⟩ := Option.bind_eq_some_iff.mp h
      obtain ⟨d, hd, hn⟩ : ∃ d, hexValue? c = some d ∧ m * 16 + d = n := by
        simpa [List.foldlM_cons] using h
      obtain ⟨hsize, hfront⟩ := ih hm
      obtain ⟨hlt, hlast⟩ := hexDigit_of_hexValue? hd
      rw [List.length_append, List.length_singleton, List.map_append, List.map_singleton,
        hexDigits_succ, Nat.pow_succ, hfront, ← hlast]
      have hdiv : n / 16 = m := by omega
      have hmod : n % 16 = d := by omega
      rw [hdiv, hmod]
      exact ⟨by omega, rfl⟩
  · rintro ⟨hsize, hdigits⟩
    have hlower : hexNumber? (cs.map Char.toLower) = hexNumber? cs := by
      rw [hexNumber?, List.foldlM_map, hexNumber?]
      simp only [hexValue?_toLower]
    rw [← hlower, hdigits, hexNumber?_hexDigits cs.length hsize]

end Installer.Text
