import Installer.Json.Document
import Installer.Json.Value
import Installer.Proofs.Result
import Installer.Proofs.Text.Decimal
import Installer.Proofs.Text.Hex

/-!
# Texts and numerals are read back

Whatever characters a text has, its quoted form is scanned to the end and decodes to the text
(`readText_quote`). A numeral is read back as what it writes, whatever follows it that is neither
a digit nor a part of a numeral (`readNumber_numeral`).

**What it does not establish.** Numerals with a fraction or an exponent are never written, and nothing
is said of how they are read.
-/

set_option autoImplicit false

namespace Installer.Json
open Result

/-! ## Texts -/

namespace Letter

/-- The letter that a character is written as. -/
def ofChar (c : Char) : Letter :=
  if c.toNat < 0x20 ∧ c ∉ ['\x08', '\x0c', '\n', '\r', '\t'] then .unit c.toNat else .char c

/-- A unit below the space is written in four digits that are read back. -/
theorem readUnit_hexDigits {n : Nat} (h : n < 0x20) (rest : List Char) :
    readUnit (Text.hexDigits 4 n ++ rest) = .ok n := by
  have htake : (Text.hexDigits 4 n ++ rest).take 4 = Text.hexDigits 4 n :=
    List.take_left' (Text.length_hexDigits 4 n)
  have hsize : ∀ n < 0x20, ¬(Text.hexDigits 4 n).foldl (fun n c => n + c.utf8Size) 0 < 4 := by decide
  have hnumber := Text.hexNumber?_hexDigits 4 (Nat.lt_trans h (by decide))
  rw [readUnit, htake, if_neg (hsize n h), hnumber]

theorem scan_unit {n : Nat} (h : n < 0x20) (rest : List Char) :
    scan ('\\' :: 'u' :: (Text.hexDigits 4 n ++ rest)) =
      (.unit n :: (scan rest).1, (scan rest).2) := by
  have hdrop : (Text.hexDigits 4 n ++ rest).drop 4 = rest :=
    List.drop_left' (Text.length_hexDigits 4 n)
  rw [scan, readUnit_hexDigits h, hdrop]

theorem scan_plain {c : Char} (hquote : c ≠ '"') (hback : c ≠ '\\') (hprinted : ¬c.toNat < 0x20)
    (rest : List Char) : scan (c :: rest) = (.char c :: (scan rest).1, (scan rest).2) := by
  rw [scan.eq_def]
  split <;> simp_all

/-- Each written character is scanned as its letter. -/
theorem scan_escape (c : Char) (rest : List Char) :
    scan (Value.escape c ++ rest) = (ofChar c :: (scan rest).1, (scan rest).2) := by
  by_cases hspecial : c ∈ ['"', '\\', '\x08', '\x0c', '\n', '\r', '\t']
  · simp only [List.mem_cons, List.not_mem_nil, or_false] at hspecial
    rcases hspecial with rfl | rfl | rfl | rfl | rfl | rfl | rfl <;>
      simp [Value.escape, scan, escaped?, ofChar]
  · simp only [List.mem_cons, List.not_mem_nil, or_false, not_or] at hspecial
    obtain ⟨hquote, hback, h8, hc, hn, hr, ht⟩ := hspecial
    by_cases hlow : c.toNat < 0x20
    · have hescape : Value.escape c = '\\' :: 'u' :: Text.hexDigits 4 c.toNat := by
        simp [Value.escape, *]
      have hletter : ofChar c = .unit c.toNat := by simp [ofChar, *]
      rw [hescape, hletter, List.cons_append, List.cons_append, scan_unit hlow]
    · have hescape : Value.escape c = [c] := by simp [Value.escape, *]
      have hletter : ofChar c = .char c := by simp [ofChar, hlow]
      rw [hescape, hletter, List.singleton_append, scan_plain hquote hback hlow]

theorem scan_quote (cs rest : List Char) :
    scan (cs.flatMap Value.escape ++ '"' :: rest) = (cs.map ofChar, .ok rest) := by
  induction cs with
  | nil => simp [scan]
  | cons c cs ih => simp [List.append_assoc, scan_escape, ih]

/-- The letters of characters decode to the characters. -/
theorem decode_ofChar (cs : List Char) : decode (.ok ()) (cs.map ofChar) = .ok cs := by
  induction cs with
  | nil => rfl
  | cons c cs ih =>
    rw [List.map_cons, ofChar]
    split
    · next h =>
      have htrailing : isTrailing c.toNat = false := by simp [isTrailing]; omega
      have hleading : isLeading c.toNat = false := by simp [isLeading]; omega
      rw [decode.eq_def]
      simp [htrailing, hleading, ih, Except.map, Char.ofNat_toNat]
    · simp [decode, ih, Except.map]

end Letter

/-- A quoted text is read back, whatever follows it. -/
theorem readText_quote (s : String) (rest : List Char) :
    readText (s.toList.flatMap Value.escape ++ '"' :: rest) = (⟨.ok s, .ok ()⟩, rest) := by
  simp [readText, Letter.scan_quote, Except.map, Except.toOption, Letter.decode_ofChar]

/-! ## Numerals -/

/-- What may follow a value in canonical text. -/
def Follows (rest : List Char) : Prop := ∃ c more, rest = c :: more ∧ (c = ',' ∨ c = '\n')

theorem Follows.comma (rest : List Char) : Follows (',' :: rest) := ⟨_, _, rfl, .inl rfl⟩

theorem Follows.newLine (level : Nat) (rest : List Char) :
    Follows (Text.newLine level ++ rest) := ⟨_, _, rfl, .inr rfl⟩

namespace Numeral

/-- The numeral of an integer. -/
def ofInt : Int → Numeral
  | .ofNat n => ⟨false, Nat.toDigits 10 n, none, none⟩
  | .negSucc n => ⟨true, Nat.toDigits 10 (n + 1), none, none⟩

/-- Only the numeral of zero starts with a zero. -/
theorem toDigits_zero_cons {n : Nat} {cs : List Char} (h : Nat.toDigits 10 n = '0' :: cs) :
    cs = [] := by
  induction n using Nat.strongRecOn generalizing cs with
  | ind n ih =>
    by_cases hn : n < 10
    · rw [Nat.toDigits_of_lt_base hn] at h
      exact (List.cons.inj h).2.symm
    · have hbase : 10 ≤ n := Nat.le_of_not_lt hn
      rw [Nat.toDigits_of_base_le (by decide) hbase] at h
      cases hfront : Nat.toDigits 10 (n / 10) with
      | nil => exact absurd hfront Nat.toDigits_ne_nil
      | cons d ds =>
        rw [hfront, List.cons_append] at h
        obtain ⟨rfl, -⟩ := List.cons.inj h
        have hds := ih (n / 10) (by omega) hfront
        have hvalue := Text.digitsFrom_toDigits (n / 10)
        rw [hfront, hds] at hvalue
        simp [Text.digitsFrom] at hvalue
        omega

/-- A numeral starts with a digit. -/
theorem exists_digit (n : Nat) :
    ∃ d ds, Nat.toDigits 10 n = d :: ds ∧ d.isDigit = true := by
  obtain ⟨d, ds, h⟩ := List.exists_cons_of_ne_nil (Nat.toDigits_ne_nil (n := n) (b := 10))
  exact ⟨d, ds, h, Text.isDigit_of_mem_toDigits (h ▸ List.mem_cons_self)⟩

/-- The digits of a numeral end where no digit follows. -/
theorem readDigits_toDigits (n : Nat) {rest : List Char} (h : Follows rest) :
    readDigits (Nat.toDigits 10 n ++ rest) = .ok (Nat.toDigits 10 n, rest) := by
  obtain ⟨c, more, rfl, hc⟩ := h
  have hstop : ¬c.isDigit = true := by rcases hc with rfl | rfl <;> decide
  have hall : ∀ d ∈ Nat.toDigits 10 n, d.isDigit = true := fun _ hd =>
    Text.isDigit_of_mem_toDigits hd
  have htake : (Nat.toDigits 10 n ++ c :: more).takeWhile Char.isDigit = Nat.toDigits 10 n := by
    rw [List.takeWhile_append_of_pos hall, List.takeWhile_cons_of_neg hstop, List.append_nil]
  have hdrop : (Nat.toDigits 10 n ++ c :: more).dropWhile Char.isDigit = c :: more := by
    rw [List.dropWhile_append_of_pos hall, List.dropWhile_cons_of_neg hstop]
  obtain ⟨d, ds, hdigits, hd⟩ := exists_digit n
  rw [hdigits, List.cons_append] at htake hdrop ⊢
  rw [readDigits.eq_def]
  simp only [hd, if_true, htake, hdrop]

theorem readWhole_toDigits (n : Nat) {rest : List Char} (h : Follows rest) :
    readWhole (Nat.toDigits 10 n ++ rest) = .ok (Nat.toDigits 10 n, rest) := by
  rw [readWhole, readDigits_toDigits n h]
  dsimp only [ok_bind]
  split
  · next hzero => exact absurd (toDigits_zero_cons hzero) (List.cons_ne_nil _ _)
  · rfl

theorem readFraction_follows {rest : List Char} (h : Follows rest) :
    readFraction rest = .ok (none, rest) := by
  obtain ⟨c, more, rfl, rfl | rfl⟩ := h <;> rfl

theorem readExponent_follows {rest : List Char} (h : Follows rest) :
    readExponent rest = .ok (none, rest) := by
  obtain ⟨c, more, rfl, rfl | rfl⟩ := h <;> rfl

/-- The numeral of an integer is read back, up to what follows it. -/
theorem read_numeral (i : Int) {rest : List Char} (h : Follows rest) :
    read (Value.numeral i ++ rest) = .ok (ofInt i, rest) := by
  cases i with
  | ofNat n =>
    obtain ⟨d, ds, hdigits, hd⟩ := exists_digit n
    have hsign : ∀ more, Nat.toDigits 10 n ++ rest ≠ '-' :: more := by
      intro more hminus
      rw [hdigits, List.cons_append] at hminus
      rw [(List.cons.inj hminus).1] at hd
      exact absurd hd (by decide)
    rw [Value.numeral, read]
    · simp only [readWhole_toDigits n h, readFraction_follows h, readExponent_follows h, ok_bind]
      rfl
    · exact hsign
  | negSucc n =>
    rw [Value.numeral, List.cons_append, read]
    simp only [readWhole_toDigits (n + 1) h, readFraction_follows h, readExponent_follows h,
      ok_bind]
    rfl

/-- An integer without sign is what its numeral writes, if it fits. -/
theorem number_ofInt {n : Nat} (h : n < UInt64.size) : (ofInt n).number = .ok (.integer n) := by
  have hinteger : (ofInt n).integer? = some (n : Int) := by
    show (if Text.digitsFrom 0 (Nat.toDigits 10 n) < UInt64.size then
      some (Text.digitsFrom 0 (Nat.toDigits 10 n) : Int) else none) = _
    rw [Text.digitsFrom_toDigits, if_pos h]
  rw [number, hinteger]

end Numeral

/-- A numeral is read back, up to what follows it. -/
theorem readNumber_numeral (i : Int) {rest : List Char} (h : Follows rest) :
    readNumber (Value.numeral i ++ rest) = (⟨(Numeral.ofInt i).number, .ok ()⟩, rest) := by
  rw [readNumber, Numeral.read_numeral i h]

end Installer.Json
