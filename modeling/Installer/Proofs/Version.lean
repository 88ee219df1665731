import Installer.Proofs.Result
import Installer.Proofs.Text.Decimal
import Installer.Version

/-!
# Which texts are versions

A version is three or four decimal numerals with single dots between them, each of a number that its
field holds, and a text is read as the version with those numbers (`parse_eq_ok_iff`). How many zeros
a numeral starts with does not matter. The text of a version is one of those that are read as it
(`parse_text`). Main statement: `parse_exact`.

The pieces between the dots of a text are the only ones, so what a text writes can be read off them
(`writes_iff`), and each piece by itself is a numeral or none.

**What it does not establish.** How versions compare is not described, as nothing here compares them
but for equality. A version without a revision is not one with revision zero.
-/

set_option autoImplicit false

namespace Installer.Version
open Result

/-- The numbers in the fields of a version; without a revision there are three. -/
def fields (v : Version) : List Nat :=
  [v.major.toNat, v.minor.toNat, v.build.toNat] ++ v.revision.toList.map (·.toNat)

theorem text_eq (v : Version) : v.text = ".".intercalate (v.fields.map Text.decimal) := rfl

/-- The greatest numbers that the fields hold. -/
def limits : List Nat := [255, 255, 65535, 65535]

/-- No number is above the limit of its field. -/
def Fits (numbers : List Nat) : Prop :=
  List.Forall₂ (· ≤ ·) numbers (limits.take numbers.length)

/-- The text is three or four numerals with single dots between them, of numbers that fit. -/
structure Writes (text : String) (numbers : List Nat) : Prop where
  count : numbers.length = 3 ∨ numbers.length = 4
  numerals : ∃ numerals, text.toList = ['.'].intercalate numerals ∧
    List.Forall₂ Text.IsNumeral numerals numbers
  fits : Fits numbers

/-! ## Fields -/

theorem fits_three {a b c : Nat} : Fits [a, b, c] ↔ a ≤ 255 ∧ b ≤ 255 ∧ c ≤ 65535 := by
  simp [Fits, limits]

theorem fits_four {a b c d : Nat} :
    Fits [a, b, c, d] ↔ a ≤ 255 ∧ b ≤ 255 ∧ c ≤ 65535 ∧ d ≤ 65535 := by
  simp [Fits, limits]

theorem length_fields (v : Version) : v.fields.length = 3 ∨ v.fields.length = 4 := by
  cases hrevision : v.revision with
  | none => exact .inl (by simp [fields, hrevision])
  | some revision => exact .inr (by simp [fields, hrevision])

theorem fits_fields (v : Version) : Fits v.fields := by
  have hmajor := v.major.toNat_lt
  have hminor := v.minor.toNat_lt
  have hbuild := v.build.toNat_lt
  cases hrevision : v.revision with
  | none =>
    simp only [fields, hrevision, Option.toList_none, List.map_nil, List.append_nil, fits_three]
    omega
  | some revision =>
    have hrange := revision.toNat_lt
    simp only [fields, hrevision, Option.toList_some, List.map_cons, List.map_nil, List.cons_append,
      List.nil_append, fits_four]
    omega

/-- Versions are told by the numbers in their fields. -/
theorem fields_injective {v w : Version} (h : v.fields = w.fields) : v = w := by
  obtain ⟨major, minor, build, revision⟩ := v
  obtain ⟨major', minor', build', revision'⟩ := w
  simp only [fields, List.cons_append, List.nil_append, List.cons.injEq, UInt8.toNat_inj,
    UInt16.toNat_inj] at h
  obtain ⟨rfl, rfl, rfl, hrevision⟩ := h
  cases revision <;> cases revision' <;> simp_all [UInt16.toNat_inj]

/-- Numbers that fit are those in the fields that hold them. -/
theorem fields_ofNat {major minor build : Nat} {revision : Option Nat}
    (h : Fits ([major, minor, build] ++ revision.toList)) :
    fields ⟨.ofNat major, .ofNat minor, .ofNat build, revision.map .ofNat⟩ =
      [major, minor, build] ++ revision.toList := by
  cases revision with
  | none =>
    obtain ⟨hmajor, hminor, hbuild⟩ := fits_three.mp h
    simp only [fields, Option.map_none, Option.toList_none, List.map_nil, List.append_nil]
    rw [UInt8.toNat_ofNat_of_lt' (Nat.lt_succ_of_le hmajor),
      UInt8.toNat_ofNat_of_lt' (Nat.lt_succ_of_le hminor),
      UInt16.toNat_ofNat_of_lt' (Nat.lt_succ_of_le hbuild)]
  | some revision =>
    obtain ⟨hmajor, hminor, hbuild, hrevision⟩ := fits_four.mp h
    simp only [fields, Option.map_some, Option.toList_some, List.map_cons, List.map_nil]
    rw [UInt8.toNat_ofNat_of_lt' (Nat.lt_succ_of_le hmajor),
      UInt8.toNat_ofNat_of_lt' (Nat.lt_succ_of_le hminor),
      UInt16.toNat_ofNat_of_lt' (Nat.lt_succ_of_le hbuild),
      UInt16.toNat_ofNat_of_lt' (Nat.lt_succ_of_le hrevision)]

/-- A version is made of fields that fit, and of no others. -/
theorem ofFields_eq_ok_iff {major minor build : Nat} {revision : Option Nat} {v : Version} :
    ofFields major minor build revision = .ok v ↔
      Fits ([major, minor, build] ++ revision.toList) ∧
        v.fields = [major, minor, build] ++ revision.toList := by
  have hfits : Fits ([major, minor, build] ++ revision.toList) ↔
      ¬255 < major ∧ ¬255 < minor ∧ ¬65535 < build ∧ ¬revision.any (65535 < ·) = true := by
    cases revision with
    | none => simp [fits_three]
    | some revision => simp [fits_four]
  rw [ofFields, ite_error_eq_ok, ite_error_eq_ok, ite_error_eq_ok, ite_error_eq_ok]
  constructor
  · rintro ⟨hmajor, hminor, hbuild, hrevision, h⟩
    cases h
    have h := hfits.mpr ⟨hmajor, hminor, hbuild, hrevision⟩
    exact ⟨h, fields_ofNat h⟩
  · rintro ⟨h, hfields⟩
    obtain ⟨hmajor, hminor, hbuild, hrevision⟩ := hfits.mp h
    exact ⟨hmajor, hminor, hbuild, hrevision,
      congrArg Except.ok (fields_injective ((fields_ofNat h).trans hfields.symm))⟩

/-- A field is a numeral of a number of 32 bits. -/
theorem field_eq_ok_iff {cs : List Char} {n : Nat} :
    field cs = .ok n ↔ Text.IsNumeral cs n ∧ n < UInt32.size := by
  rw [← Text.decimal?_eq_some_iff, field]
  cases Text.decimal? cs with
  | none => simp
  | some m =>
    by_cases hm : m < UInt32.size
    · simp only [if_pos hm, Except.ok.injEq, Option.some.injEq]
      exact ⟨fun h => ⟨h, h ▸ hm⟩, fun h => h.1⟩
    · simp only [if_neg hm, reduceCtorEq, Option.some.injEq, false_iff, not_and]
      exact fun h hn => hm (h ▸ hn)

/-! ## Texts -/

/-- The version with the numbers of three or four fields. -/
def ofNumbers : List Nat → Except VersionFault Version
  | [major, minor, build] => ofFields major minor build none
  | [major, minor, build, revision] => ofFields major minor build (some revision)
  | numbers => .error (.fieldCount numbers.length)

theorem ofNumbers_eq_ok_iff {numbers : List Nat} {v : Version} :
    ofNumbers numbers = .ok v ↔
      (numbers.length = 3 ∨ numbers.length = 4) ∧ Fits numbers ∧ v.fields = numbers := by
  match numbers with
  | [major, minor, build] =>
    rw [ofNumbers, ofFields_eq_ok_iff]
    simp
  | [major, minor, build, revision] =>
    rw [ofNumbers, ofFields_eq_ok_iff]
    simp
  | [] | [_] | [_, _] | _ :: _ :: _ :: _ :: _ :: _ => simp [ofNumbers]

theorem parse_eq (text : String) : parse text =
    if (Text.pieces '.' text.toList).length != 3 && (Text.pieces '.' text.toList).length != 4 then
      .error (.fieldCount (Text.pieces '.' text.toList).length)
    else (Text.pieces '.' text.toList).mapM field >>= ofNumbers := by
  rw [parse]
  split
  · rfl
  -- what is left to do with the numbers is the same function, by cases of how many there are
  · refine congrArg _ (funext fun numbers => ?_)
    match numbers with
    | [_, _, _] | [_, _, _, _] => rfl
    | [] | [_] | [_, _] | _ :: _ :: _ :: _ :: _ :: _ => rfl

theorem dot_not_mem_of_isNumeral {cs : List Char} {n : Nat} (h : Text.IsNumeral cs n) : '.' ∉ cs :=
  fun hdot => absurd (h.digits '.' hdot) (by decide)

/-- What a text writes is in the pieces between its dots. -/
theorem writes_iff {text : String} {numbers : List Nat} : Writes text numbers ↔
    (numbers.length = 3 ∨ numbers.length = 4) ∧
      List.Forall₂ Text.IsNumeral (Text.pieces '.' text.toList) numbers ∧ Fits numbers := by
  constructor
  · rintro ⟨hcount, ⟨numerals, htext, hnumerals⟩, hfits⟩
    -- there is no dot in a numeral, so the text is cut where it was joined
    have hpieces : Text.pieces '.' text.toList = numerals := by
      refine Text.pieces_eq_iff.mpr ⟨?_, fun numeral hnumeral => ?_, htext.symm⟩
      · rintro rfl
        cases hnumerals
        simp at hcount
      · obtain ⟨n, -, hn⟩ := exists_related hnumerals hnumeral
        exact dot_not_mem_of_isNumeral hn
    rw [hpieces]
    exact ⟨hcount, hnumerals, hfits⟩
  · rintro ⟨hcount, hnumerals, hfits⟩
    exact ⟨hcount, ⟨_, (Text.pieces_eq_iff.mp rfl).2.2.symm, hnumerals⟩, hfits⟩

/-- Numbers that fit in their fields fit in the words that fields are read into first. -/
theorem Fits.lt_size {numbers : List Nat} (h : Fits numbers) : ∀ n ∈ numbers, n < UInt32.size := by
  intro n hn
  obtain ⟨limit, hlimit, hle⟩ := exists_related h hn
  have hsmall : ∀ limit ∈ limits, limit < UInt32.size := by decide
  exact Nat.lt_of_le_of_lt hle (hsmall limit (List.mem_of_mem_take hlimit))

/-- A text is read as the version whose fields it writes. -/
theorem parse_eq_ok_iff {text : String} {v : Version} :
    parse text = .ok v ↔ Writes text v.fields := by
  rw [parse_eq, ite_error_eq_ok, writes_iff, bind_eq_ok]
  constructor
  · rintro ⟨-, numbers, hread, hmade⟩
    obtain ⟨hcount, hfits, rfl⟩ := ofNumbers_eq_ok_iff.mp hmade
    exact ⟨hcount, (mapM_eq_ok.mp hread).imp fun _ _ h => (field_eq_ok_iff.mp h).1, hfits⟩
  · rintro ⟨hcount, hnumerals, hfits⟩
    refine ⟨?_, v.fields, mapM_eq_ok.mpr ?_, ofNumbers_eq_ok_iff.mpr ⟨hcount, hfits, rfl⟩⟩
    · rw [hnumerals.length_eq]
      rcases hcount with h | h <;> simp [h]
    · refine List.forall₂_iff_zip.mpr ⟨hnumerals.length_eq, fun {cs n} hzip => ?_⟩
      exact field_eq_ok_iff.mpr ⟨(List.forall₂_iff_zip.mp hnumerals).2 hzip,
        hfits.lt_size n (List.of_mem_zip hzip).2⟩

/-- Whatever is written in the form of a version is one. -/
theorem Writes.exists_version {text : String} {numbers : List Nat} (h : Writes text numbers) :
    ∃ v : Version, v.fields = numbers := by
  have hcount := h.count
  have hfits := h.fits
  match numbers with
  | [major, minor, build] =>
    have hfields := @fields_ofNat major minor build none hfits
    exact ⟨_, hfields⟩
  | [major, minor, build, revision] =>
    have hfields := @fields_ofNat major minor build (some revision) hfits
    exact ⟨_, hfields⟩

theorem writes_text (v : Version) : Writes v.text v.fields := by
  refine ⟨v.length_fields, ⟨(v.fields.map Text.decimal).map String.toList, ?_, ?_⟩, v.fits_fields⟩
  · rw [text_eq, String.toList_intercalate]
    rfl
  · rw [List.map_map, List.forall₂_map_left_iff, List.forall₂_same]
    exact fun n _ => Text.isNumeral_decimal n

/-- The text of a version holds digits and dots. -/
theorem isDigit_or_dot_of_mem_text {v : Version} {c : Char} (h : c ∈ v.text.toList) :
    c.isDigit = true ∨ c = '.' := by
  obtain ⟨numerals, htext, hnumerals⟩ := v.writes_text.numerals
  rw [htext] at h
  rcases Text.mem_intercalate h with rfl | ⟨numeral, hmem, hc⟩
  · exact .inr rfl
  · obtain ⟨n, -, hn⟩ := exists_related hnumerals hmem
    exact .inl (hn.digits c hc)

/-- The text of a version is read as the version. -/
theorem parse_text (v : Version) : parse v.text = .ok v := parse_eq_ok_iff.mpr v.writes_text

/-- Versions are told by their texts. -/
theorem text_injective {v w : Version} (h : v.text = w.text) : v = w := by
  have hread := v.parse_text
  rw [h, w.parse_text] at hread
  exact (Except.ok.inj hread).symm

/-- Read as versions are exactly the texts of three or four numerals with single dots between them
that fit in their fields, each as the version with those numbers. The text of a version is read as
it, so two texts are read as one version exactly if their versions have one text. -/
theorem parse_exact :
    (∀ text v, parse text = .ok v ↔ Writes text v.fields) ∧
    (∀ text, (∃ v, parse text = .ok v) ↔ ∃ numbers, Writes text numbers) ∧
    (∀ v : Version, parse v.text = .ok v) ∧
    ∀ s t, (∃ v, parse s = .ok v ∧ parse t = .ok v) ↔
      ∃ v w, parse s = .ok v ∧ parse t = .ok w ∧ v.text = w.text := by
  refine ⟨fun text v => parse_eq_ok_iff, fun text => ⟨?_, ?_⟩, parse_text, fun s t => ⟨?_, ?_⟩⟩
  · rintro ⟨v, hv⟩
    exact ⟨v.fields, parse_eq_ok_iff.mp hv⟩
  · rintro ⟨numbers, h⟩
    obtain ⟨v, rfl⟩ := h.exists_version
    exact ⟨v, parse_eq_ok_iff.mpr h⟩
  · rintro ⟨v, hs, ht⟩
    exact ⟨v, v, hs, ht, rfl⟩
  · rintro ⟨v, w, hs, ht, htext⟩
    obtain rfl := text_injective htext
    exact ⟨v, hs, ht⟩

example : parse "255.000255.065535.00000000000" = .ok ⟨255, 255, 65535, some 0⟩ := by decide +kernel

end Installer.Version
