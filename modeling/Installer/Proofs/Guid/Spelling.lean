import Installer.Proofs.Guid
import Installer.Proofs.Result
import Installer.Proofs.Text.Decimal

/-!
# How a GUID may be spelled

A spelling has the digits of a GUID in any letter case (`HasDigits`), with hyphens between them or
without, or with hyphens after the start of a URN; one pair of braces may stand around it, around the
form with hyphens also two, and white space around it all (`IsSpelledBy`). The text of a GUID is one
of its spellings, and every spelling is read as what it spells. Main statement: `parse_canonical`.

The forms are told apart by their lengths, 32, 36, 38 and 45, so that a text has one form at most
(`ofForm?_eq_some_iff`). Braces and white space stand in no form.

**What it does not establish.** A spelling is told by its characters. The start of a URN is read in
any letter case, and a form with hyphens in two pairs of braces is read as well; nothing narrower is
claimed.
-/

set_option autoImplicit false

namespace Installer.Guid
open Result

/-- The characters are the digits of the GUID, letter case aside. -/
def HasDigits (g : Guid) (ds : List Char) : Prop := ds.map Char.toLower = g.digits

/-- A GUID without braces: its digits, with hyphens or without, or after one of `starts`. -/
inductive Form (starts : List Char → Prop) (g : Guid) : List Char → Prop
  | plain {ds : List Char} (h : g.HasDigits ds) : Form starts g ds
  | hyphenated {ds : List Char} (h : g.HasDigits ds) : Form starts g (hyphenate ds)
  | urn {start ds : List Char} (hstart : starts start) (h : g.HasDigits ds) :
    Form starts g (start ++ hyphenate ds)

/-- Characters in a pair of braces. -/
def braced (cs : List Char) : List Char := '\x7b' :: cs ++ ['\x7d']

/-- A GUID in a pair of braces or in none; with hyphens also in two pairs. -/
inductive Spelling (starts : List Char → Prop) (g : Guid) : List Char → Prop
  | bare {cs : List Char} (h : Form starts g cs) : Spelling starts g cs
  | braced {cs : List Char} (h : Form starts g cs) : Spelling starts g (braced cs)
  | bracedTwice {ds : List Char} (h : g.HasDigits ds) :
    Spelling starts g (Guid.braced (Guid.braced (hyphenate ds)))

/-- The text spells the GUID; a URN starts with one of `starts`. -/
def IsSpelledBy (starts : List Char → Prop) (g : Guid) (text : String) : Prop :=
  ∃ before cs after, text.toList = before ++ cs ++ after ∧ Spelling starts g cs ∧
    (∀ c ∈ before, Text.isBlank c = true) ∧ ∀ c ∈ after, Text.isBlank c = true

/-- The start of a URN, in any letter case. -/
def IsUrnStart (cs : List Char) : Prop := cs.map Char.toLower = urn

/-! ## Digits -/

section Digits
variable {g : Guid} {ds : List Char}

theorem HasDigits.length (h : g.HasDigits ds) : ds.length = 32 := by
  rw [← g.length_digits, ← h, List.length_map]

/-- Each of the digits has a value. -/
theorem HasDigits.hexValue? (h : g.HasDigits ds) {c : Char} (hc : c ∈ ds) :
    ∃ d, Text.hexValue? c = some d := by
  have hlower : c.toLower ∈ g.digits := h ▸ List.mem_map_of_mem hc
  obtain ⟨i, -, hi⟩ := List.mem_map.mp hlower
  rw [← Text.hexValue?_toLower, ← hi]
  exact ⟨_, Text.hexValue?_hexDigit (Nat.mod_lt _ (by decide))⟩

theorem HasDigits.not_mem (h : g.HasDigits ds) {c : Char} (hc : Text.hexValue? c = none) :
    c ∉ ds := by
  intro hmem
  obtain ⟨d, hd⟩ := h.hexValue? hmem
  rw [hc] at hd
  cases hd

/-- The digits of a GUID are those of its text. -/
theorem hasDigits_upper (g : Guid) : g.HasDigits (g.digits.map Char.toUpper) := by
  rw [HasDigits, List.map_map]
  refine (List.map_congr_left fun c hc => ?_).trans (List.map_id _)
  obtain ⟨i, -, rfl⟩ := List.mem_map.mp hc
  exact Text.toLower_toUpper_hexDigit (Nat.mod_lt _ (by decide))

theorem ofDigits?_eq_some_iff : ofDigits? ds = some g ↔ g.HasDigits ds := by
  -- 32 digits write exactly the numbers that 128 bits hold, so nothing is cut off
  have hbits : ∀ h : Guid, h.bits.toNat < 16 ^ 32 := fun h => by
    have hlt := h.bits.isLt
    omega
  constructor
  · intro h
    rw [ofDigits?] at h
    split at h
    · next hlength =>
      obtain ⟨n, hn, rfl⟩ := Option.map_eq_some_iff.mp h
      obtain ⟨hsize, hdigits⟩ := Text.hexNumber?_eq_some_iff.mp hn
      rw [hlength] at hsize hdigits
      have hvalue : (BitVec.ofNat 128 n).toNat = n := by
        rw [BitVec.toNat_ofNat, Nat.mod_eq_of_lt (by omega)]
      rw [HasDigits, hdigits, digits, hvalue]
    · cases h
  · intro h
    have hread : Text.hexNumber? ds = some g.bits.toNat := by
      refine Text.hexNumber?_eq_some_iff.mpr ?_
      rw [h.length]
      exact ⟨hbits g, h⟩
    rw [ofDigits?, if_pos h.length, hread, Option.map_some, BitVec.ofNat_toNat, BitVec.setWidth_eq]

theorem ofDigits?_eq_none (h : ds.length ≠ 32) : ofDigits? ds = none := if_neg h

end Digits

/-! ## Groups of digits -/

section Groups
variable {g : Guid} {cs : List Char}

theorem length_hyphenate {ds : List Char} (h : ds.length = 32) : (hyphenate ds).length = 36 := by
  simp [hyphenate, h]

theorem ofGroups?_eq_some_iff :
    ofGroups? cs = some g ↔ ∃ ds, g.HasDigits ds ∧ cs = hyphenate ds := by
  constructor
  · intro h
    rw [ofGroups?] at h
    split at h
    · next hlengths =>
      have hjoined := (Text.pieces_eq_iff.mp rfl : _ ∧ _ ∧
        ['-'].intercalate (Text.pieces '-' cs) = cs).2.2
      obtain ⟨a, _, hpieces, ha, hlengths⟩ := List.map_eq_cons_iff.mp hlengths
      obtain ⟨b, _, rfl, hb, hlengths⟩ := List.map_eq_cons_iff.mp hlengths
      obtain ⟨c, _, rfl, hc, hlengths⟩ := List.map_eq_cons_iff.mp hlengths
      obtain ⟨d, _, rfl, hd, hlengths⟩ := List.map_eq_cons_iff.mp hlengths
      obtain ⟨e, rfl, he⟩ := List.map_eq_singleton_iff.mp hlengths
      rw [hpieces] at h hjoined
      refine ⟨_, ofDigits?_eq_some_iff.mp h, ?_⟩
      rw [← hjoined]
      simp [hyphenate, List.intercalate_cons_cons, List.drop_append, List.drop_eq_nil_of_le, ha, hb,
        hc, hd]
    · cases h
  · rintro ⟨ds, h, rfl⟩
    rw [ofGroups?_hyphenate (h.not_mem rfl) h.length]
    exact ofDigits?_eq_some_iff.mpr h

theorem ofGroups?_eq_none (h : cs.length ≠ 36) : ofGroups? cs = none := by
  rw [Option.eq_none_iff_forall_ne_some]
  intro g hg
  obtain ⟨ds, hds, rfl⟩ := ofGroups?_eq_some_iff.mp hg
  exact h (length_hyphenate hds.length)

theorem unbraced?_eq_some_iff {inner : List Char} : unbraced? cs = some inner ↔ cs = braced inner := by
  constructor
  · intro h
    unfold unbraced? at h
    split at h
    · split at h
      · next rest hlast =>
        obtain ⟨front, rfl⟩ := List.getLast?_eq_some_iff.mp hlast
        rw [List.dropLast_concat] at h
        rw [braced, Option.some.inj h, List.cons_append]
      · cases h
    · cases h
  · rintro rfl
    simp [braced, unbraced?]

end Groups

/-! ## Forms -/

section Forms
variable {g : Guid} {cs : List Char} {starts : List Char → Prop}

theorem hexValue?_of_mem_hyphenate {ds : List Char} (h : g.HasDigits ds) {c : Char}
    (hc : c ∈ hyphenate ds) : c = '-' ∨ ∃ d, Text.hexValue? c = some d := by
  have hpart : ∀ i j : Nat, c ∈ (ds.drop i).take j → c ∈ ds := fun i j hmem =>
    List.drop_subset i ds (List.take_subset j _ hmem)
  simp only [hyphenate, List.mem_append, List.mem_cons] at hc
  rcases hc with (((hc | hc | hc) | hc | hc) | hc | hc) | hc | hc
  · exact .inr (h.hexValue? (List.take_subset 8 ds hc))
  · exact .inl hc
  · exact .inr (h.hexValue? (hpart 8 4 hc))
  · exact .inl hc
  · exact .inr (h.hexValue? (hpart 12 4 hc))
  · exact .inl hc
  · exact .inr (h.hexValue? (hpart 16 4 hc))
  · exact .inl hc
  · exact .inr (h.hexValue? (List.drop_subset 20 ds hc))

/-- What a form is made of: digits, hyphens and the start of a URN. -/
theorem Form.mem (h : Form starts g cs) {c : Char} (hc : c ∈ cs) :
    c = '-' ∨ (∃ d, Text.hexValue? c = some d) ∨ ∃ start, starts start ∧ c ∈ start := by
  have hhyphenate : ∀ {ds : List Char}, g.HasDigits ds → c ∈ hyphenate ds →
      c = '-' ∨ (∃ d, Text.hexValue? c = some d) ∨ ∃ start, starts start ∧ c ∈ start := by
    intro ds h hc
    rcases hexValue?_of_mem_hyphenate h hc with hc | hc
    · exact .inl hc
    · exact .inr (.inl hc)
  cases h with
  | plain h => exact .inr (.inl (h.hexValue? hc))
  | hyphenated h => exact hhyphenate h hc
  | urn hstart h =>
    rcases List.mem_append.mp hc with hc | hc
    · exact .inr (.inr ⟨_, hstart, hc⟩)
    · exact hhyphenate h hc

/-- What a spelling is made of besides braces. -/
theorem Spelling.mem (h : Spelling starts g cs) {c : Char} (hc : c ∈ cs) : c ∈ ['\x7b', '\x7d', '-'] ∨
    (∃ d, Text.hexValue? c = some d) ∨ ∃ start, starts start ∧ c ∈ start := by
  have hbraced : ∀ {inner : List Char}, c ∈ Guid.braced inner →
      c ∈ ['\x7b', '\x7d', '-'] ∨ c ∈ inner := by
    intro inner hc
    simp only [Guid.braced, List.mem_append, List.mem_cons, List.not_mem_nil, or_false] at hc ⊢
    rcases hc with (hc | hc) | hc
    · exact .inl (.inl hc)
    · exact .inr hc
    · exact .inl (.inr (.inl hc))
  have hform : ∀ {inner : List Char}, Form starts g inner → c ∈ inner → c ∈ ['\x7b', '\x7d', '-'] ∨
      (∃ d, Text.hexValue? c = some d) ∨ ∃ start, starts start ∧ c ∈ start := by
    intro inner h hc
    rcases h.mem hc with rfl | hc
    · exact .inl (by decide)
    · exact .inr hc
  cases h with
  | bare h => exact hform h hc
  | braced h =>
    rcases hbraced hc with hc | hc
    · exact .inl hc
    · exact hform h hc
  | bracedTwice h =>
    rcases hbraced hc with hc | hc
    · exact .inl hc
    · rcases hbraced hc with hc | hc
      · exact .inl hc
      · exact hform (.hyphenated h) hc

theorem Spelling.ne_nil (h : Spelling starts g cs) : cs ≠ [] := by
  rintro rfl
  cases h with
  | bare h =>
    generalize hnil : ([] : List Char) = cs at h
    cases h with
    | plain h => simpa [← hnil] using h.length
    | hyphenated h => simpa [← hnil] using length_hyphenate h.length
    | urn hstart h =>
      have hlength := congrArg List.length hnil
      rw [List.length_append, length_hyphenate h.length] at hlength
      simp at hlength

/-- In no form is there a brace. -/
theorem Form.not_braced (h : Form IsUrnStart g cs) (inner : List Char) : cs ≠ braced inner := by
  intro hbraced
  have hmem : '\x7b' ∈ cs := hbraced ▸ List.mem_cons_self
  rcases h.mem hmem with h | ⟨d, hd⟩ | ⟨start, hstart, hbrace⟩
  · exact absurd h (by decide)
  · cases hd
  · have hurn : '\x7b'.toLower ∈ start.map Char.toLower := List.mem_map_of_mem hbrace
    rw [hstart] at hurn
    exact absurd hurn (by decide)

end Forms

/-! ## Texts -/

section Texts
variable {g : Guid} {cs : List Char}

theorem IsUrnStart.length {start : List Char} (h : IsUrnStart start) : start.length = 9 := by
  rw [← List.length_map Char.toLower, h]
  rfl

theorem unbraced?_eq_none (h : Form IsUrnStart g cs) : unbraced? cs = none := by
  rw [Option.eq_none_iff_forall_ne_some]
  exact fun inner hinner => h.not_braced inner (unbraced?_eq_some_iff.mp hinner)

/-- Read are the forms, and what has hyphens also in braces. Their lengths are 32, 36, 38 and 45, so
none of them is taken for another. -/
theorem ofForm?_eq_some_iff : ofForm? cs = some g ↔
    Form IsUrnStart g cs ∨ ∃ ds, g.HasDigits ds ∧ cs = braced (hyphenate ds) := by
  simp only [ofForm?, Option.orElse_eq_orElse, Option.orElse_eq_or, Option.or_eq_some_iff]
  constructor
  · rintro (h | ⟨-, h | ⟨-, h | ⟨-, h⟩⟩⟩)
    · exact .inl (.plain (ofDigits?_eq_some_iff.mp h))
    · obtain ⟨ds, hds, rfl⟩ := ofGroups?_eq_some_iff.mp h
      exact .inl (.hyphenated hds)
    · obtain ⟨inner, hinner, h⟩ := Option.bind_eq_some_iff.mp h
      obtain ⟨ds, hds, rfl⟩ := ofGroups?_eq_some_iff.mp h
      exact .inr ⟨ds, hds, unbraced?_eq_some_iff.mp hinner⟩
    · split at h
      · next hstart =>
        obtain ⟨ds, hds, hrest⟩ := ofGroups?_eq_some_iff.mp h
        rw [← List.take_append_drop urn.length cs, hrest]
        exact .inl (.urn hstart hds)
      · cases h
  · rintro (h | ⟨ds, hds, rfl⟩)
    · have hbare := unbraced?_eq_none h
      cases h with
      | plain hds => exact .inl (ofDigits?_eq_some_iff.mpr hds)
      | hyphenated hds =>
        have hlength := length_hyphenate hds.length
        exact .inr ⟨ofDigits?_eq_none (by omega), .inl (ofGroups?_eq_some_iff.mpr ⟨_, hds, rfl⟩)⟩
      | @urn start ds hstart hds =>
        have hlength : (start ++ hyphenate ds).length = 45 := by
          rw [List.length_append, hstart.length, length_hyphenate hds.length]
        have htake : (start ++ hyphenate ds).take urn.length = start :=
          List.take_left' hstart.length
        have hdrop : (start ++ hyphenate ds).drop urn.length = hyphenate ds :=
          List.drop_left' hstart.length
        rw [hbare, htake, hdrop, if_pos (show start.map Char.toLower = urn from hstart)]
        exact .inr ⟨ofDigits?_eq_none (by omega), .inr ⟨ofGroups?_eq_none (by omega),
          .inr ⟨rfl, ofGroups?_eq_some_iff.mpr ⟨_, hds, rfl⟩⟩⟩⟩
    · have hlength : (braced (hyphenate ds)).length = 38 := by
        simp [braced, length_hyphenate hds.length]
      have hread : (unbraced? (braced (hyphenate ds))).bind ofGroups? = some g :=
        Option.bind_eq_some_iff.mpr
          ⟨_, unbraced?_eq_some_iff.mpr rfl, ofGroups?_eq_some_iff.mpr ⟨_, hds, rfl⟩⟩
      exact .inr ⟨ofDigits?_eq_none (by omega), .inr ⟨ofGroups?_eq_none (by omega), .inl hread⟩⟩

/-- One pair of braces is taken off before a form is read. -/
theorem ofForm?_unbraced_iff :
    ofForm? ((unbraced? cs).getD cs) = some g ↔ Spelling IsUrnStart g cs := by
  rw [ofForm?_eq_some_iff]
  constructor
  · intro h
    cases hcs : unbraced? cs with
    | none =>
      rw [hcs, Option.getD_none] at h
      rcases h with h | ⟨ds, hds, rfl⟩
      · exact .bare h
      · rw [unbraced?_eq_some_iff.mpr rfl] at hcs
        cases hcs
    | some inner =>
      rw [hcs, Option.getD_some] at h
      obtain rfl := unbraced?_eq_some_iff.mp hcs
      rcases h with h | ⟨ds, hds, rfl⟩
      · exact .braced h
      · exact .bracedTwice hds
  · intro h
    cases h with
    | bare h =>
      rw [unbraced?_eq_none h]
      exact .inl h
    | braced h =>
      rw [unbraced?_eq_some_iff.mpr rfl]
      exact .inl h
    | bracedTwice hds =>
      rw [unbraced?_eq_some_iff.mpr rfl]
      exact .inr ⟨_, hds, rfl⟩

/-- There is no white space in a spelling. -/
theorem Spelling.not_blank (h : Spelling IsUrnStart g cs) {c : Char} (hc : c ∈ cs) :
    Text.isBlank c = false := by
  rcases h.mem hc with hc | ⟨d, hd⟩ | ⟨start, hstart, hc⟩
  · simp only [List.mem_cons, List.not_mem_nil, or_false] at hc
    rcases hc with rfl | rfl | rfl <;> decide
  · have hcodes : ∀ n ∈ Text.hexCodes, Text.isBlank (Char.ofNat n) = false := by decide
    have hblank := hcodes c.toNat (Text.toNat_mem_hexCodes hd)
    rwa [Char.ofNat_toNat] at hblank
  · rcases Text.toLower_eq_or_capital c with hsame | hcapital
    · have hurn : c.toLower ∈ start.map Char.toLower := List.mem_map_of_mem hc
      rw [hstart, hsame] at hurn
      have hall : urn.all (fun c => !Text.isBlank c) = true := by decide
      simpa using List.all_eq_true.mp hall c hurn
    · have hcodes : ∀ n ∈ List.range' 65 26, Text.isBlank (Char.ofNat n) = false := by decide
      have hblank := hcodes c.toNat hcapital
      rwa [Char.ofNat_toNat] at hblank

theorem isSpelledBy_iff {text : String} :
    g.IsSpelledBy IsUrnStart text ↔ Spelling IsUrnStart g (Text.trimChars text.toList) := by
  constructor
  · rintro ⟨before, cs, after, htext, h, hbefore, hafter⟩
    rwa [htext, Text.trimChars_append hbefore hafter h.ne_nil fun c hc => h.not_blank hc]
  · intro h
    obtain ⟨before, after, htext, hbefore, hafter⟩ := Text.exists_trimChars text.toList
    exact ⟨before, _, after, htext, h, hbefore, hafter⟩

/-- A text is read as the GUID that it spells, unless that is the zero GUID. -/
theorem ofText?_eq_some_iff {text : String} :
    ofText? text = some g ↔ g.bits ≠ 0 ∧ g.IsSpelledBy IsUrnStart text := by
  rw [isSpelledBy_iff, ← ofForm?_unbraced_iff, ofText?]
  generalize ofForm? ((unbraced? (Text.trimChars text.toList)).getD
    (Text.trimChars text.toList)) = form
  cases form with
  | none => simp
  | some h =>
    by_cases hzero : h.bits = 0
    · simp only [hzero, if_true, reduceCtorEq, Option.some.injEq, false_iff, not_and]
      rintro hne rfl
      exact hne hzero
    · simp only [hzero, if_false, Option.some.injEq]
      exact ⟨fun heq => ⟨heq ▸ hzero, heq⟩, fun h => h.2⟩

variable {owner text : String}

theorem parse_eq_ok_iff :
    parse owner text = .ok g ↔ g.bits ≠ 0 ∧ g.IsSpelledBy IsUrnStart text := by
  rw [← ofText?_eq_some_iff, parse]
  cases ofText? text <;> simp

theorem parse_eq_error_iff : parse owner text = .error (.invalidGuid owner text) ↔
    ¬∃ g : Guid, g.bits ≠ 0 ∧ g.IsSpelledBy IsUrnStart text := by
  simp only [← ofText?_eq_some_iff, parse]
  cases ofText? text <;> simp

/-- The text of a GUID spells it. -/
theorem isSpelledBy_text (g : Guid) : g.IsSpelledBy IsUrnStart g.text := by
  refine ⟨[], braced g.spelled, [], ?_, ?_, by simp, by simp⟩
  · rw [text, String.toList_ofList, List.nil_append, List.append_nil]
    rfl
  · rw [spelled_eq]
    exact .braced (.hyphenated g.hasDigits_upper)

theorem parse_text (owner : String) (g : Guid) : parse owner g.text = .ok g ↔ g.bits ≠ 0 := by
  rw [parse_eq_ok_iff]
  exact ⟨fun h => h.1, fun h => ⟨h, g.isSpelledBy_text⟩⟩

/-- The text of the GUID that a text is read as. -/
def canonical (owner text : String) : Except Violation String := (parse owner text).map Guid.text

theorem canonical_eq_ok_iff {c : String} :
    canonical owner text = .ok c ↔ ∃ g, parse owner text = .ok g ∧ g.text = c := map_eq_ok

/-- Read are exactly the texts that spell a GUID other than zero, each as the GUID that it spells; the
start of a URN may be in any letter case, as the digits. All else is refused. The text of a GUID is
read as the GUID, so the canonical text of a canonical text is itself, and two texts are read as one
GUID exactly if they have one canonical text. -/
theorem parse_canonical :
    (∀ owner text g, parse owner text = .ok g ↔ g.bits ≠ 0 ∧ g.IsSpelledBy IsUrnStart text) ∧
    (∀ owner text, parse owner text = .error (.invalidGuid owner text) ↔
      ¬∃ g : Guid, g.bits ≠ 0 ∧ g.IsSpelledBy IsUrnStart text) ∧
    (∀ owner (g : Guid), parse owner g.text = .ok g ↔ g.bits ≠ 0) ∧
    (∀ owner text, canonical owner text >>= canonical owner = canonical owner text) ∧
    ∀ owner s t, (∃ g, parse owner s = .ok g ∧ parse owner t = .ok g) ↔
      ∃ c, canonical owner s = .ok c ∧ canonical owner t = .ok c := by
  refine ⟨fun _ _ _ => parse_eq_ok_iff, fun _ _ => parse_eq_error_iff, parse_text,
    fun owner text => ?_, fun owner s t => ⟨?_, ?_⟩⟩
  · cases hread : parse owner text with
    | error v => simp [canonical, hread, Except.map]
    | ok g =>
      have hagain := (parse_text owner g).mpr (parse_eq_ok_iff.mp hread).1
      simp [canonical, hread, hagain, Except.map]
  · rintro ⟨g, hs, ht⟩
    exact ⟨g.text, canonical_eq_ok_iff.mpr ⟨g, hs, rfl⟩, canonical_eq_ok_iff.mpr ⟨g, ht, rfl⟩⟩
  · rintro ⟨c, hs, ht⟩
    obtain ⟨g, hg, hgc⟩ := canonical_eq_ok_iff.mp hs
    obtain ⟨h, hh, hhc⟩ := canonical_eq_ok_iff.mp ht
    obtain rfl := text_injective (hgc.trans hhc.symm)
    exact ⟨g, hg, hh⟩

end Texts

/-- A URN that starts in capitals. -/
def capitalUrn : String := "URN:UUID:3F2504E0-4F89-11D3-9A0C-0305E82C3301"

/-- Were the start of a URN read in lower case only, this text would be refused. -/
theorem parse_takes_capitalUrn : ¬∀ owner text : String,
    (¬∃ g : Guid, g.bits ≠ 0 ∧ g.IsSpelledBy (· = urn) text) →
      parse owner text = .error (.invalidGuid owner text) := by
  intro hall
  have hunspelled : ¬∃ g : Guid, g.bits ≠ 0 ∧ g.IsSpelledBy (· = urn) capitalUrn := by
    rintro ⟨g, -, before, cs, after, htext, hspelling, hbefore, hafter⟩
    -- the first letter has no place in a spelling, nor in the white space around it
    have hmem : 'U' ∈ capitalUrn.toList := by decide
    rw [htext, List.mem_append, List.mem_append] at hmem
    rcases hmem with (hmem | hmem) | hmem
    · exact absurd (hbefore 'U' hmem) (by decide)
    · rcases hspelling.mem hmem with hbrace | ⟨d, hd⟩ | ⟨_, rfl, hurn⟩
      · exact absurd hbrace (by decide)
      · cases hd
      · exact absurd hurn (by decide)
    · exact absurd (hafter 'U' hmem) (by decide)
  have hread : (parse "Main" capitalUrn).isOk = true := by decide +kernel
  rw [hall "Main" capitalUrn hunspelled] at hread
  cases hread

end Installer.Guid
