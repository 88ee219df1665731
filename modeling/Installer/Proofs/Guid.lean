import Installer.Guid
import Installer.Proofs.Text.Hex
import Installer.Text.Letters

/-!
# GUIDs are told by their texts

Between the braces of its text the digits of a GUID stand in five groups, and are read as the GUID
(`ofGroups?_spelled`). Letter case does not matter (`sameIgnoringAsciiCase_text_iff`).
-/

set_option autoImplicit false

namespace Installer.Guid

theorem length_digits (g : Guid) : g.digits.length = 32 := Text.length_hexDigits 32 _

/-- A digit in upper case is no hyphen. -/
theorem hyphen_not_mem_digits (g : Guid) : '-' ∉ g.digits.map Char.toUpper := by
  intro h
  obtain ⟨c, hc, hupper⟩ := List.mem_map.mp h
  obtain ⟨i, -, rfl⟩ := List.mem_map.mp hc
  have hvalue := Text.hexValue?_toUpper_hexDigit (Nat.mod_lt (g.bits.toNat >>> (4 * (32 - 1 - i)))
    (by decide : 16 > 0))
  rw [hupper] at hvalue
  cases hvalue

/-- The digits in upper case are read as the GUID. -/
theorem ofDigits?_digits (g : Guid) : ofDigits? (g.digits.map Char.toUpper) = some g := by
  have hbound : g.bits.toNat < 16 ^ 32 := by
    have hlt := g.bits.isLt
    omega
  rw [ofDigits?, if_pos (by rw [List.length_map, length_digits]), digits,
    Text.hexNumber?_map_hexDigits Text.hexValue?_toUpper_hexDigit 32 hbound, Option.map_some,
    BitVec.ofNat_toNat, BitVec.setWidth_eq]

/-- Hyphens cut what they were put between. -/
theorem pieces_hyphenate {ds : List Char} (h : '-' ∉ ds) : Text.pieces '-' (hyphenate ds) =
    [ds.take 8, (ds.drop 8).take 4, (ds.drop 12).take 4, (ds.drop 16).take 4, ds.drop 20] := by
  have hsub : ∀ {cs : List Char}, cs ⊆ ds → '-' ∉ cs := fun hcs hmem => h (hcs hmem)
  have hpart : ∀ i j : Nat, (ds.drop i).take j ⊆ ds := fun i j _ hmem =>
    List.drop_subset i ds (List.take_subset j _ hmem)
  simp only [hyphenate, List.append_assoc, List.cons_append]
  rw [Text.pieces_append (hsub (List.take_subset 8 ds)), Text.pieces_append (hsub (hpart 8 4)),
    Text.pieces_append (hsub (hpart 12 4)), Text.pieces_append (hsub (hpart 16 4)),
    Text.pieces_of_not_mem (hsub (List.drop_subset 20 ds))]

/-- The characters between the braces of a GUID's text. -/
def spelled (g : Guid) : List Char := (hyphenate g.digits).map Char.toUpper

theorem spelled_eq (g : Guid) : g.spelled = hyphenate (g.digits.map Char.toUpper) := by
  simp only [spelled, hyphenate, List.map_append, List.map_cons, List.map_take, List.map_drop]
  rfl

/-- Digits with hyphens between them are read as the digits are. -/
theorem ofGroups?_hyphenate {ds : List Char} (hhyphen : '-' ∉ ds) (hlength : ds.length = 32) :
    ofGroups? (hyphenate ds) = ofDigits? ds := by
  have hpart : ∀ i j : Nat, (ds.drop i).take j ++ ds.drop (i + j) = ds.drop i := fun i j => by
    rw [← List.drop_drop, List.take_append_drop]
  have hflat : [ds.take 8, (ds.drop 8).take 4, (ds.drop 12).take 4, (ds.drop 16).take 4,
      ds.drop 20].flatten = ds := by
    simp only [List.flatten_cons, List.flatten_nil, List.append_nil]
    rw [hpart 16 4, hpart 12 4, hpart 8 4, List.take_append_drop]
  rw [ofGroups?, pieces_hyphenate hhyphen, hflat]
  simp [hlength]

/-- The groups of digits are read as the GUID. -/
theorem ofGroups?_spelled (g : Guid) : ofGroups? g.spelled = some g := by
  have hlength : (g.digits.map Char.toUpper).length = 32 := by
    rw [List.length_map, length_digits]
  rw [spelled_eq, ofGroups?_hyphenate g.hyphen_not_mem_digits hlength, ofDigits?_digits]

/-- Different GUIDs have different texts. -/
theorem text_injective {g h : Guid} (heq : g.text = h.text) : g = h := by
  have hchars := congrArg String.toList heq
  rw [text, text, String.toList_ofList, String.toList_ofList] at hchars
  have hspelled : g.spelled = h.spelled :=
    List.append_cancel_right (List.cons.inj hchars).2
  have hread := ofGroups?_spelled g
  rw [hspelled, ofGroups?_spelled] at hread
  exact (Option.some.inj hread).symm

theorem toLower_toUpper_of_mem_hyphenate {g : Guid} {c : Char} (hc : c ∈ hyphenate g.digits) :
    c.toUpper.toLower = c := by
  have hdigit : ∀ c ∈ g.digits, c.toUpper.toLower = c := by
    intro c hc
    obtain ⟨i, -, rfl⟩ := List.mem_map.mp hc
    exact Text.toLower_toUpper_hexDigit (Nat.mod_lt _ (by decide))
  have hpart : ∀ i j : Nat, c ∈ (g.digits.drop i).take j → c.toUpper.toLower = c := fun i j hmem =>
    hdigit c (List.drop_subset i _ (List.take_subset j _ hmem))
  simp only [hyphenate, List.mem_append, List.mem_cons] at hc
  rcases hc with (((hc | rfl | hc) | rfl | hc) | rfl | hc) | rfl | hc
  · exact hdigit c (List.take_subset 8 _ hc)
  · rfl
  · exact hpart 8 4 hc
  · rfl
  · exact hpart 12 4 hc
  · rfl
  · exact hpart 16 4 hc
  · rfl
  · exact hdigit c (List.drop_subset 20 _ hc)

/-- GUIDs whose texts differ at most in letter case are the same. -/
theorem sameIgnoringAsciiCase_text_iff {g h : Guid} :
    Text.sameIgnoringAsciiCase g.text h.text = true ↔ g = h := by
  have hlower : ∀ g : Guid, g.text.toList.map Char.toLower =
      '\x7b' :: (hyphenate g.digits ++ ['\x7d']) := by
    intro g
    have hspelled : ((hyphenate g.digits).map Char.toUpper).map Char.toLower =
        hyphenate g.digits := by
      rw [List.map_map]
      exact (List.map_congr_left fun c hc => toLower_toUpper_of_mem_hyphenate hc).trans
        (List.map_id _)
    rw [text, String.toList_ofList, List.cons_append, List.map_cons, List.map_append, hspelled]
    rfl
  constructor
  · intro hsame
    rw [Text.sameIgnoringAsciiCase, beq_iff_eq, hlower, hlower] at hsame
    have hdigits : hyphenate g.digits = hyphenate h.digits :=
      List.append_cancel_right (List.cons.inj hsame).2
    refine text_injective ?_
    rw [text, text, hdigits]
  · rintro rfl
    simp [Text.sameIgnoringAsciiCase]

end Installer.Guid
