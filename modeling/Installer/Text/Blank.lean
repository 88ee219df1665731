/-!
# White space and trimming

White space is the Unicode property White_Space, so a no-break space or an ideographic space is
trimmed like a blank. `trim` removes it at both ends and leaves the rest as it is.
-/

set_option autoImplicit false

namespace Installer.Text

/-- The property White_Space. -/
def isBlank (c : Char) : Bool :=
  let n := c.toNat
  (0x09 ≤ n && n ≤ 0x0d) || n == 0x20 || n == 0x85 || n == 0xa0 || n == 0x1680 ||
    (0x2000 ≤ n && n ≤ 0x200a) || n == 0x2028 || n == 0x2029 || n == 0x202f || n == 0x205f ||
    n == 0x3000

/-- The characters without the white space at either end. -/
def trimChars (cs : List Char) : List Char :=
  ((cs.dropWhile isBlank).reverse.dropWhile isBlank).reverse

/-- The text without the white space at either end. -/
def trim (s : String) : String :=
  String.ofList (trimChars s.toList)

/-- Characters without white space at their ends are left alone. -/
theorem trimChars_eq_self {cs : List Char}
    (hfirst : ∀ c ∈ cs.head?, isBlank c = false) (hlast : ∀ c ∈ cs.getLast?, isBlank c = false) :
    trimChars cs = cs := by
  have h1 : cs.dropWhile isBlank = cs := by
    cases cs with
    | nil => rfl
    | cons c cs => simp only [List.dropWhile, hfirst c (by simp)]
  have h2 : cs.reverse.dropWhile isBlank = cs.reverse := by
    rw [List.getLast?_eq_head?_reverse] at hlast
    cases hr : cs.reverse with
    | nil => rfl
    | cons c r =>
      rw [hr] at hlast
      simp only [List.dropWhile, hlast c (by simp)]
  rw [trimChars, h1, h2, List.reverse_reverse]

/-- Trimming leaves no white space at either end, so trimming again changes nothing. -/
theorem trimChars_trimChars (cs : List Char) : trimChars (trimChars cs) = trimChars cs := by
  have hback := List.head?_dropWhile_not isBlank (cs.dropWhile isBlank).reverse
  have hfront := List.head?_dropWhile_not isBlank cs
  refine trimChars_eq_self (fun c hc => ?_) (fun c hc => ?_)
  · obtain ⟨back, hsplit⟩ := List.dropWhile_suffix (l := (cs.dropWhile isBlank).reverse) isBlank
    have hcut : cs.dropWhile isBlank = trimChars cs ++ back.reverse := by
      rw [trimChars, ← List.reverse_append, hsplit, List.reverse_reverse]
    have hhead : (cs.dropWhile isBlank).head? = some c := by
      rw [hcut, List.head?_append, Option.mem_def.mp hc, Option.some_or]
    simpa only [hhead] using hfront
  · rw [trimChars, List.getLast?_reverse] at hc
    simpa only [Option.mem_def.mp hc] using hback

/-- Only white space is trimmed. -/
theorem exists_trimChars (cs : List Char) : ∃ before after, cs = before ++ trimChars cs ++ after ∧
    (∀ c ∈ before, isBlank c = true) ∧ ∀ c ∈ after, isBlank c = true := by
  refine ⟨cs.takeWhile isBlank, ((cs.dropWhile isBlank).reverse.takeWhile isBlank).reverse, ?_,
    fun c hc => ?_, fun c hc => ?_⟩
  · rw [trimChars, List.append_assoc, ← List.reverse_append, List.takeWhile_append_dropWhile,
      List.reverse_reverse, List.takeWhile_append_dropWhile]
  · exact List.all_eq_true.mp List.all_takeWhile c hc
  · exact List.all_eq_true.mp List.all_takeWhile c (List.mem_reverse.mp hc)

/-- Trimmed are characters that are no white space from all that stands around them. -/
theorem trimChars_append {before cs after : List Char} (hbefore : ∀ c ∈ before, isBlank c = true)
    (hafter : ∀ c ∈ after, isBlank c = true) (hne : cs ≠ []) (hcs : ∀ c ∈ cs, isBlank c = false) :
    trimChars (before ++ cs ++ after) = cs := by
  have hkept : ∀ {rest more : List Char}, rest ≠ [] → (∀ c ∈ rest, isBlank c = false) →
      (rest ++ more).dropWhile isBlank = rest ++ more := by
    intro rest more hrest hall
    obtain ⟨c, rest, rfl⟩ := List.exists_cons_of_ne_nil hrest
    simp only [List.cons_append, List.dropWhile, hall c List.mem_cons_self]
  have hback := @hkept cs.reverse [] (mt List.reverse_eq_nil_iff.mp hne) fun c hc =>
    hcs c (List.mem_reverse.mp hc)
  rw [List.append_nil] at hback
  rw [trimChars, List.append_assoc, List.dropWhile_append_of_pos hbefore, hkept hne hcs,
    List.reverse_append, List.dropWhile_append_of_pos fun c hc => hafter c (List.mem_reverse.mp hc),
    hback, List.reverse_reverse]

/-- Trimming a text twice trims it once. -/
theorem trim_trim (s : String) : trim (trim s) = trim s := by
  rw [trim, trim, String.toList_ofList, trimChars_trimChars]

end Installer.Text
