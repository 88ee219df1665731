import Installer.Proofs.Json.Leaf

/-!
# Canonical text is read as the value that it writes

`Document.of` is the document of a value, without a fault in it. Reading follows the writer: it
passes over the indentation, takes one item or member a line, and stops at the closing bracket. Main
statement: `Source.ofText_canonical`.

The induction is on the value, together with the items and members after the first, and leaves open
what follows (`readValue_write`). The reader has a bound on its steps; the steps of a value are
counted and stay below it (`steps_le_length`).

**What it does not establish.** Texts that are not canonical are read too, and nothing is shown of
them here but what the reader does.
-/

set_option autoImplicit false

namespace Installer.Json

mutual
/-- The document that stands in the canonical text of a value. -/
def Document.of : Value → Document
  | .null => .null
  | .boolean b => .boolean b
  | .integer n => .number ⟨(Numeral.ofInt n).number, .ok ()⟩
  | .text s => .text ⟨.ok s, .ok ()⟩
  | .array items => .array (Items.of items)
  | .object members => .object (Members.of members)
def Items.of : List Value → Items
  | [] => .closed
  | v :: rest => .item (Document.of v) (Items.of rest)
def Members.of : List (String × Value) → Members
  | [] => .closed
  | (name, v) :: rest => .member ⟨.ok name, .ok ()⟩ (Document.of v) (Members.of rest)
end

mutual
/-- The steps that reading a value takes. -/
def Value.steps : Value → Nat
  | .null | .boolean _ | .integer _ | .text _ => 1
  | .array items => stepsOfItems items + 1
  | .object members => stepsOfMembers members + 1
def Value.stepsOfItems : List Value → Nat
  | [] => 1
  | v :: rest => v.steps + stepsOfItems rest + 1
def Value.stepsOfMembers : List (String × Value) → Nat
  | [] => 1
  | (_, v) :: rest => v.steps + stepsOfMembers rest + 2
end

/-! ## White space -/

@[simp] theorem skipSpace_newLine (level : Nat) (cs : List Char) :
    skipSpace (Text.newLine level ++ cs) = skipSpace cs := by
  have hblank : ∀ c ∈ Text.newLine level, isSpace c = true := by
    intro c hc
    rcases List.mem_cons.mp hc with rfl | hc
    · rfl
    · rw [List.eq_of_mem_replicate hc]
      rfl
  rw [skipSpace, List.dropWhile_append_of_pos hblank, skipSpace]

theorem skipSpace_cons {c : Char} (h : isSpace c = false) (cs : List Char) :
    skipSpace (c :: cs) = c :: cs := by
  rw [skipSpace, List.dropWhile_cons_of_neg (by simp [h])]

/-- A character that a value can start with. -/
def Starts (c : Char) : Prop := isSpace c = false ∧ c ≠ ']'

theorem starts_of_isDigit {c : Char} (h : c.isDigit = true) : Starts c := by
  constructor
  · by_contra hspace
    simp only [isSpace, Bool.not_eq_false, Bool.or_eq_true, beq_iff_eq] at hspace
    rcases hspace with ((rfl | rfl) | rfl) | rfl <;> exact absurd h (by decide)
  · rintro rfl
    exact absurd h (by decide)

/-- A value starts with no space and no bracket that closes. -/
theorem write_starts (v : Value) (level : Nat) :
    ∃ c cs, v.write level = c :: cs ∧ Starts c := by
  cases v with
  | null => exact ⟨_, _, rfl, by decide, by decide⟩
  | boolean b => cases b <;> exact ⟨_, _, rfl, by decide, by decide⟩
  | integer i =>
    cases i with
    | ofNat n =>
      obtain ⟨d, ds, hdigits, hd⟩ := Numeral.exists_digit n
      exact ⟨d, ds, hdigits, starts_of_isDigit hd⟩
    | negSucc n => exact ⟨_, _, rfl, by decide, by decide⟩
  | text s => exact ⟨_, _, rfl, by decide, by decide⟩
  | array items => cases items <;> exact ⟨_, _, rfl, by decide, by decide⟩
  | object members => cases members <;> exact ⟨_, _, rfl, by decide, by decide⟩

/-! ## Reading -/

theorem readValue_skipSpace (n : Nat) {cs ds : List Char} (h : skipSpace cs = skipSpace ds) :
    readValue n cs = readValue n ds := by
  cases n with
  | zero => rfl
  | succ n => rw [readValue, readValue, h]

/-- Reading a digit or a minus reads a numeral. -/
theorem readValue_numeral (n : Nat) (i : Int) {rest : List Char} (h : Follows rest) :
    readValue (n + 1) (Value.numeral i ++ rest) =
      (.number ⟨(Numeral.ofInt i).number, .ok ()⟩, rest) := by
  have hnumber := readNumber_numeral i h
  cases i with
  | ofNat m =>
    obtain ⟨d, ds, hdigits, hd⟩ := Numeral.exists_digit m
    have hother : ∀ c : Char, c.isDigit = false → d ≠ c := by
      rintro c hc rfl
      rw [hc] at hd
      cases hd
    rw [Value.numeral, hdigits, List.cons_append] at hnumber ⊢
    rw [readValue, skipSpace_cons (starts_of_isDigit hd).1]
    simp [hother, hd, hnumber]
  | negSucc m =>
    rw [Value.numeral, List.cons_append] at hnumber ⊢
    rw [readValue, skipSpace_cons (by decide)]
    simp [hnumber]

theorem follows_writeItems (items : List Value) (level outer : Nat) (rest : List Char) :
    Follows (Value.writeItems level items ++ (Text.newLine outer ++ rest)) := by
  cases items with
  | nil => exact Follows.newLine outer rest
  | cons v items => exact Follows.comma _

theorem follows_writeMembers (members : List (String × Value)) (level outer : Nat)
    (rest : List Char) :
    Follows (Value.writeMembers level members ++ (Text.newLine outer ++ rest)) := by
  cases members with
  | nil => exact Follows.newLine outer rest
  | cons m members => exact Follows.comma _

/-- The first item of an array is not taken for its end. -/
theorem readItems_first (n : Nat) (v : Value) (level : Nat) (rest : List Char) :
    readItems (n + 1) true (Text.newLine level ++ (v.write level ++ rest)) =
      let (d, rest) := readValue n (v.write level ++ rest)
      let (items, rest) := readItems n false rest
      (.item d items, rest) := by
  obtain ⟨c, cs, hwrite, hspace, hend⟩ := write_starts v level
  rw [hwrite, List.cons_append, readItems, skipSpace_newLine, skipSpace_cons hspace]
  simp [hend]

theorem readItems_next (n : Nat) (v : Value) (level : Nat) (rest : List Char) :
    readItems (n + 1) false (',' :: (Text.newLine level ++ (v.write level ++ rest))) =
      let (d, rest) := readValue n (v.write level ++ rest)
      let (items, rest) := readItems n false rest
      (.item d items, rest) := by
  have hvalue := readValue_skipSpace n (skipSpace_newLine level (v.write level ++ rest))
  rw [readItems, skipSpace_cons (by decide)]
  simp [hvalue]

theorem readItems_close (n : Nat) (first : Bool) (level : Nat) (rest : List Char) :
    readItems (n + 1) first (Text.newLine level ++ (']' :: rest)) = (.closed, rest) := by
  rw [readItems, skipSpace_newLine, skipSpace_cons (by decide)]
  rfl

/-- A member is read from its opening quote. -/
theorem readMember_quote (n : Nat) (name : String) (v : Value) (level : Nat) (rest : List Char) :
    readMember (n + 1) (Value.quote name ++ (':' :: ' ' :: (v.write level ++ rest))) =
      let (d, rest) := readValue n (v.write level ++ rest)
      let (members, rest) := readMembers n false rest
      (.member ⟨.ok name, .ok ()⟩ d members, rest) := by
  have hcolon : readColon (':' :: ' ' :: (v.write level ++ rest)) =
      .ok (' ' :: (v.write level ++ rest)) := by
    rw [readColon, skipSpace_cons (by decide)]
    rfl
  have hvalue : readValue n (' ' :: (v.write level ++ rest)) =
      readValue n (v.write level ++ rest) := readValue_skipSpace n rfl
  rw [Value.quote, List.cons_append, List.cons_append, List.append_assoc, List.singleton_append,
    readMember, readText_quote]
  simp only [hcolon, hvalue]

theorem readMembers_first (n : Nat) (name : String) (level : Nat) (rest : List Char) :
    readMembers (n + 1) true (Text.newLine level ++ (Value.quote name ++ rest)) =
      readMember n (Value.quote name ++ rest) := by
  rw [Value.quote, List.cons_append, List.cons_append, readMembers, skipSpace_newLine,
    skipSpace_cons (by decide)]
  rfl

theorem readMembers_next (n : Nat) (name : String) (level : Nat) (rest : List Char) :
    readMembers (n + 1) false (',' :: (Text.newLine level ++ (Value.quote name ++ rest))) =
      readMember n (Value.quote name ++ rest) := by
  have hquote : skipSpace (Text.newLine level ++ (Value.quote name ++ rest)) =
      Value.quote name ++ rest := by
    rw [skipSpace_newLine, Value.quote, List.cons_append, List.cons_append,
      skipSpace_cons (by decide)]
  rw [readMembers, skipSpace_cons (by decide)]
  simp [hquote]

theorem readMembers_close (n : Nat) (first : Bool) (level : Nat) (rest : List Char) :
    readMembers (n + 1) first (Text.newLine level ++ ('}' :: rest)) = (.closed, rest) := by
  rw [readMembers, skipSpace_newLine, skipSpace_cons (by decide)]
  rfl

mutual
/-- A written value is read as its document, up to what follows it. -/
theorem readValue_write : ∀ (v : Value) (level n : Nat) (rest : List Char), v.steps ≤ n →
    Follows rest → readValue n (v.write level ++ rest) = (Document.of v, rest)
  | .null, level, n + 1, rest, _, _ => by
    rw [Value.write, readValue, List.cons_append, skipSpace_cons (by decide)]
    rfl
  | .boolean b, level, n + 1, rest, _, _ => by
    cases b <;>
    · rw [Value.write, readValue, List.cons_append, skipSpace_cons (by decide)]
      rfl
  | .integer i, level, n + 1, rest, _, hrest => by
    rw [Value.write, readValue_numeral n i hrest, Document.of]
  | .text s, level, n + 1, rest, _, _ => by
    rw [Value.write, Value.quote, readValue, List.cons_append, List.cons_append,
      skipSpace_cons (by decide), List.append_assoc, List.singleton_append]
    simp only [readText_quote, Document.of]
  | .array [], level, n + 2, rest, _, _ => by
    rw [Value.write, readValue, List.cons_append, skipSpace_cons (by decide)]
    rfl
  | .array (v :: items), level, n + 2, rest, hn, hrest => by
    simp only [Value.steps, Value.stepsOfItems] at hn
    have hv := readValue_write v (level + 1) n
      (Value.writeItems (level + 1) items ++ (Text.newLine level ++ ']' :: rest)) (by omega)
      (follows_writeItems items _ _ _)
    have hitems := readItems_write items (level + 1) level n rest (by omega)
    have hfirst := readItems_first n v (level + 1)
      (Value.writeItems (level + 1) items ++ (Text.newLine level ++ ']' :: rest))
    rw [Value.write, readValue]
    simp only [List.cons_append, List.append_assoc, List.nil_append]
    rw [skipSpace_cons (by decide)]
    simp only [hfirst, hv, hitems, Document.of, Items.of]
  | .object [], level, n + 2, rest, _, _ => by
    rw [Value.write, readValue, List.cons_append, skipSpace_cons (by decide)]
    rfl
  | .object ((name, v) :: members), level, n + 3, rest, hn, hrest => by
    simp only [Value.steps, Value.stepsOfMembers] at hn
    have hv := readValue_write v (level + 1) n
      (Value.writeMembers (level + 1) members ++ (Text.newLine level ++ '}' :: rest)) (by omega)
      (follows_writeMembers members _ _ _)
    have hmembers := readMembers_write members (level + 1) level n rest (by omega)
    have hfirst := readMembers_first (n + 1) name (level + 1) (':' :: ' ' ::
      (v.write (level + 1) ++
        (Value.writeMembers (level + 1) members ++ (Text.newLine level ++ '}' :: rest))))
    rw [Value.write, readValue]
    simp only [List.cons_append, List.append_assoc, List.nil_append]
    rw [skipSpace_cons (by decide)]
    simp only [hfirst, readMember_quote, hv, hmembers, Document.of, Members.of]
/-- The items after the first are read up to the end of the array. -/
theorem readItems_write : ∀ (items : List Value) (level outer n : Nat) (rest : List Char),
    Value.stepsOfItems items ≤ n →
    readItems n false (Value.writeItems level items ++ (Text.newLine outer ++ ']' :: rest)) =
      (Items.of items, rest)
  | [], level, outer, n + 1, rest, _ => readItems_close n false outer rest
  | v :: items, level, outer, n + 1, rest, h => by
    simp only [Value.stepsOfItems] at h
    have hv := readValue_write v level n
      (Value.writeItems level items ++ (Text.newLine outer ++ ']' :: rest)) (by omega)
      (follows_writeItems items _ _ _)
    have hitems := readItems_write items level outer n rest (by omega)
    simp only [Value.writeItems, List.cons_append, List.append_assoc]
    rw [readItems_next]
    simp only [hv, hitems, Items.of]
/-- The members after the first are read up to the end of the object. -/
theorem readMembers_write : ∀ (members : List (String × Value)) (level outer n : Nat)
    (rest : List Char), Value.stepsOfMembers members ≤ n →
    readMembers n false (Value.writeMembers level members ++ (Text.newLine outer ++ '}' :: rest)) =
      (Members.of members, rest)
  | [], level, outer, n + 1, rest, _ => readMembers_close n false outer rest
  | (name, v) :: members, level, outer, n + 2, rest, h => by
    simp only [Value.stepsOfMembers] at h
    have hv := readValue_write v level n
      (Value.writeMembers level members ++ (Text.newLine outer ++ '}' :: rest)) (by omega)
      (follows_writeMembers members _ _ _)
    have hmembers := readMembers_write members level outer n rest (by omega)
    simp only [Value.writeMembers, List.cons_append, List.append_assoc, List.nil_append]
    rw [readMembers_next, readMember_quote]
    simp only [hv, hmembers, Members.of]
end

/-! ## The whole text -/

mutual
/-- Reading takes at most three steps for each character that is written. -/
theorem steps_le_length : ∀ (v : Value) (level : Nat), v.steps ≤ 3 * (v.write level).length
  | .null, _ | .boolean true, _ | .boolean false, _ => by simp [Value.steps, Value.write]
  | .integer i, level => by
    obtain ⟨c, cs, hwrite, -⟩ := write_starts (.integer i) level
    rw [hwrite, Value.steps, List.length_cons]
    omega
  | .text s, _ => by
    simp only [Value.steps, Value.write, Value.quote, List.length_append, List.length_cons]
    omega
  | .array [], _ | .object [], _ => by
    simp [Value.steps, Value.stepsOfItems, Value.stepsOfMembers, Value.write]
  | .array (v :: items), level => by
    have hv := steps_le_length v (level + 1)
    have hitems := stepsOfItems_le_length items (level + 1)
    simp only [Value.steps, Value.stepsOfItems, Value.write, List.length_append,
      List.length_cons, List.length_nil]
    omega
  | .object ((name, v) :: members), level => by
    have hv := steps_le_length v (level + 1)
    have hmembers := stepsOfMembers_le_length members (level + 1)
    simp only [Value.steps, Value.stepsOfMembers, Value.write, List.length_append,
      List.length_cons, List.length_nil]
    omega
theorem stepsOfItems_le_length : ∀ (items : List Value) (level : Nat),
    Value.stepsOfItems items ≤ 3 * (Value.writeItems level items).length + 1
  | [], _ => by simp [Value.stepsOfItems]
  | v :: items, level => by
    have hv := steps_le_length v level
    have hitems := stepsOfItems_le_length items level
    simp only [Value.stepsOfItems, Value.writeItems, List.length_append, List.length_cons]
    omega
theorem stepsOfMembers_le_length : ∀ (members : List (String × Value)) (level : Nat),
    Value.stepsOfMembers members ≤ 3 * (Value.writeMembers level members).length + 1
  | [], _ => by simp [Value.stepsOfMembers]
  | (_, v) :: members, level => by
    have hv := steps_le_length v level
    have hmembers := stepsOfMembers_le_length members level
    simp only [Value.stepsOfMembers, Value.writeMembers, List.length_append, List.length_cons]
    omega
end

/-- The canonical text of a value is its document, with nothing after it. -/
theorem Source.ofText_canonical (v : Value) :
    Source.ofText v.canonical = ⟨Document.of v, false⟩ := by
  have hsteps := steps_le_length v 0
  have hread := readValue_write v 0 (3 * (v.write 0 ++ ['\n']).length + 3) ['\n']
    (by rw [List.length_append]; omega) (Follows.newLine 0 [])
  rw [Source.ofText, Value.canonical, String.toList_ofList, hread]
  rfl

end Installer.Json
