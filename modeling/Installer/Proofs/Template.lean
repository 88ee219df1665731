import Mathlib.Data.List.TakeWhile
import Installer.Template
import Installer.Proofs.Result

/-!
# Templates that are cut, and texts written as templates

The scan of a template decides what stands at a place by at most two characters after it, and looks
ahead only from a `$`. A template that expands and does not end in `$` leaves nothing open, so what
follows it is scanned as if it stood alone (`expandChars_append`). A text is written as a template by
a `$` before each `$\x7b` in it: in the outcome no `$\x7b` stands without one, and the scan takes
every other `$` for itself (`expandChars_escapeChars`).

Results about the scan go by an induction along it, with a case for each thing that it can meet at a
place (`scan_induction`).

Names mean whatever they mean: all of this holds for every assignment of values to names.
-/

set_option autoImplicit false

namespace Installer.Template
open Result

variable {meaning : String → Meaning}

/-- What stands for the value of a name. -/
def reference (name : String) : String := "$\x7b" ++ name ++ "\x7d"

/-- The characters with a `$` more before each place that would open a name. -/
def escapeChars : List Char → List Char
  | [] => []
  | '$' :: '\x7b' :: rest => '$' :: '$' :: '\x7b' :: escapeChars rest
  | c :: rest => c :: escapeChars rest

/-- The text as a template in which no name is opened. -/
def escape (text : String) : String := String.ofList (escapeChars text.toList)

/-! ## One step of the scan -/

/-- Neither a name nor an escape is opened here. -/
def IsPlain (c : Char) (rest : List Char) : Prop :=
  c = '$' → ∀ more, rest ≠ '\x7b' :: more ∧ rest ≠ '$' :: '\x7b' :: more

theorem isPlain_of_ne {c : Char} (h : c ≠ '$') (rest : List Char) : IsPlain c rest :=
  fun hc => absurd hc h

theorem expandChars_nil : expandChars meaning [] = .ok [] := expandChars.eq_1 meaning

/-- A character that opens nothing stands for itself. -/
theorem expandChars_plain {c : Char} {rest : List Char} (h : IsPlain c rest) :
    expandChars meaning (c :: rest) = (expandChars meaning rest).map (c :: ·) :=
  expandChars.eq_4 meaning c rest (fun more hc => (h hc more).2) fun more hc => (h hc more).1

theorem expandChars_escape (rest : List Char) :
    expandChars meaning ('$' :: '$' :: '\x7b' :: rest) =
      (expandChars meaning rest).map ('$' :: '\x7b' :: ·) :=
  expandChars.eq_2 meaning rest

theorem expandChars_unterminated {rest : List Char} (h : '\x7d' ∉ rest) :
    expandChars meaning ('$' :: '\x7b' :: rest) = .error (.malformed .unterminated) := by
  have hwhole : rest.takeWhile (· != '\x7d') = rest := by
    rw [List.takeWhile_eq_self_iff]
    intro c hc
    rw [bne_iff_ne]
    rintro rfl
    exact h hc
  rw [expandChars.eq_3, hwhole, if_pos rfl]
  rfl

/-- A name that is closed stands for its value, and the scan goes on after it. -/
theorem expandChars_name {name : List Char} (h : '\x7d' ∉ name) (rest : List Char) :
    expandChars meaning ('$' :: '\x7b' :: (name ++ '\x7d' :: rest)) =
      valueOf meaning name >>= fun value => (expandChars meaning rest).map (value ++ ·) := by
  have hname : (name ++ '\x7d' :: rest).takeWhile (· != '\x7d') = name := by
    rw [List.takeWhile_append_of_pos]
    · simp
    · intro c hc
      rw [bne_iff_ne]
      rintro rfl
      exact h hc
  have hrest : (name ++ '\x7d' :: rest).drop (name.length + 1) = rest := by
    rw [List.drop_append, List.drop_of_length_le (Nat.le_succ _)]
    simp
  have hlong : ¬name.length = (name ++ '\x7d' :: rest).length := by
    rw [List.length_append, List.length_cons]
    omega
  rw [expandChars.eq_3, hname, hrest, if_neg hlong]
  cases valueOf meaning name with
  | error failure => rfl
  | ok value => cases expandChars meaning rest <;> rfl

/-- A name that is opened is closed at the first closing brace. -/
theorem exists_name {rest : List Char}
    (h : ¬(rest.takeWhile (· != '\x7d')).length = rest.length) :
    '\x7d' ∉ rest.takeWhile (· != '\x7d') ∧ rest = rest.takeWhile (· != '\x7d') ++
      '\x7d' :: rest.drop ((rest.takeWhile (· != '\x7d')).length + 1) := by
  induction rest with
  | nil => exact absurd rfl h
  | cons c rest ih =>
    by_cases hc : c = '\x7d'
    · simp [hc]
    · have htake : (c :: rest).takeWhile (· != '\x7d') = c :: rest.takeWhile (· != '\x7d') :=
        List.takeWhile_cons_of_pos (by simpa using hc)
      rw [htake, List.length_cons, List.length_cons] at h
      obtain ⟨hname, hsplit⟩ := ih fun heq => h (congrArg (· + 1) heq)
      rw [htake]
      constructor
      · simp [Ne.symm hc, hname]
      · rw [List.length_cons, List.drop_succ_cons, List.cons_append, ← hsplit]

/-- What the scan meets, place by place. -/
@[elab_as_elim]
theorem scan_induction {motive : List Char → Prop} (nil : motive [])
    (escape : ∀ rest, motive rest → motive ('$' :: '$' :: '\x7b' :: rest))
    (unterminated : ∀ rest, '\x7d' ∉ rest → motive ('$' :: '\x7b' :: rest))
    (name : ∀ name rest, '\x7d' ∉ name → motive rest →
      motive ('$' :: '\x7b' :: (name ++ '\x7d' :: rest)))
    (plain : ∀ c rest, IsPlain c rest → motive rest → motive (c :: rest)) (cs : List Char) :
    motive cs := by
  induction cs using expandChars.induct fun _ => .unknown with
  | case1 => exact nil
  | case2 rest ih => exact escape rest ih
  | case3 rest taken hlong =>
    apply unterminated
    intro hbrace
    have hall : rest.takeWhile (· != '\x7d') = rest :=
      (List.takeWhile_prefix _).eq_of_length hlong
    simpa using List.takeWhile_eq_self_iff.mp hall _ hbrace
  | case4 rest taken hlong =>
    rename_i ih
    obtain ⟨hname, hsplit⟩ := exists_name hlong
    rw [hsplit]
    exact name _ _ hname ih
  | case5 c rest hescape hopen ih =>
    exact plain c rest (fun hc more => ⟨hopen more hc, hescape more hc⟩) ih

/-! ## Cutting a template -/

theorem getLast?_ne_of_isSuffix {rest whole : List Char} {c : Char} (hsuffix : rest <:+ whole)
    (h : whole.getLast? ≠ some c) : rest.getLast? ≠ some c := by
  obtain ⟨front, rfl⟩ := hsuffix
  intro hrest
  apply h
  rw [List.getLast?_append, hrest]
  rfl

/-- Before a `$` that is not the last character, what opens nothing still does so when the text goes on,
unless all that follows it is one more `$`. -/
theorem IsPlain.append {c : Char} {rest : List Char} (h : IsPlain c rest)
    (hend : (c :: rest).getLast? ≠ some '$') (more : List Char) : IsPlain c (rest ++ more) := by
  intro hc others
  cases rest with
  | nil =>
    rw [hc] at hend
    exact absurd rfl hend
  | cons d rest =>
    refine ⟨?_, ?_⟩
    · intro hopen
      obtain ⟨rfl, -⟩ := List.cons.inj hopen
      exact (h hc rest).1 rfl
    · intro hescape
      obtain ⟨rfl, hrest⟩ := List.cons.inj hescape
      cases rest with
      | nil => exact hend rfl
      | cons e rest =>
        obtain ⟨rfl, -⟩ := List.cons.inj hrest
        exact (h hc rest).2 rfl

/-- After a template that expands and does not end in `$`, the scan starts afresh. -/
theorem expandChars_append {a x : List Char} (h : expandChars meaning a = .ok x)
    (hend : a.getLast? ≠ some '$') (b : List Char) :
    expandChars meaning (a ++ b) = (expandChars meaning b).map (x ++ ·) := by
  induction a using scan_induction generalizing x with
  | nil =>
    rw [expandChars_nil] at h
    cases h
    rw [List.nil_append]
    cases expandChars meaning b <;> rfl
  | escape rest ih =>
    rw [expandChars_escape] at h
    obtain ⟨y, hy, rfl⟩ := map_eq_ok.mp h
    have hrest : rest.getLast? ≠ some '$' :=
      getLast?_ne_of_isSuffix ⟨['$', '$', '\x7b'], rfl⟩ hend
    rw [List.cons_append, List.cons_append, List.cons_append, expandChars_escape, ih hy hrest]
    cases expandChars meaning b <;> rfl
  | unterminated rest hbrace =>
    rw [expandChars_unterminated hbrace] at h
    cases h
  | name name rest hname ih =>
    rw [expandChars_name hname] at h
    obtain ⟨value, hvalue, hmore⟩ := bind_eq_ok.mp h
    obtain ⟨y, hy, rfl⟩ := map_eq_ok.mp hmore
    have hrest : rest.getLast? ≠ some '$' :=
      getLast?_ne_of_isSuffix ⟨'$' :: '\x7b' :: (name ++ ['\x7d']), by simp⟩ hend
    rw [List.cons_append, List.cons_append, List.append_assoc, List.cons_append,
      expandChars_name hname, hvalue, ok_bind, ih hy hrest]
    cases expandChars meaning b with
    | error failure => rfl
    | ok z => exact congrArg Except.ok (List.append_assoc value y z).symm
  | plain c rest hplain ih =>
    rw [expandChars_plain hplain] at h
    obtain ⟨y, hy, rfl⟩ := map_eq_ok.mp h
    have hrest : rest.getLast? ≠ some '$' := getLast?_ne_of_isSuffix ⟨[c], rfl⟩ hend
    rw [List.cons_append, expandChars_plain (hplain.append hend b), ih hy hrest]
    cases expandChars meaning b <;> rfl

/-- Characters of which none is a `$` expand to themselves. -/
theorem expandChars_of_not_mem {cs : List Char} (h : '$' ∉ cs) :
    expandChars meaning cs = .ok cs := by
  induction cs with
  | nil => exact expandChars_nil
  | cons c cs ih =>
    rw [List.mem_cons, not_or] at h
    rw [expandChars_plain (isPlain_of_ne (Ne.symm h.1) cs), ih h.2]
    rfl

/-! ## Escaping -/

/-- Escaping moves no opening brace to the front. -/
theorem escapeChars_ne_brace {rest : List Char} (h : ∀ more, rest ≠ '\x7b' :: more)
    (more : List Char) : escapeChars rest ≠ '\x7b' :: more := by
  fun_cases escapeChars rest with
  | case1 => exact (List.cons_ne_nil _ _).symm
  | case2 rest => simp
  | case3 c rest hopen =>
    intro heq
    obtain ⟨rfl, -⟩ := List.cons.inj heq
    exact h rest rfl

/-- An escaped text opens no name at its front. -/
theorem escapeChars_ne_opening (rest more : List Char) :
    escapeChars rest ≠ '$' :: '\x7b' :: more := by
  fun_cases escapeChars rest with
  | case1 => exact (List.cons_ne_nil _ _).symm
  | case2 rest => simp
  | case3 c rest hopen =>
    intro heq
    obtain ⟨rfl, hrest⟩ := List.cons.inj heq
    exact escapeChars_ne_brace (fun others hbrace => hopen others rfl hbrace) more hrest

theorem expandChars_escapeChars (cs : List Char) :
    expandChars meaning (escapeChars cs) = .ok cs := by
  fun_induction escapeChars cs with
  | case1 => exact expandChars_nil
  | case2 rest ih =>
    rw [expandChars_escape, ih]
    rfl
  | case3 c rest hopen ih =>
    have hplain : IsPlain c (escapeChars rest) := fun hc more =>
      ⟨escapeChars_ne_brace (fun others hbrace => hopen others hc hbrace) more,
        escapeChars_ne_opening rest more⟩
    rw [expandChars_plain hplain, ih]
    rfl

/-! ## Texts -/

theorem expand_eq_ok_iff {template text : String} : expand meaning template = .ok text ↔
    expandChars meaning template.toList = .ok text.toList := by
  rw [expand]
  cases expandChars meaning template.toList with
  | error failure => simp
  | ok cs =>
    simp only [Except.ok.injEq]
    constructor
    · rintro rfl
      exact String.toList_ofList.symm
    · rintro rfl
      exact String.ofList_toList

/-- A failure is told with the whole template. -/
theorem expand_eq_error_iff {template : String} {v : Violation} :
    expand meaning template = .error v ↔
      ∃ failure, expandChars meaning template.toList = .error failure ∧
        v = failure.violation template := by
  rw [expand]
  cases expandChars meaning template.toList with
  | error failure =>
    simp only [Except.error.injEq, exists_eq_left']
    exact eq_comm
  | ok cs => simp

/-- An escaped text expands to the text, whatever names mean. -/
theorem expand_escape (meaning : String → Meaning) (text : String) :
    expand meaning (escape text) = .ok text := by
  rw [expand_eq_ok_iff, escape, String.toList_ofList]
  exact expandChars_escapeChars text.toList

theorem expand_of_not_mem {text : String} (h : '$' ∉ text.toList) :
    expand meaning text = .ok text :=
  expand_eq_ok_iff.mpr (expandChars_of_not_mem h)

/-- A reference expands to the value of its name, and the value is not looked into. -/
theorem expand_reference {name value : String} (hmeaning : meaning name = .value value)
    (hempty : name ≠ "") (hbrace : '\x7d' ∉ name.toList) :
    expand meaning (reference name) = .ok value := by
  have hchars : (reference name).toList = '$' :: '\x7b' :: (name.toList ++ '\x7d' :: []) := by
    simp [reference, String.toList_append]
  have hvalue : valueOf meaning name.toList = .ok value.toList := by
    have hne : name.toList.isEmpty = false := by
      simpa [List.isEmpty_eq_false_iff] using hempty
    rw [valueOf, hne, String.ofList_toList, hmeaning]
    rfl
  rw [expand_eq_ok_iff, hchars, expandChars_name hbrace, hvalue, ok_bind, expandChars_nil]
  exact congrArg Except.ok (List.append_nil _)

end Installer.Template
