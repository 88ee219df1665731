/-!
# Decimal numerals, and texts cut at a separator

A numeral has one digit or more and nothing else; zeros may come first. Numbers have no bound here:
whether one fits is asked where it is put.
-/

set_option autoImplicit false

namespace Installer.Text

/-- The pieces of a text between its separators, one more than there are separators. -/
def pieces (separator : Char) : List Char → List (List Char)
  | [] => [[]]
  | c :: rest =>
    if c == separator then [] :: pieces separator rest
    else
      match pieces separator rest with
      | [] => [[c]]
      | piece :: more => (c :: piece) :: more

/-- A text without a separator is one piece. -/
theorem pieces_of_not_mem {separator : Char} {cs : List Char} (h : separator ∉ cs) :
    pieces separator cs = [cs] := by
  induction cs with
  | nil => rfl
  | cons c cs ih =>
    rw [List.mem_cons, not_or] at h
    obtain ⟨hc, hcs⟩ := h
    have hother : (c == separator) = false := beq_false_of_ne (Ne.symm hc)
    rw [pieces, hother, ih hcs]
    rfl

/-- What stands before the first separator is the first piece. -/
theorem pieces_append {separator : Char} {front rest : List Char} (h : separator ∉ front) :
    pieces separator (front ++ separator :: rest) = front :: pieces separator rest := by
  induction front with
  | nil => rw [List.nil_append, pieces, if_pos (beq_self_eq_true separator)]
  | cons c front ih =>
    rw [List.mem_cons, not_or] at h
    obtain ⟨hc, hfront⟩ := h
    have hother : (c == separator) = false := beq_false_of_ne (Ne.symm hc)
    rw [List.cons_append, pieces, hother, ih hfront]
    rfl

/-- The value of a numeral that continues one of value `n`. -/
def digitsFrom (n : Nat) (cs : List Char) : Nat :=
  cs.foldl (fun n c => n * 10 + (c.toNat - '0'.toNat)) n

/-- The value of a decimal numeral: one digit or more, and nothing else. -/
def decimal? (cs : List Char) : Option Nat :=
  if cs.isEmpty || !cs.all Char.isDigit then none else some (digitsFrom 0 cs)

/-- The decimal numeral of a number. -/
def decimal (n : Nat) : String := String.ofList (Nat.toDigits 10 n)

end Installer.Text
