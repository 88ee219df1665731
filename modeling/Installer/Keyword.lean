/-!
# Closed sets of words

A closed set lists its members in order and spells each one. Reading a word gives the member that
spells it and refuses every other word, so a member is read back from its own spelling.
-/

set_option autoImplicit false

namespace Installer

/-- A type whose members are spelled by the words of a closed set. -/
class Keyword (α : Type) where
  /-- The members, in order. -/
  all : List α
  /-- The word for a member. -/
  spelling : α → String
  find_spelling : ∀ a, all.find? (fun b => spelling b == spelling a) = some a

namespace Keyword
variable {α : Type} [Keyword α]

/-- The member that a word spells. -/
def read? (word : String) : Option α := all.find? (fun a => spelling a == word)

theorem read?_spelling (a : α) : read? (spelling a) = some a := find_spelling a

/-- A word is read as a member only if it is that member's spelling. -/
theorem read?_eq_some_iff {word : String} {a : α} : read? word = some a ↔ word = spelling a := by
  constructor
  · intro h
    have hspelling : (spelling a == word) = true :=
      List.find?_some (p := fun b => spelling b == word) h
    exact (eq_of_beq hspelling).symm
  · rintro rfl
    exact read?_spelling a

/-- Distinct members have distinct spellings. -/
theorem spelling_injective {a b : α} (h : spelling a = spelling b) : a = b := by
  have ha := read?_spelling a
  rw [h, read?_spelling b] at ha
  exact (Option.some.inj ha).symm

end Keyword
end Installer
