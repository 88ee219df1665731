import Installer.Text.LetterTable

/-!
# Letter case, by the full mappings of Unicode

A letter may become several (`ß` is `SS` in capitals). A capital sigma becomes the final form at the
end of a word: the nearest character before it that is not case-ignorable is cased, and the nearest
one after it is not.
-/

set_option autoImplicit false

namespace Installer.Text

/-- Whether a code point is in one of the ranges. -/
def inRanges (ranges : List (Nat × Nat)) (n : Nat) : Bool :=
  ranges.any fun r => r.1 ≤ n && n ≤ r.2

def isCased (c : Char) : Bool := inRanges casedRanges c.toNat

def isCaseIgnorable (c : Char) : Bool := inRanges ignorableRanges c.toNat

/-- The characters that a character changes to, itself when it has no other form. -/
def changeCase (expansions : List (Nat × List Nat)) (runs : List (Nat × Nat × Nat × Nat))
    (c : Char) : List Char :=
  let n := c.toNat
  match expansions.find? (·.1 == n) with
  | some (_, image) => image.map Char.ofNat
  | none =>
    match runs.find? fun (first, last, stride, _) =>
        first ≤ n && n ≤ last && (n - first) % stride == 0 with
    | some (first, _, _, image) => [Char.ofNat (image + (n - first))]
    | none => [c]

def lowerChar (c : Char) : List Char := changeCase lowerExpansions lowerRuns c

def upperChar (c : Char) : List Char := changeCase upperExpansions upperRuns c

/-- Whether the first character that is not case-ignorable is cased. -/
def startsCased (cs : List Char) : Bool :=
  ((cs.dropWhile isCaseIgnorable).head?.map isCased).getD false

/-- The lower-case form of characters that follow `before`, which is held nearest first. -/
def lowerAfter (before : List Char) : List Char → List Char
  | [] => []
  | c :: rest =>
    let image :=
      if c == 'Σ' then
        [if startsCased before && !startsCased rest then 'ς' else 'σ']
      else lowerChar c
    image ++ lowerAfter (c :: before) rest

/-- The text in lower case. -/
def lower (s : String) : String := String.ofList (lowerAfter [] s.toList)

/-- The text in upper case. -/
def upper (s : String) : String := String.ofList (s.toList.flatMap upperChar)

/-- Two texts that differ at most in the case of ASCII letters. -/
def sameIgnoringAsciiCase (a b : String) : Bool :=
  a.toList.map Char.toLower == b.toList.map Char.toLower

example : lower "ΑΣ ΣΑ" = "ας σα" := by decide +kernel
example : upper "straße" = "STRASSE" := by decide +kernel

end Installer.Text
