import Installer.Digest.Words

/-!
# SHA-1

The digest from which GUIDs are derived (version 5). It is an algorithm here and nothing more: that
different names have different digests is nowhere shown, and results that need it say so.
-/

set_option autoImplicit false

namespace Installer.Digest.Sha1

/-- The five words that compression carries on. -/
structure State where
  a : UInt32
  b : UInt32
  c : UInt32
  d : UInt32
  e : UInt32

def State.words (s : State) : List UInt32 := [s.a, s.b, s.c, s.d, s.e]

def State.add (s t : State) : State := ⟨s.a + t.a, s.b + t.b, s.c + t.c, s.d + t.d, s.e + t.e⟩

def initial : State := ⟨0x67452301, 0xefcdab89, 0x98badcfe, 0x10325476, 0xc3d2e1f0⟩

/-- Adds `n` words to a message schedule that is held latest first. -/
def extend : Nat → List UInt32 → List UInt32
  | 0, ws => ws
  | n + 1, ws =>
    let mixed := ws.getD 2 0 ^^^ ws.getD 7 0 ^^^ ws.getD 13 0 ^^^ ws.getD 15 0
    extend n (rotateLeft mixed 1 :: ws)

/-- The 80 words of a block's message schedule. -/
def schedule (block : List UInt32) : List UInt32 := (extend 64 block.reverse).reverse

/-- The function and the constant of a round. -/
def mix (index : Nat) (s : State) : UInt32 × UInt32 :=
  if index < 20 then ((s.b &&& s.c) ||| (~~~s.b &&& s.d), 0x5a827999)
  else if index < 40 then (s.b ^^^ s.c ^^^ s.d, 0x6ed9eba1)
  else if index < 60 then ((s.b &&& s.c) ||| (s.b &&& s.d) ||| (s.c &&& s.d), 0x8f1bbcdc)
  else (s.b ^^^ s.c ^^^ s.d, 0xca62c1d6)

def round (s : State) (index : Nat) (word : UInt32) : State :=
  let (mixed, constant) := mix index s
  ⟨rotateLeft s.a 5 + mixed + s.e + constant + word, s.a, rotateLeft s.b 30, s.c, s.d⟩

def compress (s : State) (block : List UInt32) : State :=
  s.add <| (schedule block).zipIdx.foldl (fun t wi => round t wi.2 wi.1) s

/-- The 20 bytes of a message's digest. -/
def digest (message : List UInt8) : List UInt8 :=
  bytesOfWords ((blocksOf message).foldl compress initial).words

end Installer.Digest.Sha1
