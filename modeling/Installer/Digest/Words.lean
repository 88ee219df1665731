/-!
# Messages as blocks of 32-bit words

A message is padded with a one bit, zeros and its length in bits to whole blocks of 64 bytes; words
and lengths have their highest byte first.

A message is taken to be shorter than 2^61 bytes: its length in bits is written in eight bytes, and
what does not fit in them is lost.
-/

set_option autoImplicit false

namespace Installer.Digest

/-- The lowest `count` bytes of a number, the highest of them first. -/
def bytesOfNat (count n : Nat) : List UInt8 :=
  (List.range count).map fun i => UInt8.ofNat (n >>> (8 * (count - 1 - i)))

/-- The number that bytes write, the highest byte first. -/
def natOfBytes (bytes : List UInt8) : Nat :=
  bytes.foldl (fun n b => n * 256 + b.toNat) 0

/-- The zeros between the one bit and the length: as few as complete a block. -/
def zeroCount (length : Nat) : Nat := (119 - length % 64) % 64

def pad (message : List UInt8) : List UInt8 :=
  message ++ 0x80 :: List.replicate (zeroCount message.length) 0 ++
    bytesOfNat 8 (8 * message.length)

/-- The words of bytes, four at a time. -/
def words : List UInt8 → List UInt32
  | a :: b :: c :: d :: rest => UInt32.ofNat (natOfBytes [a, b, c, d]) :: words rest
  | _ => []

/-- Blocks of sixteen words. -/
def blocks : List UInt32 → List (List UInt32)
  | [] => []
  | w :: rest => (w :: rest.take 15) :: blocks (rest.drop 15)
termination_by ws => ws.length
decreasing_by simp only [List.length_drop, List.length_cons]; omega

/-- The blocks of a message. -/
def blocksOf (message : List UInt8) : List (List UInt32) := blocks (words (pad message))

/-- The bytes of words. -/
def bytesOfWords (ws : List UInt32) : List UInt8 := ws.flatMap fun w => bytesOfNat 4 w.toNat

/-- A word turned to the left by `n` bits. -/
def rotateLeft (w : UInt32) (n : UInt32) : UInt32 := (w <<< n) ||| (w >>> (32 - n))

/-- A word turned to the right by `n` bits. -/
def rotateRight (w : UInt32) (n : UInt32) : UInt32 := (w >>> n) ||| (w <<< (32 - n))

/-- The bytes of a text in UTF-8. -/
def utf8 (s : String) : List UInt8 := s.toUTF8.data.toList

end Installer.Digest
