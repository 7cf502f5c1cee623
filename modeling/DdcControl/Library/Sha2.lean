import Mathlib.Data.List.Basic

/-!
# SHA-256

The digest of a message is made by a state of eight words. The message is padded to blocks
of 64 bytes with a one bit, zeroes, and its length in bits. Each block is expanded to 64
words, and as many rounds mix them into the state, to which the old state is added.

## What is proved

* `length_digest` — a digest has 32 bytes.
-/

namespace Sha2

/-- A word. -/
abbrev Word := BitVec 32

/-- The word of four bytes, the first of which is the highest. -/
def wordOf (a b c d : UInt8) : Word := .ofNat 32 (((a.toNat * 256 + b.toNat) * 256 + c.toNat) * 256 + d.toNat)

/-- The words of a block. -/
def words : List UInt8 → List Word
  | a :: b :: c :: d :: rest => wordOf a b c d :: words rest
  | _ => []

/-- The lowest bytes of a number, the highest first. -/
def bigEndian (n bytes : ℕ) : List UInt8 := (List.range bytes).reverse.map fun i => .ofNat (n >>> (8 * i))

/-- The eight working words, and the eight of the state. -/
structure State where
  a : Word
  b : Word
  c : Word
  d : Word
  e : Word
  f : Word
  g : Word
  h : Word

/-- The state before the first block. -/
def State.first : State :=
  ⟨0x6a09e667, 0xbb67ae85, 0x3c6ef372, 0xa54ff53a, 0x510e527f, 0x9b05688c, 0x1f83d9ab, 0x5be0cd19⟩

/-- The words of a state. -/
def State.toList (s : State) : List Word := [s.a, s.b, s.c, s.d, s.e, s.f, s.g, s.h]

/-- The constant of each round. -/
def constants : List Word :=
  [0x428a2f98, 0x71374491, 0xb5c0fbcf, 0xe9b5dba5, 0x3956c25b, 0x59f111f1, 0x923f82a4, 0xab1c5ed5,
    0xd807aa98, 0x12835b01, 0x243185be, 0x550c7dc3, 0x72be5d74, 0x80deb1fe, 0x9bdc06a7, 0xc19bf174,
    0xe49b69c1, 0xefbe4786, 0x0fc19dc6, 0x240ca1cc, 0x2de92c6f, 0x4a7484aa, 0x5cb0a9dc, 0x76f988da,
    0x983e5152, 0xa831c66d, 0xb00327c8, 0xbf597fc7, 0xc6e00bf3, 0xd5a79147, 0x06ca6351, 0x14292967,
    0x27b70a85, 0x2e1b2138, 0x4d2c6dfc, 0x53380d13, 0x650a7354, 0x766a0abb, 0x81c2c92e, 0x92722c85,
    0xa2bfe8a1, 0xa81a664b, 0xc24b8b70, 0xc76c51a3, 0xd192e819, 0xd6990624, 0xf40e3585, 0x106aa070,
    0x19a4c116, 0x1e376c08, 0x2748774c, 0x34b0bcb5, 0x391c0cb3, 0x4ed8aa4a, 0x5b9cca4f, 0x682e6ff3,
    0x748f82ee, 0x78a5636f, 0x84c87814, 0x8cc70208, 0x90befffa, 0xa4506ceb, 0xbef9a3f7, 0xc67178f2]

/-- The next word after the words so far, of which the last is first. -/
def nextWord (before : List Word) : Word :=
  let w2 := before.getD 1 0
  let w15 := before.getD 14 0
  (w2.rotateRight 17 ^^^ w2.rotateRight 19 ^^^ w2 >>> 10) + before.getD 6 0 +
    (w15.rotateRight 7 ^^^ w15.rotateRight 18 ^^^ w15 >>> 3) + before.getD 15 0

/-- So many words more, and all in order. -/
def schedule : ℕ → List Word → List Word
  | 0, before => before.reverse
  | n + 1, before => schedule n (nextWord before :: before)

/-- A round, with its constant and its word. -/
def round (s : State) (input : Word × Word) : State :=
  let choice := s.e &&& s.f ^^^ ~~~s.e &&& s.g
  let majority := s.a &&& s.b ^^^ s.a &&& s.c ^^^ s.b &&& s.c
  let first := s.h + (s.e.rotateRight 6 ^^^ s.e.rotateRight 11 ^^^ s.e.rotateRight 25) + choice + input.1 + input.2
  let second := (s.a.rotateRight 2 ^^^ s.a.rotateRight 13 ^^^ s.a.rotateRight 22) + majority
  ⟨first + second, s.a, s.b, s.c, s.d + first, s.e, s.f, s.g⟩

/-- The words of two states, added. -/
def State.add (s t : State) : State :=
  ⟨s.a + t.a, s.b + t.b, s.c + t.c, s.d + t.d, s.e + t.e, s.f + t.f, s.g + t.g, s.h + t.h⟩

/-- A block, mixed into the state. -/
def compress (s : State) (block : List UInt8) : State :=
  s.add ((constants.zip (schedule 48 (words block).reverse)).foldl round s)

/-- The message with its padding, in whole blocks. -/
def pad (message : List UInt8) : List UInt8 :=
  message ++ 0x80 :: List.replicate ((119 - message.length % 64) % 64) 0 ++ bigEndian (message.length * 8) 8

/-- The first blocks of a padded message. -/
def blocks : ℕ → List UInt8 → List (List UInt8)
  | 0, _ => []
  | n + 1, bytes => bytes.take 64 :: blocks n (bytes.drop 64)

/-- SHA-256. -/
def digest (message : List UInt8) : List UInt8 :=
  let padded := pad message
  ((blocks (padded.length / 64) padded).foldl compress .first).toList.flatMap fun word => bigEndian word.toNat 4

/-- **A digest has 32 bytes.** -/
theorem length_digest (message : List UInt8) : (digest message).length = 32 := by
  simp [digest, State.toList, bigEndian]

/-- The digest of `abc`. -/
example : digest [0x61, 0x62, 0x63] =
    [0xba, 0x78, 0x16, 0xbf, 0x8f, 0x01, 0xcf, 0xea, 0x41, 0x41, 0x40, 0xde, 0x5d, 0xae, 0x22, 0x23, 0xb0, 0x03, 0x61,
      0xa3, 0x96, 0x17, 0x7a, 0x9c, 0xb4, 0x10, 0xff, 0x61, 0xf2, 0x00, 0x15, 0xad] := by
  decide +kernel

end Sha2
