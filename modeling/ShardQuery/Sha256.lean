/-!
# SHA-256

The secure hash of two hundred and fifty-six bits over octets. A message is padded to
blocks of sixty-four octets; each block, read as sixteen words, is worked into a state of
eight words by sixty-four rounds. The rounds keep the last sixteen words of the message
schedule as a window, whose first word enters the round.
-/

namespace ShardQuery.Sha256

/-- The round constants: the first bits of the fractions of the cube roots of the first
sixty-four primes. -/
def roundConstants : List UInt32 :=
  [0x428a2f98, 0x71374491, 0xb5c0fbcf, 0xe9b5dba5, 0x3956c25b, 0x59f111f1, 0x923f82a4, 0xab1c5ed5,
   0xd807aa98, 0x12835b01, 0x243185be, 0x550c7dc3, 0x72be5d74, 0x80deb1fe, 0x9bdc06a7, 0xc19bf174,
   0xe49b69c1, 0xefbe4786, 0x0fc19dc6, 0x240ca1cc, 0x2de92c6f, 0x4a7484aa, 0x5cb0a9dc, 0x76f988da,
   0x983e5152, 0xa831c66d, 0xb00327c8, 0xbf597fc7, 0xc6e00bf3, 0xd5a79147, 0x06ca6351, 0x14292967,
   0x27b70a85, 0x2e1b2138, 0x4d2c6dfc, 0x53380d13, 0x650a7354, 0x766a0abb, 0x81c2c92e, 0x92722c85,
   0xa2bfe8a1, 0xa81a664b, 0xc24b8b70, 0xc76c51a3, 0xd192e819, 0xd6990624, 0xf40e3585, 0x106aa070,
   0x19a4c116, 0x1e376c08, 0x2748774c, 0x34b0bcb5, 0x391c0cb3, 0x4ed8aa4a, 0x5b9cca4f, 0x682e6ff3,
   0x748f82ee, 0x78a5636f, 0x84c87814, 0x8cc70208, 0x90befffa, 0xa4506ceb, 0xbef9a3f7, 0xc67178f2]

/-- The eight words of the state, which each block of a message changes. -/
structure State where
  /-- First word. -/
  a : UInt32
  /-- Second word. -/
  b : UInt32
  /-- Third word. -/
  c : UInt32
  /-- Fourth word. -/
  d : UInt32
  /-- Fifth word. -/
  e : UInt32
  /-- Sixth word. -/
  f : UInt32
  /-- Seventh word. -/
  g : UInt32
  /-- Eighth word. -/
  h : UInt32
deriving DecidableEq, Repr

/-- The state before the first block: the first bits of the fractions of the square roots of
the first eight primes. -/
def initial : State :=
  ⟨0x6a09e667, 0xbb67ae85, 0x3c6ef372, 0xa54ff53a, 0x510e527f, 0x9b05688c, 0x1f83d9ab, 0x5be0cd19⟩

/-- Rotates a word to the right, by fewer places than it has bits. -/
def rotateRight (x : UInt32) (n : UInt32) : UInt32 :=
  (x >>> n) ||| (x <<< (32 - n))

/-- The word that extends the schedule behind a window of sixteen words. -/
def nextWord (window : List UInt32) : UInt32 :=
  let w0 := window.getD 0 0
  let w1 := window.getD 1 0
  let w9 := window.getD 9 0
  let w14 := window.getD 14 0
  let s0 := rotateRight w1 7 ^^^ rotateRight w1 18 ^^^ (w1 >>> 3)
  let s1 := rotateRight w14 17 ^^^ rotateRight w14 19 ^^^ (w14 >>> 10)
  w0 + s0 + w9 + s1

/-- One round with a constant and a word of the schedule. -/
def round (s : State) (constant word : UInt32) : State :=
  let s1 := rotateRight s.e 6 ^^^ rotateRight s.e 11 ^^^ rotateRight s.e 25
  let choice := (s.e &&& s.f) ^^^ (~~~s.e &&& s.g)
  let t1 := s.h + s1 + choice + constant + word
  let s0 := rotateRight s.a 2 ^^^ rotateRight s.a 13 ^^^ rotateRight s.a 22
  let majority := (s.a &&& s.b) ^^^ (s.a &&& s.c) ^^^ (s.b &&& s.c)
  ⟨t1 + (s0 + majority), s.a, s.b, s.c, s.d + t1, s.e, s.f, s.g⟩

/-- The rounds with the given constants, each with the next word of the window. -/
def rounds (s : State) (window : List UInt32) : List UInt32 → State
  | [] => s
  | constant :: constants =>
    rounds (round s constant (window.getD 0 0)) (window.tail ++ [nextWord window]) constants

/-- Works a block of sixteen words into a state. -/
def compress (s : State) (block : List UInt32) : State :=
  let t := rounds s block roundConstants
  ⟨s.a + t.a, s.b + t.b, s.c + t.c, s.d + t.d, s.e + t.e, s.f + t.f, s.g + t.g, s.h + t.h⟩

/-- Four octets as a word, the highest first. -/
def word (a b c d : UInt8) : UInt32 :=
  (a.toUInt32 <<< 24) ||| (b.toUInt32 <<< 16) ||| (c.toUInt32 <<< 8) ||| d.toUInt32

/-- Octets as words, four to a word, the highest octet first. -/
def words : List UInt8 → List UInt32
  | a :: b :: c :: d :: rest => word a b c d :: words rest
  | _ => []

/-- A word as four octets, the highest first. -/
def octets (w : UInt32) : List UInt8 :=
  [(w >>> 24).toUInt8, (w >>> 16).toUInt8, (w >>> 8).toUInt8, w.toUInt8]

/-- What is appended to a message of `length` octets: a one bit, zeros up to eight octets
before the end of a block, and the length in bits. -/
def padding (length : Nat) : List UInt8 :=
  let bits := UInt64.ofNat (length * 8)
  (0x80 : UInt8) :: (List.replicate ((119 - length % 64) % 64) (0 : UInt8) ++
    octets (bits >>> 32).toUInt32 ++ octets bits.toUInt32)

/-- Works words into a state, sixteen at a time, for `blocks` blocks. -/
def absorb : Nat → State → List UInt32 → State
  | 0, s, _ => s
  | blocks + 1, s, message => absorb blocks (compress s (message.take 16)) (message.drop 16)

/-- The hash of a message, thirty-two octets long whatever the message is. -/
def hash (message : List UInt8) : List UInt8 :=
  let padded := message ++ padding message.length
  let s := absorb (padded.length / 64) initial (words padded)
  [s.a, s.b, s.c, s.d, s.e, s.f, s.g, s.h].flatMap octets

end ShardQuery.Sha256
