import PullIngest.Text.Hex

/-!
# SHA-256

The digest of a sequence of bytes, after FIPS 180-4: the message is padded to blocks of sixteen
words, and each block is mixed into a state of eight words.
-/

namespace PullIngest.Sha256

/-- Fractional parts of the cube roots of the first sixty-four primes. -/
def roundConstants : List UInt32 :=
  [0x428a2f98, 0x71374491, 0xb5c0fbcf, 0xe9b5dba5, 0x3956c25b, 0x59f111f1, 0x923f82a4, 0xab1c5ed5,
    0xd807aa98, 0x12835b01, 0x243185be, 0x550c7dc3, 0x72be5d74, 0x80deb1fe, 0x9bdc06a7, 0xc19bf174,
    0xe49b69c1, 0xefbe4786, 0x0fc19dc6, 0x240ca1cc, 0x2de92c6f, 0x4a7484aa, 0x5cb0a9dc, 0x76f988da,
    0x983e5152, 0xa831c66d, 0xb00327c8, 0xbf597fc7, 0xc6e00bf3, 0xd5a79147, 0x06ca6351, 0x14292967,
    0x27b70a85, 0x2e1b2138, 0x4d2c6dfc, 0x53380d13, 0x650a7354, 0x766a0abb, 0x81c2c92e, 0x92722c85,
    0xa2bfe8a1, 0xa81a664b, 0xc24b8b70, 0xc76c51a3, 0xd192e819, 0xd6990624, 0xf40e3585, 0x106aa070,
    0x19a4c116, 0x1e376c08, 0x2748774c, 0x34b0bcb5, 0x391c0cb3, 0x4ed8aa4a, 0x5b9cca4f, 0x682e6ff3,
    0x748f82ee, 0x78a5636f, 0x84c87814, 0x8cc70208, 0x90befffa, 0xa4506ceb, 0xbef9a3f7, 0xc67178f2]

/-- The eight working words. -/
structure State where
  a : UInt32
  b : UInt32
  c : UInt32
  d : UInt32
  e : UInt32
  f : UInt32
  g : UInt32
  h : UInt32

/-- Fractional parts of the square roots of the first eight primes. -/
def State.initial : State :=
  ⟨0x6a09e667, 0xbb67ae85, 0x3c6ef372, 0xa54ff53a,
    0x510e527f, 0x9b05688c, 0x1f83d9ab, 0x5be0cd19⟩

/-- Rotate to the right by fewer than 32 bits. -/
def rotate (x n : UInt32) : UInt32 := (x >>> n) ||| (x <<< (32 - n))

/-- One round with its constant and its word of the schedule. -/
def State.round (s : State) (kw : UInt32 × UInt32) : State :=
  let sum1 := rotate s.e 6 ^^^ rotate s.e 11 ^^^ rotate s.e 25
  let choice := (s.e &&& s.f) ^^^ ((~~~s.e) &&& s.g)
  let t1 := s.h + sum1 + choice + kw.1 + kw.2
  let sum0 := rotate s.a 2 ^^^ rotate s.a 13 ^^^ rotate s.a 22
  let majority := (s.a &&& s.b) ^^^ (s.a &&& s.c) ^^^ (s.b &&& s.c)
  ⟨t1 + sum0 + majority, s.a, s.b, s.c, s.d + t1, s.e, s.f, s.g⟩

/-- Add two states word by word. -/
def State.add (s t : State) : State :=
  ⟨s.a + t.a, s.b + t.b, s.c + t.c, s.d + t.d, s.e + t.e, s.f + t.f, s.g + t.g, s.h + t.h⟩

/-- Append `n` words to the words of a schedule, of which there are at least sixteen. -/
def extend : Nat → Array UInt32 → Array UInt32
  | 0, w => w
  | n + 1, w =>
    let back := fun n => w.getD (w.size - n) 0
    let x := back 15
    let y := back 2
    let small0 := rotate x 7 ^^^ rotate x 18 ^^^ (x >>> 3)
    let small1 := rotate y 17 ^^^ rotate y 19 ^^^ (y >>> 10)
    extend n (w.push (back 16 + small0 + back 7 + small1))

/-- Mix one block of sixteen words into the state. -/
def State.mix (s : State) (block : Array UInt32) : State :=
  s.add ((roundConstants.zip (extend 48 block).toList).foldl State.round s)

/-- A message that is partly taken in: the state after its complete blocks and the words since. -/
structure Progress where
  state : State
  block : Array UInt32

/-- Take in one word. -/
def Progress.word (p : Progress) (w : UInt32) : Progress :=
  let block := p.block.push w
  if block.size = 16 then ⟨p.state.mix block, #[]⟩ else ⟨p.state, block⟩

/-- Take in bytes, four to a word, highest first. -/
def Progress.bytes (p : Progress) : List UInt8 → Progress
  | a :: b :: c :: d :: r =>
    bytes (p.word ((a.toUInt32 <<< 24) ||| (b.toUInt32 <<< 16) ||| (c.toUInt32 <<< 8) ||| d.toUInt32)) r
  | _ => p

/-- What follows a message of the given length: a one bit, zeros, and the length in bits. -/
def padding (length : Nat) : List UInt8 :=
  let zeros := (119 - length % 64) % 64
  let bits := length * 8
  0x80 :: List.replicate zeros 0
    ++ [56, 48, 40, 32, 24, 16, 8, 0].map fun shift => .ofNat (bits / Nat.pow 2 shift)

/-- The four bytes of a word, highest first. -/
def wordBytes (w : UInt32) : List UInt8 :=
  [(w >>> 24).toUInt8, (w >>> 16).toUInt8, (w >>> 8).toUInt8, w.toUInt8]

/-- The bytes of a state. -/
def State.toBytes (s : State) : List UInt8 :=
  [s.a, s.b, s.c, s.d, s.e, s.f, s.g, s.h].flatMap wordBytes

/-- The digest of a message. -/
def digest (message : List UInt8) : List UInt8 :=
  (Progress.bytes ⟨.initial, #[]⟩ (message ++ padding message.length)).state.toBytes

/-- The digest as text. -/
def hexDigest (message : List UInt8) : String := String.ofList (Hex.ofBytes (digest message))

end PullIngest.Sha256
