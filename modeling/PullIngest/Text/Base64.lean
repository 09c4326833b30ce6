/-!
# Base64

The padded form over the standard alphabet: three bytes become four symbols, and a last group of
one or two bytes is filled up with `=`. Texts are sequences of bytes, so that an error can name
the position of the byte it is about. Only canonical texts are accepted: padding must be exact
and the bits that a short last group discards must be zero.
-/

namespace PullIngest.Base64

/-- The symbol for a six-bit value. -/
def symbol (v : Nat) : UInt8 :=
  if v < 26 then .ofNat (65 + v)
  else if v < 52 then .ofNat (71 + v)
  else if v < 62 then .ofNat (v - 4)
  else if v = 62 then 43
  else 47

/-- The six-bit value of a symbol. -/
def value? (b : UInt8) : Option Nat :=
  if 65 ≤ b ∧ b ≤ 90 then some (b.toNat - 65)
  else if 97 ≤ b ∧ b ≤ 122 then some (b.toNat - 71)
  else if 48 ≤ b ∧ b ≤ 57 then some (b.toNat + 4)
  else if b = 43 then some 62
  else if b = 47 then some 63
  else none

/-- The byte `=`, which fills up the last group. -/
def pad : UInt8 := 61

/-! ### Encoding -/

/-- The four symbols of three bytes. -/
def encodeThree (a b c : UInt8) : List UInt8 :=
  [symbol (a.toNat / 4), symbol (a.toNat % 4 * 16 + b.toNat / 16),
    symbol (b.toNat % 16 * 4 + c.toNat / 64), symbol (c.toNat % 64)]

/-- The group of the one or two bytes left over. -/
def encodeTail : List UInt8 → List UInt8
  | [a] => [symbol (a.toNat / 4), symbol (a.toNat % 4 * 16), pad, pad]
  | [a, b] =>
    [symbol (a.toNat / 4), symbol (a.toNat % 4 * 16 + b.toNat / 16), symbol (b.toNat % 16 * 4), pad]
  | _ => []

/-- Encode behind a reversed text that is already written. -/
def encodeOnto (done : List UInt8) : List UInt8 → List UInt8
  | a :: b :: c :: r => encodeOnto ((encodeThree a b c).reverse ++ done) r
  | r => done.reverse ++ encodeTail r

/-- The canonical text of a sequence of bytes. -/
def encode (bs : List UInt8) : List UInt8 := encodeOnto [] bs

/-! ### Decoding -/

/-- Why a text is not canonical base64. -/
inductive DecodeError
  | invalidSymbol (byte : UInt8) (offset : Nat)
  | invalidLength (length : Nat)
  | invalidPadding
  | invalidLastSymbol (byte : UInt8) (offset : Nat)
  deriving DecidableEq, Repr

/-- The wording of an error. -/
def DecodeError.message : DecodeError → String
  | .invalidSymbol b i => "Invalid symbol " ++ toString b.toNat ++ ", offset " ++ toString i ++ "."
  | .invalidLength n => "Invalid input length: " ++ toString n
  | .invalidPadding => "Invalid padding"
  | .invalidLastSymbol b i =>
    "Invalid last symbol " ++ toString b.toNat ++ ", offset " ++ toString i ++ "."

/-- The value of the symbol at an offset. -/
def valueAt (b : UInt8) (offset : Nat) : Except DecodeError Nat :=
  match value? b with
  | some v => .ok v
  | none => .error (.invalidSymbol b offset)

/-- The three bytes of four symbol values. -/
def decodeFour (a b c d : Nat) : List UInt8 :=
  [.ofNat (a * 4 + b / 16), .ofNat (b % 16 * 16 + c / 4), .ofNat (c % 4 * 64 + d)]

/-- Decode complete groups that hold no padding, behind the reversed bytes already read. -/
def decodeGroups (offset : Nat) (done : List UInt8) : List UInt8 → Except DecodeError (List UInt8)
  | a :: b :: c :: d :: r => do
    let va ← valueAt a offset
    let vb ← valueAt b (offset + 1)
    let vc ← valueAt c (offset + 2)
    let vd ← valueAt d (offset + 3)
    decodeGroups (offset + 4) ((decodeFour va vb vc vd).reverse ++ done) r
  | _ => .ok done.reverse

/-- The symbols and the padding of the last group. -/
structure LastGroup where
  symbols : List (UInt8 × Nat)
  padding : Nat
  firstPad : Nat

/-- Take one more byte of the last group, which starts at `start`. A `=` is padding only from the
third place on, and nothing but padding follows it. -/
def LastGroup.take (start : Nat) (g : LastGroup) (b : UInt8) : Except DecodeError LastGroup :=
  let place := g.symbols.length + g.padding
  if b = pad then
    if place < 2 then .error (.invalidSymbol b (start + place))
    else .ok { g with padding := g.padding + 1,
                      firstPad := if g.padding = 0 then start + place else g.firstPad }
  else if 0 < g.padding then .error (.invalidSymbol pad g.firstPad)
  else do
    let v ← valueAt b (start + place)
    .ok { g with symbols := g.symbols ++ [(b, v)] }

/-- The bytes of the last group, once its length is known to be right. -/
def LastGroup.bytes (start : Nat) (g : LastGroup) : Except DecodeError (List UInt8) :=
  match g.symbols with
  | [(_, a), (s, b)] =>
    if b % 16 = 0 then .ok [.ofNat (a * 4 + b / 16)]
    else .error (.invalidLastSymbol s (start + 1))
  | [(_, a), (_, b), (s, c)] =>
    if c % 4 = 0 then .ok [.ofNat (a * 4 + b / 16), .ofNat (b % 16 * 16 + c / 4)]
    else .error (.invalidLastSymbol s (start + 2))
  | [(_, a), (_, b), (_, c), (_, d)] => .ok (decodeFour a b c d)
  | _ => .ok []

/-- Decode the last group, which starts at `start` and holds at most four bytes. -/
def decodeLast (start : Nat) (group : List UInt8) : Except DecodeError (List UInt8) := do
  let g ← group.foldlM (LastGroup.take start) ⟨[], 0, 0⟩
  if group ≠ [] ∧ g.symbols.length < 2 then .error (.invalidLength (start + g.symbols.length))
  else if (g.padding + g.symbols.length) % 4 ≠ 0 then .error .invalidPadding
  else g.bytes start

/-- A text one byte longer than whole groups whose last byte is foreign is refused for that byte,
before anything else is looked at. -/
def checkStray (text : List UInt8) : Except DecodeError Unit :=
  match text.getLast? with
  | some b =>
    if text.length % 4 = 1 ∧ b ≠ pad ∧ value? b = none then
      .error (.invalidSymbol b (text.length - 1))
    else .ok ()
  | none => .ok ()

/-- The length of the groups before the last one. -/
def leading (length : Nat) : Nat :=
  if length % 4 = 0 then length - 4 else length - length % 4

/-- The bytes of a canonical text. -/
def decode (text : List UInt8) : Except DecodeError (List UInt8) := do
  checkStray text
  let n := leading text.length
  let front ← decodeGroups 0 [] (text.take n)
  let last ← decodeLast n (text.drop n)
  .ok (front ++ last)

end PullIngest.Base64
