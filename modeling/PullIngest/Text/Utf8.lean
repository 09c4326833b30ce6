/-!
# UTF-8

Bytes as text. A reader goes byte by byte and keeps the character it is inside of; bytes that do
not continue it make one gap, where strict reading gives up and lenient reading puts U+FFFD.
-/

namespace PullIngest.Utf8

/-- A character that is begun: how many bytes are missing, the bounds of the next one, and the
value so far. -/
structure Begun where
  missing : Nat
  low : UInt8
  high : UInt8
  value : Nat

/-- What is read so far, newest first; a gap is `none`. -/
structure Reading where
  done : List (Option Char) := []
  begun : Option Begun := none

/-- Read a byte that begins a character. -/
def Reading.begin (done : List (Option Char)) (b : UInt8) : Reading :=
  let n := b.toNat
  if n < 0x80 then ⟨some (Char.ofNat n) :: done, none⟩
  else if 0xC2 ≤ n ∧ n < 0xE0 then ⟨done, some ⟨1, 0x80, 0xBF, n - 0xC0⟩⟩
  else if n = 0xE0 then ⟨done, some ⟨2, 0xA0, 0xBF, 0⟩⟩
  else if n = 0xED then ⟨done, some ⟨2, 0x80, 0x9F, 0xD⟩⟩
  else if 0xE0 < n ∧ n < 0xF0 then ⟨done, some ⟨2, 0x80, 0xBF, n - 0xE0⟩⟩
  else if n = 0xF0 then ⟨done, some ⟨3, 0x90, 0xBF, 0⟩⟩
  else if 0xF0 < n ∧ n < 0xF4 then ⟨done, some ⟨3, 0x80, 0xBF, n - 0xF0⟩⟩
  else if n = 0xF4 then ⟨done, some ⟨3, 0x80, 0x8F, 4⟩⟩
  else ⟨none :: done, none⟩

/-- Read one more byte. -/
def Reading.step (r : Reading) (b : UInt8) : Reading :=
  match r.begun with
  | none => .begin r.done b
  | some c =>
    if b < c.low ∨ c.high < b then .begin (none :: r.done) b
    else
      let value := c.value * 64 + (b.toNat - 0x80)
      if c.missing ≤ 1 then ⟨some (Char.ofNat value) :: r.done, none⟩
      else ⟨r.done, some ⟨c.missing - 1, 0x80, 0xBF, value⟩⟩

/-- The characters and gaps of a sequence of bytes. -/
def chars (bs : List UInt8) : List (Option Char) :=
  let r := bs.foldl Reading.step {}
  match r.begun with
  | none => r.done.reverse
  | some _ => (none :: r.done).reverse

/-- The text, if there is no gap. -/
def decode? (bs : List UInt8) : Option String :=
  let cs := chars bs
  if cs.all Option.isSome then some (String.ofList (cs.filterMap id)) else none

/-- The text, with a mark for each gap. -/
def decodeLossy (bs : List UInt8) : String :=
  String.ofList ((chars bs).map fun c => c.getD (Char.ofNat 0xFFFD))

/-- The bytes of a text. -/
def encode (s : String) : List UInt8 := s.toUTF8.toList

end PullIngest.Utf8
