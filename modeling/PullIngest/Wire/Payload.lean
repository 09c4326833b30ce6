import PullIngest.Json.Parser
import PullIngest.Json.Record
import PullIngest.Text.Base64

/-!
# Payloads

The values that travel in messages. `Wire` fixes for each type the document that is written for a
value and the documents that are read as one; `Wire.text` and `Wire.ofText?` are the same on text.
-/

namespace PullIngest

open Json (Value Field readOption readDefault)

/-- Values that are written as JSON documents. -/
class Wire (α : Type) where
  /-- The document written for a value. -/
  encode : α → Value
  /-- The value that a document stands for. -/
  decode? : Value → Option α

/-- The text written for a value. -/
def Wire.text {α : Type} [Wire α] (a : α) : String := String.ofList (encode a).text

/-- The value that a text stands for. -/
def Wire.ofText? {α : Type} [Wire α] (s : String) : Option α :=
  (Value.ofText? s.toList).bind decode?

/-! ### Offsets -/

namespace Offset

/-- An offset is written as its lowercase hexadecimal digits. -/
def encode (n : UInt64) : Value := .string (Hex.ofNat n.toNat)

/-- Drop one `0x` or `0X`. -/
def dropMark : List Char → List Char
  | '0' :: 'x' :: r => r
  | '0' :: 'X' :: r => r
  | r => r

/-- Drop one plus sign. -/
def dropPlus : List Char → List Char
  | '+' :: r => r
  | r => r

/-- The offset that a string stands for. -/
def ofChars? (s : List Char) : Option UInt64 :=
  (Hex.toNat? (dropPlus (dropMark s))).bind fun n =>
    if n < UInt64.size then some (.ofNat n) else none

/-- An offset is read from an integer or from hexadecimal digits. -/
def decode? : Value → Option UInt64
  | .number literal => (Value.number literal).uint64?
  | v => v.chars?.bind ofChars?

end Offset

/-! ### From client to server -/

/-- Asks for a session that takes in one file. -/
structure CreateSession where
  name : String
  size : UInt64
  deriving DecidableEq, Repr

instance : Wire CreateSession where
  encode c := .ofMembers [("name", .ofString c.name), ("size", .ofNat c.size.toNat)]
  decode? v := do
    let [some name, some size] ← v.fields? [⟨["name"], .required⟩, ⟨["size"], .required⟩] | none
    some ⟨← name.string?, ← size.uint64?⟩

/-- The bytes of one range. The payload stays encoded until somebody asks for the bytes. -/
structure ChunkResponse where
  offset : UInt64
  size : UInt64
  payload : String
  deriving DecidableEq, Repr

instance : Wire ChunkResponse where
  encode c := .ofMembers
    [("offset", Offset.encode c.offset), ("size", .ofNat c.size.toNat),
      ("payload", .ofString c.payload)]
  decode? v := do
    let [some offset, some size, some payload] ← v.fields?
      [⟨["offset"], .required⟩, ⟨["size"], .required⟩, ⟨["payload", "buffer"], .required⟩] | none
    some ⟨← Offset.decode? offset, ← size.uint64?, ← payload.string?⟩

/-- The response that carries the given bytes. -/
def ChunkResponse.ofBytes (offset : UInt64) (data : List UInt8) : ChunkResponse where
  offset
  size := .ofNat data.length
  payload := String.ofList ((Base64.encode data).map fun b => Char.ofNat b.toNat)

/-- The bytes that a response carries. -/
def ChunkResponse.bytes (c : ChunkResponse) : Except Base64.DecodeError (List UInt8) :=
  Base64.decode c.payload.toUTF8.toList

/-- Abandons a transfer. -/
structure Cancel where
  reason : String
  deriving DecidableEq, Repr

instance : Wire Cancel where
  encode c := .ofMembers (if c.reason = "" then [] else [("reason", .ofString c.reason)])
  decode? v := do
    let [reason] ← v.fields? [⟨["reason"], .defaulted⟩] | none
    some ⟨← readDefault Value.string? "" reason⟩

/-! ### From server to client -/

/-- Tells the id of a session. -/
structure SessionCreated where
  id : String
  deriving DecidableEq, Repr

instance : Wire SessionCreated where
  encode c := .ofMembers [("id", .ofString c.id)]
  decode? v := do
    let [some id] ← v.fields? [⟨["id"], .required⟩] | none
    some ⟨← id.string?⟩

/-- Asks for the bytes of one range. -/
structure ChunkRequest where
  offset : UInt64
  size : UInt64
  deriving DecidableEq, Repr

instance : Wire ChunkRequest where
  encode c := .ofMembers [("offset", Offset.encode c.offset), ("size", .ofNat c.size.toNat)]
  decode? v := do
    let [some offset, some size] ← v.fields? [⟨["offset"], .required⟩, ⟨["size"], .required⟩] | none
    some ⟨← Offset.decode? offset, ← size.uint64?⟩

/-- Tells the verdict on a session. -/
structure Done where
  success : Bool
  deriving DecidableEq, Repr

instance : Wire Done where
  encode c := .ofMembers [("success", .bool c.success)]
  decode? v := do
    let [some success] ← v.fields? [⟨["success"], .required⟩] | none
    some ⟨← success.bool?⟩

end PullIngest
