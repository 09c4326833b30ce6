import PullIngest.Proofs.Json.Reading
import PullIngest.Proofs.Text.Base64
import PullIngest.Proofs.Text.Utf8
import PullIngest.Wire.Message

/-!
# Payloads that are sent are received

* `Offset.decode?_encode`: offsets, as hexadecimal digits;
* `LawfulWire`: payloads that are read back, with one instance for each of them;
* `payloadAs_carrying`: reading the payload of a message that carries one;
* `bytesAt`: the bytes of a range of a file;
* `ChunkResponse.bytes_ofBytes`: the bytes that a response was made of.
-/

namespace PullIngest

open Json

/-! ### Offsets -/

theorem Offset.dropMark_ofNat (n : ℕ) : dropMark (Hex.ofNat n) = Hex.ofNat n := by
  have hx : 'x' ∉ Hex.ofNat n := fun h => Hex.ne_of_mem_ofNat h (by decide) rfl
  have hX : 'X' ∉ Hex.ofNat n := fun h => Hex.ne_of_mem_ofNat h (by decide) rfl
  unfold dropMark
  split
  · next h => exact absurd (h ▸ by simp : 'x' ∈ Hex.ofNat n) hx
  · next h => exact absurd (h ▸ by simp : 'X' ∈ Hex.ofNat n) hX
  · rfl

theorem Offset.dropPlus_ofNat (n : ℕ) : dropPlus (Hex.ofNat n) = Hex.ofNat n := by
  have hplus : '+' ∉ Hex.ofNat n := fun h => Hex.ne_of_mem_ofNat h (by decide) rfl
  unfold dropPlus
  split
  · next h => exact absurd (h ▸ by simp : '+' ∈ Hex.ofNat n) hplus
  · rfl

theorem Offset.ofChars?_ofNat (n : UInt64) : ofChars? (Hex.ofNat n.toNat) = some n := by
  rw [ofChars?, dropMark_ofNat, dropPlus_ofNat, Hex.toNat?_ofNat]
  show (if n.toNat < UInt64.size then some (UInt64.ofNat n.toNat) else none) = some n
  rw [if_pos n.toNat_lt, UInt64.ofNat_toNat]

@[simp] theorem Offset.decode?_encode (n : UInt64) : decode? (encode n) = some n := by
  have hplain : '\\' ∉ Hex.ofNat n.toNat := fun h => Hex.ne_of_mem_ofNat h (by decide) rfl
  show (unescape? (Hex.ofNat n.toNat)).bind ofChars? = some n
  rw [unescape?_of_plain hplain]
  exact ofChars?_ofNat n

/-! ### Payloads -/

/-- Every value is read back from the document that is written for it. -/
class LawfulWire (α : Type) [Wire α] : Prop where
  decode?_encode : ∀ a : α, Wire.decode? (Wire.encode a) = some a

instance : LawfulWire CreateSession where
  decode?_encode c := by
    simp [Wire.encode, Wire.decode?, fields?_ofMembers, Field.find?, Field.named]

instance : LawfulWire SessionCreated where
  decode?_encode c := by
    simp [Wire.encode, Wire.decode?, fields?_ofMembers, Field.find?, Field.named]

instance : LawfulWire ChunkRequest where
  decode?_encode c := by
    simp [Wire.encode, Wire.decode?, fields?_ofMembers, Field.find?, Field.named]

instance : LawfulWire ChunkResponse where
  decode?_encode c := by
    simp [Wire.encode, Wire.decode?, fields?_ofMembers, Field.find?, Field.named]

instance : LawfulWire Done where
  decode?_encode c := by
    simp [Wire.encode, Wire.decode?, fields?_ofMembers, Field.find?, Field.named, Value.bool?]

/-- A payload is read back from the message that carries it. -/
@[simp] theorem payloadAs_carrying {α : Type} [Wire α] [LawfulWire α] (id : String)
    (type : MessageType) (a : α) : (Message.carrying id type a).payloadAs α type = .ok a := by
  simp [Message.payloadAs, Message.carrying, Message.payload?, LawfulWire.decode?_encode]

/-! ### The bytes of a range -/

/-- The bytes of a file from an offset on, `size` of them. -/
def bytesAt (file : List UInt8) (offset size : UInt64) : List UInt8 :=
  (file.drop offset.toNat).take size.toNat

theorem length_bytesAt_eq_min (file : List UInt8) (offset size : UInt64) :
    (bytesAt file offset size).length = min size.toNat (file.length - offset.toNat) := by
  rw [bytesAt, List.length_take, List.length_drop]

theorem length_bytesAt {file : List UInt8} {offset size : UInt64}
    (h : offset.toNat + size.toNat ≤ file.length) : (bytesAt file offset size).length = size.toNat := by
  rw [length_bytesAt_eq_min]
  omega

/-- ASCII characters are written as one byte each. -/
theorem utf8EncodeChar_of_lt {b : UInt8} (h : b.toNat < 128) :
    String.utf8EncodeChar (Char.ofNat b.toNat) = [b] := by
  -- There are few enough characters to try them all.
  have key : ∀ n : Fin 128, String.utf8EncodeChar (Char.ofNat n.val) = [UInt8.ofNat n.val] := by
    decide
  simpa using key ⟨b.toNat, h⟩

/-- A text in ASCII has the bytes of its characters. -/
theorem toUTF8_of_ascii {bs : List UInt8} (h : ∀ b ∈ bs, b.toNat < 128) :
    (String.ofList (bs.map fun b => Char.ofNat b.toNat)).toUTF8.toList = bs := by
  have hencode : (bs.map fun b => Char.ofNat b.toNat).flatMap String.utf8EncodeChar = bs := by
    induction bs with
    | nil => rfl
    | cons b bs ih =>
      rw [List.map_cons, List.flatMap_cons, utf8EncodeChar_of_lt (h b (by simp)),
        ih fun b' hb' => h b' (by simp [hb'])]
      rfl
  exact (Utf8.encode_ofList _).trans hencode

/-- The bytes of a range are read back from the response that carries them. -/
@[simp] theorem ChunkResponse.bytes_ofBytes (offset : UInt64) (data : List UInt8) :
    (ofBytes offset data).bytes = .ok data := by
  rw [bytes, ofBytes, toUTF8_of_ascii fun b hb => Base64.toNat_lt_of_mem_encode hb,
    Base64.decode_encode]

end PullIngest
