import PullIngest.Proofs.Json.Documents
import PullIngest.Proofs.Wire.Payload
import PullIngest.Wire.Phase

/-!
# What is written is read back from its text

* the other instances of `LawfulWire`: cancellations, outcomes, phases, progress, types of messages
  and errors;
* `TextWire`: values whose documents follow the grammar;
* `Raw`: documents that can be the payload of a message;
* `ofText?_text_message`: messages, with their payloads character by character;
* `survives`: every value, by itself and in a message.
-/

namespace PullIngest

open Json

/-! ### The other values -/

theorem Json.int32?_ofInt (i : Int32) : (Value.ofInt i.toInt).int32? = some i := by
  have hlow := i.le_toInt
  have hhigh := i.toInt_lt
  unfold Value.ofInt
  by_cases hneg : i.toInt < 0
  · rw [if_pos hneg]
    have hnatural : (Value.number (Nat.toDigits 10 i.toInt.natAbs)).natural? =
        some i.toInt.natAbs := natural?_ofNat _
    rw [Value.int32?, hnatural, Option.bind_some, if_pos (by omega)]
    have habs : -(i.toInt.natAbs : Int) = i.toInt := by omega
    rw [habs, Int32.ofInt_toInt]
  · rw [if_neg hneg]
    have hnatural := natural?_ofNat i.toInt.toNat
    unfold Value.int32?
    split
    · next digits heq =>
      -- A number that is written without a sign does not begin with one.
      have hmem : '-' ∈ Nat.toDigits 10 i.toInt.toNat := by
        rw [Value.number.inj heq]
        simp
      have hdigit := Nat.isDigit_of_mem_toDigits (by decide) (by decide) hmem
      exact absurd hdigit (by decide)
    · rw [hnatural, Option.bind_some, if_pos (by omega)]
      have hnat : (Int32.ofNat i.toInt.toNat) = Int32.ofInt (i.toInt.toNat : Int) := rfl
      rw [hnat, Int.toNat_of_nonneg (by omega), Int32.ofInt_toInt]

theorem Json.variant?_ofString (s : String) : (Value.ofString s).variant? = some s.toList :=
  unescape?_escape s.toList

instance : LawfulWire Cancel where
  decode?_encode c := by
    obtain ⟨reason⟩ := c
    by_cases h : reason = ""
    · subst h
      rfl
    · simp [Wire.encode, Wire.decode?, h, fields?_ofMembers, Field.find?, Field.named, readDefault]

instance : LawfulWire Outcome where
  decode?_encode o := by
    simp only [Wire.encode, Wire.decode?]
    rw [variant?_ofString]
    cases o <;> decide

instance : LawfulWire MessageType where
  decode?_encode t := by
    simp only [Wire.encode, Wire.decode?]
    rw [variant?_ofString]
    cases t <;> decide

instance : LawfulWire Phase where
  decode?_encode p := by
    cases p with
    | done o =>
      have houtcome : Wire.decode? (Wire.encode o) = some o := LawfulWire.decode?_encode o
      have hvariant : (Value.ofMembers [("done", Wire.encode o)]).variant? = none := rfl
      unfold instWirePhase
      dsimp only
      rw [hvariant, members?_ofMembers]
      simp [houtcome]
    | _ =>
      unfold instWirePhase
      dsimp only
      rw [variant?_ofString]
      decide

instance : LawfulWire Progress where
  decode?_encode p := by
    have hphase : Wire.decode? (Wire.encode p.phase) = some p.phase := LawfulWire.decode?_encode _
    obtain ⟨sessionId, name, phase, declaredSize, bytesDelivered, createdAt⟩ := p
    unfold instWireProgress
    dsimp only at hphase ⊢
    generalize (Wire.encode phase : Value) = document at hphase ⊢
    by_cases h : createdAt = ""
    · subst h
      simp [hphase, fields?_ofMembers, Field.find?, Field.named, readDefault]
    · simp [hphase, h, fields?_ofMembers, Field.find?, Field.named, readDefault]

instance : LawfulWire ErrorDetail where
  decode?_encode e := by
    simp [Wire.encode, Wire.decode?, fields?_ofMembers, Field.find?, Field.named, int32?_ofInt]

/-! ### Values and their texts -/

/-- Every value is read back, and its document follows the grammar and is not `null`. -/
class TextWire (α : Type) [Wire α] : Prop extends LawfulWire α where
  proper_encode : ∀ a : α, (Wire.encode a).Proper
  encode_ne_null : ∀ a : α, Wire.encode a ≠ .null

theorem Json.ofMembers_ne_null (ms : List (String × Value)) : Value.ofMembers ms ≠ .null := by
  cases ms <;> exact Value.noConfusion

theorem Json.ofString_ne_null (s : String) : Value.ofString s ≠ .null := Value.noConfusion

theorem Offset.proper_encode (n : UInt64) : (encode n).Proper := by
  have hdigits : ∀ cs : List Char, (∀ c ∈ cs, ∃ d, d < 16 ∧ c = Nat.digitChar d) → Body cs := by
    intro cs h
    induction cs with
    | nil => exact .nil
    | cons c cs ih =>
      obtain ⟨d, hd, rfl⟩ := h c (by simp)
      have key : ∀ d : Fin 16, Nat.digitChar d.val ≠ '"' ∧ Nat.digitChar d.val ≠ '\\' ∧
          32 ≤ (Nat.digitChar d.val).toNat := by decide
      obtain ⟨hquote, hslash, hplain⟩ := key ⟨d, hd⟩
      exact .plain hquote hslash hplain (ih fun c' hc' => h c' (by simp [hc']))
  exact hdigits _ fun c hc => Hex.exists_digit_of_mem hc

instance : TextWire CreateSession where
  proper_encode c := proper_ofMembers (by simp [proper_ofString, proper_ofNat])
  encode_ne_null c := ofMembers_ne_null _

instance : TextWire ChunkRequest where
  proper_encode c := proper_ofMembers (by simp [Offset.proper_encode, proper_ofNat])
  encode_ne_null c := ofMembers_ne_null _

instance : TextWire ChunkResponse where
  proper_encode c := proper_ofMembers
    (by simp [Offset.proper_encode, proper_ofNat, proper_ofString])
  encode_ne_null c := ofMembers_ne_null _

instance : TextWire Cancel where
  proper_encode c := proper_ofMembers (by split_ifs <;> simp [proper_ofString])
  encode_ne_null c := ofMembers_ne_null _

instance : TextWire SessionCreated where
  proper_encode c := proper_ofMembers (by simp [proper_ofString])
  encode_ne_null c := ofMembers_ne_null _

instance : TextWire Done where
  proper_encode c := proper_ofMembers (by simp [Value.Proper])
  encode_ne_null c := ofMembers_ne_null _

instance : TextWire Outcome where
  proper_encode o := proper_ofString o.name
  encode_ne_null o := ofString_ne_null o.name

instance : TextWire MessageType where
  proper_encode t := proper_ofString t.name
  encode_ne_null t := ofString_ne_null t.name

instance : TextWire Phase where
  proper_encode p := by
    cases p with
    | done o =>
      exact proper_ofMembers (by simpa using TextWire.proper_encode o)
    | _ => exact proper_ofString _
  encode_ne_null p := by
    cases p with
    | done o => exact ofMembers_ne_null _
    | _ => exact ofString_ne_null _

instance : TextWire Progress where
  proper_encode p := by
    have hphase := TextWire.proper_encode p.phase
    refine proper_ofMembers ?_
    split_ifs <;> simp [proper_ofString, proper_ofNat, hphase]
  encode_ne_null p := ofMembers_ne_null _

instance : TextWire ErrorDetail where
  proper_encode e := proper_ofMembers (by simp [proper_ofInt, proper_ofString])
  encode_ne_null e := ofMembers_ne_null _

/-- A value is read back from the text that is written for it. -/
theorem Wire.ofText?_text {α : Type} [Wire α] [TextWire α] (a : α) :
    Wire.ofText? (Wire.text a) = some a := by
  unfold Wire.ofText? Wire.text
  rw [String.toList_ofList, Json.ofText?_text (TextWire.proper_encode a), Option.bind_some]
  exact LawfulWire.decode?_encode a

/-! ### Messages -/

/-- A document that can be the payload of a message: `null` would stand for no payload. -/
structure Raw where
  document : Value
  proper : document.Proper
  ne_null : document ≠ .null

/-- A value as the payload of a message. -/
def Raw.of {α : Type} [Wire α] [TextWire α] (a : α) : Raw :=
  ⟨Wire.encode a, TextWire.proper_encode a, TextWire.encode_ne_null a⟩

/-- A message with any payload that it can have. -/
def Raw.message (id : String) (type : MessageType) (payload : Option Raw)
    (error : Option ErrorDetail) : Message :=
  ⟨id, type, payload.map Raw.document, error⟩

theorem Json.readOption_of_ne_null {α : Type} (read : Value → Option α) {v : Value}
    (h : v ≠ .null) : readOption read (some v) = (read v).map some := by
  cases v with
  | null => exact absurd rfl h
  | _ => rfl

theorem proper_message (id : String) (type : MessageType) (payload : Option Raw)
    (error : Option ErrorDetail) : (Wire.encode (Raw.message id type payload error)).Proper := by
  have htype := TextWire.proper_encode type
  refine proper_ofMembers ?_
  cases payload with
  | none =>
    cases error with
    | none => simp [Raw.message, proper_ofString, htype]
    | some e => simp [Raw.message, proper_ofString, htype, TextWire.proper_encode e]
  | some p =>
    cases error with
    | none => simp [Raw.message, proper_ofString, htype, p.proper]
    | some e => simp [Raw.message, proper_ofString, htype, p.proper, TextWire.proper_encode e]

theorem decode?_message (id : String) (type : MessageType) (payload : Option Raw)
    (error : Option ErrorDetail) : Wire.decode? (Wire.encode (Raw.message id type payload error)) =
      some (Raw.message id type payload error) := by
  have htype : Wire.decode? (Wire.encode type) = some type := LawfulWire.decode?_encode type
  have hpayload : ∀ p : Raw, readOption some (some p.document) = some (some p.document) :=
    fun p => readOption_of_ne_null some p.ne_null
  have herror : ∀ e : ErrorDetail,
      readOption Wire.decode? (some (Wire.encode e)) = some (some e) := by
    intro e
    rw [readOption_of_ne_null _ (TextWire.encode_ne_null e), LawfulWire.decode?_encode]
    rfl
  have habsent : ∀ {α : Type} (read : Value → Option α), readOption read none = some none :=
    fun _ => rfl
  unfold instWireMessage
  dsimp only
  rw [fields?_ofMembers]
  cases payload with
  | none =>
    cases error with
    | none => simp [Raw.message, Field.find?, Field.named, htype, habsent]
    | some e => simp [Raw.message, Field.find?, Field.named, htype, herror, habsent]
  | some p =>
    cases error with
    | none => simp [Raw.message, Field.find?, Field.named, htype, hpayload, habsent]
    | some e => simp [Raw.message, Field.find?, Field.named, htype, hpayload, herror]

/-- A message is read back from its text, with its payload character by character. -/
theorem ofText?_text_message (id : String) (type : MessageType) (payload : Option Raw)
    (error : Option ErrorDetail) : Wire.ofText? (Wire.text (Raw.message id type payload error)) =
      some (Raw.message id type payload error) := by
  unfold Wire.ofText? Wire.text
  rw [String.toList_ofList, Json.ofText?_text (proper_message id type payload error),
    Option.bind_some]
  exact decode?_message id type payload error

/-- A value survives by itself, and as the payload of a message of any type. -/
structure Survives {α : Type} [Wire α] (a : α) : Prop where
  alone : Wire.ofText? (Wire.text a) = some a
  carried : ∀ id type, ∃ m : Message, Wire.ofText? (Wire.text (Message.carrying id type a)) = some m ∧
    m.payloadAs α type = .ok a

theorem survives {α : Type} [Wire α] [TextWire α] (a : α) : Survives a where
  alone := Wire.ofText?_text a
  carried id type := ⟨_, ofText?_text_message id type (some (.of a)) none, payloadAs_carrying ..⟩

/-- **Everything that is written is read back.** Every value of the protocol is read back from its
text, by itself and out of a message. Every message is read back from its text, with an error or
without one, and its payload may be any document in any spelling. -/
theorem survives_the_wire :
    (∀ v : CreateSession, Survives v) ∧ (∀ v : ChunkRequest, Survives v) ∧
    (∀ v : ChunkResponse, Survives v) ∧ (∀ v : Cancel, Survives v) ∧
    (∀ v : SessionCreated, Survives v) ∧ (∀ v : Done, Survives v) ∧ (∀ v : Outcome, Survives v) ∧
    (∀ v : Phase, Survives v) ∧ (∀ v : Progress, Survives v) ∧ (∀ v : MessageType, Survives v) ∧
    ∀ (id : String) (type : MessageType) (payload : Option Raw) (error : Option ErrorDetail),
      Wire.ofText? (Wire.text (Raw.message id type payload error)) =
        some (Raw.message id type payload error) :=
  ⟨survives, survives, survives, survives, survives, survives, survives, survives, survives,
    survives, ofText?_text_message⟩

end PullIngest
