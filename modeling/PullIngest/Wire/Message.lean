import PullIngest.Wire.Payload

/-!
# Messages

The envelope of everything that is published: an id, a type, and either a payload or an error.
The payload is kept as the document it arrived as, so that a receiver can look at the type before
it decides what to read.
-/

namespace PullIngest

open Json (Value readOption)

/-- The type of a message. Types that this protocol does not know are all `unknown`. -/
inductive MessageType where
  | createSession
  | start
  | chunkResponse
  | cancel
  | sessionCreated
  | chunkRequest
  | done
  | error
  | unknown
  deriving DecidableEq, Repr

namespace MessageType

/-- The name of a type in messages. -/
def name : MessageType → String
  | createSession => "create_session"
  | start => "start"
  | chunkResponse => "chunk_response"
  | cancel => "cancel"
  | sessionCreated => "session_created"
  | chunkRequest => "chunk_request"
  | done => "done"
  | error => "error"
  | unknown => "Unknown"

/-- The name of a type in error texts. -/
def label : MessageType → String
  | createSession => "CreateSession"
  | start => "Start"
  | chunkResponse => "ChunkResponse"
  | cancel => "Cancel"
  | sessionCreated => "SessionCreated"
  | chunkRequest => "ChunkRequest"
  | done => "Done"
  | error => "Error"
  | unknown => "Unknown"

/-- The types with a meaning. -/
def known : List MessageType :=
  [createSession, start, chunkResponse, cancel, sessionCreated, chunkRequest, done, error]

/-- The type that a name stands for. -/
def ofName (name : List Char) : MessageType :=
  (known.find? fun t => t.name.toList = name).getD unknown

end MessageType

instance : Wire MessageType where
  encode t := .ofString t.name
  decode? v := v.variant?.map MessageType.ofName

/-- What went wrong, as one side tells the other. -/
structure ErrorDetail where
  code : Int32
  message : String
  deriving DecidableEq, Repr

namespace ErrorDetail

/-- The code for a request that makes no sense. -/
def badRequest : Int32 := 400

/-- The code for a destination that another session holds. -/
def conflict : Int32 := 409

/-- The code for a failure of the server. -/
def internal : Int32 := 500

end ErrorDetail

instance : Wire ErrorDetail where
  encode e := .ofMembers [("code", .ofInt e.code.toInt), ("message", .ofString e.message)]
  decode? v := do
    let [some code, some message] ← v.fields? [⟨["code"], .required⟩, ⟨["message"], .required⟩]
      | none
    some ⟨← code.int32?, ← message.string?⟩

/-- Everything that is published travels in one of these. -/
structure Message where
  id : String
  type : MessageType
  payload : Option Value
  error : Option ErrorDetail

instance : Inhabited Message := ⟨⟨"", .unknown, none, none⟩⟩

instance : Wire Message where
  encode m := .ofMembers
    ([("id", .ofString m.id), ("type", Wire.encode m.type)]
      ++ (m.payload.map (("payload", ·))).toList
      ++ (m.error.map fun e => ("error", Wire.encode e)).toList)
  decode? v := do
    let [some id, some type, payload, error] ← v.fields?
      [⟨["id"], .required⟩, ⟨["type"], .required⟩, ⟨["payload"], .optional⟩,
        ⟨["error"], .optional⟩] | none
    some ⟨← id.string?, ← Wire.decode? type, ← readOption some payload,
      ← readOption Wire.decode? error⟩

/-- Why a received message cannot be used. -/
inductive MessageError where
  /-- The payload is not a document of the wanted shape. -/
  | malformed
  /-- The other side reports an error. -/
  | remote (detail : ErrorDetail)
  | unexpectedType (expected actual : MessageType)
  | missingPayload (expected : MessageType)
  deriving DecidableEq, Repr

/-- The wording of an error. -/
def MessageError.message : MessageError → String
  | .malformed => "malformed payload: the document has another shape"
  | .remote d => "peer error " ++ toString d.code.toInt ++ ": " ++ d.message
  | .unexpectedType e a => "expected " ++ e.label ++ " message, got " ++ a.label
  | .missingPayload e => e.label ++ " message without payload"

namespace Message

/-- A message without a payload. -/
def signal (id : String) (type : MessageType) : Message := ⟨id, type, none, none⟩

/-- A message with a payload. -/
def carrying {α : Type} [Wire α] (id : String) (type : MessageType) (payload : α) : Message :=
  ⟨id, type, some (Wire.encode payload), none⟩

/-- An error message. -/
def failure (id : String) (code : Int32) (text : String) : Message :=
  ⟨id, .error, none, some ⟨code, text⟩⟩

/-- Read the payload, if there is one, without a look at the type. -/
def payload? {α : Type} [Wire α] (m : Message) : Option (Option α) :=
  match m.payload with
  | none => some none
  | some v => (Wire.decode? v).map some

/-- Read the payload of a message that must be of the given type and no error. -/
def payloadAs (α : Type) [Wire α] (m : Message) (expected : MessageType) : Except MessageError α :=
  match m.error with
  | some detail => .error (.remote detail)
  | none =>
    if m.type ≠ expected then .error (.unexpectedType expected m.type)
    else
      match (m.payload? : Option (Option α)) with
      | none => .error .malformed
      | some none => .error (.missingPayload expected)
      | some (some a) => .ok a

end Message

end PullIngest
