import PullIngest.Error

/-!
# Sessions

A session takes in one file of a declared size, one range at a time. The server asks for a range,
and only the response to exactly that range moves the session on. Everything else a session is
asked to do leaves it as it is, apart from counting violations.
-/

namespace PullIngest

/-- The bytes from `offset` on, `size` of them. -/
structure ByteRange where
  offset : UInt64
  size : UInt64
  deriving DecidableEq, Repr

/-- The offset behind the last byte. -/
def ByteRange.stop (r : ByteRange) : UInt64 := r.offset + r.size

/-- One file on its way in. -/
structure Session where
  id : String
  name : String
  declaredSize : UInt64
  phase : Phase := .created
  delivered : UInt64 := 0
  outstanding : Option ByteRange := none
  violations : UInt32 := 0
  deriving DecidableEq, Repr

/-- What a start does to a session. -/
inductive StartResult where
  | started
  | alreadyStarted
  deriving DecidableEq, Repr

/-- What a response does to a session. -/
inductive ResponseResult where
  /-- The response answers the outstanding request. -/
  | advanced (delivered : UInt64) (complete : Bool)
  /-- The response answers no request that is still open. -/
  | stale
  deriving DecidableEq, Repr

namespace Session

/-- A session that nobody has started. -/
def new (id name : String) (size : UInt64) : Session where
  id
  name
  declaredSize := size

/-- Start a session. Only the first start does anything. -/
def start (s : Session) : StartResult × Session :=
  if s.phase = .created then (.started, { s with phase := .started }) else (.alreadyStarted, s)

/-- The range to ask for next: the one that is outstanding, or else the next `chunk` bytes, or
fewer at the end of the file. There is none once all bytes have arrived. -/
def nextRequest (s : Session) (chunk : UInt64) :
    Except TransferError (Option ByteRange) × Session :=
  if chunk = 0 then (.error .invalidChunkSize, s)
  else
    match s.phase with
    | .created => (.error (.invalidState s.phase), s)
    | .done _ => (.error (.invalidState s.phase), s)
    | .awaitingResponse => (.ok s.outstanding, s)
    | .started | .requesting =>
      let remaining := s.declaredSize - s.delivered
      if remaining = 0 then (.ok none, s)
      else
        let range := ⟨s.delivered, min remaining chunk⟩
        (.ok (some range), { s with outstanding := some range, phase := .awaitingResponse })

/-- Whether a range lies in the file, without wrapping around. -/
def inBounds (s : Session) (offset size : UInt64) : Bool :=
  offset.toNat + size.toNat < UInt64.size && offset < s.declaredSize
    && offset + size ≤ s.declaredSize

/-- Take a response for a range, whose payload holds `held` bytes. -/
def acceptPayload (s : Session) (offset size : UInt64) (held : Nat) :
    Except TransferError ResponseResult × Session :=
  if s.phase.isDone then (.ok .stale, s)
  else if !s.inBounds offset size then (.error (.range offset size s.declaredSize), s)
  else if s.outstanding ≠ some ⟨offset, size⟩ then (.ok .stale, s)
  else if held ≠ size.toNat then (.error (.violation (.payloadLength held size)), s)
  else
    let delivered := s.delivered + size
    (.ok (.advanced delivered (delivered = s.declaredSize)),
      { s with delivered, outstanding := none, phase := .requesting })

/-- Take a response whose payload was measured in 64 bits. -/
def acceptResponse (s : Session) (offset size held : UInt64) :
    Except TransferError ResponseResult × Session :=
  s.acceptPayload offset size held.toNat

/-- Count one more violation. -/
def recordViolation (s : Session) : UInt32 × Session :=
  let violations := s.violations + 1
  (violations, { s with violations })

/-- Give the verdict. Only the first verdict counts. -/
def finish (s : Session) (success : Bool) : Bool × Session :=
  if s.phase.isDone then (false, s)
  else (true, { s with phase := .done (.ofBool success), outstanding := none })

/-- The verdict, once it is in. -/
def outcome? (s : Session) : Option Outcome :=
  match s.phase with
  | .done o => some o
  | _ => none

/-- The view of a session for status reports. The time of creation is left to who knows it. -/
def progress (s : Session) (createdAt : String) : Progress where
  sessionId := s.id
  name := s.name
  phase := s.phase
  declaredSize := s.declaredSize
  bytesDelivered := s.delivered
  createdAt

/-- Ask for the next range and answer it in full. -/
def pull (s : Session) (chunk : UInt64) : Except TransferError (Option ByteRange) × Session :=
  match s.nextRequest chunk with
  | (.ok (some r), s) => (.ok (some r), (s.acceptResponse r.offset r.size r.size).2)
  | (answer, s) => (answer, s)

/-- Pull up to `rounds` ranges, until none is left; the ranges, or the first error. -/
def pullAll (chunk : UInt64) : (rounds : Nat) → Session → List ByteRange →
    Except TransferError (List ByteRange) × Session
  | 0, s, done => (.ok done.reverse, s)
  | rounds + 1, s, done =>
    match s.pull chunk with
    | (.ok (some r), s) => pullAll chunk rounds s (r :: done)
    | (.ok none, s) => (.ok done.reverse, s)
    | (.error e, s) => (.error e, s)

/-- Pull every range that is left. Each takes at least one byte, so there are no more ranges than
bytes, and one round more sees that none is left. -/
def drain (s : Session) (chunk : UInt64) : Except TransferError (List ByteRange) × Session :=
  pullAll chunk (s.declaredSize.toNat - s.delivered.toNat + 1) s []

end Session

end PullIngest
