import PullIngest.Action
import PullIngest.Bus
import PullIngest.Duration
import PullIngest.Session
import PullIngest.Sink.Basic

/-!
# Coordinators

A coordinator drives one session from its start to its verdict: it asks for one range at a time,
hands the bytes to the sink, and tells the verdict. For a while after that it repeats the verdict
to a client that starts the session again. `Coordinator.step` is what it does with one event.
-/

namespace PullIngest

/-- The rules that hold for every session of a server. -/
structure Policy where
  /-- The most bytes that are asked for at once. -/
  chunkSize : UInt64 := 1048576
  /-- A session that makes no progress for so long fails. -/
  idleTimeout : Duration := .ofSeconds 30
  /-- How long a verdict is repeated. -/
  grace : Duration := .ofSeconds 5
  /-- The number of violations that are forgiven. -/
  maxViolations : UInt32 := 8
  deriving DecidableEq, Repr

/-- Why a session fails before its last byte. -/
inductive Abort where
  | idle (timeout : Duration)
  | cancelled (reason : String)
  | shutdown
  | violations (count : UInt32)
  | sink (cause : TransferError)
  | transfer (cause : TransferError)
  | bus (cause : BusError)
  | disconnected
  deriving DecidableEq, Repr

/-- The wording of a reason. -/
def Abort.message : Abort → String
  | .idle timeout => "no progress for " ++ timeout.text
  | .cancelled reason => "cancelled by client: " ++ reason
  | .shutdown => "server shutting down"
  | .violations count => toString count.toNat ++ " protocol violations"
  | .sink cause => "sink rejected chunk: " ++ cause.message
  | .transfer cause => cause.message
  | .bus cause => "bus error: " ++ cause.message
  | .disconnected => "session mailbox closed"

/-- How far a coordinator has come. Times are in milliseconds. -/
inductive Stage where
  /-- Bytes are missing, and the session fails at the deadline. -/
  | pulling (deadline : Nat)
  /-- The verdict is in and is repeated until the given time. -/
  | lingering (success : Bool) (expiry : Nat)
  | exited
  deriving DecidableEq, Repr

/-- One session on the server. -/
structure Coordinator where
  policy : Policy
  session : Session
  sink : Sink
  stage : Stage

/-- The mailboxes of a coordinator. -/
inductive Inbox where
  | start
  | response
  | cancel
  deriving DecidableEq, Repr

/-- What a coordinator reacts to. -/
inductive Event where
  | start (m : Message)
  | response (m : Message)
  | cancel (m : Message)
  /-- A mailbox is empty, and nothing will ever come. -/
  | closed (inbox : Inbox)
  /-- The time of `Coordinator.timer?` has come. -/
  | timer
  | shutdown

namespace Coordinator

/-- What a step leaves behind. -/
structure Turn where
  coordinator : Coordinator
  storage : Storage
  actions : List Action

/-- A coordinator of a new session. -/
def new (policy : Policy) (session : Session) (sink : Sink) (now : Nat) : Coordinator where
  policy
  session
  sink
  stage := .pulling (now + policy.idleTimeout.millis)

/-- When something happens by itself. -/
def timer? (c : Coordinator) : Option Nat :=
  match c.stage with
  | .pulling deadline => some deadline
  | .lingering _ expiry => some expiry
  | .exited => none

/-- A message of the session. -/
def tell {α : Type} [Wire α] (c : Coordinator) (type : MessageType) (payload : α) : Message :=
  .carrying c.session.id type payload

/-- Tell the verdict. A refusal by the bus is only logged. -/
def publishDone (c : Coordinator) (accepts : Channel → Bool) (success : Bool) : List Action :=
  let channel := Channel.done c.session.id
  .publish channel (c.tell .done (Done.mk success))
    :: if accepts channel then []
      else [.log ("ERROR failed to publish done: " ++ (Abort.bus (.full channel.name)).message)]

/-- End the session with a verdict, tell it, and begin to linger. -/
def conclude (c : Coordinator) (accepts : Channel → Bool) (now : Nat) (success : Bool)
    (storage : Storage) (actions : List Action) : Turn :=
  let c := { c with session := (c.session.finish success).2
                    stage := .lingering success (now + c.policy.grace.millis) }
  ⟨c, storage, actions ++ c.publishDone accepts success⟩

/-- Let the sink give the verdict on a complete file. -/
def finalize (c : Coordinator) (accepts : Channel → Bool) (now : Nat) (storage : Storage)
    (actions : List Action) : Turn :=
  let (verdict, sink, storage, log) := c.sink.finalize storage
  let warning := if verdict then [] else [Action.log "WARN sink rejected the transferred file"]
  { c with sink }.conclude accepts now verdict storage
    (actions ++ Action.logs log ++ Action.sink (.finalize verdict) :: warning)

/-- End the session without a complete file. -/
def abort (c : Coordinator) (accepts : Channel → Bool) (now : Nat) (storage : Storage)
    (actions : List Action) (why : Abort) : Turn :=
  let (sink, storage, log) := c.sink.fail storage why.message
  { c with sink }.conclude accepts now false storage
    (actions ++ Action.log ("WARN transfer failed: " ++ why.message) :: Action.logs log
      ++ [Action.sink (.fail why.message)])

/-- Ask for the next range, or end the session when none is left. -/
def requestNext (c : Coordinator) (accepts : Channel → Bool) (now : Nat) (storage : Storage)
    (actions : List Action) : Turn :=
  match c.session.nextRequest c.policy.chunkSize with
  | (.error e, session) => { c with session }.abort accepts now storage actions (.transfer e)
  | (.ok none, session) => { c with session }.finalize accepts now storage actions
  | (.ok (some r), session) =>
    let c := { c with session }
    let channel := Channel.request session.id
    let actions := actions ++ [.publish channel (c.tell .chunkRequest (ChunkRequest.mk r.offset r.size))]
    if accepts channel then ⟨c, storage, actions⟩
    else c.abort accepts now storage actions (.bus (.full channel.name))

/-- The session has made progress: it gets new time, and the next range is asked for. -/
def progress (c : Coordinator) (accepts : Channel → Bool) (now : Nat) (storage : Storage)
    (actions : List Action) : Turn :=
  { c with stage := .pulling (now + c.policy.idleTimeout.millis) }.requestNext accepts now storage
    actions

/-- Count a violation; the session fails when there are too many. -/
def violation (c : Coordinator) (accepts : Channel → Bool) (now : Nat) (storage : Storage)
    (text : String) : Turn :=
  let (count, session) := c.session.recordViolation
  let c := { c with session }
  let actions := [.log ("WARN protocol violation: " ++ text)]
  if c.policy.maxViolations < count then
    c.abort accepts now storage actions (.violations count)
  else ⟨c, storage, actions⟩

/-- Start the session. Only the first start counts. -/
def onStart (c : Coordinator) (accepts : Channel → Bool) (now : Nat) (storage : Storage) : Turn :=
  match c.session.start with
  | (.started, session) => { c with session }.progress accepts now storage []
  | (.alreadyStarted, _) => ⟨c, storage, []⟩

/-- Take a message that should carry the bytes of the outstanding range. -/
def onResponse (c : Coordinator) (accepts : Channel → Bool) (now : Nat) (storage : Storage)
    (m : Message) : Turn :=
  match m.payloadAs ChunkResponse .chunkResponse with
  | .error e => c.violation accepts now storage e.message
  | .ok response =>
    match response.bytes with
    | .error e => c.violation accepts now storage (TransferError.codec e).message
    | .ok data =>
      match c.session.acceptPayload response.offset response.size data.length with
      | (.error e, _) =>
        if e.isFatal then c.abort accepts now storage [] (.transfer e)
        else c.violation accepts now storage e.message
      | (.ok .stale, _) => ⟨c, storage, []⟩
      | (.ok (.advanced ..), session) =>
        let call := [Action.sink (.accept response.offset data)]
        match c.sink.accept storage response.offset data with
        | .error e => { c with session }.abort accepts now storage call (.sink e)
        | .ok (sink, storage) => { c with session, sink }.progress accepts now storage call

/-- The reason in a cancel message; an unreadable message gives none. -/
def cancelReason (m : Message) : String :=
  match m.payloadAs Cancel .cancel with
  | .ok c => c.reason
  | .error _ => ""

/-- Take one event. `accepts` tells whether the bus takes a message on a channel now. -/
def step (c : Coordinator) (accepts : Channel → Bool) (now : Nat) (storage : Storage)
    (e : Event) : Turn :=
  match c.stage, e with
  | .pulling _, .start _ => c.onStart accepts now storage
  | .pulling _, .response m => c.onResponse accepts now storage m
  | .pulling _, .cancel m => c.abort accepts now storage [] (.cancelled (cancelReason m))
  | .pulling _, .closed _ => c.abort accepts now storage [] .disconnected
  | .pulling _, .timer => c.abort accepts now storage [] (.idle c.policy.idleTimeout)
  | .pulling _, .shutdown => c.abort accepts now storage [] .shutdown
  | .lingering success _, .start _ => ⟨c, storage, c.publishDone accepts success⟩
  | .lingering .., .response _ => ⟨c, storage, []⟩
  | .lingering .., .cancel _ => ⟨c, storage, []⟩
  | .lingering .., .closed .start => ⟨{ c with stage := .exited }, storage, []⟩
  | .lingering .., .closed _ => ⟨c, storage, []⟩
  | .lingering .., .timer => ⟨{ c with stage := .exited }, storage, []⟩
  | .lingering .., .shutdown => ⟨{ c with stage := .exited }, storage, []⟩
  | .exited, _ => ⟨c, storage, []⟩

end Coordinator

end PullIngest
