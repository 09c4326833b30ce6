import PullIngest.Coordinator
import PullIngest.Registry

/-!
# The server

The server answers create requests. A request that makes sense gets a session with a coordinator
of its own; one that is repeated while its session lives gets the same answer again.
-/

namespace PullIngest

/-- What the server knows about all its sessions. -/
structure Server where
  policy : Policy := {}
  destination : Destination := .memory false none
  registry : Registry := {}
  /-- The sessions by the correlation ids of the requests that opened them. -/
  accepted : Table String String := ∅

namespace Server

/-- The session that was opened for a correlation id, if it still lives. -/
def acceptedSession? (s : Server) (correlation : String) : Option String :=
  (s.accepted.get? correlation).bind fun id => if s.registry.has id then some id else none

/-- Register a session under a fresh id. -/
def register (s : Server) (fresh : String) (create : CreateSession) : Server :=
  { s with registry := s.registry.create fresh create.name create.size }

/-- Strike out a session that has no sink, or whose coordinator exits. -/
def unregister (s : Server) (session : String) : Server :=
  { s with registry := s.registry.remove session }

/-- What the answer to a create request leaves behind. -/
structure Turn where
  server : Server
  storage : Storage
  actions : List Action
  /-- The coordinator of the session that was opened. -/
  opened : Option Coordinator := none
  /-- How often a session was registered or struck out. -/
  entries : Nat := 0

/-- Send an answer. A refusal by the bus is only logged. -/
def reply (accepts : Channel → Bool) (answer : Message) : List Action :=
  let channel := Channel.reply answer.id
  .publish channel answer
    :: if accepts channel then []
      else [.log ("WARN failed to publish reply: " ++ (BusError.full channel.name).message)]

/-- The answer that tells the id of a session. -/
def createdReply (request : Message) (session : String) : Message :=
  .carrying request.id .sessionCreated (SessionCreated.mk session)

/-- How a failure to open a sink is answered: the code, and the beginning of what is logged. -/
def refusal : TransferError → Int32 × String
  | .conflict _ => (ErrorDetail.conflict, "WARN rejecting create request: ")
  | _ => (ErrorDetail.internal, "ERROR failed to open sink: ")

/-- Refuse a request. -/
def refuse (s : Server) (accepts : Channel → Bool) (storage : Storage) (request : Message)
    (code : Int32) (line text : String) : Turn where
  server := s
  storage
  actions := .log (line ++ text) :: reply accepts (.failure request.id code text)

/-- Open a session under a fresh id, with its sink and its three channels. The session is
registered first, and struck out again when there is no sink for it. -/
def openSession (s : Server) (accepts : Channel → Bool) (now : Nat) (storage : Storage)
    (fresh : String) (request : Message) (create : CreateSession) : Turn :=
  let registered := s.register fresh create
  match s.destination.openSink fresh create.name create.size storage with
  | (.error e, storage) =>
    { (registered.unregister fresh).refuse accepts storage request (refusal e).1 (refusal e).2
        e.message with entries := 2 }
  | (.ok sink, storage) =>
    { server := { registered with accepted := s.accepted.set request.id fresh }
      storage
      actions := [.subscribe (.start fresh), .subscribe (.response fresh),
        .subscribe (.cancel fresh)] ++ reply accepts (createdReply request fresh)
      opened := some (.new s.policy (.new fresh create.name create.size) sink now)
      entries := 1 }

/-- Answer a create request. -/
def handleCreate (s : Server) (accepts : Channel → Bool) (now : Nat) (storage : Storage)
    (fresh : String) (request : Message) : Turn :=
  match s.acceptedSession? request.id with
  | some session =>
    { server := s, storage, actions := reply accepts (createdReply request session) }
  | none =>
    match request.payloadAs CreateSession .createSession with
    | .error e =>
      s.refuse accepts storage request ErrorDetail.badRequest
        "WARN malformed create request: " e.message
    | .ok create =>
      match Name.validate create.name with
      | .error e =>
        s.refuse accepts storage request ErrorDetail.badRequest
          "WARN rejecting create request: " e.message
      | .ok () => s.openSession accepts now storage fresh request create

/-- Show the latest state of a session to status reports. -/
def report (s : Server) (session : Session) : Server :=
  { s with registry := s.registry.update session }

/-- Forget the request behind a coordinator that has exited. -/
def reap (s : Server) (correlation : String) : Server :=
  { s with accepted := s.accepted.erase correlation }

end Server

end PullIngest
