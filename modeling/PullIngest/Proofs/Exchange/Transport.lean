import PullIngest.Proofs.Server.Create
import PullIngest.Proofs.Uploader.Step

/-!
# An upload over a bad transport

One uploader, the server that it asks for a session, and the coordinator of the session that is
opened. Whatever is published is kept, and the transport hands it out as it likes: late, in any
order, more than once or never. Times, disks and what the bus takes are arbitrary in every step.

* `Exchange`, `Step`, `Reachable`: states, steps and runs;
* `Unusable`: responses that the transport may make up;
* `Sees`: the file does not change while it is uploaded.
-/

namespace PullIngest

open Action

/-- An uploader, the server, and the session that is opened between them. -/
structure Exchange where
  client : Uploader
  server : Server
  /-- The coordinator of the session, once it is open. It stays when it has exited. -/
  session : Option Coordinator := none
  storage : Storage
  /-- Everything that was published. -/
  sent : List (Channel × Message) := []

/-- A response that is no response, whose payload cannot be decoded, or whose payload is longer or
shorter than it says. -/
def Unusable (m : Message) : Prop :=
  ∀ (r : ChunkResponse) (data : List UInt8),
    m.payloadAs ChunkResponse .chunkResponse = .ok r → r.bytes = .ok data →
      data.length ≠ r.size.toNat

/-- A disk on which the file with a number holds these bytes. -/
def Sees (number : ℕ) (file : List UInt8) (d : Disk) : Prop := d.read number = file

namespace Exchange

/-- What may reach the uploader: a verdict must have been published. Replies and requests may come
from anywhere. -/
def ReachesClient (x : Exchange) : UploadEvent → Prop
  | .done m => ∀ t, x.client.stage = .transferring t → (.done t.session, m) ∈ x.sent
  | _ => True

/-- What may reach the coordinator: a response must have been published, unless it is unusable.
Starts, cancels, timeouts and the end of the server may come at any time. -/
def ReachesSession (x : Exchange) (c : Coordinator) : Event → Prop
  | .response m => (.response c.session.id, m) ∈ x.sent ∨ Unusable m
  | _ => True

/-- What other sessions may do to the storage: in memory they keep away from what is kept for this
one, and a directory has no other sessions. -/
def Undisturbed (x : Exchange) (s : Storage) : Prop :=
  (∃ reject refuseFrom, x.server.destination = .memory reject refuseFrom) ∧
    ∀ c, x.session = some c →
      s.completed.get? c.session.id = x.storage.completed.get? c.session.id

/-- The exchange after a step of the uploader. -/
def clientTurn (x : Exchange) (accepts : Channel → Bool) (now : ℕ) (d : Disk) (e : UploadEvent) :
    Exchange :=
  let (client, actions) := x.client.step accepts now d e
  { x with client, sent := x.sent ++ published actions }

/-- The exchange after the server has answered a create request. -/
def createTurn (x : Exchange) (accepts : Channel → Bool) (now : ℕ) (fresh : String)
    (request : Message) : Exchange :=
  let t := x.server.handleCreate accepts now x.storage fresh request
  { x with server := t.server, session := t.opened, storage := t.storage
           sent := x.sent ++ published t.actions }

/-- The exchange after a step of the coordinator. -/
def sessionTurn (x : Exchange) (c : Coordinator) (accepts : Channel → Bool) (now : ℕ)
    (e : Event) : Exchange :=
  let t := c.take ⟨e, accepts, now, x.storage⟩
  { x with session := some t.coordinator, storage := t.storage
           sent := x.sent ++ published t.actions }

/-- The steps of an exchange. A create request that comes again while the session is registered is
answered like the first one, and the transport can repeat that answer by itself. -/
inductive Step (number : ℕ) (file : List UInt8) : Exchange → Exchange → Prop
  | client {x : Exchange} (e : UploadEvent) (he : x.ReachesClient e) (accepts : Channel → Bool)
      (now : ℕ) {d : Disk} (hd : Sees number file d) :
      Step number file x (x.clientTurn accepts now d e)
  | create {x : Exchange} (hx : x.session = none) {m : Message} (hm : (.create, m) ∈ x.sent)
      (accepts : Channel → Bool) (now : ℕ) (fresh : String) :
      Step number file x (x.createTurn accepts now fresh m)
  | session {x : Exchange} {c : Coordinator} (hx : x.session = some c) (e : Event)
      (he : x.ReachesSession c e) (accepts : Channel → Bool) (now : ℕ) :
      Step number file x (x.sessionTurn c accepts now e)
  | others {x : Exchange} {s : Storage} (hs : x.Undisturbed s) :
      Step number file x { x with storage := s }

/-- What can be reached from a state, in any order of steps. -/
inductive Reachable (number : ℕ) (file : List UInt8) (x₀ : Exchange) : Exchange → Prop
  | start : Reachable number file x₀ x₀
  | step {x y : Exchange} (h : Reachable number file x₀ x) (hs : Step number file x y) :
      Reachable number file x₀ y

/-- An uploader and a server, in whatever state, that have not met. -/
def fresh (client : Uploader) (server : Server) (storage : Storage) : Exchange :=
  { client, server, storage }

end Exchange

end PullIngest
