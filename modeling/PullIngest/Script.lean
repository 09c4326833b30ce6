import PullIngest.Network

/-!
# Scripted clients

A client that is played by hand against a running server: it publishes what it is told to, lets
everything settle, and keeps the latest request of each session until it answers it.
-/

namespace PullIngest

/-- A system with the requests that are still to be answered. -/
structure Script where
  system : Network
  pending : Table String ChunkRequest := ∅

namespace Script

/-- The session and the request of a publication that asks for bytes. -/
def requestOf? (s : Network) (p : Publication) : Option (String × ChunkRequest) := do
  let id ← s.history.keys.find? fun id => (Channel.request id).name = p.channel
  if p.party = .server then
    let request ← (p.message.payloadAs ChunkRequest .chunkRequest).toOption
    some (id, request)
  else none

/-- Let the system change, and keep the requests that are published meanwhile. -/
def run (t : Script) (f : Network → Network) : Script :=
  let before := t.system.published.length
  let s := f t.system
  let new := (s.published.take (s.published.length - before)).reverse
  { system := s
    pending := (new.filterMap (requestOf? s)).foldl (fun p (id, r) => p.set id r) t.pending }

/-- Publish a message of the scripted client a number of times. -/
def publishTimes (s : Network) (channel : String) (m : Message) (times : Nat) : Network :=
  (List.range times).foldl (fun s _ => s.publish .outside channel m) s

/-- Publish a message a number of times and let everything settle. -/
def send (t : Script) (channel : String) (m : Message) (times : Nat) : Script :=
  t.run fun s => (publishTimes s channel m times).settle

/-- Publish the messages that are written in texts and let everything settle; for each text, whether
the bus took the message, and nothing for a text that is no message. -/
def sendTexts (t : Script) (channel : String) (texts : List String) : List (Option Bool) × Script :=
  let (taken, s) := texts.foldl (fun (taken, s) text =>
    match (Wire.ofText? text : Option Message) with
    | some m => (some (s.bus.accepts channel) :: taken, s.publish .outside channel m)
    | none => (none :: taken, s)) ([], t.system)
  (taken.reverse, { t with system := s }.run Network.settle)

/-- Open a mailbox that nobody reads. -/
def occupy (t : Script) (channel : String) : Script :=
  { t with system := { t.system with bus := (t.system.bus.subscribe channel).2 } }

/-- The part of a file that a request asks for. -/
def answer (data : List UInt8) (r : ChunkRequest) : ChunkResponse :=
  .ofBytes r.offset ((data.drop r.offset.toNat).take r.size.toNat)

/-- Answer up to `rounds` requests of a session from the bytes of a file, and let everything settle
after each. It ends when no request is left that was not answered. -/
def serve (session : String) (data : List UInt8) : (rounds : Nat) → Script → Script
  | 0, t => t
  | rounds + 1, t =>
    match t.pending.get? session with
    | none => t
    | some r =>
      serve session data rounds
        ({ t with pending := t.pending.erase session }.send (Channel.response session).name
          (.carrying session .chunkResponse (answer data r)) 1)

end Script

end PullIngest
