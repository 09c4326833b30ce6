import PullIngest.Server
import PullIngest.Uploader

/-!
# Networks

A server, its coordinators and any number of uploaders on one bus, with a clock that moves only
when it is told to. `Network.run?` lets one task take one step; `Network.settle` runs all tasks
until none has anything left to do at the present time; `Network.advance` moves the clock and lets
timers fire when they are due. The server does not wait for the other tasks before it takes the next
request, but only up to its share: then they have their turns, even if it is about to look up a
session.
-/

namespace PullIngest

/-- Who publishes a message. -/
inductive Party where
  | server
  | client
  /-- Somebody outside the system. -/
  | outside
  deriving DecidableEq, Repr

/-- A message that was published. -/
structure Publication where
  party : Party
  channel : String
  message : Message
  time : Nat
  /-- Whether the bus refused it. -/
  refused : Bool

/-- A coordinator with its mailboxes and the correlation id of the request behind it. -/
structure SessionTask where
  correlation : String
  coordinator : Coordinator
  mailboxes : Table Channel Nat

/-- An uploader with its mailboxes. -/
structure UploadTask where
  uploader : Uploader
  mailboxes : Table Channel Nat := ∅

/-- How often the server may act before it gives way to the other tasks: it acts when it takes a
message, uses the registry, or notices that a coordinator has exited. -/
def fullShare : Nat := 128

/-- Everything that happens on one bus. -/
structure Network where
  now : Nat := 0
  bus : Bus Message := {}
  server : Server := {}
  storage : Storage := {}
  /-- The mailbox of the create channel, while the server runs. -/
  requests : Option Nat := none
  /-- The create request that the server has taken and not answered yet. -/
  inHand : Option Message := none
  /-- How often the server may still act before it gives way. -/
  share : Nat := fullShare
  stopping : Bool := false
  sessions : List SessionTask := []
  /-- The correlation ids of coordinators that have exited and are not forgotten yet. -/
  exited : List String := []
  uploads : List UploadTask := []
  nextId : Nat := 1
  /-- Every session there ever was, in its latest state, in the order in which they were opened. -/
  history : Table String Session := ∅
  /-- Whether publications are kept. -/
  recording : Bool := true
  /-- What was published, newest first. -/
  published : List Publication := []
  /-- What was logged, newest first. -/
  logged : List String := []

/-- The tasks of a system. -/
inductive Task where
  /-- The server answers the create request in hand. -/
  | answer
  /-- The server takes the next create request. -/
  | create
  /-- A coordinator takes the next message or its timer. -/
  | session (index : Nat)
  /-- The server forgets the request behind a coordinator that has exited. -/
  | reap
  /-- The server ends, once it is told to and every coordinator has exited. -/
  | stop
  | upload (index : Nat)
  /-- The server is given a new share, once all others have had their turns. -/
  | renew
  deriving DecidableEq, Repr

namespace Network

/-- A system whose server runs and waits for requests. -/
def start (server : Server) (disk : Disk) : Network :=
  let (requests, bus) := ({} : Bus Message).subscribe Channel.create.name
  { bus, server, storage := { disk }, requests := some requests }

/-- Whether the bus takes a message on a channel now. -/
def accepts (s : Network) (c : Channel) : Bool := s.bus.accepts c.name

/-! ### Actions -/

/-- Publish a message. -/
def publish (s : Network) (party : Party) (channel : String) (m : Message) : Network :=
  let lagging := s.bus.lagging channel
  let publication := ⟨party, channel, m, s.now, !s.bus.accepts channel⟩
  { s with bus := s.bus.publish channel m
           published := if s.recording then publication :: s.published else s.published
           logged := lagging.map (fun _ => Bus.laggingWarning) ++ s.logged }

/-- Carry out one action for a task with the given mailboxes. -/
def act (party : Party) (s : Network × Table Channel Nat) (a : Action) :
    Network × Table Channel Nat :=
  let (s, mailboxes) := s
  match a with
  | .publish channel m => (s.publish party channel.name m, mailboxes)
  | .subscribe channel =>
    let (mailbox, bus) := s.bus.subscribe channel.name
    ({ s with bus }, mailboxes.set channel mailbox)
  | .unsubscribe channel =>
    match mailboxes.get? channel with
    | some mailbox => ({ s with bus := s.bus.unsubscribe mailbox }, mailboxes.erase channel)
    | none => (s, mailboxes)
  | .sink _ => (s, mailboxes)
  | .log line => ({ s with logged := line :: s.logged }, mailboxes)

/-- Carry out the actions of a task in order. -/
def perform (s : Network) (party : Party) (mailboxes : Table Channel Nat) (actions : List Action) :
    Network × Table Channel Nat :=
  actions.foldl (act party) (s, mailboxes)

/-- Give up all mailboxes of a task. -/
def release (s : Network) (mailboxes : Table Channel Nat) : Network :=
  { s with bus := mailboxes.values.foldl (fun b m => b.unsubscribe m) s.bus }

/-- Take the next message out of one of a task's mailboxes. -/
def take? (s : Network) (mailboxes : Table Channel Nat) (channel : Channel) :
    Option (Message × Network) := do
  let mailbox ← mailboxes.get? channel
  let (m, bus) ← s.bus.take? mailbox
  some (m, { s with bus })

/-- Whether a time has come. -/
def isDue (s : Network) : Option Nat → Bool
  | some time => time ≤ s.now
  | none => false

/-! ### Steps of the tasks -/

/-- The id of the next session. -/
def freshId (n : Nat) : String :=
  let digits := Nat.toDigits 16 n
  "00000000-0000-4000-8000-" ++ String.ofList (List.replicate (12 - digits.length) '0' ++ digits)

/-- The server answers a create request, if its share lasts: the session that was opened for the
same id is looked up, and a new session is registered, or registered and struck out again. -/
def answerCreate? (s : Network) (request : Message) : Option Network :=
  let id := freshId s.nextId
  let turn := s.server.handleCreate s.accepts s.now s.storage id request
  let uses := (s.server.accepted.get? request.id).toList.length + turn.entries
  if s.share < uses then none
  else
    let s := { s with server := turn.server, storage := turn.storage, inHand := none
                      share := s.share - uses, nextId := s.nextId + 1 }
    let (s, mailboxes) := s.perform .server ∅ turn.actions
    match turn.opened with
    | none => some s
    | some coordinator =>
      some { s with sessions := s.sessions ++ [⟨request.id, coordinator, mailboxes⟩]
                    history := s.history.set id coordinator.session }

/-- What a coordinator reacts to next, and the system without it. -/
def nextEvent? (s : Network) (t : SessionTask) : Option (Event × Network) :=
  let id := t.coordinator.session.id
  if s.stopping then some (.shutdown, s)
  else
    match s.take? t.mailboxes (.start id) with
    | some (m, s) => some (.start m, s)
    | none =>
      match s.take? t.mailboxes (.response id) with
      | some (m, s) => some (.response m, s)
      | none =>
        match s.take? t.mailboxes (.cancel id) with
        | some (m, s) => some (.cancel m, s)
        | none =>
          if !s.bus.isOpen then some (.closed .start, s)
          else if s.isDue t.coordinator.timer? then some (.timer, s)
          else none

/-- A coordinator takes an event. One that exits is struck out and gives up its mailboxes. -/
def runSession (s : Network) (index : Nat) (t : SessionTask) (e : Event) : Network :=
  let turn := t.coordinator.step s.accepts s.now s.storage e
  let session := turn.coordinator.session
  let s := { s with storage := turn.storage
                    server := s.server.report session
                    history := s.history.set session.id session }
  let (s, mailboxes) := s.perform .server t.mailboxes turn.actions
  match turn.coordinator.stage with
  | .exited =>
    let s := s.release mailboxes
    { s with server := s.server.unregister session.id
             sessions := s.sessions.eraseIdx index
             exited := s.exited ++ [t.correlation] }
  | _ => { s with sessions := s.sessions.set index ⟨t.correlation, turn.coordinator, mailboxes⟩ }

/-- What an uploader reacts to next, and the system without it. -/
def nextUploadEvent? (s : Network) (t : UploadTask) : Option (UploadEvent × Network) :=
  match t.uploader.stage with
  | .waiting => some (.begin, s)
  | .creating _ =>
    match s.take? t.mailboxes (.reply t.uploader.correlation) with
    | some (m, s) => some (.reply m, s)
    | none => if s.isDue t.uploader.timer? then some (.timer, s) else none
  | .transferring transfer =>
    match s.take? t.mailboxes (.done transfer.session) with
    | some (m, s) => some (.done m, s)
    | none =>
      match s.take? t.mailboxes (.request transfer.session) with
      | some (m, s) => some (.request m, s)
      | none => if s.isDue t.uploader.timer? then some (.timer, s) else none
  | .finished _ => none

/-- An uploader takes an event. One that is finished gives up its mailboxes. -/
def runUpload (s : Network) (index : Nat) (t : UploadTask) (e : UploadEvent) : Network :=
  let (uploader, actions) := t.uploader.step s.accepts s.now s.storage.disk e
  let (s, mailboxes) := s.perform .client t.mailboxes actions
  match uploader.stage with
  | .finished _ => { s.release mailboxes with uploads := s.uploads.set index { uploader } }
  | _ => { s with uploads := s.uploads.set index { uploader, mailboxes } }

/-- Let a task take one step, if it has anything to do. -/
def run? (s : Network) : Task → Option Network
  | .answer => do s.answerCreate? (← s.inHand)
  | .create => do
    let mailbox ← s.requests
    if s.stopping ∨ s.inHand.isSome ∨ s.share = 0 then none
    else
      let (request, bus) ← s.bus.take? mailbox
      some { s with bus, inHand := some request, share := s.share - 1 }
  | .session index => do
    let t ← s.sessions[index]?
    let (e, s) ← s.nextEvent? t
    some (s.runSession index t e)
  | .reap =>
    match s.exited with
    | correlation :: rest =>
      if s.inHand.isSome ∨ s.share = 0 then none
      else some { s with server := s.server.reap correlation, exited := rest, share := s.share - 1 }
    | [] => none
  | .stop => do
    let mailbox ← s.requests
    if s.stopping ∧ s.inHand.isNone ∧ s.sessions.isEmpty ∧ s.exited.isEmpty then
      some { s with bus := s.bus.unsubscribe mailbox, requests := none }
    else none
  | .upload index => do
    let t ← s.uploads[index]?
    let (e, s) ← s.nextUploadEvent? t
    some (s.runUpload index t e)
  | .renew => if s.share < fullShare then some { s with share := fullShare } else none

/-! ### Running -/

/-- All tasks, in the order in which they are offered a step. The server goes on until it waits or
its share is used up. -/
def tasks (s : Network) : List Task :=
  [.answer, .reap, .create] ++ (List.range s.sessions.length).map .session ++ [.stop]
    ++ (List.range s.uploads.length).map .upload ++ [.renew]

/-- Let the first task that has anything to do take a step. -/
def step? (s : Network) : Option Network := s.tasks.findSome? s.run?

/-- Take up to `n` steps. -/
def steps : (n : Nat) → Network → Network
  | 0, s => s
  | n + 1, s =>
    match s.step? with
    | some s => steps n s
    | none => s

/-- The number of unread messages. -/
def unread (s : Network) : Nat := s.bus.mailboxes.values.foldl (fun n ms => n + ms.length) 0

/-- More steps than an upload leads to: each range takes a request and a response. -/
def UploadTask.budget (chunkSize : UInt64) (t : UploadTask) : Nat :=
  64 + 8 * (t.uploader.source.length.toNat / max chunkSize.toNat 1)

/-- More steps than there are before every task waits for a message from outside or for the clock:
every message leads to a few steps, every task ends in a few, and every upload asks for its own. -/
def budget (s : Network) : Nat :=
  64 + 8 * (s.unread + s.sessions.length + s.exited.length)
    + s.uploads.foldl (fun n t => n + UploadTask.budget s.server.policy.chunkSize t) 0

/-- Run until nothing is left to do at the present time. -/
def settle (s : Network) : Network := steps s.budget s

/-- All timers that are set. -/
def timers (s : Network) : List Nat :=
  s.sessions.filterMap (fun t => t.coordinator.timer?)
    ++ s.uploads.filterMap fun t => t.uploader.timer?

/-- The next timer that fires no later than `limit`. -/
def nextTimer? (s : Network) (limit : Nat) : Option Nat := (s.timers.filter (· ≤ limit)).min?

/-- Let up to `n` timers fire, each at its time and no later than `limit`. -/
def fire (limit : Nat) : (n : Nat) → Network → Network
  | 0, s => s
  | n + 1, s =>
    match s.nextTimer? limit with
    | some time => fire limit n { s with now := max s.now time }.settle
    | none => s

/-- Move the clock. Every session and every upload has a few timers at most. -/
def advance (s : Network) (millis : Nat) : Network :=
  let limit := s.now + millis
  let s := fire limit (4 * (s.sessions.length + s.uploads.length) + 4) s.settle
  { s with now := limit }.settle

/-- Tell the server to stop, and run until it has. -/
def shutdown (s : Network) : Network := { s with stopping := true }.settle

/-- Whether the server has stopped. -/
def hasStopped (s : Network) : Bool := s.requests.isNone

/-! ### Uploads -/

/-- Add an upload that has not begun. -/
def addUpload (s : Network) (u : Uploader) : Network :=
  { s with uploads := s.uploads ++ [{ uploader := u }] }

/-- Let an upload begin. -/
def beginUpload (s : Network) (index : Nat) : Network := (s.run? (.upload index)).getD s

/-- Whether every upload has ended. -/
def uploadsDone (s : Network) : Bool := s.uploads.all fun t => t.uploader.result?.isSome

/-- Run until every upload has ended. When everything waits, the clock moves to the next timer. -/
def finishUploads : (n : Nat) → Network → Network
  | 0, s => s
  | n + 1, s =>
    let s := s.settle
    if s.uploadsDone then s
    else
      match s.timers.min? with
      | some time => finishUploads n { s with now := max s.now time }
      | none => s

/-- Begin the uploads from `index` on, all before any of them goes on, and run them to their
ends. -/
def runUploads (s : Network) (uploads : List Uploader) : Network :=
  let first := s.uploads.length
  let s := uploads.foldl addUpload s
  let s := (List.range uploads.length).foldl (fun s i => s.beginUpload (first + i)) s
  finishUploads (4 * (s.sessions.length + s.uploads.length) + 16) s

end Network

end PullIngest
