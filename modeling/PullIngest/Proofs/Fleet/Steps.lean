import Mathlib.Algebra.Order.Floor.Div
import Mathlib.Data.Fintype.BigOperators
import PullIngest.Proofs.Bus.Inboxes
import PullIngest.Proofs.Coordinator.Turn

/-!
# Many uploads on one bus

A server, its coordinators and any number of uploaders on one bus. A task decides what to do when
it takes an event and then carries out one action at a time; between any two actions the other
tasks may do anything.

* `Fleet`: the state, with what every task still has to do;
* `Step`: the steps, each on behalf of one create request;
* `measure`: how much there is left to do.
-/

namespace PullIngest

open Action

/-- An uploader with its mailboxes and with what is left of its turn. -/
structure Upload where
  uploader : Uploader
  mailboxes : Table Channel ℕ := ∅
  todo : List Action := []

/-- A coordinator with its mailboxes and with what is left of its turn. -/
structure Run where
  coordinator : Coordinator
  mailboxes : Table Channel ℕ
  todo : List Action := []

/-- What the server is at. -/
inductive Desk where
  | idle
  | holding (request : Message)
  /-- The coordinator of a session that was opened begins after the last action. -/
  | answering (correlation : String) (todo : List Action) (mailboxes : Table Channel ℕ)
      (opened : Option Coordinator)

/-- The id of the create request that the server is at. -/
def Desk.correlation? : Desk → Option String
  | idle => none
  | holding request => some request.id
  | answering correlation .. => some correlation

/-- Everything that happens on one bus with `k` uploaders. -/
structure Fleet (k : ℕ) where
  bus : Bus Message
  server : Server
  storage : Storage
  /-- The mailbox of the create channel. -/
  requests : ℕ
  desk : Desk := .idle
  /-- The coordinators that run, by the ids of the create requests behind them. -/
  runs : String → List Run := fun _ => []
  /-- The request ids of coordinators that have exited and are not reaped yet. -/
  exited : List String := []
  uploads : Fin k → Upload
  /-- The session ids that were drawn, each behind the id of the request it was drawn for. -/
  issued : List (String × String) := []
  /-- What was published. -/
  sent : List (Channel × Message) := []

/-- What an uploader can take an event from. -/
inductive Upload.Hears (b : Bus Message) (u : Upload) : UploadEvent → Bus Message → Prop
  | begin (hs : u.uploader.stage = .waiting) : Hears b u .begin b
  | reply {deadline : ℕ} (hs : u.uploader.stage = .creating deadline) {m : Message}
      {b' : Bus Message} (hm : b.Hears u.mailboxes (.reply u.uploader.correlation) m b') :
      Hears b u (.reply m) b'
  | request {t : Transfer} (hs : u.uploader.stage = .transferring t) {m : Message}
      {b' : Bus Message} (hm : b.Hears u.mailboxes (.request t.session) m b') :
      Hears b u (.request m) b'
  | done {t : Transfer} (hs : u.uploader.stage = .transferring t) {m : Message}
      {b' : Bus Message} (hm : b.Hears u.mailboxes (.done t.session) m b') :
      Hears b u (.done m) b'

/-- What a coordinator can take an event from: a message, or the end of the time in which it
repeats its verdict. -/
inductive Run.Hears (b : Bus Message) (r : Run) : Event → Bus Message → Prop
  | start (hs : r.coordinator.stage ≠ .exited) {m : Message} {b' : Bus Message}
      (hm : b.Hears r.mailboxes (.start r.coordinator.session.id) m b') : Hears b r (.start m) b'
  | response (hs : r.coordinator.stage ≠ .exited) {m : Message} {b' : Bus Message}
      (hm : b.Hears r.mailboxes (.response r.coordinator.session.id) m b') :
      Hears b r (.response m) b'
  | cancel (hs : r.coordinator.stage ≠ .exited) {m : Message} {b' : Bus Message}
      (hm : b.Hears r.mailboxes (.cancel r.coordinator.session.id) m b') : Hears b r (.cancel m) b'
  | grace {success : Bool} {expiry : ℕ} (hs : r.coordinator.stage = .lingering success expiry) :
      Hears b r .timer b

namespace Fleet

variable {k : ℕ}

/-- A server that waits for requests, and uploaders that have not begun. -/
def start (policy : Policy) (storage : Storage) (uploaders : Fin k → Uploader) : Fleet k where
  bus := (({} : Bus Message).subscribe Channel.create.name).2
  server := { policy }
  storage
  requests := (({} : Bus Message).subscribe Channel.create.name).1
  uploads i := { uploader := uploaders i }

/-- The id of the create request of an uploader. -/
def correlation (s : Fleet k) (i : Fin k) : String := (s.uploads i).uploader.correlation

/-! ### Turns and actions of the tasks -/

/-- An uploader has taken an event from the bus, which `b` is after that. -/
def uploadTurn (s : Fleet k) (i : Fin k) (e : UploadEvent) (b : Bus Message) (now : ℕ) : Fleet k :=
  let r := (s.uploads i).uploader.step b.takes now s.storage.disk e
  { s with bus := b
           uploads := Function.update s.uploads i
             { s.uploads i with uploader := r.1, todo := r.2 } }

/-- An uploader does the next thing of its turn. -/
def uploadAct (s : Fleet k) (i : Fin k) (a : Action) (rest : List Action) : Fleet k :=
  let r := s.bus.carry (s.uploads i).mailboxes a
  { s with bus := r.1
           uploads := Function.update s.uploads i
             { s.uploads i with mailboxes := r.2, todo := rest }
           sent := s.sent ++ published [a] }

/-- An uploader that has returned gives up its mailboxes. -/
def uploadLeave (s : Fleet k) (i : Fin k) : Fleet k :=
  { s with bus := s.bus.release (s.uploads i).mailboxes
           uploads := Function.update s.uploads i { s.uploads i with mailboxes := ∅ } }

/-- The server answers a create request, with a fresh id at hand. -/
def answer (s : Fleet k) (m : Message) (fresh : String) (now : ℕ) : Fleet k :=
  let t := s.server.handleCreate s.bus.takes now s.storage fresh m
  { s with server := t.server, storage := t.storage
           desk := .answering m.id t.actions ∅ t.opened
           issued := (m.id, fresh) :: s.issued }

/-- The server does the next thing of its answer. -/
def deskAct (s : Fleet k) (key : String) (a : Action) (rest : List Action)
    (mailboxes : Table Channel ℕ) (opened : Option Coordinator) : Fleet k :=
  let r := s.bus.carry mailboxes a
  { s with bus := r.1, desk := .answering key rest r.2 opened, sent := s.sent ++ published [a] }

/-- The server is done with its answer. -/
def launch (s : Fleet k) (key : String) (mailboxes : Table Channel ℕ)
    (opened : Option Coordinator) : Fleet k :=
  { s with desk := .idle
           runs := Function.update s.runs key
             (s.runs key ++ (opened.map fun c => ⟨c, mailboxes, []⟩).toList) }

/-- A coordinator has taken an event from the bus, which `b` is after that. -/
def runTurn (s : Fleet k) (key : String) (before : List Run) (r : Run) (after : List Run)
    (e : Event) (b : Bus Message) (now : ℕ) : Fleet k :=
  let t := r.coordinator.step b.takes now s.storage e
  { s with bus := b, storage := t.storage
           server := s.server.report t.coordinator.session
           runs := Function.update s.runs key
             (before ++ { r with coordinator := t.coordinator, todo := t.actions } :: after) }

/-- A coordinator does the next thing of its turn. -/
def runAct (s : Fleet k) (key : String) (before : List Run) (r : Run) (after : List Run)
    (a : Action) (rest : List Action) : Fleet k :=
  let c := s.bus.carry r.mailboxes a
  { s with bus := c.1
           runs := Function.update s.runs key
             (before ++ { r with mailboxes := c.2, todo := rest } :: after)
           sent := s.sent ++ published [a] }

/-- A coordinator exits. -/
def runLeave (s : Fleet k) (key : String) (before : List Run) (r : Run) (after : List Run) :
    Fleet k :=
  { s with bus := s.bus.release r.mailboxes
           server := s.server.unregister r.coordinator.session.id
           runs := Function.update s.runs key (before ++ after)
           exited := s.exited ++ [key] }

/-! ### Steps -/

/-- The steps, each on behalf of a create request. Who takes an event has done everything that its
last turn left to do. -/
inductive Step (s : Fleet k) : String → Fleet k → Prop
  | uploadTurn {i : Fin k} (ht : (s.uploads i).todo = []) {e : UploadEvent} {b : Bus Message}
      (he : (s.uploads i).Hears s.bus e b) (now : ℕ) :
      Step s (s.correlation i) (s.uploadTurn i e b now)
  | uploadAct {i : Fin k} {a : Action} {rest : List Action} (ht : (s.uploads i).todo = a :: rest) :
      Step s (s.correlation i) (s.uploadAct i a rest)
  | uploadLeave {i : Fin k} (ht : (s.uploads i).todo = [])
      (hr : (s.uploads i).uploader.result?.isSome) (hm : (s.uploads i).mailboxes.keys ≠ []) :
      Step s (s.correlation i) (s.uploadLeave i)
  /-- The server takes the next create request. -/
  | take (hd : s.desk = .idle) {m : Message} {b : Bus Message}
      (hm : s.bus.take? s.requests = some (m, b)) :
      Step s m.id { s with bus := b, desk := .holding m }
  | answer {m : Message} (hd : s.desk = .holding m) {fresh : String}
      (hf : fresh ∉ s.issued.map Prod.snd) (now : ℕ) : Step s m.id (s.answer m fresh now)
  | deskAct {key : String} {a : Action} {rest : List Action} {mailboxes : Table Channel ℕ}
      {opened : Option Coordinator} (hd : s.desk = .answering key (a :: rest) mailboxes opened) :
      Step s key (s.deskAct key a rest mailboxes opened)
  | launch {key : String} {mailboxes : Table Channel ℕ} {opened : Option Coordinator}
      (hd : s.desk = .answering key [] mailboxes opened) :
      Step s key (s.launch key mailboxes opened)
  /-- The server forgets the request behind a coordinator that has exited. -/
  | reap (hd : s.desk = .idle) {before after : List String} {key : String}
      (hx : s.exited = before ++ key :: after) :
      Step s key { s with server := s.server.reap key, exited := before ++ after }
  | runTurn {key : String} {before after : List Run} {r : Run}
      (hr : s.runs key = before ++ r :: after) (ht : r.todo = []) {e : Event} {b : Bus Message}
      (he : r.Hears s.bus e b) (now : ℕ) : Step s key (s.runTurn key before r after e b now)
  | runAct {key : String} {before after : List Run} {r : Run} {a : Action} {rest : List Action}
      (hr : s.runs key = before ++ r :: after) (ht : r.todo = a :: rest) :
      Step s key (s.runAct key before r after a rest)
  | runLeave {key : String} {before after : List Run} {r : Run}
      (hr : s.runs key = before ++ r :: after) (ht : r.todo = [])
      (hx : r.coordinator.stage = .exited) : Step s key (s.runLeave key before r after)

/-- What can be reached from a state, in any order of steps. -/
inductive Reachable (s₀ : Fleet k) : Fleet k → Prop
  | start : Reachable s₀ s₀
  | step {s s' : Fleet k} (h : Reachable s₀ s) {key : String} (hs : Step s key s') :
      Reachable s₀ s'

/-! ### What is left to do -/

/-- The create requests with an id that the server has not taken. -/
def calls (s : Fleet k) (key : String) : List Message :=
  ((s.bus.on .create).flatMap Prod.snd).filter fun m => m.id = key

/-- How often a range was asked for in a session. -/
def asked (s : Fleet k) (id : String) : ℕ := s.sent.countP fun p => p.1 = .request id

end Fleet

/-- What a message on a channel leads to: more than the one who takes it does in its turn. -/
def Channel.load : Channel → ℕ
  | create => 22
  | reply _ => 11
  | response _ => 5
  | start _ => 4
  | request _ => 1
  | cancel _ => 1
  | done _ => 1

/-- What an action leads to: more than the mailbox or the message it makes. -/
def Action.load : Action → ℕ
  | publish c _ => c.load + 1
  | subscribe _ => 2
  | _ => 1

/-- What the actions of a list lead to. -/
def Action.loads (as : List Action) : ℕ := (as.map load).sum

/-- The mailboxes with these channels, and what the messages in them lead to. -/
def Bus.load (b : Bus Message) (cs : List Channel) : ℕ :=
  (cs.map fun c => 1 + c.load * ((b.on c).map fun p => p.2.length).sum).sum

/-- The number of ranges of up to `chunk` bytes that `n` bytes are asked for in. -/
def rangeCount (chunk n : ℕ) : ℕ := n ⌈/⌉ chunk

/-- What a stage of an upload leads to. Each range takes a message and an answer. -/
def Uploader.load (chunk : ℕ) (u : Uploader) : ℕ :=
  match u.stage with
  | .waiting => 26 + 7 * rangeCount chunk u.source.length.toNat
  | .creating _ => 7 * rangeCount chunk u.source.length.toNat
  | .transferring t => 7 * rangeCount chunk (u.source.length.toNat - t.bytesSent.toNat)
  | .finished _ => 0

/-- What a stage of a coordinator leads to. -/
def Stage.load : Stage → ℕ
  | pulling _ => 1
  | lingering _ _ => 1
  | exited => 0

/-- What an upload leads to by itself. -/
def Upload.load (chunk : ℕ) (b : Bus Message) (u : Upload) : ℕ :=
  u.uploader.load chunk + loads u.todo + b.load u.mailboxes.keys

/-- What a coordinator leads to by itself. -/
def Run.load (b : Bus Message) (r : Run) : ℕ :=
  r.coordinator.stage.load + loads r.todo + b.load r.mailboxes.keys

/-- What the work of the server leads to by itself. -/
def Desk.load (b : Bus Message) : Desk → ℕ
  | idle => 0
  | holding _ => 21
  | answering _ todo mailboxes opened =>
    1 + loads todo + b.load mailboxes.keys + (opened.map fun c => c.stage.load).getD 0

/-- The work of the server, if it is about a request. -/
def Desk.about (d : Desk) (key : String) : Desk := if d.correlation? = some key then d else .idle

namespace Fleet

variable {k : ℕ}

/-- What is left to do for one upload. -/
def load (s : Fleet k) (i : Fin k) : ℕ :=
  (s.uploads i).load s.server.policy.chunkSize.toNat s.bus
    + ((s.runs (s.correlation i)).map (Run.load s.bus)).sum
    + (s.desk.about (s.correlation i)).load s.bus
    + Channel.create.load * (s.calls (s.correlation i)).length

/-- What is left to do. -/
def measure (s : Fleet k) : ℕ := ∑ i, s.load i + s.exited.length

end Fleet

end PullIngest
