import PullIngest.Action
import PullIngest.Bus
import PullIngest.Duration
import PullIngest.Rounding
import PullIngest.Source
import PullIngest.Wire.Phase

/-!
# Uploaders

An uploader opens a session for one file and then answers the requests for its bytes until it is
told the verdict. `Uploader.react` is what it does with one event, and `Uploader.step` what it does
with a file on the disk.
-/

namespace PullIngest

/-- How long an uploader waits. -/
structure Patience where
  /-- For the answer to its create request. -/
  create : Duration := .ofSeconds 10
  /-- For anything from the server after that. -/
  silence : Duration := .ofSeconds 60
  deriving DecidableEq, Repr

/-- Why an upload ends without a verdict. -/
inductive UploadError where
  | bus (cause : BusError)
  | transfer (cause : TransferError)
  | protocol (cause : MessageError)
  | timeout
  deriving DecidableEq, Repr

/-- The wording of a reason. -/
def UploadError.message : UploadError → String
  | .bus cause => "bus error: " ++ cause.message
  | .transfer cause => cause.message
  | .protocol cause => cause.message
  | .timeout => "request timed out"

/-- The end of an upload. -/
structure UploadOutcome where
  session : String
  success : Bool
  /-- The highest offset up to which bytes were sent. -/
  bytesSent : UInt64
  deriving DecidableEq, Repr

/-- An upload that has a session. -/
structure Transfer where
  session : String
  bytesSent : UInt64 := 0
  cancelled : Bool := false
  /-- When the server has been silent for too long. -/
  deadline : Nat
  /-- When progress was last reported. -/
  lastReport : Nat
  deriving DecidableEq, Repr

/-- How far an upload has come. -/
inductive UploadStage where
  | waiting
  /-- The create request is out and must be answered before the deadline. -/
  | creating (deadline : Nat)
  | transferring (t : Transfer)
  | finished (result : Except UploadError UploadOutcome)

/-- The upload of one file. -/
structure Uploader where
  patience : Patience := {}
  /-- The id of the create request. -/
  correlation : String
  name : String
  source : Source
  stage : UploadStage := .waiting

/-- What an uploader reacts to. -/
inductive UploadEvent where
  | begin
  | reply (m : Message)
  | request (m : Message)
  | done (m : Message)
  /-- The time of `Uploader.timer?` has come. -/
  | timer

namespace Uploader

/-- When the upload ends by itself. -/
def timer? (u : Uploader) : Option Nat :=
  match u.stage with
  | .creating deadline => some deadline
  | .transferring t => some t.deadline
  | _ => none

/-- The result, once the upload has ended. -/
def result? (u : Uploader) : Option (Except UploadError UploadOutcome) :=
  match u.stage with
  | .finished r => some r
  | _ => none

/-- End the upload. -/
def finish (u : Uploader) (r : Except UploadError UploadOutcome) (actions : List Action) :
    Uploader × List Action :=
  ({ u with stage := .finished r }, actions)

/-- Go on in another stage if the bus takes the message; otherwise the upload ends. -/
def publish (u : Uploader) (accepts : Channel → Bool) (channel : Channel) (m : Message)
    (stage : UploadStage) (actions : List Action) : Uploader × List Action :=
  let actions := actions ++ [.publish channel m]
  if accepts channel then ({ u with stage }, actions)
  else u.finish (.error (.bus (.full channel.name))) actions

/-- Ask for a session. -/
def create (u : Uploader) (accepts : Channel → Bool) (now : Nat) : Uploader × List Action :=
  u.publish accepts .create
    (.carrying u.correlation .createSession (CreateSession.mk u.name u.source.length))
    (.creating (now + u.patience.create.millis)) [.subscribe (.reply u.correlation)]

/-- Take the answer to the create request and start the session. -/
def onReply (u : Uploader) (accepts : Channel → Bool) (now : Nat) (m : Message) :
    Uploader × List Action :=
  match m.payloadAs SessionCreated .sessionCreated with
  | .error e => u.finish (.error (.protocol e)) []
  | .ok created =>
    u.publish accepts (.start created.id) (.signal created.id .start)
      (.transferring { session := created.id, deadline := now + u.patience.silence.millis,
                       lastReport := now })
      [.unsubscribe (.reply u.correlation), .subscribe (.request created.id),
        .subscribe (.done created.id)]

/-- How often progress is reported at most, in milliseconds. -/
def reportInterval : Nat := 1000

/-- Report progress unless that was done a short while ago. -/
def report (u : Uploader) (now : Nat) (t : Transfer) : Transfer × List Action :=
  if reportInterval ≤ now - t.lastReport then
    ({ t with lastReport := now },
      [.log ("INFO " ++ Rounding.oneDecimal (percentage t.bytesSent u.source.length) ++ "%")])
  else (t, [])

/-- Publish an answer to a request and report progress; without the bus the upload ends. -/
def answer (u : Uploader) (accepts : Channel → Bool) (now : Nat) (channel : Channel) (m : Message)
    (t : Transfer) (actions : List Action) : Uploader × List Action :=
  let (reported, lines) := u.report now t
  match u.publish accepts channel m (.transferring reported) actions with
  | (u, actions) => (u, if accepts channel then actions ++ lines else actions)

/-- Answer a request for bytes. When the bytes cannot be read the transfer is cancelled, and later
requests are ignored. -/
def onRequest (u : Uploader) (accepts : Channel → Bool) (now : Nat) (h : Source.Handle)
    (t : Transfer) (m : Message) : Uploader × List Action :=
  let t := { t with deadline := now + u.patience.silence.millis }
  let stay := fun actions => ({ u with stage := .transferring t }, actions)
  match m.payloadAs ChunkRequest .chunkRequest with
  | .error e => stay [.log ("WARN malformed chunk request: " ++ e.message)]
  | .ok request =>
    if t.cancelled then stay []
    else
      match h.read u.source.length request.offset request.size with
      | (.ok data, log) =>
        u.answer accepts now (.response t.session)
          (.carrying t.session .chunkResponse (ChunkResponse.ofBytes request.offset data))
          { t with bytesSent := max t.bytesSent (request.offset + request.size) }
          (Action.logs log)
      | (.error e, log) =>
        u.answer accepts now (.cancel t.session)
          (.carrying t.session .cancel (Cancel.mk e.message)) { t with cancelled := true }
          (Action.logs log
            ++ [Action.log ("ERROR cannot read requested range, cancelling: " ++ e.message)])

/-- Take the verdict. -/
def onDone (u : Uploader) (t : Transfer) (m : Message) : Uploader × List Action :=
  match m.payloadAs Done .done with
  | .error e => u.finish (.error (.protocol e)) []
  | .ok d => u.finish (.ok ⟨t.session, d.success, t.bytesSent⟩) []

/-- Take one event. `accepts` tells whether the bus takes a message on a channel now, and `h` what
the file gives now. -/
def react (u : Uploader) (accepts : Channel → Bool) (now : Nat) (h : Source.Handle)
    (e : UploadEvent) : Uploader × List Action :=
  match u.stage, e with
  | .waiting, .begin => u.create accepts now
  | .creating _, .reply m => u.onReply accepts now m
  | .creating _, .timer => u.finish (.error .timeout) []
  | .transferring t, .request m => u.onRequest accepts now h t m
  | .transferring t, .done m => u.onDone t m
  | .transferring _, .timer =>
    u.finish (.error .timeout) [.log "WARN server went silent"]
  | _, _ => (u, [])

/-- Take one event while the file is on the disk. -/
def step (u : Uploader) (accepts : Channel → Bool) (now : Nat) (d : Disk) (e : UploadEvent) :
    Uploader × List Action :=
  u.react accepts now (u.source.handle d) e

end Uploader

end PullIngest
