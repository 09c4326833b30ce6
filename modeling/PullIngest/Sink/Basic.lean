import PullIngest.Sink.File
import PullIngest.Sink.Memory

/-!
# Sinks

A sink takes the bytes of one session in order: `accept` for each chunk, and then either
`finalize`, which gives the verdict, or `fail`. A `Destination` opens the sinks of all sessions.
-/

namespace PullIngest

/-- Where the bytes of one session go. -/
inductive Sink where
  | memory (sink : MemorySink)
  | file (sink : FileSink)

/-- Where the bytes of all sessions go. -/
inductive Destination where
  /-- Into memory; see `MemorySink` for what may be refused. -/
  | memory (reject : Bool) (refuseFrom : Option UInt64)
  /-- Below a directory, all files or only those of a known format. -/
  | directory (base : List Char) (onlyKnown : Bool)
  deriving DecidableEq, Repr

/-- Open a sink for a session. -/
def Destination.openSink (dest : Destination) (session name : String) (size : UInt64)
    (s : Storage) : Except TransferError Sink × Storage :=
  match dest with
  | .memory reject refuseFrom => (.ok (.memory { session, size, reject, refuseFrom }), s)
  | .directory base onlyKnown =>
    match FileSink.openClaimed base session name size onlyKnown s with
    | (.ok f, s) => (.ok (.file f), s)
    | (.error e, s) => (.error e, s)

namespace Sink

/-- Take the next bytes. A refusal changes nothing. -/
def accept (k : Sink) (s : Storage) (offset : UInt64) (data : List UInt8) :
    Except TransferError (Sink × Storage) :=
  match k with
  | .memory m => (m.accept offset data).map fun m => (.memory m, s)
  | .file f => (f.accept s.disk offset data).map fun (f, disk) => (.file f, { s with disk })

/-- Give the verdict; the lines that are logged come last. -/
def finalize (k : Sink) (s : Storage) : Bool × Sink × Storage × List String :=
  match k with
  | .memory m =>
    let (verdict, m, s) := m.finalize s
    (verdict, .memory m, s, [])
  | .file f =>
    let (verdict, f, s, log) := f.finalize s
    (verdict, .file f, s, log)

/-- Give up; the lines that are logged come last. -/
def fail (k : Sink) (s : Storage) (reason : String) : Sink × Storage × List String :=
  match k with
  | .memory m =>
    let (m, s) := m.fail s reason
    (.memory m, s, [])
  | .file f =>
    let (f, s, log) := f.fail s
    (.file f, s, log)

/-- What happens when nobody holds the sink any more. -/
def drop (k : Sink) (s : Storage) : Storage × List String :=
  match k with
  | .memory _ => (s, [])
  | .file f => f.drop s

end Sink

end PullIngest
