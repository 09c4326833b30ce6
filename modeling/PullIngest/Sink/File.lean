import PullIngest.Name
import PullIngest.Sha256
import PullIngest.Signature
import PullIngest.Storage

/-!
# Sinks on the disk

A sink that writes the bytes of one session to a partial file beside the destination and gives it
the name of the destination once the file is complete and wanted. Whatever else happens, the
partial file is removed and the destination stays as it is.
-/

namespace PullIngest

/-- A sink that writes to the disk. -/
structure FileSink where
  partPath : List Char
  finalPath : List Char
  size : UInt64
  written : UInt64 := 0
  /-- The first bytes, enough of them to tell the format. -/
  head : List UInt8 := []
  /-- Whether a file of an unknown format is refused. -/
  onlyKnown : Bool := false
  /-- The partial file, until the verdict. -/
  file : Option Nat
  /-- The claim on the destination, until the verdict. -/
  claim : Option (List Path.Component) := none
  deriving DecidableEq, Repr

namespace FileSink

/-- The name of the partial file of a session. -/
def partName (session : String) : List Char := '.' :: session.toList ++ ".part".toList

/-- Create the partial file and the directories above it. The destination is not claimed. What was
made before a refusal stays on the disk. -/
def create (base : List Char) (session name : String) (size : UInt64) (onlyKnown : Bool)
    (d : Disk) : Except TransferError FileSink × Disk :=
  match Name.validate name with
  | .error e => (.error e, d)
  | .ok () =>
    let finalPath := Path.join base name.toList
    let directory := (Path.parent? finalPath).getD base
    let partPath := Path.join directory (partName session)
    match d.makeDirectories directory with
    | (d, .error e) => (.error (.io e), d)
    | (d, .ok ()) =>
      match d.createFile partPath with
      | .error e => (.error (.io e), d)
      | .ok (d, file) => (.ok { partPath, finalPath, size, onlyKnown, file := some file }, d)

/-- Claim the destination and create the partial file. On a refusal the claim is given up. -/
def openClaimed (base : List Char) (session name : String) (size : UInt64) (onlyKnown : Bool)
    (s : Storage) : Except TransferError FileSink × Storage :=
  match Name.validate name with
  | .error e => (.error e, s)
  | .ok () =>
    let steps := Path.components (Path.join base name.toList)
    if s.isClaimed steps then (.error (.conflict name), s)
    else
      let s := s.claim steps
      match create base session name size onlyKnown s.disk with
      | (.error e, disk) => (.error e, ({ s with disk } : Storage).release (some steps))
      | (.ok f, disk) => (.ok { f with claim := some steps }, { s with disk })

/-- Write the next bytes to the partial file. -/
def accept (f : FileSink) (d : Disk) (offset : UInt64) (data : List UInt8) :
    Except TransferError (FileSink × Disk) :=
  if offset ≠ f.written then .error (.violation (.outOfOrder offset f.written))
  else
    match f.file with
    | none => .error (.violation .sinkClosed)
    | some file =>
      .ok ({ f with head := f.head ++ data.take (Format.signatureLength - f.head.length)
                    written := f.written + .ofNat data.length },
        d.writeAt file offset.toNat data)

/-- Check the partial file and give it the name of the destination. -/
def complete (f : FileSink) (d : Disk) : Except TransferError Disk :=
  if f.file = none then .error (.violation .sinkClosed)
  else if f.written ≠ f.size then .error (.violation (.incomplete f.written f.size))
  else if f.onlyKnown ∧ Format.detect? f.head = none then .error (.violation .unknownFormat)
  else
    match d.readFile f.partPath with
    | .error e => .error (.io e)
    | .ok _ =>
      match d.rename f.partPath f.finalPath with
      | .error e => .error (.io e)
      | .ok d => .ok d

/-- Remove the partial file. One that is gone already is no trouble. -/
def discard (f : FileSink) (d : Disk) : Disk × List String :=
  match d.removeFile f.partPath with
  | .ok d => (d, [])
  | .error .notFound => (d, [])
  | .error e => (d, ["WARN failed to remove partial file: " ++ e.message])

/-- The sink after its verdict. -/
def closed (f : FileSink) : FileSink := { f with file := none, claim := none }

/-- Give the verdict, and give up the claim. -/
def finalize (f : FileSink) (s : Storage) : Bool × FileSink × Storage × List String :=
  match f.complete s.disk with
  | .ok disk => (true, f.closed, ({ s with disk } : Storage).release f.claim, [])
  | .error e =>
    let (disk, log) := f.discard s.disk
    (false, f.closed, ({ s with disk } : Storage).release f.claim,
      ("ERROR rejecting ingested file: " ++ e.message) :: log)

/-- Remove the partial file and give up the claim. -/
def fail (f : FileSink) (s : Storage) : FileSink × Storage × List String :=
  let (disk, log) := f.discard s.disk
  (f.closed, ({ s with disk } : Storage).release f.claim, log)

/-- What happens when nobody holds the sink any more: without a verdict its partial file goes. -/
def drop (f : FileSink) (s : Storage) : Storage × List String :=
  if f.file = none then (s.release f.claim, [])
  else
    let (disk, log) := f.discard s.disk
    (({ s with disk } : Storage).release f.claim, log)

/-- The digest of the file at a path. -/
def checksum (d : Disk) (path : List Char) : Except TransferError String :=
  match d.readFile path with
  | .ok bytes => .ok (Sha256.hexDigest bytes)
  | .error e => .error (.io e)

end FileSink

end PullIngest
