import PullIngest.Disk

/-!
# Sources

A file that is being uploaded. Its length is recorded when it is opened, and ranges are read
against that length, so a file that shrinks later is noticed instead of being cut off silently.
-/

namespace PullIngest

/-- An open file with the length it had when it was opened. A directory can be opened too, but
nothing can be read from it. -/
structure Source where
  entry : Entry
  length : UInt64
  deriving DecidableEq, Repr

namespace Source

/-- The length that is recorded for a directory. -/
def directoryLength : UInt64 := 4096

/-- Open what is at a path. -/
def open? (d : Disk) (path : List Char) : Except IoError Source := do
  match ← d.find path with
  | .directory => .ok ⟨.directory, directoryLength⟩
  | .file n => .ok ⟨.file n, .ofNat (d.read n).length⟩

/-- What is logged when a file has shrunk. -/
def shrunkWarning : String := "WARN file shrank during transfer"

/-- What an open file gives at one moment. -/
structure Handle where
  content : List UInt8 := []
  /-- Why no byte can be read now, whatever the file holds. -/
  trouble : Option IoError := none
  deriving DecidableEq, Repr

/-- Why a buffer could not be filled. -/
inductive Shortfall where
  /-- The file ended first. -/
  | endOfFile
  | io (e : IoError)
  deriving DecidableEq, Repr

/-- An open file and its cursor, which is where the last transfer has ended. -/
structure Reader where
  handle : Handle
  position : Nat := 0
  deriving DecidableEq, Repr

namespace Reader

/-- The sum of two numbers unless it is too large for 64 bits. -/
def checkedAdd? (a b : UInt64) : Option UInt64 :=
  if a.toNat + b.toNat < UInt64.size then some (a + b) else none

/-- Move the cursor. It may stand behind the end of the file. -/
def seek (r : Reader) (offset : UInt64) : Reader := { r with position := offset.toNat }

/-- How many bytes one system call transfers at most. -/
def maxTransfer : Nat := 0x7ffff000

/-- One system call: up to `room` bytes from the cursor on, which moves behind them. There are none
at the end of the file. -/
def transfer (r : Reader) (room : Nat) : Reader × Except IoError (List UInt8) :=
  match r.handle.trouble with
  | some e => (r, .error e)
  | none =>
    let data := (r.handle.content.drop r.position).take (min room maxTransfer)
    ({ r with position := r.position + data.length }, .ok data)

/-- Put bytes over those of a buffer. -/
def overwrite (buffer : List UInt8) (place : Nat) (data : List UInt8) : List UInt8 :=
  buffer.take place ++ data ++ buffer.drop (place + data.length)

/-- Fill a buffer, of which so many bytes are there already, by one system call after the other. As
every call transfers a byte or is the last one, there are no more calls than bytes. -/
def fill : (calls : Nat) → Reader → (buffer : List UInt8) → (filled : Nat) →
    Reader × Except Shortfall (List UInt8)
  | 0, r, buffer, _ => (r, .ok buffer)
  | calls + 1, r, buffer, filled =>
    if buffer.length ≤ filled then (r, .ok buffer)
    else
      match r.transfer (buffer.length - filled) with
      | (r, .error e) => (r, .error (.io e))
      | (r, .ok []) => (r, .error .endOfFile)
      | (r, .ok (b :: bs)) =>
        fill calls r (overwrite buffer filled (b :: bs)) (filled + (b :: bs).length)

/-- What is told about a buffer that was to be filled, with the lines that are logged. -/
def told (refused : TransferError) :
    Except Shortfall (List UInt8) → Except TransferError (List UInt8) × List String
  | .ok buffer => (.ok buffer, [])
  | .error .endOfFile => (.error refused, [shrunkWarning])
  | .error (.io e) => (.error (.io e), [])

/-- Read a range: exactly as many bytes as asked for, or an error. A range beyond the recorded
length is refused whatever the file holds now. Otherwise the cursor moves to the range, and a buffer
of zeros is filled. -/
def read (r : Reader) (limit offset size : UInt64) :
    Reader × Except TransferError (List UInt8) × List String :=
  let refused := TransferError.range offset size limit
  match checkedAdd? offset size with
  | none => (r, .error refused, [])
  | some stop =>
    if stop ≤ limit then
      let (r, outcome) := (r.seek offset).fill size.toNat (List.replicate size.toNat 0) 0
      (r, told refused outcome)
    else (r, .error refused, [])

end Reader

/-- Read a range of an open file, wherever its cursor stands. -/
def Handle.read (h : Handle) (limit offset size : UInt64) :
    Except TransferError (List UInt8) × List String :=
  (({ handle := h } : Reader).read limit offset size).2

/-- What a source gives now. -/
def handle (s : Source) (d : Disk) : Handle :=
  match s.entry with
  | .file n => { content := d.read n }
  | .directory => { trouble := some .isDirectory }

/-- Read a range of a source on the disk. -/
def read (s : Source) (d : Disk) (offset size : UInt64) :
    Except TransferError (List UInt8) × List String :=
  (s.handle d).read s.length offset size

end Source

end PullIngest
