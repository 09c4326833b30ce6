import PullIngest.Buffer
import PullIngest.Storage

/-!
# Sinks in memory

A sink that collects the bytes of one session and keeps them in the storage once they are
complete.
-/

namespace PullIngest

/-- A sink that keeps what it accepts in memory. -/
structure MemorySink where
  session : String
  size : UInt64
  data : Buffer := .empty
  /-- Whether every file is refused once it is complete. -/
  reject : Bool := false
  /-- The offset from which on no more bytes are wanted, if there is one. -/
  refuseFrom : Option UInt64 := none

namespace MemorySink

/-- The number of bytes accepted so far. -/
def written (m : MemorySink) : UInt64 := .ofNat m.data.size

/-- Whether the sink wants no bytes from this offset on. -/
def refuses (m : MemorySink) (offset : UInt64) : Bool :=
  match m.refuseFrom with
  | some limit => limit ≤ offset
  | none => false

/-- Accept the next bytes. -/
def accept (m : MemorySink) (offset : UInt64) (data : List UInt8) :
    Except TransferError MemorySink :=
  if m.refuses offset then .error (.violation (.refused offset))
  else if offset ≠ m.written then .error (.violation (.outOfOrder offset m.written))
  else .ok { m with data := m.data.append data }

/-- What is recorded for a file that is refused. -/
def rejection : String := "rejected by sink"

/-- Give the verdict. -/
def finalize (m : MemorySink) (s : Storage) : Bool × MemorySink × Storage :=
  if m.reject ∨ m.written ≠ m.size then (false, m, s.recordFailure m.session rejection)
  else (true, { m with data := .empty }, s.complete m.session m.data.toList)

/-- Forget the bytes and record why. -/
def fail (m : MemorySink) (s : Storage) (reason : String) : MemorySink × Storage :=
  ({ m with data := .empty }, s.recordFailure m.session reason)

end MemorySink

end PullIngest
