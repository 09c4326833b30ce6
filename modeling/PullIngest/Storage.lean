import PullIngest.Disk

/-!
# Storage

Everything that sinks share: the disk, the destinations that are claimed, and the finished bytes
and failures of sessions that are kept in memory.
-/

namespace PullIngest

/-- What sinks write to. -/
structure Storage where
  disk : Disk := {}
  /-- The destinations of sinks that are open, as the steps of their paths. -/
  claims : List (List Path.Component) := []
  completed : Table String (List UInt8) := ∅
  failures : Table String String := ∅

namespace Storage

/-- Whether a destination is claimed. -/
def isClaimed (s : Storage) (steps : List Path.Component) : Bool := s.claims.contains steps

/-- Claim a destination that is free. -/
def claim (s : Storage) (steps : List Path.Component) : Storage :=
  { s with claims := s.claims ++ [steps] }

/-- Give up a claim, if there is one. -/
def release (s : Storage) : Option (List Path.Component) → Storage
  | some steps => { s with claims := s.claims.erase steps }
  | none => s

/-- Keep the finished bytes of a session. -/
def complete (s : Storage) (session : String) (bytes : List UInt8) : Storage :=
  { s with completed := s.completed.set session bytes }

/-- Keep the reason why a session failed. -/
def recordFailure (s : Storage) (session reason : String) : Storage :=
  { s with failures := s.failures.set session reason }

/-- Hand out the finished bytes of a session, once. -/
def take (s : Storage) (session : String) : Option (List UInt8) × Storage :=
  (s.completed.get? session, { s with completed := s.completed.erase session })

/-- The reason why a session failed. -/
def failure? (s : Storage) (session : String) : Option String := s.failures.get? session

end Storage

end PullIngest
