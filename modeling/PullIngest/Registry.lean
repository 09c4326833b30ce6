import PullIngest.Session
import PullIngest.Table

/-!
# The registry

The live sessions by their ids, in the order in which they were registered.
-/

namespace PullIngest

/-- The sessions that are live. -/
structure Registry where
  sessions : Table String Session := ∅

namespace Registry

/-- Register a new session under an id that nobody has. -/
def create (r : Registry) (id name : String) (size : UInt64) : Registry :=
  ⟨r.sessions.set id (.new id name size)⟩

/-- The session with an id. -/
def lookup? (r : Registry) (id : String) : Option Session := r.sessions.get? id

/-- Whether an id is registered. -/
def has (r : Registry) (id : String) : Bool := r.sessions.has id

/-- Strike out a session. -/
def remove (r : Registry) (id : String) : Registry := ⟨r.sessions.erase id⟩

/-- Put the latest state of a session in, if the session is registered. -/
def update (r : Registry) (s : Session) : Registry := ⟨r.sessions.modify s.id fun _ => s⟩

/-- The number of live sessions. -/
def size (r : Registry) : Nat := r.sessions.size

/-- The ids of the live sessions. -/
def ids (r : Registry) : List String := r.sessions.keys

/-- The live sessions as status reports show them, oldest first. -/
def snapshots (r : Registry) : List Progress := r.sessions.values.map fun s => s.progress ""

end Registry

end PullIngest
