import PullIngest.Wire.Channel
import PullIngest.Wire.Message

/-!
# Actions

What a task does in one step, in order. A step itself is a function on values: whoever runs it
carries its actions out on the bus and in the log.
-/

namespace PullIngest

/-- A call on the sink of a session. The step has made it already; it is told for the record. -/
inductive SinkCall where
  | accept (offset : UInt64) (data : List UInt8)
  | finalize (verdict : Bool)
  | fail (reason : String)
  deriving DecidableEq, Repr

/-- One thing that a task does. -/
inductive Action where
  | publish (channel : Channel) (message : Message)
  | subscribe (channel : Channel)
  | unsubscribe (channel : Channel)
  | sink (call : SinkCall)
  | log (line : String)

/-- Log a list of lines. -/
def Action.logs (lines : List String) : List Action := lines.map .log

end PullIngest
