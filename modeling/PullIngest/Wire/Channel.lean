/-!
# Channels

A message is routed by the name of its channel alone. Every session has five channels, named by
its id; a create request is answered on a channel named by its correlation id.
-/

namespace PullIngest

/-- A channel of the protocol. -/
inductive Channel where
  /-- Client to server: open a session. -/
  | create
  /-- Client to server: begin pulling. -/
  | start (session : String)
  /-- Server to client: the next byte range wanted. -/
  | request (session : String)
  /-- Client to server: the bytes of a requested range. -/
  | response (session : String)
  /-- Client to server: abandon the transfer. -/
  | cancel (session : String)
  /-- Server to client: the verdict. -/
  | done (session : String)
  /-- Server to client: the answer to a create request. -/
  | reply (correlation : String)
  deriving DecidableEq, Repr

namespace Channel

/-- The name of one of the channels of a session. -/
def ofSession (session role : String) : String := "data/" ++ session ++ "/" ++ role

/-- The name a channel goes by on the bus. -/
def name : Channel → String
  | create => "create"
  | start s => ofSession s "start"
  | request s => ofSession s "request"
  | response s => ofSession s "response"
  | cancel s => ofSession s "cancel"
  | done s => ofSession s "done"
  | reply c => "reply/" ++ c

end Channel

end PullIngest
