import PullIngest.Wire.Payload

/-!
# Phases and progress

How far a session has come, and the view of a session that is handed out for status reports.
-/

namespace PullIngest

open Json (Value readDefault)

/-- How a session ended. -/
inductive Outcome where
  | success
  | failure
  deriving DecidableEq, Repr

namespace Outcome

/-- The outcome for a verdict. -/
def ofBool (success : Bool) : Outcome := if success then .success else .failure

/-- Whether the file was taken in. -/
def isSuccess : Outcome → Bool
  | .success => true
  | .failure => false

/-- The name of an outcome in messages. -/
def name : Outcome → String
  | .success => "success"
  | .failure => "failure"

/-- The name of an outcome in error texts. -/
def label : Outcome → String
  | .success => "Success"
  | .failure => "Failure"

end Outcome

instance : Wire Outcome where
  encode o := .ofString o.name
  decode? v := do
    let name ← v.variant?
    [Outcome.success, .failure].find? fun o => o.name.toList = name

/-- How far a session has come. -/
inductive Phase where
  /-- Nobody has started it. -/
  | created
  /-- Started, and nothing was asked for yet. -/
  | started
  /-- The last range asked for has arrived. -/
  | requesting
  /-- A range was asked for and has not arrived. -/
  | awaitingResponse
  /-- The verdict is in. -/
  | done (outcome : Outcome)
  deriving DecidableEq, Repr

namespace Phase

/-- Whether the verdict is in. -/
def isDone : Phase → Bool
  | .done _ => true
  | _ => false

/-- The name of a phase in messages. -/
def name : Phase → String
  | .created => "created"
  | .started => "started"
  | .requesting => "requesting"
  | .awaitingResponse => "awaiting_response"
  | .done _ => "done"

/-- The name of a phase in error texts. -/
def label : Phase → String
  | .created => "Created"
  | .started => "Started"
  | .requesting => "Requesting"
  | .awaitingResponse => "AwaitingResponse"
  | .done o => "Done(" ++ o.label ++ ")"

end Phase

instance : Wire Phase where
  encode
    | .done o => .ofMembers [("done", Wire.encode o)]
    | p => .ofString p.name
  decode? v :=
    match v.variant? with
    | some name =>
      [Phase.created, .started, .requesting, .awaitingResponse].find? fun p => p.name.toList = name
    | none => do
      let [(key, outcome)] ← v.members? | none
      if key = "done".toList then (Wire.decode? outcome).map .done else none

/-- The share of `part` in `whole`, in percent. An empty whole counts as complete. -/
def percentage (part whole : UInt64) : Float :=
  if whole = 0 then 100.0 else part.toFloat / whole.toFloat * 100.0

/-- A session as status reports show it. -/
structure Progress where
  sessionId : String
  name : String
  phase : Phase
  declaredSize : UInt64
  bytesDelivered : UInt64
  createdAt : String
  deriving DecidableEq, Repr

instance : Wire Progress where
  encode p := .ofMembers
    ([("sessionId", .ofString p.sessionId), ("name", .ofString p.name),
      ("phase", Wire.encode p.phase), ("declaredSize", .ofNat p.declaredSize.toNat),
      ("bytesDelivered", .ofNat p.bytesDelivered.toNat)]
      ++ if p.createdAt = "" then [] else [("createdAt", .ofString p.createdAt)])
  decode? v := do
    let [some sessionId, some name, some phase, some declaredSize, some bytesDelivered, createdAt] ←
      v.fields?
        [⟨["sessionId"], .required⟩, ⟨["name"], .required⟩, ⟨["phase"], .required⟩,
          ⟨["declaredSize"], .required⟩, ⟨["bytesDelivered"], .required⟩,
          ⟨["createdAt"], .defaulted⟩] | none
    some ⟨← sessionId.string?, ← name.string?, ← Wire.decode? phase, ← declaredSize.uint64?,
      ← bytesDelivered.uint64?, ← readDefault Value.string? "" createdAt⟩

/-- The share of the file that has arrived, in percent. -/
def Progress.percent (p : Progress) : Float := percentage p.bytesDelivered p.declaredSize

end PullIngest
