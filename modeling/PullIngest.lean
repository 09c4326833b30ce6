import PullIngest.Text.Hex
import PullIngest.Text.Base64
import PullIngest.Json.Value
import PullIngest.Json.Literal
import PullIngest.Json.Parser
import PullIngest.Json.Record
import PullIngest.Wire.Channel
import PullIngest.Wire.Payload
import PullIngest.Wire.Phase
import PullIngest.Wire.Message
import PullIngest.Table
import PullIngest.Text.Unprintable
import PullIngest.Text.Quoted
import PullIngest.Sha256
import PullIngest.Signature
import PullIngest.Error
import PullIngest.Path
import PullIngest.Name
import PullIngest.Session
import PullIngest.Rounding
import PullIngest.Duration
import PullIngest.Throughput
import PullIngest.Disk
import PullIngest.Source
import PullIngest.Buffer
import PullIngest.Storage
import PullIngest.Sink.Memory
import PullIngest.Sink.File
import PullIngest.Sink.Basic
import PullIngest.Text.Utf8
import PullIngest.Bus
import PullIngest.Registry
import PullIngest.Action
import PullIngest.Coordinator
import PullIngest.Server
import PullIngest.Uploader
import PullIngest.Network
import PullIngest.Script
import PullIngest.Toml.Style
import PullIngest.Toml.Scalar
import PullIngest.Toml.Value
import PullIngest.Toml.Parser
import PullIngest.Settings
import PullIngest.CommandLine
import PullIngest.Main
import PullIngest.Proofs.Session.Run
import PullIngest.Proofs.Coordinator.Turn
import PullIngest.Proofs.Coordinator.Delivery
import PullIngest.Proofs.Coordinator.Verdict
import PullIngest.Proofs.Json.Reading
import PullIngest.Proofs.Json.Documents
import PullIngest.Proofs.Text.Base64
import PullIngest.Proofs.Wire.Payload
import PullIngest.Proofs.Wire.Text
import PullIngest.Proofs.Storage.Disk
import PullIngest.Proofs.Storage.Sink
import PullIngest.Proofs.Coordinator.Intake
import PullIngest.Proofs.Coordinator.Agreement
import PullIngest.Proofs.Coordinator.Redelivery
import PullIngest.Proofs.Uploader.Step
import PullIngest.Proofs.Exchange.Integrity
import PullIngest.Proofs.Server.Idempotence
import PullIngest.Proofs.Storage.Footprint
import PullIngest.Proofs.Storage.Depot
import PullIngest.Proofs.Bus.View
import PullIngest.Proofs.Bus.FanOut
import PullIngest.Proofs.Bus.Inboxes
import PullIngest.Proofs.Fleet.Steps
import PullIngest.Proofs.Fleet.Turns
import PullIngest.Proofs.Fleet.Dialogue
import PullIngest.Proofs.Fleet.Headway
import PullIngest.Proofs.Fleet.Lanes
import PullIngest.Proofs.Fleet.Advance
import PullIngest.Proofs.Fleet.Queue
import PullIngest.Proofs.Fleet.Soundness
import PullIngest.Proofs.Fleet.Health
import PullIngest.Proofs.Fleet.WholeTurns
import PullIngest.Proofs.Fleet.Schedule
import PullIngest.Proofs.Site.Steps
import PullIngest.Proofs.Site.Order
import PullIngest.Proofs.Site.Soundness
import PullIngest.Proofs.Site.View
import PullIngest.Proofs.Site.Isolation
import PullIngest.Proofs.Coordinator.Custody
import PullIngest.Proofs.Server.Answer
import PullIngest.Proofs.Server.Tenure
import PullIngest.Proofs.Storage.AllOrNothing
import PullIngest.Proofs.Storage.Roster
import PullIngest.Proofs.Session.Refusal
import PullIngest.Proofs.Session.Drain
import PullIngest.Proofs.Coordinator.Reasons
import PullIngest.Proofs.Coordinator.Deadline
import PullIngest.Proofs.Coordinator.Recount
import PullIngest.Proofs.Coordinator.Budget
import PullIngest.Proofs.Storage.Containment
import PullIngest.Proofs.Coordinator.Late
import PullIngest.Proofs.Coordinator.Footing
import PullIngest.Proofs.Site.Station
import PullIngest.Proofs.Uploader.Answers
import PullIngest.Proofs.Storage.Target
import PullIngest.Proofs.Wire.Canonical
import PullIngest.Proofs.Json.Parsing
import PullIngest.Proofs.Json.Rewording
import PullIngest.Proofs.Wire.Objects
import PullIngest.Proofs.Wire.Offset
import PullIngest.Proofs.Toml.Documents
import PullIngest.Proofs.Settings.Saved
import PullIngest.Proofs.Bus.Routing
import PullIngest.Proofs.Uploader.Throughput
