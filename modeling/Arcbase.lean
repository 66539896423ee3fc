import Arcbase.Arc.Filter
import Arcbase.Arc.Index
import Arcbase.Arc.Json
import Arcbase.Arc.Kind
import Arcbase.Arc.Probe
import Arcbase.Arc.Value
import Arcbase.AssocMap
import Arcbase.Binary.Format
import Arcbase.Binary.Number
import Arcbase.Config
import Arcbase.Config.Json
import Arcbase.Decimal.Layout
import Arcbase.Decimal.Reading
import Arcbase.Decimal.Shortest
import Arcbase.Digest
import Arcbase.Error
import Arcbase.Json.Basic
import Arcbase.Json.Parser
import Arcbase.Json.Printer
import Arcbase.Json.Reader
import Arcbase.Labels
import Arcbase.Lock.Mode
import Arcbase.Lock.Record
import Arcbase.Lock.Session
import Arcbase.Lock.Table
import Arcbase.Proofs.Action.Admitting
import Arcbase.Proofs.Action.Alongside
import Arcbase.Proofs.Action.Answering
import Arcbase.Proofs.Action.Balanced
import Arcbase.Proofs.Action.Careful
import Arcbase.Proofs.Action.Confined
import Arcbase.Proofs.Action.Connecting
import Arcbase.Proofs.Action.Dating
import Arcbase.Proofs.Action.Deleting
import Arcbase.Proofs.Action.Deletions
import Arcbase.Proofs.Action.Disconnecting
import Arcbase.Proofs.Action.Erasing
import Arcbase.Proofs.Action.Expiring
import Arcbase.Proofs.Action.Handles
import Arcbase.Proofs.Action.Holding
import Arcbase.Proofs.Action.Linking
import Arcbase.Proofs.Action.Marking
import Arcbase.Proofs.Action.Naming
import Arcbase.Proofs.Action.Nesting
import Arcbase.Proofs.Action.Opening
import Arcbase.Proofs.Action.Orderly
import Arcbase.Proofs.Action.Plain
import Arcbase.Proofs.Action.Quiet
import Arcbase.Proofs.Action.Reading
import Arcbase.Proofs.Action.Registering
import Arcbase.Proofs.Action.Removing
import Arcbase.Proofs.Action.Retracting
import Arcbase.Proofs.Action.Retrying
import Arcbase.Proofs.Action.Settled
import Arcbase.Proofs.Action.Slots
import Arcbase.Proofs.Action.Stamping
import Arcbase.Proofs.Action.Sweeping
import Arcbase.Proofs.Action.Tending
import Arcbase.Proofs.Action.Timely
import Arcbase.Proofs.Action.Turnover
import Arcbase.Proofs.Action.Unhindered
import Arcbase.Proofs.Action.Unopposed
import Arcbase.Proofs.Arc.Counter
import Arcbase.Proofs.Arc.Index
import Arcbase.Proofs.Arc.Kind
import Arcbase.Proofs.Arc.Ledger
import Arcbase.Proofs.AssocMap
import Arcbase.Proofs.Binary.Rounding
import Arcbase.Proofs.Json.Printing
import Arcbase.Proofs.Json.Reading
import Arcbase.Proofs.Labels
import Arcbase.Proofs.Labels.Room
import Arcbase.Proofs.Labels.Sharing
import Arcbase.Proofs.Lock.Accounts
import Arcbase.Proofs.Lock.Balance
import Arcbase.Proofs.Lock.Counting
import Arcbase.Proofs.Lock.Requests
import Arcbase.Proofs.Lock.Sessions
import Arcbase.Proofs.Lock.Together
import Arcbase.Proofs.Lock.Writers
import Arcbase.Proofs.Property.Json
import Arcbase.Proofs.Query.Alongside
import Arcbase.Proofs.Query.Nesting
import Arcbase.Proofs.Query.Paths
import Arcbase.Proofs.Query.Timing
import Arcbase.Proofs.Query.Tracing
import Arcbase.Proofs.Query.Walking
import Arcbase.Proofs.Scene.Arcs
import Arcbase.Proofs.Scene.Connecting
import Arcbase.Proofs.Scene.Moves
import Arcbase.Proofs.Scene.Moving
import Arcbase.Proofs.Scene.Opening
import Arcbase.Proofs.Scene.Removing
import Arcbase.Proofs.Scene.Vertices
import Arcbase.Proofs.Schedule
import Arcbase.Proofs.Session.Arising
import Arcbase.Proofs.Session.Balanced
import Arcbase.Proofs.Session.Composing
import Arcbase.Proofs.Session.Confined
import Arcbase.Proofs.Session.Connecting
import Arcbase.Proofs.Session.Counting
import Arcbase.Proofs.Session.Creation
import Arcbase.Proofs.Session.Deleting
import Arcbase.Proofs.Session.Disconnecting
import Arcbase.Proofs.Session.Dividing
import Arcbase.Proofs.Session.Exclusive
import Arcbase.Proofs.Session.Expirations
import Arcbase.Proofs.Session.Failing
import Arcbase.Proofs.Session.Frozen
import Arcbase.Proofs.Session.Handles
import Arcbase.Proofs.Session.Integrity
import Arcbase.Proofs.Session.Isolation
import Arcbase.Proofs.Session.Lifecycle
import Arcbase.Proofs.Session.Linking
import Arcbase.Proofs.Session.Loading
import Arcbase.Proofs.Session.Marking
import Arcbase.Proofs.Session.Moving
import Arcbase.Proofs.Session.Nesting
import Arcbase.Proofs.Session.Parting
import Arcbase.Proofs.Session.Probing
import Arcbase.Proofs.Session.Querying
import Arcbase.Proofs.Session.Quiescent
import Arcbase.Proofs.Session.Reach
import Arcbase.Proofs.Session.Restoring
import Arcbase.Proofs.Session.Retrying
import Arcbase.Proofs.Session.Roundtrip
import Arcbase.Proofs.Session.Serving
import Arcbase.Proofs.Session.Sharing
import Arcbase.Proofs.Session.Sorting
import Arcbase.Proofs.Session.Stale
import Arcbase.Proofs.Session.Stamped
import Arcbase.Proofs.Session.Sweeping
import Arcbase.Proofs.Session.Timely
import Arcbase.Proofs.Session.Timing
import Arcbase.Proofs.Session.Together
import Arcbase.Proofs.Session.Totals
import Arcbase.Proofs.Session.Turnover
import Arcbase.Proofs.Session.Typed
import Arcbase.Proofs.Session.Vetoing
import Arcbase.Proofs.Session.Views
import Arcbase.Proofs.Snapshot.Committing
import Arcbase.Proofs.Snapshot.Filled
import Arcbase.Proofs.Snapshot.Filling
import Arcbase.Proofs.Snapshot.Json
import Arcbase.Proofs.Snapshot.Listing
import Arcbase.Proofs.Snapshot.Refilling
import Arcbase.Proofs.Snapshot.Restoring
import Arcbase.Proofs.Snapshot.Staging
import Arcbase.Proofs.Snapshot.Taking
import Arcbase.Proofs.Store.Aim
import Arcbase.Proofs.Store.Alike
import Arcbase.Proofs.Store.Arcs
import Arcbase.Proofs.Store.Cells
import Arcbase.Proofs.Store.Dropping
import Arcbase.Proofs.Store.Groups
import Arcbase.Proofs.Store.Growth
import Arcbase.Proofs.Store.Guarded
import Arcbase.Proofs.Store.Linking
import Arcbase.Proofs.Store.Links
import Arcbase.Proofs.Store.Listing
import Arcbase.Proofs.Store.Paired
import Arcbase.Proofs.Store.Severing
import Arcbase.Proofs.Store.SingleArc
import Arcbase.Proofs.Store.Slots
import Arcbase.Proofs.Store.Stamped
import Arcbase.Proofs.Store.Step
import Arcbase.Proofs.Store.Sweeping
import Arcbase.Proofs.Store.Timely
import Arcbase.Proofs.Store.Touching
import Arcbase.Proofs.Store.TwoSided
import Arcbase.Property.Json
import Arcbase.Property.Map
import Arcbase.Property.Value
import Arcbase.Query.Expression
import Arcbase.Query.Plan
import Arcbase.Query.Request
import Arcbase.Query.Result
import Arcbase.Query.Walk
import Arcbase.Schedule
import Arcbase.Session.Basic
import Arcbase.Session.Request
import Arcbase.Session.Workspace
import Arcbase.Snapshot.Basic
import Arcbase.Snapshot.Dump
import Arcbase.Snapshot.Json
import Arcbase.Store.Basic
import Arcbase.Store.Connect
import Arcbase.Store.Disconnect
import Arcbase.Store.Expiration
import Arcbase.Store.Handle
import Arcbase.Store.Opening
import Arcbase.Store.Reading
import Arcbase.Store.Snapshot
import Arcbase.Text.Classes
import Arcbase.Text.Quoted
import Arcbase.Time.Instant
import Arcbase.Vertex.Data
import Arcbase.Vertex.Info
import Arcbase.Vertex.Key
