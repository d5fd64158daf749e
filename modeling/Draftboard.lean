import Draftboard.Attachment
import Draftboard.Calendar.Date
import Draftboard.Calendar.Instant
import Draftboard.CardOrder
import Draftboard.Changeset.Basic
import Draftboard.Changeset.FilterDefaults
import Draftboard.Changeset.Payload
import Draftboard.CommandLine
import Draftboard.Config.Settings
import Draftboard.Decimal.Reading
import Draftboard.Decimal.Shortest
import Draftboard.Desk.Editing
import Draftboard.Desk.Field
import Draftboard.Desk.Grouping
import Draftboard.Desk.PackageCache
import Draftboard.Desk.Row
import Draftboard.Desk.Save
import Draftboard.Desk.State
import Draftboard.Desk.Views
import Draftboard.Errors
import Draftboard.Events
import Draftboard.Json.Basic
import Draftboard.Json.Printer
import Draftboard.Json.Reader
import Draftboard.Main
import Draftboard.Package.Codec
import Draftboard.Package.Id
import Draftboard.Package.Schema
import Draftboard.Package.Snapshot
import Draftboard.Package.Value
import Draftboard.Replay.Report
import Draftboard.Replay.Run
import Draftboard.Replay.Script
import Draftboard.Server
import Draftboard.Text.Characters
import Draftboard.Timeline.Dates
import Draftboard.Timeline.Drag
import Draftboard.Timeline.View
import Draftboard.Toml.Document
import Draftboard.Toml.Scalar
import Draftboard.Toml.Table
import Draftboard.Toml.Text
import Draftboard.Proofs.CardOrder
import Draftboard.Proofs.CardMoves
import Draftboard.Proofs.Payload
import Draftboard.Proofs.Writes
import Draftboard.Proofs.Validation
import Draftboard.Proofs.Server.Runs
import Draftboard.Proofs.Server.Stores
import Draftboard.Proofs.Server.Calm
import Draftboard.Proofs.Server.FreshIds
import Draftboard.Proofs.Desk.Chores
import Draftboard.Proofs.Desk.Shelf
import Draftboard.Proofs.Desk.Commuting
import Draftboard.Proofs.Desk.Works
import Draftboard.Proofs.Replay.Steps
import Draftboard.Proofs.Replay.Stored
import Draftboard.Proofs.Replay.Published
import Draftboard.Proofs.Replay.Refreshed
import Draftboard.Proofs.Replay.Complete
import Draftboard.Proofs.Replay.Gestures
import Draftboard.Proofs.Replay.Blamed
import Draftboard.Proofs.Replay.Created
import Draftboard.Proofs.Replay.Announced
import Draftboard.Proofs.Desk.Saves
import Draftboard.Proofs.Desk.Bystanders
import Draftboard.Proofs.Desk.Changes
import Draftboard.Proofs.Desk.Fidelity
import Draftboard.Proofs.Desk.Conflicts
import Draftboard.Proofs.Desk.Pushes
import Draftboard.Proofs.Desk.Subscribers
import Draftboard.Proofs.Desk.Screens
import Draftboard.Proofs.Desk.Coherence
import Draftboard.Proofs.Desk.Drafts
import Draftboard.Proofs.Desk.InStep
import Draftboard.Proofs.Desk.RowsInStep
import Draftboard.Proofs.Desk.Sessions
import Draftboard.Proofs.Desk.Flags
import Draftboard.Proofs.Desk.InFlight
import Draftboard.Proofs.Desk.Failures
import Draftboard.Proofs.Desk.Midway
import Draftboard.Proofs.Desk.Filing
import Draftboard.Proofs.Desk.Course
import Draftboard.Proofs.Desk.Registry
import Draftboard.Proofs.Desk.Commits
import Draftboard.Proofs.Desk.Publishing
import Draftboard.Proofs.Desk.LateSaves
import Draftboard.Proofs.Desk.Blocking
import Draftboard.Proofs.Desk.Links
import Draftboard.Proofs.Desk.Viewers
import Draftboard.Proofs.Timeline.Protocol
import Draftboard.Proofs.Timeline.Dates
import Draftboard.Proofs.Desk.Tallies
import Draftboard.Proofs.Desk.Drags
import Draftboard.Proofs.Desk.Previews
import Draftboard.Proofs.Desk.Cancelling
import Draftboard.Proofs.Desk.Refreshing
import Draftboard.Proofs.Desk.SchemaLoads
import Draftboard.Proofs.PayloadJson
import Draftboard.Proofs.PayloadContents
import Draftboard.Proofs.Desk.Writable
import Draftboard.Proofs.Desk.Drops
import Draftboard.Proofs.Desk.Misfits
import Draftboard.Proofs.FilterDefaults
import Draftboard.Proofs.Desk.Removals
import Draftboard.Proofs.Decimal
import Draftboard.Proofs.Calendar.Civil
import Draftboard.Proofs.Calendar.Text
import Draftboard.Proofs.Json.Text
import Draftboard.Proofs.Json.RoundTrips
import Draftboard.Proofs.Package.Records
import Draftboard.Proofs.Package.Paths
