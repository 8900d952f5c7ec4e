import Rustrak.Transition.Run
import Rustrak.Relational.Table
import Rustrak.Relational.Merge
import Rustrak.Relational.Batches
import Rustrak.Relational.Newest
import Rustrak.Relational.WriteAhead
import Rustrak.Relational.Like
import Rustrak.Files.Directory
import Rustrak.Claiming.TwoKeys
import Rustrak.Claiming.Guards
import Rustrak.Claiming.Leases
import Rustrak.Mirroring.Passes
import Rustrak.Calendar.Civil
import Rustrak.Calendar.Recurrence
import Rustrak.Budget.Spending
import Rustrak.Forest.Walk
import Rustrak.Forest.Levels
import Rustrak.Json.Text
import Rustrak.Core.Error
import Rustrak.Core.Text
import Rustrak.Core.Affix
import Rustrak.Core.Json
import Rustrak.Core.Serialized
import Rustrak.Grouping.Key
import Rustrak.Grouping.Groups
import Rustrak.Grouping.Malformed
import Rustrak.Grouping.Siblings
import Rustrak.Quota.Limits
import Rustrak.Quota.Agreement
import Rustrak.Digest.Store
import Rustrak.Digest.Write
import Rustrak.Digest.Effects
import Rustrak.Digest.ExactlyOnce
import Rustrak.Digest.QuotaBound
import Rustrak.Digest.GroupingMap
import Rustrak.Digest.GroupingOrder
import Rustrak.Digest.NextRelease
import Rustrak.Digest.StoredCounts
import Rustrak.Digest.EnvironmentCounts
import Rustrak.Digest.Aggregates
import Rustrak.Ingest.Envelope
import Rustrak.Ingest.Parser
import Rustrak.Ingest.NulEscapes
import Rustrak.Ingest.Pending
import Rustrak.Ingest.Publish
import Rustrak.Ingest.Storage
import Rustrak.Ingest.Recovery
import Rustrak.Trimming.Databag
import Rustrak.Trimming.Charges
import Rustrak.Trimming.Size
import Rustrak.Trimming.Prefix
import Rustrak.Trimming.Events
import Rustrak.Durability.Pipeline
import Rustrak.Durability.NoLoss
import Rustrak.Durability.Simulation
import Rustrak.Durability.Queue
import Rustrak.Retention.Storage
import Rustrak.Retention.EventBatches
import Rustrak.Retention.Loops
import Rustrak.Retention.Agreement
import Rustrak.Sessions.Aggregator
import Rustrak.Sessions.Contributions
import Rustrak.Sessions.Conservation
import Rustrak.Sessions.Health
import Rustrak.Sessions.Cardinality
import Rustrak.Sessions.CrashFree
import Rustrak.Spans.GenAi
import Rustrak.Spans.Rows
import Rustrak.Spans.AgentsOff
import Rustrak.SourceMaps.Collector
import Rustrak.SourceMaps.Strays
import Rustrak.SourceMaps.Assembly
import Rustrak.SourceMaps.Ownership
import Rustrak.SourceMaps.Locks
import Rustrak.SourceMaps.Attempts
import Rustrak.Monitors.Schedule
import Rustrak.Monitors.Config
import Rustrak.Monitors.Store
import Rustrak.Monitors.Invariant
import Rustrak.Monitors.Transactions
import Rustrak.Monitors.Soundness
import Rustrak.Monitors.Statuses
import Rustrak.Monitors.Thresholds
import Rustrak.Monitors.Turns
import Rustrak.Monitors.Opening
import Rustrak.Monitors.Closing
import Rustrak.Monitors.LateStatuses
import Rustrak.Monitors.Recounting
import Rustrak.Monitors.LastRun
import Rustrak.Monitors.SweepTurns
import Rustrak.Monitors.Idempotence
import Rustrak.Scheduler.Engine
import Rustrak.Scheduler.Slots
import Rustrak.Alerts.Delivery
import Rustrak.Alerts.ShortBatches
import Rustrak.Alerts.Hands
import Rustrak.Alerts.Rules
import Rustrak.Alerts.Keys
import Rustrak.Alerts.Digests
import Rustrak.Alerts.History
import Rustrak.Alerts.FiresOnce
import Rustrak.Alerts.Stored
import Rustrak.Alerts.Reading
import Rustrak.Alerts.Settled
import Rustrak.Alerts.Survival
import Rustrak.GitHub.StatusMirror
import Rustrak.GitHub.AssigneeMirror
import Rustrak.GitHub.AutoCreate
import Rustrak.Auth.Access
import Rustrak.Auth.RoleStore
import Rustrak.Auth.Requests
import Rustrak.Auth.Holdings
import Rustrak.Auth.NoEscalation
import Rustrak.Auth.Views
import Rustrak.Auth.Accounts
import Rustrak.Auth.Owner
import Rustrak.OAuth.Grants
import Rustrak.OAuth.Tokens
import Rustrak.OAuth.Reuse
import Rustrak.GitHub.CodeOwners
import Rustrak.Events.Listing
import Rustrak.Relational.Groups
import Rustrak.Stats.ProjectList
import Rustrak.Monitors.Stats
import Rustrak.Auth.NewProject
import Rustrak.Spans.Arrivals
import Rustrak.Network.Blocks
import Rustrak.OAuth.PublicAddresses
import Rustrak.Ingest.BlankLines
import Rustrak.DataTable.Query
import Rustrak.DataTable.Tokens
import Rustrak.DataTable.RoundTrip
import Rustrak.DataTable.Address
import Rustrak.Json.Filling
import Rustrak.Json.Grammar
import Rustrak.Webhooks.JsonTemplate
import Rustrak.Webhooks.CustomWebhook
import Rustrak.Webhooks.Pieces
import Rustrak.Webhooks.Bodies
import Rustrak.Webhooks.Saved
import Rustrak.GitHub.OwnedPaths
import Rustrak.Auth.Dashboard
import Rustrak.Calendar.DateText
import Rustrak.Spans.AgentWindow
import Rustrak.Series.Grid
import Rustrak.Timeseries.Clock
import Rustrak.Timeseries.Endpoint
import Rustrak.Timeseries.Events
import Rustrak.Symbolication.Addresses
import Rustrak.Symbolication.Native
import Rustrak.Symbolication.Bounds
import Rustrak.Symbolication.Kept
import Rustrak.Symbolication.Jvm
import Rustrak.Symbolication.Remapped
import Rustrak.Sessions.Checked
import Rustrak.Sessions.Overflow
import Rustrak.Forest.Grow
import Rustrak.Waterfall.Tree
import Rustrak.Waterfall.Rows
import Rustrak.Waterfall.Placed
import Rustrak.Waterfall.Payload
import Rustrak.Waterfall.Parents
import Rustrak.Intervals.Sweep
import Rustrak.Waterfall.SelfTime
import Rustrak.Encoding.Base64
import Rustrak.Ingest.Chunks
import Rustrak.Caches.Recency
import Rustrak.Monitors.Slugs
import Rustrak.SourceMaps.ParsedMaps
import Rustrak.Symbolication.SourceContext
import Rustrak.SourceMaps.LeastRecent
import Rustrak.SourceMaps.Loading
import Rustrak.Alerts.Deletions
import Rustrak.Alerts.Owners
import Rustrak.Alerts.Stranded
import Rustrak.AgentTrace.StartTexts
import Rustrak.AgentTrace.Graph
import Rustrak.AgentTrace.Transfer
import Rustrak.AgentTrace.InTime
import Rustrak.OAuth.Codes
import Rustrak.Auth.Invitations
import Rustrak.Digest.Lifecycle
import Rustrak.Auth.SignIn
import Rustrak.Retention.CleanupJob
import Rustrak.SourceMaps.Bundles
import Rustrak.Alerts.Cooldown
