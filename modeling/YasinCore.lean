import YasinCore.Library.Transition
import YasinCore.Library.Hoare
import YasinCore.Library.Text
import YasinCore.Library.Tree.Writes
import YasinCore.Library.LinearExtension
import YasinCore.Library.Glob
import YasinCore.Library.Locks
import YasinCore.Library.Json.RoundTrip
import YasinCore.Library.DateTime
import YasinCore.Library.Isoformat
import YasinCore.Library.Base64
import YasinCore.Library.Utf8
import YasinCore.Library.CounterMode
import YasinCore.Library.Tree.Leaves
import YasinCore.Library.BreadthFirst
import YasinCore.Library.SemVer
import YasinCore.Library.Tree.Forced
import YasinCore.Library.Json.Truncation
import YasinCore.Library.RoseTree
import YasinCore.Library.Json.Compact
import YasinCore.Library.Query
import YasinCore.Storage.Transactions
import YasinCore.Storage.Recovery
import YasinCore.Config.Precedence
import YasinCore.Config.Validation
import YasinCore.Config.Masking
import YasinCore.Config.MissingKeys
import YasinCore.Config.Rejection
import YasinCore.Config.PluginDefaults
import YasinCore.Contracts.Parsing
import YasinCore.Contracts.Bearer
import YasinCore.DI.Container
import YasinCore.DI.Frames
import YasinCore.DI.Nested
import YasinCore.DI.Singletons
import YasinCore.DI.Termination
import YasinCore.DI.Cycles
import YasinCore.Events.Mirroring
import YasinCore.Events.Transport
import YasinCore.Security.ApiKeys
import YasinCore.Security.Decorator
import YasinCore.Security.Protection
import YasinCore.Runtime.Orchestrator
import YasinCore.Plugins.Dependencies
import YasinCore.Plugins.Shutdown
import YasinCore.Plugins.Errors
import YasinCore.Plugins.Validation
import YasinCore.Plugins.Termination
import YasinCore.Context.Lineage
import YasinCore.Context.Expiry
import YasinCore.Memory.Interchange
import YasinCore.Memory.Sharing
import YasinCore.Execution.Distributed.Lemmas
import YasinCore.Execution.Assignment
import YasinCore.Execution.Worker.Lemmas
import YasinCore.Execution.Conservation
import YasinCore.Execution.Absorption
import YasinCore.Execution.LocalRuns
import YasinCore.Execution.DistributedRuns
import YasinCore.Execution.Locking
import YasinCore.Execution.Heartbeats
import YasinCore.Execution.Isolation
import YasinCore.Execution.LateReports
import YasinCore.Execution.Routing
import YasinCore.Execution.Sweep
import YasinCore.Execution.PriorityOrder
import YasinCore.Agents.Permissions
import YasinCore.Agents.Messaging
import YasinCore.Scheduling.DueTimes
import YasinCore.Scheduling.Unscheduling
import YasinCore.Scheduling.Resume
import YasinCore.Scheduling.Crontab
import YasinCore.Scheduling.Ticks
import YasinCore.Scheduling.Targets
import YasinCore.Scheduling.RunLimits
import YasinCore.Compatibility.Agreement
import YasinCore.Compatibility.Suffixes
import YasinCore.Compatibility.Negotiation
import YasinCore.Compatibility.CaretRange
import YasinCore.Compatibility.SchemaMigration
import YasinCore.Compatibility.Precedence
import YasinCore.Compatibility.ConfigMigration
import YasinCore.Compatibility.ConfigLosses
import YasinCore.Providers.Fallback
import YasinCore.Observability.Client
import YasinCore.Observability.Agreement
import YasinCore.Observability.ErrorTracker
import YasinCore.Observability.Logs
import YasinCore.Observability.Queries
import YasinCore.Api.Validation
import YasinCore.Api.Auth
import YasinCore.Sdk.Boundary
