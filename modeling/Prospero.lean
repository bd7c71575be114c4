import Prospero.Proofs.AgentStream
import Prospero.Proofs.DistributedBus
import Prospero.Proofs.Reattach
import Prospero.Proofs.SessionPlane
import Prospero.Proofs.SessionTasks
import Prospero.Proofs.FleetStream
import Prospero.Proofs.Leases
import Prospero.Proofs.HeldMirror
import Prospero.Proofs.Divergence
import Prospero.Proofs.Lifecycle
import Prospero.Proofs.Outcomes
import Prospero.Proofs.WatchFleet
import Prospero.Proofs.WatchChanges
import Prospero.Proofs.WatchLoop
import Prospero.Proofs.Ticks
import Prospero.Proofs.Creations
import Prospero.Proofs.Runs
import Prospero.Proofs.Dashboard
import Prospero.Proofs.Spawning
import Prospero.Proofs.Enforcement
import Prospero.Proofs.Incarnations
import Prospero.Proofs.Snapshot
import Prospero.Proofs.Marks
import Prospero.Proofs.Attribution
import Prospero.Proofs.Workspaces
import Prospero.Proofs.Aliasing
import Prospero.Proofs.FailedWrites
import Prospero.Proofs.Refresh
import Prospero.Proofs.Sessions
import Prospero.Proofs.UsageQuery
import Prospero.Proofs.ConfigForm
import Prospero.Proofs.RetentionAge
import Prospero.Proofs.Unattended
import Prospero.Proofs.Reconnect
import Prospero.Proofs.Interpolation
import Prospero.Proofs.Prompts
import Prospero.Timeline
import Prospero.Proofs.Timeline
import Prospero.Proofs.Pairing
import Prospero.Proofs.DeadlineArithmetic
import Prospero.Proofs.FormChecks
import Prospero.Reporting
import Prospero.Proofs.Reporting
import Prospero.UsageWindow
import Prospero.Proofs.UsageWindow
import Prospero.RunHistory
import Prospero.Proofs.RunHistory
import Prospero.Proofs.DisabledTicks
import Prospero.Proofs.CivilCalendar
import Prospero.Proofs.Timestamp
import Prospero.Proofs.AttachBudget
import Prospero.Proofs.Seeding
import Prospero.Proofs.TaskNames
import Prospero.Proofs.AttachSlots
import Prospero.SqlStore
import Prospero.Proofs.SqlStore
import Prospero.JsonlStore
import Prospero.Proofs.JsonlStore
import Prospero.FleetCursors
import Prospero.Proofs.FleetCursors
import Prospero.Proofs.Sse
import Prospero.Proofs.FleetWire
import Prospero.Proofs.LeastPrivilege
import Prospero.Proofs.InProcessBus
import Prospero.Proofs.OpenApi
import Prospero.Proofs.TokensFile
import Prospero.Proofs.Routing
import Prospero.Proofs.UsageCommand
import Prospero.Proofs.McpEvents
import Prospero.Proofs.PollLoop
import Prospero.Proofs.ReconnectWire
import Prospero.ControlWire
import Prospero.Proofs.ControlWire
