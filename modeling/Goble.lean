import Goble.Replay.Candidate
import Goble.Daemon.Attribution
import Goble.Daemon.Snapshots
import Goble.Daemon.Transcript
import Goble.Daemon.Durability
import Goble.Daemon.Isolation
import Goble.Pty.Framing
import Goble.Pty.Delivery
import Goble.Pty.Connections
import Goble.Pty.Exit
import Goble.Pty.Client
import Goble.Terminal.ImageChunks
import Goble.Terminal.ImageMemory
import Goble.Terminal.ScreenChunks
import Goble.Terminal.ScrollTo
import Goble.Terminal.Search
import Goble.Terminal.Anchors
import Goble.Update.Recovery
import Goble.Update.Restore
import Goble.Workflows.Budget
import Goble.Workflows.Forbidden
import Goble.Workflows.Journal
import Goble.Panes.Beside
import Goble.Panes.Closing
import Goble.Update.Offers
import Goble.Update.Staging
import Goble.Vim.History
import Goble.Vim.Outcome
import Goble.Vim.Repeat
import Goble.Vim.VisualMotions
import Goble.Vim.Leftovers
import Goble.Vim.ObjectRanges
import Goble.Diff.Visible
import Goble.Mission.Missions
import Goble.Mission.Instructed
import Goble.Mission.Paired
import Goble.Mission.Reloaded
import Goble.Mission.Decisions
import Goble.Cron.Firing
import Goble.Cron.Worker
import Goble.Identity.Revocation
import Goble.Leader.Election
import Goble.Gateway.Relay
import Goble.Gateway.Tabs
import Goble.Terminal.HookRecovery
import Goble.Telemetry.Accounts
import Goble.ThreadStore.Persist
import Goble.Subagents.Usage
import Goble.Subagents.Sent
import Goble.Terminal.BlockHistory
import Goble.Daemon.Seams
import Goble.Terminal.OscEvents
import Goble.Terminal.Mouse
import Goble.Terminal.Ansi
import Goble.Update.Shown
import Goble.Terminal.SixelBounds
import Goble.Snapshot.Payload
import Goble.Goblin.Panes
import Goble.Commands.Approved
import Goble.Ssh.Command
import Goble.Llm.ToolCalls
import Goble.Snapshot.Provider
import Goble.Memory.Compaction
import Goble.Config.Migrate
