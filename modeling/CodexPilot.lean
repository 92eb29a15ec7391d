import CodexPilot.Agent.Resume
import CodexPilot.Agent.Slots
import CodexPilot.AgentJobs.Csv
import CodexPilot.AgentJobs.FailedSpawns
import CodexPilot.AgentJobs.Templates
import CodexPilot.AppServer.Forwarding
import CodexPilot.ApplyPatch.Moves
import CodexPilot.ApplyPatch.Overlap
import CodexPilot.ApplyPatch.Prediction
import CodexPilot.ApplyPatch.RoundTrip
import CodexPilot.ApplyPatch.Safety
import CodexPilot.Composer.Cursor
import CodexPilot.Composer.ImageLabels
import CodexPilot.Composer.PasteExpansion
import CodexPilot.Composer.SubmittedElements
import CodexPilot.Composer.TypingOrder
import CodexPilot.Config.Edits
import CodexPilot.Config.McpServers
import CodexPilot.Config.Origins
import CodexPilot.Config.SkillEdits
import CodexPilot.Config.UnrelatedEdits
import CodexPilot.ContextManager.Compaction
import CodexPilot.ContextManager.Pairs
import CodexPilot.ExecPolicy.Amendment
import CodexPilot.ExecPolicyLegacy.Program
import CodexPilot.ExecServer.Reads
import CodexPilot.ExecServer.Rpc
import CodexPilot.ExecServer.Shutdown
import CodexPilot.LiveWrap
import CodexPilot.Login.RefreshFailures
import CodexPilot.Login.RefreshTokens
import CodexPilot.Mcp.ToolNames
import CodexPilot.Memories.Retries
import CodexPilot.MessageHistory.File
import CodexPilot.ModelClient.Incremental
import CodexPilot.NetworkApproval.Abandonment
import CodexPilot.NetworkApproval.SessionDecisions
import CodexPilot.NetworkProxy.Decisions
import CodexPilot.Readiness.Tokens
import CodexPilot.Rollout.ErasedTurns
import CodexPilot.Rollout.ItemIds
import CodexPilot.Rollout.Resume
import CodexPilot.Rollout.UserMessages
import CodexPilot.Sandbox.AdditionalRoots
import CodexPilot.Sandbox.Grants
import CodexPilot.Sandbox.LegacyPolicy
import CodexPilot.Sandbox.MountPlan
import CodexPilot.Sessions.Completeness
import CodexPilot.ShellCommand.Git
import CodexPilot.ShellEscalation.Socket
import CodexPilot.ShellEscalation.Stopwatch
import CodexPilot.State.Logs
import CodexPilot.State.Threads
import CodexPilot.StreamParser.AssistantText
import CodexPilot.StreamParser.LineTags
import CodexPilot.StreamParser.Utf8Stream
import CodexPilot.Templating
import CodexPilot.UnifiedExec.AsyncWatcher
import CodexPilot.UnifiedExec.ProcessStore
