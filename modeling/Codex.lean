import Codex.ExecPolicy.Check
import Codex.Conversation.WorldState.Replay
import Codex.ExecServer.Relay
import Codex.ApplyPatch.Approved
import Codex.ApplyPatch.TextualUpdate
import Codex.RemoteControl.Custody
import Codex.RemoteControl.OutboundDelivery
import Codex.StreamParser.ProposedPlan
import Codex.UnifiedExec.OutputReport
import Codex.UnifiedExec.CursorReads
import Codex.AgentTaskStore.WakeDelivery
import Codex.ExecServer.Process.StdinWrites
import Codex.ExecServer.SessionRegistry
import Codex.ExecServer.Process.Delivery
import Codex.TurnDiff.NetChange
import Codex.ApplyPatch.JsonPatch
import Codex.RemoteControl.Replays
import Codex.Conversation.PlanSnapshot
import Codex.Conversation.Rollback
import Codex.Conversation.PlanProjection
import Codex.AgentTaskStore.Admission
import Codex.ExecPolicy.NetworkHost
import Codex.ShellCommand.LaunchPolicy
import Codex.AppServer.ThreadQueue
import Codex.Config.Origins
import Codex.CodeMode.FramedReader
import Codex.ShellCommand.SafeGit
import Codex.ShellCommand.Removal
import Codex.TurnDiff.RenderDiff
import Codex.Permissions.Signature
import Codex.Truncation.TokenCeiling
import Codex.UnifiedExec.Utf8Split
import Codex.FileWatcher.Coalescing
