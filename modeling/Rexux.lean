import Rexux.ApplyPatch.ParserAgreement
import Rexux.ApplyPatch.PatchPrinter
import Rexux.ApplyPatch.Delta
import Rexux.ApplyPatch.Verify
import Rexux.ApplyPatch.Placement
import Rexux.NetworkProxy.DomainConstraints
import Rexux.NetworkProxy.BlockedRequests
import Rexux.Permissions.Intersection
import Rexux.Permissions.EntryOrder
import Rexux.Permissions.Legacy
import Rexux.LinuxSandbox.PlanGrants
import Rexux.ExecPolicy.RulesFile
import Rexux.ExecPolicy.HostNormalForm
import Rexux.ExecServer.ProcessLog
import Rexux.ExecServer.StdinWrites
import Rexux.ExecServer.RelayDelivery
import Rexux.ExecServer.ReorderWindow
import Rexux.RemoteControl.ClientTracker
import Rexux.RemoteControl.SegmentSplit
import Rexux.History.RollbackViews
import Rexux.History.RolledBackTurns
import Rexux.History.ModelContextTurns
import Rexux.History.ForkPositions
import Rexux.History.OldestItem
import Rexux.Context.WorldState
import Rexux.Rollout.RecorderLog
import Rexux.Rollout.SessionIndex
import Rexux.UnifiedExec.HeadTailBuffer
import Rexux.Agent.Residency
import Rexux.AppServer.ThreadStatus
import Rexux.FileWatcher.RefCounts
import Rexux.Utils.FuzzyMatch
