import Rexux.History.Rollout

/-!
# Reconstructing a thread from its rollout

On resume the log is read twice: backwards, segment by segment, for the newest
compaction and settings that no rollback took away, and then forwards from that
compaction for the history itself.
-/

namespace Rexux.History

open Foundation

structure PreviousTurnSettings where
  model : Text
  compHash : Option Text
  realtimeActive : Option Bool
  deriving DecidableEq, Repr

structure ReconstructedWindow where
  number : ℕ
  firstId : Option Text
  previousId : Option Text
  id : Option Text
  deriving DecidableEq, Repr

inductive TurnReferenceContextItem
  | neverSet
  | cleared
  | latest (context : TurnContextItem)
  deriving DecidableEq, Repr

/-- A compaction with a replacement history, and what follows it. -/
structure ReplayCheckpoint where
  compacted : CompactedItem
  suffix : List RolloutItem
  deriving DecidableEq, Repr

inductive WorldStateRecord
  | compacted
  | worldState (state : WorldStateItem)
  deriving DecidableEq, Repr

/-- What the scan has seen of the turn that it is in. -/
structure ActiveReplaySegment where
  turnId : Option Text
  countsAsUserTurn : Bool
  previousTurnSettings : Option PreviousTurnSettings
  referenceContextItem : TurnReferenceContextItem
  worldStateReplay : List WorldStateRecord
  baseCompaction : Option ReplayCheckpoint
  window : Option ReconstructedWindow
  deriving DecidableEq, Repr

def ActiveReplaySegment.default : ActiveReplaySegment :=
  ⟨none, false, none, .neverSet, [], none, none⟩

/-- The scan from the newest item back. -/
structure ReverseReplay where
  baseCompaction : Option ReplayCheckpoint
  previousTurnSettings : Option PreviousTurnSettings
  referenceContextItem : TurnReferenceContextItem
  worldStateReplay : List WorldStateRecord
  window : Option ReconstructedWindow
  pendingRollbackTurns : ℕ
  activeSegment : Option ActiveReplaySegment
  deriving DecidableEq, Repr

/-- Two ids differ only if both are there. -/
def turnIdsAreCompatible (activeTurnId itemTurnId : Option Text) : Bool :=
  activeTurnId.all fun active => itemTurnId.all (· = active)

namespace ActiveReplaySegment

def isFullState : WorldStateRecord → Bool
  | .worldState state => state.full
  | .compacted => false

def isStateRecord : WorldStateRecord → Bool
  | .worldState _ => true
  | .compacted => false

variable (segment : ActiveReplaySegment)

/-- A full snapshot newer than the segment's latest compaction counts as well. -/
def hasContextBaseline : Bool :=
  segment.countsAsUserTurn || (segment.worldStateReplay.takeWhile isStateRecord).any isFullState

def orTurnId (turnId : Option Text) : ActiveReplaySegment :=
  { segment with turnId := segment.turnId.or turnId }

/-- A compaction clears the reference unless a later item has set it. -/
def clearReference : TurnReferenceContextItem → TurnReferenceContextItem
  | .neverSet => .cleared
  | reference => reference

def compactedWindow (rules : HistoryRules) (compacted : CompactedItem) :
    Option ReconstructedWindow :=
  compacted.windowNumber.map fun number =>
    ⟨number, compacted.firstWindowId.bind rules.parseUuidV7,
      compacted.previousWindowId.bind rules.parseUuidV7,
      compacted.windowId.bind rules.parseUuidV7⟩

def checkpoint (compacted : CompactedItem) (suffix : List RolloutItem) : Option ReplayCheckpoint :=
  compacted.replacementHistory.map fun _ => ⟨compacted, suffix⟩

/-- A compaction within the turn. -/
def addCompacted (rules : HistoryRules) (segment : ActiveReplaySegment)
    (compacted : CompactedItem) (suffix : List RolloutItem) : ActiveReplaySegment :=
  { segment with
    worldStateReplay := segment.worldStateReplay ++ [.compacted]
    window := segment.window.or (compactedWindow rules compacted)
    referenceContextItem := clearReference segment.referenceContextItem
    baseCompaction := segment.baseCompaction.or (checkpoint compacted suffix) }

def setReference (context : TurnContextItem) : TurnReferenceContextItem → TurnReferenceContextItem
  | .neverSet => .latest context
  | reference => reference

def addTurnContext (context : TurnContextItem) : ActiveReplaySegment :=
  let segment := segment.orTurnId context.turnId
  if turnIdsAreCompatible segment.turnId context.turnId then
    { segment with
      previousTurnSettings := some ⟨context.model, context.compHash, context.realtimeActive⟩
      referenceContextItem := setReference context segment.referenceContextItem }
  else segment

def addWorldState (state : WorldStateItem) : ActiveReplaySegment :=
  { segment with worldStateReplay := segment.worldStateReplay ++ [.worldState state] }

def markUserTurn (isUserTurn : Bool) : ActiveReplaySegment :=
  { segment with countsAsUserTurn := segment.countsAsUserTurn || isUserTurn }

end ActiveReplaySegment

namespace ReverseReplay

def initial : ReverseReplay := ⟨none, none, .neverSet, [], none, 0, none⟩

def isNeverSet : TurnReferenceContextItem → Bool
  | .neverSet => true
  | _ => false

def isCleared : TurnReferenceContextItem → Bool
  | .cleared => true
  | _ => false

variable (replay : ReverseReplay)

/-- The scan has found all that it looks for. -/
def isSettled : Bool :=
  replay.baseCompaction.isSome && replay.previousTurnSettings.isSome &&
    !isNeverSet replay.referenceContextItem

/-- The turn stays; what was not found yet is taken from it. -/
def surviveSegment (segment : ActiveReplaySegment) (replay : ReverseReplay) : ReverseReplay :=
  { replay with
    worldStateReplay := replay.worldStateReplay ++ segment.worldStateReplay
    baseCompaction := replay.baseCompaction.or segment.baseCompaction
    window := replay.window.or segment.window
    previousTurnSettings :=
      if segment.hasContextBaseline then
        replay.previousTurnSettings.or segment.previousTurnSettings
      else replay.previousTurnSettings
    referenceContextItem :=
      if isNeverSet replay.referenceContextItem &&
          (segment.hasContextBaseline || isCleared segment.referenceContextItem) then
        segment.referenceContextItem
      else replay.referenceContextItem }

/-- While turns are to be dropped a segment is skipped, and counts if it is a user's. -/
def finalizeActiveSegment (segment : ActiveReplaySegment) (replay : ReverseReplay) :
    ReverseReplay :=
  if 0 < replay.pendingRollbackTurns then
    if segment.countsAsUserTurn then
      { replay with pendingRollbackTurns := replay.pendingRollbackTurns - 1 }
    else replay
  else surviveSegment segment replay

def inSegment (f : ActiveReplaySegment → ActiveReplaySegment) : ReverseReplay :=
  { replay with activeSegment := some (f (replay.activeSegment.getD .default)) }

def takeAborted (turnId : Option Text) : ReverseReplay :=
  match replay.activeSegment with
  | some segment => { replay with activeSegment := some (segment.orTurnId turnId) }
  | none =>
    { replay with
      activeSegment := turnId.map fun id => { ActiveReplaySegment.default with turnId := some id } }

/-- The start of a turn ends its segment. -/
def takeStarted (turnId : Text) : ReverseReplay :=
  match replay.activeSegment with
  | some segment =>
    if turnIdsAreCompatible segment.turnId (some turnId) then
      finalizeActiveSegment segment { replay with activeSegment := none }
    else replay
  | none => replay

/-- One item of the log, read backwards; `suffix` is what stands behind it. -/
def scanItem (rules : HistoryRules) (suffix : List RolloutItem) (replay : ReverseReplay) :
    RolloutItem → ReverseReplay
  | .compacted compacted => replay.inSegment (·.addCompacted rules compacted suffix)
  | .eventMsg (.threadRolledBack numTurns) =>
    { replay with pendingRollbackTurns := replay.pendingRollbackTurns + numTurns }
  | .eventMsg (.turnComplete turnId) => replay.inSegment (·.orTurnId (some turnId))
  | .eventMsg (.turnAborted turnId) => replay.takeAborted turnId
  | .eventMsg (.userMessage _) => replay.inSegment (·.markUserTurn true)
  | .turnContext context => replay.inSegment (·.addTurnContext context)
  | .worldState state => replay.inSegment (·.addWorldState state)
  | .eventMsg (.turnStarted turnId) => replay.takeStarted turnId
  | .responseItem envelope =>
    replay.inSegment (·.markUserTurn (rules.isUserTurnBoundary envelope.item))
  | .interAgentCommunication _ => replay.inSegment (·.markUserTurn true)
  | .eventMsg (.itemCompleted _ _) => replay
  | .eventMsg (.other _ _) => replay
  | .sessionMeta _ => replay
  | .realtimeItem _ => replay
  | .securityRiskScore _ => replay
  | .tokenUsageRecord _ _ => replay
  | .interAgentCommunicationMetadata _ => replay

def scan (rules : HistoryRules) : List RolloutItem → List RolloutItem → ReverseReplay →
    ReverseReplay
  | [], _, replay => replay
  | item :: older, suffix, replay =>
    let next := scanItem rules suffix replay item
    if next.isSettled then next else scan rules older (item :: suffix) next

def finish : ReverseReplay :=
  match replay.activeSegment with
  | none => replay
  | some segment => finalizeActiveSegment segment { replay with activeSegment := none }

end ReverseReplay

structure ForwardReplay where
  history : List ResponseItemEnvelope
  sawLegacyCompactionWithoutReplacementHistory : Bool
  deriving DecidableEq, Repr

namespace ForwardReplay

def record (rules : HistoryRules) (replay : ForwardReplay) (envelope : ResponseItemEnvelope) :
    ForwardReplay :=
  { replay with history := replay.history ++ rules.recorded envelope }

/-- A newer compaction with its own history belongs to a turn that was rolled back. -/
def replayItem (rules : HistoryRules) (replay : ForwardReplay) : RolloutItem → ForwardReplay
  | .responseItem envelope => replay.record rules envelope
  | .interAgentCommunication communication =>
    replay.record rules (.new communication.toModelInputItem)
  | .compacted compacted =>
    if compacted.replacementHistory.isNone then
      ⟨rules.compactLegacy replay.history compacted.message, true⟩
    else replay
  | .eventMsg (.threadRolledBack numTurns) =>
    { replay with history := rules.dropLastNUserTurns numTurns replay.history }
  | .eventMsg _ => replay
  | .interAgentCommunicationMetadata _ => replay
  | .turnContext _ => replay
  | .realtimeItem _ => replay
  | .worldState _ => replay
  | .securityRiskScore _ => replay
  | .tokenUsageRecord _ _ => replay
  | .sessionMeta _ => replay

def replay (rules : HistoryRules) (items : List RolloutItem) (start : ForwardReplay) :
    ForwardReplay :=
  items.foldl (replayItem rules) start

end ForwardReplay

structure RolloutReconstruction where
  history : List ResponseItemEnvelope
  previousTurnSettings : Option PreviousTurnSettings
  referenceContextItem : Option TurnContextItem
  worldStateBaseline : Option Text
  window : ReconstructedWindow
  deriving DecidableEq, Repr

def isCompacted : RolloutItem → Bool
  | .compacted _ => true
  | _ => false

def isLegacyCompaction : RolloutItem → Bool
  | .compacted compacted => compacted.windowNumber.isNone
  | _ => false

variable (rules : HistoryRules) (items : List RolloutItem)

/-- The window that the session began with. -/
def sessionWindow : RolloutItem → Option ReconstructedWindow
  | .sessionMeta session =>
    (session.contextWindow.bind fun window => rules.parseUuidV7 window.windowId).map
      fun id => ⟨0, some id, none, some id⟩
  | _ => none

/-- The first window, unless an old compaction makes the count unreliable. -/
def initialWindow : Option ReconstructedWindow :=
  if items.any isLegacyCompaction then none else items.findSome? (sessionWindow rules)

def fallbackWindow : ReconstructedWindow :=
  ⟨items.countP isCompacted, none, none, none⟩

def latestContext : TurnReferenceContextItem → Option TurnContextItem
  | .latest context => some context
  | _ => none

/-- A patch without a full snapshot before it is ignored. -/
def worldStateStep (baseline : Option Text) : WorldStateRecord → Option Text
  | .compacted => none
  | .worldState state =>
    if state.full then some (rules.snapshotFrom state.state)
    else baseline.map (rules.applyMergePatch · state.state)

def startOfReplay (base : Option ReplayCheckpoint) : ForwardReplay :=
  ⟨(base.bind (·.compacted.replacementHistory)).getD [], false⟩

/-- The replay from the checkpoint, or from the start. -/
def reconstructHistory (base : Option ReplayCheckpoint) : ForwardReplay :=
  ForwardReplay.replay rules ((base.map (·.suffix)).getD items) (startOfReplay base)

def reverseReplay : ReverseReplay :=
  (ReverseReplay.scan rules items.reverse [] .initial).finish

/-- What a rollout is resumed with. -/
def reconstructHistoryFromRollout : RolloutReconstruction :=
  let reverse := reverseReplay rules items
  let forward := reconstructHistory rules items reverse.baseCompaction
  { history := forward.history
    previousTurnSettings := reverse.previousTurnSettings
    referenceContextItem :=
      if forward.sawLegacyCompactionWithoutReplacementHistory then none
      else latestContext reverse.referenceContextItem
    worldStateBaseline := reverse.worldStateReplay.reverse.foldl (worldStateStep rules) none
    window := (reverse.window.or (initialWindow rules items)).getD (fallbackWindow items) }

end Rexux.History
