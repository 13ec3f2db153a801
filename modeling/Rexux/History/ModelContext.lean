import Rexux.History.Reconstruct

/-!
# The bounded suffix of a rollout

A reader of a long rollout goes backwards until a compaction and a turn with its settings
are found, and resumes from what it has read.
-/

namespace Rexux.History

open Foundation List

/-- What the scan has seen of the turn that it is in. -/
structure ActiveTurnSegment where
  turnId : Option Text
  hasUserTurn : Bool
  hasTurnContext : Bool
  hasFullWorldState : Bool
  sawCompaction : Bool
  deriving DecidableEq, Repr

namespace ActiveTurnSegment

def default : ActiveTurnSegment := ⟨none, false, false, false, false⟩

variable (segment : ActiveTurnSegment)

def orTurnId (turnId : Option Text) : ActiveTurnSegment :=
  { segment with turnId := segment.turnId.or turnId }

def markUserTurn (isUserTurn : Bool) : ActiveTurnSegment :=
  { segment with hasUserTurn := segment.hasUserTurn || isUserTurn }

/-- An item of another turn does not count. -/
def addItemCompleted (turnId : Text) (isUserMessage : Bool) : ActiveTurnSegment :=
  let segment := segment.orTurnId (some turnId)
  if turnIdsAreCompatible segment.turnId (some turnId) then segment.markUserTurn isUserMessage
  else segment

def addTurnContext (context : TurnContextItem) : ActiveTurnSegment :=
  let segment := segment.orTurnId context.turnId
  if turnIdsAreCompatible segment.turnId context.turnId then
    { segment with hasTurnContext := true }
  else segment

def addWorldState (state : WorldStateItem) : ActiveTurnSegment :=
  { segment with
    hasFullWorldState := segment.hasFullWorldState || (state.full && !segment.sawCompaction) }

end ActiveTurnSegment

/-- The scan from the end: what was collected, and what it still has to find. -/
structure ModelContextScan where
  itemsNewestFirst : List RolloutItem
  sawCompaction : Bool
  sawCompletedTurnContext : Bool
  mustScanToStart : Bool
  activeSegment : ActiveTurnSegment
  deriving DecidableEq, Repr

/-- The item makes its turn a user turn. -/
def responseItemCountsAsUserTurn (rules : HistoryRules) : ResponseItem → Bool
  | .agentMessage _ _ => true
  | .message _ role content _ _ =>
    role = "assistant".toList && rules.isInterAgentInstructionContent content
  | _ => false

namespace ModelContextScan

def initial : ModelContextScan := ⟨[], false, false, false, .default⟩

/-- The scan has found all that resuming needs. -/
def hasBoundedCutoff (scan : ModelContextScan) : Bool :=
  !scan.mustScanToStart && scan.sawCompaction && scan.sawCompletedTurnContext

/-- The scan leaves a turn. -/
def finalizeActiveSegment (scan : ModelContextScan) : ModelContextScan :=
  { scan with
    sawCompletedTurnContext := scan.sawCompletedTurnContext ||
      (scan.activeSegment.hasTurnContext &&
        (scan.activeSegment.hasUserTurn || scan.activeSegment.hasFullWorldState))
    activeSegment := .default }

def inSegment (scan : ModelContextScan) (f : ActiveTurnSegment → ActiveTurnSegment) :
    ModelContextScan :=
  { scan with activeSegment := f scan.activeSegment }

section Scan

variable (rules : HistoryRules) (isUserMessageItem : Text → Bool)

variable (scan : ModelContextScan)

/-- What an item changes.  `isUserMessageItem` tells the items that are messages of a user
from the other ones that complete in a turn. -/
def observeItem : RolloutItem → ModelContextScan
  | .compacted compacted =>
    if compacted.replacementHistory.isNone || compacted.windowNumber.isNone then
      { scan with mustScanToStart := true }
    else
      { scan with
        sawCompaction := true
        activeSegment := { scan.activeSegment with sawCompaction := true } }
  | .eventMsg (.threadRolledBack _) => { scan with mustScanToStart := true }
  | .eventMsg (.itemCompleted turnId content) =>
    scan.inSegment (·.addItemCompleted turnId (isUserMessageItem content))
  | .eventMsg (.turnComplete turnId) => scan.inSegment (·.orTurnId (some turnId))
  | .eventMsg (.turnAborted turnId) => scan.inSegment (·.orTurnId turnId)
  | .eventMsg (.turnStarted turnId) =>
    if turnIdsAreCompatible scan.activeSegment.turnId (some turnId) then
      scan.finalizeActiveSegment
    else scan
  | .turnContext context => scan.inSegment (·.addTurnContext context)
  | .responseItem envelope =>
    scan.inSegment (·.markUserTurn (responseItemCountsAsUserTurn rules envelope.item))
  | .interAgentCommunication _ => scan.inSegment (·.markUserTurn true)
  | .eventMsg (.userMessage _) => scan.inSegment (·.markUserTurn true)
  | .worldState state => scan.inSegment (·.addWorldState state)
  | .eventMsg (.other _ _) => scan
  | .sessionMeta _ => scan
  | .interAgentCommunicationMetadata _ => scan
  | .realtimeItem _ => scan
  | .securityRiskScore _ => scan
  | .tokenUsageRecord _ _ => scan

/-- Once the scan has to reach the start, nothing is looked at any more. -/
def observe (item : RolloutItem) : ModelContextScan :=
  if scan.mustScanToStart then scan else scan.observeItem rules isUserMessageItem item

def push (item : RolloutItem) : ModelContextScan :=
  { scan.observe rules isUserMessageItem item with
    itemsNewestFirst := scan.itemsNewestFirst ++ [item] }

/-- Items are pushed, newest first, until the scan is complete. -/
def feed : List RolloutItem → ModelContextScan → ModelContextScan
  | [], scan => scan
  | item :: older, scan =>
    let next := scan.push rules isUserMessageItem item
    if next.hasBoundedCutoff then next else feed older next

def pushAll (items : List RolloutItem) : ModelContextScan :=
  items.foldl (push rules isUserMessageItem) scan

end Scan

/-- What was collected in its order; a part comes behind the session's own record. -/
def finish (scan : ModelContextScan) (session : SessionMeta) : List RolloutItem :=
  if scan.hasBoundedCutoff then .sessionMeta session :: scan.itemsNewestFirst.reverse
  else scan.itemsNewestFirst.reverse

end ModelContextScan

/-- The part of a rollout that is loaded for the model. -/
def modelContext (rules : HistoryRules) (isUserMessageItem : Text → Bool)
    (session : SessionMeta) (items : List RolloutItem) : List RolloutItem :=
  (ModelContextScan.feed rules isUserMessageItem items.reverse .initial).finish session

namespace ModelContextScan

variable {rules : HistoryRules} {isUserMessageItem : Text → Bool} {scan : ModelContextScan}

theorem itemsNewestFirst_pushAll (items : List RolloutItem) :
    (scan.pushAll rules isUserMessageItem items).itemsNewestFirst =
      scan.itemsNewestFirst ++ items := by
  induction items generalizing scan with
  | nil => exact (append_nil _).symm
  | cons item items ih =>
    change ((scan.push rules isUserMessageItem item).pushAll rules isUserMessageItem
      items).itemsNewestFirst = _
    rw [ih, push, append_assoc]
    rfl

theorem hasBoundedCutoff_push_sessionMeta (session : SessionMeta) :
    (scan.push rules isUserMessageItem (.sessionMeta session)).hasBoundedCutoff =
      scan.hasBoundedCutoff := by
  unfold push observe
  split
  · rfl
  · rfl

theorem feed_cases (hscan : scan.hasBoundedCutoff = false) (items : List RolloutItem)
    (session : SessionMeta) :
    (feed rules isUserMessageItem (items ++ [.sessionMeta session]) scan).hasBoundedCutoff = false ∧
        (feed rules isUserMessageItem (items ++ [.sessionMeta session]) scan).itemsNewestFirst =
          scan.itemsNewestFirst ++ (items ++ [.sessionMeta session]) ∨
      ∃ taken rest, items = taken ++ rest ∧
        feed rules isUserMessageItem (items ++ [.sessionMeta session]) scan =
          scan.pushAll rules isUserMessageItem taken ∧
        (scan.pushAll rules isUserMessageItem taken).hasBoundedCutoff := by
  induction items generalizing scan with
  | nil =>
    left
    rw [nil_append, feed, hasBoundedCutoff_push_sessionMeta, hscan,
      if_neg Bool.false_ne_true, feed, hasBoundedCutoff_push_sessionMeta]
    exact ⟨hscan, rfl⟩
  | cons item items ih =>
    rw [cons_append, feed]
    cases hnext : (scan.push rules isUserMessageItem item).hasBoundedCutoff with
    | true =>
      right
      exact ⟨[item], items, rfl, if_pos rfl, hnext⟩
    | false =>
      rw [if_neg Bool.false_ne_true]
      rcases ih hnext with ⟨hopen, hitems⟩ | ⟨taken, rest, rfl, hfeed, hcutoff⟩
      · left
        refine ⟨hopen, ?_⟩
        rw [hitems, push, append_assoc]
        rfl
      · exact .inr ⟨item :: taken, rest, rfl, hfeed, hcutoff⟩

/-- The part is the whole rollout, or a suffix at which the scan has found all. -/
theorem modelContext_cases (rules : HistoryRules) (isUserMessageItem : Text → Bool)
    (session : SessionMeta) (items : List RolloutItem) :
    modelContext rules isUserMessageItem session (.sessionMeta session :: items) =
        .sessionMeta session :: items ∨
      ∃ older newer, items = older ++ newer ∧
        modelContext rules isUserMessageItem session (.sessionMeta session :: items) =
          .sessionMeta session :: newer ∧
        (initial.pushAll rules isUserMessageItem newer.reverse).hasBoundedCutoff := by
  unfold modelContext
  rw [reverse_cons]
  have hfeed := @feed_cases rules isUserMessageItem initial rfl items.reverse session
  rcases hfeed with ⟨hopen, hitems⟩ | ⟨taken, rest, hsplit, hfeed, hcutoff⟩
  · left
    rw [finish, hopen, hitems]
    simp [initial]
  · right
    refine ⟨rest.reverse, taken.reverse, ?_, ?_, ?_⟩
    · rw [← reverse_append, ← hsplit, reverse_reverse]
    · rw [hfeed, finish, hcutoff, itemsNewestFirst_pushAll]
      rfl
    · rw [reverse_reverse]
      exact hcutoff

end ModelContextScan

end Rexux.History
