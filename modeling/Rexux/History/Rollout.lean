import Rexux.Foundation.ListEdits
import Rexux.History.ResponseItem

/-!
# Rollouts and the history they record

A rollout is the log of a thread: what was recorded for the model, the turns it was
recorded in, compactions and rollbacks.  Of the history in memory only the items are
modelled; the copy kept for reviews, versions and token counts are not read here.
-/

namespace Rexux.History

open Foundation

structure UserMessageEvent where
  message : Text
  images : Option (List Text)
  audio : Option (List Text)
  localImages : List Text
  localAudio : List Text
  deriving DecidableEq, Repr

/-- `other` are the events that neither open, close nor roll back a turn; some name the
turn they belong to. -/
inductive EventMsg
  | turnStarted (turnId : Text)
  | turnComplete (turnId : Text)
  | turnAborted (turnId : Option Text)
  | userMessage (event : UserMessageEvent)
  | threadRolledBack (numTurns : ℕ)
  | itemCompleted (turnId : Text) (content : Text)
  | other (turnId : Option Text) (content : Text)
  deriving DecidableEq, Repr

structure SessionContextWindow where
  windowId : Text
  deriving DecidableEq, Repr

structure SessionMeta where
  contextWindow : Option SessionContextWindow
  rest : Text
  deriving DecidableEq, Repr

/-- A compaction, and what it replaces the history by. -/
structure CompactedItem where
  message : Text
  replacementHistory : Option (List ResponseItemEnvelope)
  mcpResourceOrigins : Option Text
  windowNumber : Option ℕ
  firstWindowId : Option Text
  previousWindowId : Option Text
  windowId : Option Text
  rest : Text
  deriving DecidableEq, Repr

structure TurnContextItem where
  turnId : Option Text
  model : Text
  compHash : Option Text
  realtimeActive : Option Bool
  rest : Text
  deriving DecidableEq, Repr

structure WorldStateItem where
  full : Bool
  state : Text
  deriving DecidableEq, Repr

/-- `content` is the input the model is given for it. -/
structure InterAgentCommunication where
  content : Text
  passthrough : Passthrough
  deriving DecidableEq, Repr

def InterAgentCommunication.toModelInputItem (communication : InterAgentCommunication) :
    ResponseItem :=
  .agentMessage communication.content communication.passthrough

/-- The lines of a rollout file. -/
inductive RolloutItem
  | sessionMeta (session : SessionMeta)
  | responseItem (envelope : ResponseItemEnvelope)
  | interAgentCommunication (communication : InterAgentCommunication)
  | interAgentCommunicationMetadata (triggerTurn : Bool)
  | compacted (compacted : CompactedItem)
  | turnContext (context : TurnContextItem)
  | tokenUsageRecord (turnId : Text) (content : Text)
  | worldState (state : WorldStateItem)
  | securityRiskScore (content : Text)
  | eventMsg (event : EventMsg)
  | realtimeItem (content : Text)
  deriving DecidableEq, Repr

/-- The item tells of a rollback. -/
def isRollbackMarker : RolloutItem → Bool
  | .eventMsg (.threadRolledBack _) => true
  | _ => false

/-- How texts are told apart, and the helpers of other modules.  `compactLegacy` builds
the history after a compaction that did not record one. -/
structure HistoryRules where
  isContextualUserFragment : ContentItem → Bool
  isContextualDevFragment : ContentItem → Bool
  isInterAgentInstructionContent : List ContentItem → Bool
  isRebuiltText : Text → Bool
  truncate : Option ℕ → FunctionCallOutputPayload → FunctionCallOutputPayload
  compactLegacy : List ResponseItemEnvelope → Text → List ResponseItemEnvelope
  parseUuidV7 : Text → Option Text
  snapshotFrom : Text → Text
  applyMergePatch : Text → Text → Text

def ResponseItem.passthrough : ResponseItem → Passthrough
  | .message _ _ _ _ passthrough => passthrough
  | .localShellCall _ _ _ passthrough => passthrough
  | .functionCall _ _ _ passthrough => passthrough
  | .toolSearchCall _ _ _ _ passthrough => passthrough
  | .customToolCall _ _ _ passthrough => passthrough
  | .functionCallOutput _ _ _ _ _ passthrough => passthrough
  | .customToolCallOutput _ _ _ _ passthrough => passthrough
  | .toolSearchOutput _ _ _ _ _ passthrough => passthrough
  | .imageGenerationCall _ _ _ _ passthrough => passthrough
  | .agentMessage _ passthrough => passthrough
  | .reasoning _ passthrough => passthrough
  | .additionalTools _ => none
  | .webSearchCall _ passthrough => passthrough
  | .compaction _ passthrough => passthrough
  | .compactionTrigger => none
  | .contextCompaction _ passthrough => passthrough
  | .other => none

/-- The turn an item is stamped with; an empty stamp is none. -/
def ResponseItem.turnId (item : ResponseItem) : Option Text :=
  (item.passthrough.bind (·.turnId)).filter (· ≠ [])

namespace HistoryRules

variable (rules : HistoryRules)

def isContextualUserMessageContent (content : List ContentItem) : Bool :=
  content.any rules.isContextualUserFragment

def isContextualDevMessageContent (content : List ContentItem) : Bool :=
  content.any rules.isContextualDevFragment

/-- The item is an instruction to the model, by the user or by an agent. -/
def isUserTurnBoundary : ResponseItem → Bool
  | .agentMessage _ _ => true
  | .message _ role content _ _ =>
    (role = "user".toList && !rules.isContextualUserMessageContent content) ||
      (role = "assistant".toList && rules.isInterAgentInstructionContent content)
  | _ => false

/-- What is trimmed above a turn that is rolled back. -/
def isContextual : ResponseItem → Bool
  | .message _ role content _ _ =>
    (role = "developer".toList && rules.isContextualDevMessageContent content) ||
      (role = "user".toList && rules.isContextualUserMessageContent content)
  | _ => false

/-- The item is kept in the history. -/
def isApiMessage : ResponseItem → Bool
  | .message _ role _ _ _ => role ≠ "system".toList
  | .compactionTrigger => false
  | .other => false
  | _ => true

def processed (envelope : ResponseItemEnvelope) : ResponseItemEnvelope :=
  let limit := envelope.metadata.bind (·.fallbackTokenLimitOverride)
  match envelope.item with
  | .functionCallOutput id callId name namespace' output passthrough =>
    { envelope with
      item := .functionCallOutput id callId name namespace' (rules.truncate limit output)
        passthrough }
  | .customToolCallOutput id callId name output passthrough =>
    { envelope with
      item := .customToolCallOutput id callId name (rules.truncate limit output) passthrough }
  | _ => envelope

def recorded (envelope : ResponseItemEnvelope) : List ResponseItemEnvelope :=
  if isApiMessage envelope.item then [rules.processed envelope] else []

def userMessagePositions (items : List ResponseItemEnvelope) : List ℕ :=
  positionsFrom (fun envelope => rules.isUserTurnBoundary envelope.item) 0 items

/-- The cut moves back over the context that precedes a turn. -/
def trimPreTurnContextUpdates (snapshot : List ResponseItemEnvelope)
    (firstInstructionTurnIdx : ℕ) : ℕ → ℕ
  | 0 => 0
  | cutIdx + 1 =>
    if firstInstructionTurnIdx < cutIdx + 1 &&
        (snapshot[cutIdx]?).any (fun envelope => rules.isContextual envelope.item) then
      trimPreTurnContextUpdates snapshot firstInstructionTurnIdx cutIdx
    else cutIdx + 1

def isKeptContent (content : AnnotatedContent) : Bool :=
  match content.1 with
  | .inputText text => !rules.isRebuiltText text
  | _ => true

/-- A developer message of the first turn loses the parts that the next turn writes anew,
and goes if nothing is left of it. -/
def withoutRebuiltText (firstTurnId : Text) (envelope : ResponseItemEnvelope) :
    Option ResponseItemEnvelope :=
  match envelope.item with
  | .message id role content phase passthrough =>
    if envelope.item.turnId = some firstTurnId && role = "developer".toList then
      let kept := (toAnnotatedContent content passthrough).filter rules.isKeptContent
      if kept = [] then none
      else
        some { envelope with
          item := .message id role (kept.map Prod.fst) phase
            (setContentKinds passthrough (kept.map Prod.snd)) }
    else some envelope
  | _ => some envelope

/-- The place of the cut before context updates are trimmed. -/
def rollbackCut (numTurns first : ℕ) (userPositions : List ℕ) : ℕ :=
  if userPositions.length ≤ numTurns then first
  else userPositions.getD (userPositions.length - numTurns) first

/-- Drop the last turns of the user, with their context. -/
def dropLastNUserTurns (numTurns : ℕ) (items : List ResponseItemEnvelope) :
    List ResponseItemEnvelope :=
  if numTurns = 0 then items
  else
    match (rules.userMessagePositions items).head? with
    | none => items
    | some first =>
      let cutIdx := rules.trimPreTurnContextUpdates items first
        (rollbackCut numTurns first (rules.userMessagePositions items))
      if cutIdx = first then
        match (items[first]?).bind (fun envelope => envelope.item.turnId) with
        | none => items.take cutIdx
        | some firstTurnId => (items.take cutIdx).filterMap (rules.withoutRebuiltText firstTurnId)
      else items.take cutIdx

end HistoryRules

/-- The lower-case hyphenated spelling of a UUID of version 7. -/
def isUuidV7 (id : Text) : Bool :=
  id.length = 36 && id[14]? = some '7' && id.zipIdx.all fun (char, index) =>
    if index ∈ [8, 13, 18, 23] then char = '-' else char.isDigit || ('a' ≤ char && char ≤ 'f')

/-- Rules without contextual fragments, for the examples. -/
def literalRules : HistoryRules where
  isContextualUserFragment _ := false
  isContextualDevFragment _ := false
  isInterAgentInstructionContent _ := false
  isRebuiltText _ := false
  truncate _ payload := payload
  compactLegacy history _ := history
  parseUuidV7 id := if isUuidV7 id then some id else none
  snapshotFrom state := state
  applyMergePatch _ patch := patch

def userMessage (text : String) : ResponseItemEnvelope :=
  .new (.message none "user".toList [.inputText text.toList] none none)

def newSession : SessionMeta := ⟨some ⟨"019a8f3e-5b21-7c44-9d10-6e2f7a8b9c0d".toList⟩, []⟩

end Rexux.History
