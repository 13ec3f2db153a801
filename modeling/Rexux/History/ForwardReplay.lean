import Rexux.History.Reconstruct
import Rexux.History.UserTurns

/-!
# The forward replay

Items are added to the history one by one until a rollback cuts it.
-/

namespace Rexux.History

open Foundation List ForwardReplay HistoryRules

variable {rules : HistoryRules}

def recordedItem (rules : HistoryRules) : RolloutItem → List ResponseItemEnvelope
  | .responseItem envelope => rules.recorded envelope
  | .interAgentCommunication communication => rules.recorded (.new communication.toModelInputItem)
  | _ => []

/-- Without rollbacks and with every compaction carrying its history, items are only
added. -/
def isAdded : RolloutItem → Bool
  | .compacted compacted => compacted.replacementHistory.isSome
  | .eventMsg (.threadRolledBack _) => false
  | _ => true

variable {items : List RolloutItem}

theorem replay_append (left right : List RolloutItem) (start : ForwardReplay) :
    replay rules (left ++ right) start = replay rules right (replay rules left start) :=
  foldl_append

variable (start : ForwardReplay)

theorem replay_added (h : ∀ item ∈ items, isAdded item) :
    replay rules items start =
      { start with history := start.history ++ items.flatMap (recordedItem rules) } := by
  induction items generalizing start with
  | nil => simp [replay]
  | cons item items ih =>
    obtain ⟨hitem, hrest⟩ := forall_mem_cons.mp h
    have hstep : replayItem rules start item =
        { start with history := start.history ++ recordedItem rules item } := by
      cases item with
      | eventMsg event =>
        cases event with
        | threadRolledBack => cases hitem
        | _ => simp [replayItem, recordedItem]
      | compacted compacted =>
        have hsome : compacted.replacementHistory.isNone = false := by
          simpa [isAdded] using hitem
        simp [replayItem, recordedItem, hsome]
      | responseItem | interAgentCommunication => rfl
      | _ => simp [replayItem, recordedItem]
    have hrest := ih (replayItem rules start item) hrest
    change replay rules items _ = _
    rw [hrest, hstep, flatMap_cons, append_assoc]

namespace HistoryRules

theorem recorded_of_message {envelope : ResponseItemEnvelope}
    (hboundary : rules.isContextual envelope.item ∨
      rules.isUserTurnBoundary envelope.item) : rules.recorded envelope = [envelope] := by
  obtain ⟨item, metadata⟩ := envelope
  cases item with
  | message id role content phase passthrough =>
    have hrole : role ≠ "system".toList := by
      rintro rfl
      simp [isContextual, isUserTurnBoundary] at hboundary
    have hapi : isApiMessage (.message id role content phase passthrough) := decide_eq_true hrole
    rw [recorded, hapi]
    rfl
  | agentMessage => rfl
  | _ => rcases hboundary with h | h <;> cases h

/-- Truncating an item leaves it an instruction or none. -/
theorem isUserTurnBoundary_processed (envelope : ResponseItemEnvelope) :
    rules.isUserTurnBoundary (rules.processed envelope).item =
      rules.isUserTurnBoundary envelope.item := by
  obtain ⟨item, metadata⟩ := envelope
  cases item <;> rfl

theorem isUserTurnBoundary_of_mem_recorded {envelope recorded : ResponseItemEnvelope}
    (h : recorded ∈ rules.recorded envelope) :
    rules.isUserTurnBoundary recorded.item = rules.isUserTurnBoundary envelope.item := by
  unfold HistoryRules.recorded at h
  split at h
  · rw [mem_singleton.mp h]
    exact isUserTurnBoundary_processed envelope
  · cases h

end HistoryRules

theorem recorded_contextual {context : List ResponseItemEnvelope}
    (h : ∀ envelope ∈ context, rules.isContextual envelope.item) :
    (context.map RolloutItem.responseItem).flatMap (recordedItem rules) = context := by
  have hcontext : ∀ envelope ∈ context, recordedItem rules (.responseItem envelope) = [envelope] :=
    fun envelope hmem => recorded_of_message (.inl (h envelope hmem))
  rw [flatMap_map, flatMap_congr hcontext, flatMap_singleton']

/-- A compaction from before histories were recorded with it rebuilds the history. -/
def carriesHistory : RolloutItem → Bool
  | .compacted compacted => compacted.replacementHistory.isSome
  | _ => true

/-- What an item does to the user messages. -/
def userLogItem (rules : HistoryRules) : RolloutItem → List (UndoEntry ResponseItemEnvelope)
  | .responseItem envelope =>
    if rules.isUserTurnBoundary envelope.item then [.done envelope] else []
  | .interAgentCommunication communication => [.done (.new communication.toModelInputItem)]
  | .eventMsg (.threadRolledBack numTurns) => [.undone numTurns]
  | _ => []

variable (rules items) in
/-- The user messages and rollbacks of a rollout. -/
def userLog : List (UndoEntry ResponseItemEnvelope) :=
  items.flatMap (userLogItem rules)

/-- The user messages of a history. -/
def HistoryRules.userMessages (rules : HistoryRules) (history : List ResponseItemEnvelope) :
    List ResponseItemEnvelope :=
  history.filter fun envelope => rules.isUserTurnBoundary envelope.item

variable (rules)

theorem HistoryRules.userMessages_recorded
    (envelope : ResponseItemEnvelope) :
    rules.userMessages (rules.recorded envelope) =
      if rules.isUserTurnBoundary envelope.item then [envelope] else [] := by
  split
  next hboundary =>
    rw [recorded_of_message (.inr hboundary)]
    simp [userMessages, hboundary]
  next hboundary =>
    apply filter_eq_nil_iff.mpr
    intro recorded hmem
    rwa [isUserTurnBoundary_of_mem_recorded hmem]

/-- Replaying an item acts on the user messages as its entry in the undo log. -/
theorem userMessages_replayItem {item : RolloutItem}
    (h : carriesHistory item) :
    rules.userMessages (replayItem rules start item).history =
      (userLogItem rules item).foldl UndoLog.step (rules.userMessages start.history) := by
  cases item with
  | responseItem envelope =>
    have hrecorded := rules.userMessages_recorded envelope
    simp only [replayItem, record, userMessages, filter_append] at hrecorded ⊢
    rw [hrecorded, userLogItem]
    split
    · rfl
    · exact append_nil _
  | interAgentCommunication communication => exact filter_append ..
  | compacted compacted =>
    have hsome : compacted.replacementHistory.isNone = false := by
      simpa [carriesHistory] using h
    rw [replayItem, hsome]
    rfl
  | eventMsg event =>
    cases event with
    | threadRolledBack numTurns => exact filter_dropLastNUserTurns numTurns _
    | _ => rfl
  | _ => rfl

/-- The user messages of a replay are those that the undo log leaves. -/
theorem userMessages_replay
    (h : ∀ item ∈ items, carriesHistory item) :
    rules.userMessages (replay rules items start).history =
      (userLog rules items).foldl UndoLog.step (rules.userMessages start.history) := by
  induction items generalizing start with
  | nil => rfl
  | cons item items ih =>
    rw [forall_mem_cons] at h
    have hitem := userMessages_replayItem rules start h.1
    have hrest := ih (replayItem rules start item) h.2
    rw [userLog, flatMap_cons, foldl_append, ← hitem]
    exact hrest

variable {rules}

end Rexux.History
