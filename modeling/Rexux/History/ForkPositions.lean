import Rexux.Foundation.UndoLog
import Rexux.History.Rollout

/-!
# User messages at which a thread can be forked

A rollback takes back instruction turns, which are started by users and by other agents.
The positions of the user messages are kept on a stack of their own, from which a
rollback takes as many positions as it takes back turns.
-/

namespace Rexux.History

open Foundation List UndoLog

namespace HistoryRules

variable (rules : HistoryRules)

/-- A hook prompt that is shown has a contextual fragment, so it is none either. -/
def isUserMessage : ResponseItem → Bool
  | .message _ role content _ _ =>
    role = "user".toList && !rules.isContextualUserMessageContent content
  | _ => false

/-- Note the position of a user message, or forget as many as a rollback takes back. -/
def positionStep (userPositions : List ℕ) : RolloutItem × ℕ → List ℕ
  | (.responseItem envelope, idx) =>
    if rules.isUserMessage envelope.item then userPositions ++ [idx]
    else userPositions
  | (.eventMsg (.threadRolledBack numTurns), _) =>
    userPositions.take (userPositions.length - numTurns)
  | _ => userPositions

/-- The positions of the user messages that rollbacks have left. -/
def userMessagePositionsInRollout (items : List RolloutItem) : List ℕ :=
  items.zipIdx.foldl rules.positionStep []

/-- The message of another agent was announced by the item before it. -/
def hasDeliveryMetadata (items : List RolloutItem) (idx : ℕ) : ResponseItem → Bool
  | .agentMessage _ _ => idx ≠ 0 && match items[idx - 1]? with
    | some (.interAgentCommunicationMetadata _) => true
    | _ => false
  | _ => false

/-- What an item means for the turns that stand: it starts a turn, which is a user's or not,
or takes some back. -/
def instructionEntry (items : List RolloutItem) : RolloutItem × ℕ → Option (UndoEntry (ℕ × Bool))
  | (.responseItem envelope, idx) =>
    if rules.isUserTurnBoundary envelope.item && !hasDeliveryMetadata items idx envelope.item then
      some (.done (idx, rules.isUserMessage envelope.item))
    else none
  | (.interAgentCommunication _, idx) => some (.done (idx, false))
  | (.interAgentCommunicationMetadata _, idx) => some (.done (idx, false))
  | (.eventMsg (.threadRolledBack numTurns), _) => some (.undone numTurns)
  | _ => none

/-- The instructions of a rollout with their positions, and its rollbacks. -/
def instructionLog (items : List RolloutItem) : List (UndoEntry (ℕ × Bool)) :=
  items.zipIdx.filterMap (rules.instructionEntry items)

def userPosition (turn : ℕ × Bool) : List ℕ := if turn.2 then [turn.1] else []

/-- The user messages among the turns that are not taken back. -/
def survivingUserMessages (items : List RolloutItem) : List ℕ :=
  (live (rules.instructionLog items)).flatMap userPosition

variable {rules} {items : List RolloutItem}

theorem isUserTurnBoundary_of_isUserMessage {item : ResponseItem}
    {idx : ℕ} (h : rules.isUserMessage item) :
    (rules.isUserTurnBoundary item && !hasDeliveryMetadata items idx item) := by
  cases item with
  | message id role content phase passthrough =>
    rw [isUserMessage] at h
    rw [isUserTurnBoundary, h]
    rfl
  | _ => cases h

theorem positionStep_eq (items : List RolloutItem) (positions : List ℕ) (entry : RolloutItem × ℕ) :
    rules.positionStep positions entry = ((rules.instructionEntry items entry).toList.flatMap
        (expandEntry userPosition)).foldl step positions := by
  obtain ⟨item, idx⟩ := entry
  cases item with
  | responseItem envelope =>
    rw [positionStep, instructionEntry]
    split
    next huser =>
      rw [if_pos (isUserTurnBoundary_of_isUserMessage huser), huser]
      rfl
    next huser =>
      rw [Bool.eq_false_iff.mpr huser]
      split
      · rfl
      · rfl
  | eventMsg event =>
    cases event with
    | threadRolledBack | _ => rfl
  | interAgentCommunication | _ => rfl

/-- The positions are the undo log of the instructions. -/
theorem userMessagePositionsInRollout_eq (items : List RolloutItem) :
    rules.userMessagePositionsInRollout items = live (expand userPosition
        (rules.instructionLog items)) := by
  unfold userMessagePositionsInRollout live expand instructionLog
  generalize ([] : List ℕ) = positions
  generalize hlog : items.zipIdx = log
  clear hlog
  induction log generalizing positions with
  | nil => rfl
  | cons entry log ih =>
    rw [foldl_cons, ih, positionStep_eq items, ← foldl_append, ← flatMap_append, filterMap_cons]
    cases rules.instructionEntry items entry with
    | none | some => rfl

theorem positionStep_prefix (positions : List ℕ) (item : RolloutItem) (idx : ℕ) :
    rules.positionStep positions (item, idx) <+: positions ++ [idx] := by
  cases item with
  | responseItem envelope =>
    rw [positionStep]
    split
    · exact prefix_refl _
    · exact prefix_append _ _
  | eventMsg event =>
    cases event with
    | threadRolledBack =>
      refine IsPrefix.trans ?_ <| prefix_append _ _
      exact take_prefix _ _
    | _ => exact prefix_append _ _
  | _ => exact prefix_append _ _

theorem isPrefix_positions_concat (item : RolloutItem) :
    rules.userMessagePositionsInRollout (items ++ [item]) <+:
      rules.userMessagePositionsInRollout items ++ [items.length] := by
  unfold userMessagePositionsInRollout
  rw [zipIdx_append, foldl_append, Nat.zero_add]
  exact positionStep_prefix _ item items.length

theorem lt_length_of_mem_positions {position : ℕ}
    (h : position ∈ rules.userMessagePositionsInRollout items) : position < items.length := by
  induction items using List.reverseRecOn with
  | nil => cases h
  | append_singleton items item ih =>
    rw [length_append]
    rcases mem_append.mp ((isPrefix_positions_concat item).subset h) with
      hold | hlast
    · exact (ih hold).trans (Nat.lt_succ_self _)
    · rw [mem_singleton.mp hlast]
      exact Nat.lt_succ_self _

/-- A cut before a message leaves the positions of the earlier ones. -/
theorem userMessagePositionsInRollout_take {k cut : ℕ}
    (h : (rules.userMessagePositionsInRollout items)[k]? = some cut) :
    rules.userMessagePositionsInRollout (items.take cut) =
      (rules.userMessagePositionsInRollout items).take k := by
  induction items using List.reverseRecOn with
  | nil => cases h
  | append_singleton items item ih =>
    have hlt := (List.getElem?_eq_some_iff.mp h).1
    obtain ⟨rest, hrest⟩ := @isPrefix_positions_concat rules items item
    have htake : (_ ++ rest).take k = _ := take_append_of_le_length (Nat.le_of_lt hlt)
    have hget : (_ ++ rest)[k]? = _ := getElem?_append_left hlt
    rw [hrest] at htake hget
    rw [← htake]
    rw [← hget] at h
    rcases Nat.lt_or_ge k (rules.userMessagePositionsInRollout items).length with hold | hlast
    · rw [getElem?_append_left hold] at h
      have hcut := lt_length_of_mem_positions (mem_of_getElem? h)
      rw [take_append_of_le_length (Nat.le_of_lt hcut),
        take_append_of_le_length (Nat.le_of_lt hold)]
      exact ih h
    · have hbound := (List.getElem?_eq_some_iff.mp h).1
      rw [length_append] at hbound
      obtain rfl : k = _ := Nat.le_antisymm (Nat.le_of_lt_succ hbound) hlast
      rw [getElem?_append_right hlast, Nat.sub_self] at h
      cases h
      rw [take_left' rfl, take_left' rfl]

/-- The positions are the user messages that survive exactly if, since a moment at which no
user message stands, every rollback took back as many user messages as turns, or all there
were. Cut before any of the positions, the rollout has the positions before it. -/
theorem positions_survive_iff (rules : HistoryRules) (items : List RolloutItem) :
    (rules.userMessagePositionsInRollout items = rules.survivingUserMessages items ↔
      UndoLog.UndoesWholeSince userPosition (rules.instructionLog items)) ∧
    ∀ k cut, (rules.userMessagePositionsInRollout items)[k]? = some cut →
      rules.userMessagePositionsInRollout (items.take cut) =
        (rules.userMessagePositionsInRollout items).take k := by
  refine ⟨?_, fun k cut => userMessagePositionsInRollout_take⟩
  rw [userMessagePositionsInRollout_eq]
  apply live_expand_eq_iff
  intro turn _
  unfold userPosition
  split
  · exact Nat.le_refl 1
  · exact Nat.zero_le 1

/-- A rollback of the turn of another agent takes the position of the user message. -/
theorem user_message_lost_with_agent_turn :
    literalRules.userMessagePositionsInRollout
        [.responseItem (userMessage "hello"), .interAgentCommunicationMetadata true,
          .eventMsg (.threadRolledBack 1)] = [] ∧
      literalRules.survivingUserMessages
        [.responseItem (userMessage "hello"), .interAgentCommunicationMetadata true,
          .eventMsg (.threadRolledBack 1)] = [0] := by
  decide

end HistoryRules

end Rexux.History
