import Rexux.History.ForwardReplay
import Rexux.History.TurnSegments

/-!
# Plain turns

A turn of a user, recorded whole: context updates, one boundary, and what came of it,
with every compaction carrying its history.
-/

namespace Rexux.History

open Foundation List HistoryRules

def isPlainRest (rules : HistoryRules) (id : Text) : RolloutItem → Bool
  | .responseItem envelope =>
    !rules.isUserTurnBoundary envelope.item && !rules.isContextual envelope.item
  | .turnContext context => context.turnId = some id
  | .worldState _ => true
  | .compacted compacted => compacted.replacementHistory.isSome
  | _ => false

def isPlainItem : RolloutItem → Bool
  | .responseItem _ => true
  | .interAgentCommunication _ => true
  | .turnContext _ => true
  | .worldState _ => true
  | .compacted compacted => compacted.replacementHistory.isSome
  | _ => false

/-- A complete turn with one user message and no event of its own. -/
structure PlainTurn (rules : HistoryRules) where
  id : Text
  context : List ResponseItemEnvelope
  boundary : RolloutItem
  rest : List RolloutItem
  context_isContextual : ∀ envelope ∈ context, rules.isContextual envelope.item = true
  boundary_isBoundary : isBoundaryItem rules boundary = true
  rest_isPlain : ∀ item ∈ rest, isPlainRest rules id item = true

namespace PlainTurn

variable {rules : HistoryRules}

/-- Every compaction of the turn has a window number. -/
def IsNumbered (turn : PlainTurn rules) : Prop :=
  ∀ compacted, .compacted compacted ∈ turn.rest → compacted.windowNumber.isSome = true

def block (turn : PlainTurn rules) : TurnBlock where
  id := turn.id
  body := turn.context.map .responseItem ++ turn.boundary :: turn.rest

def entries (turns : List (PlainTurn rules)) : List RolloutEntry :=
  turns.map fun turn => .done turn.block

def log (turns : List (PlainTurn rules)) : List RolloutItem :=
  turns.flatMap fun turn => turn.block.items

variable (turns : List (PlainTurn rules))

theorem logOf_entries_reverse : logOf (entries turns.reverse) = log turns := by
  simp [logOf, entries, log, flatMap_map, RolloutEntry.items]

variable (turn : PlainTurn rules)

theorem isPlainItem_of_mem_body : ∀ item ∈ turn.block.body, isPlainItem item := by
  refine forall_mem_append.mpr ⟨forall_mem_map.mpr fun _ _ => rfl, forall_mem_cons.mpr ⟨?_, ?_⟩⟩
  · have hboundary := turn.boundary_isBoundary
    cases hitem : turn.boundary with
    | responseItem | interAgentCommunication => rfl
    | _ =>
      rw [hitem] at hboundary
      cases hboundary
  · intro item hrest
    have hplain := turn.rest_isPlain item hrest
    cases item with
    | responseItem | turnContext | worldState => rfl
    | compacted => exact hplain
    | _ => cases hplain

theorem isInTurn_body : ∀ item ∈ turn.block.body, isInTurn item := by
  intro item hitem
  have hplain := turn.isPlainItem_of_mem_body item hitem
  cases item with
  | eventMsg => cases hplain
  | _ => rfl

theorem isWhole_of_mem_entries {turns : List (PlainTurn rules)} {entry : RolloutEntry}
    (h : entry ∈ entries turns) : RolloutEntry.IsWhole entry := by
  obtain ⟨turn, -, rfl⟩ := mem_map.mp h
  exact turn.isInTurn_body

theorem countsAsUserTurn_block : turn.block.countsAsUserTurn rules := by
  apply any_eq_true.mpr
  refine ⟨turn.boundary, by simp [block], ?_⟩
  have hboundary := turn.boundary_isBoundary
  cases hitem : turn.boundary with
  | eventMsg event =>
    rw [hitem] at hboundary
    cases hboundary
  | _ =>
    rw [hitem] at hboundary
    exact hboundary

theorem isAdded_items : ∀ item ∈ turn.block.items, isAdded item := by
  refine forall_mem_cons.mpr ⟨rfl, forall_mem_append.mpr ⟨?_, forall_mem_singleton.mpr rfl⟩⟩
  intro item hbody
  have hplain := turn.isPlainItem_of_mem_body item hbody
  cases item with
  | compacted compacted => exact hplain
  | eventMsg => cases hplain
  | _ => rfl

theorem isAdded_log : ∀ item ∈ log turns, isAdded item := by
  exact forall_mem_flatMap.mpr fun turn _ => turn.isAdded_items

theorem recorded_boundary :
    ∃ boundary, rules.isUserTurnBoundary boundary.item ∧
      recordedItem rules turn.boundary = [boundary] := by
  have hboundary := turn.boundary_isBoundary
  cases hitem : turn.boundary with
  | responseItem envelope =>
    rw [hitem] at hboundary
    exact ⟨envelope, hboundary, recorded_of_message (.inr hboundary)⟩
  | interAgentCommunication communication => exact ⟨_, rfl, rfl⟩
  | _ =>
    rw [hitem] at hboundary
    cases hboundary

theorem countP_recorded_rest :
    (turn.rest.flatMap (recordedItem rules)).countP
      (fun envelope => rules.isUserTurnBoundary envelope.item) = 0 := by
  apply countP_eq_zero.mpr
  intro envelope hmem
  obtain ⟨item, hitem, hrecorded⟩ := mem_flatMap.mp hmem
  have hplain := turn.rest_isPlain item hitem
  cases item with
  | responseItem original =>
    rw [isUserTurnBoundary_of_mem_recorded hrecorded]
    simp only [isPlainRest, Bool.and_eq_true, Bool.not_eq_true'] at hplain
    exact Bool.eq_false_iff.mp hplain.1
  | interAgentCommunication => cases hplain
  | _ => cases hrecorded

theorem recorded_items :
    ∃ boundary, rules.isUserTurnBoundary boundary.item ∧
      turn.block.items.flatMap (recordedItem rules) =
        turn.context ++ (boundary :: turn.rest.flatMap (recordedItem rules)) := by
  obtain ⟨boundary, hboundary, hrecorded⟩ := turn.recorded_boundary
  refine ⟨boundary, hboundary, ?_⟩
  rw [TurnBlock.items, block, flatMap_cons, flatMap_append, flatMap_append,
    recorded_contextual turn.context_isContextual, flatMap_cons, hrecorded]
  simp [recordedItem]

theorem countP_recorded_log :
    ((log turns).flatMap (recordedItem rules)).countP
        (fun envelope => rules.isUserTurnBoundary envelope.item) = turns.length := by
  induction turns with
  | nil => rfl
  | cons turn turns ih =>
    obtain ⟨boundary, hboundary, hitems⟩ := turn.recorded_items
    have hcontext : turn.context.countP
        (fun envelope => rules.isUserTurnBoundary envelope.item) = 0 :=
      countP_eq_zero.mpr fun envelope hmem => Bool.eq_false_iff.mp
        (isUserTurnBoundary_of_isContextual (turn.context_isContextual envelope hmem))
    rw [log, flatMap_cons, flatMap_append, countP_append, hitems, countP_append, countP_cons,
      if_pos hboundary, hcontext, countP_recorded_rest, length_cons]
    change 0 + (0 + 1) + ((log turns).flatMap (recordedItem rules)).countP _ = _
    omega

theorem exists_recorded_log_cons :
    ∃ boundary later, rules.startsTurn boundary ∧
      (log (turn :: turns)).flatMap (recordedItem rules) = turn.context ++ boundary :: later ∧
      later.countP rules.startsTurn = turns.length := by
  obtain ⟨boundary, hboundary, hitems⟩ := turn.recorded_items
  refine ⟨boundary, turn.rest.flatMap (recordedItem rules) ++
    (log turns).flatMap (recordedItem rules), hboundary, ?_, ?_⟩
  · rw [log, flatMap_cons, flatMap_append, hitems, append_assoc]
    rfl
  · rw [countP_append, countP_recorded_rest, countP_recorded_log, Nat.zero_add]

/-- Dropping as many turns as follow a history gives the history back. -/
theorem dropLastNUserTurns_append_log {history : List ResponseItemEnvelope}
    (hboundary : ∃ envelope ∈ history, rules.isUserTurnBoundary envelope.item)
    (hend : ∀ envelope, history.getLast? = some envelope →
      rules.isContextual envelope.item = false) :
    rules.dropLastNUserTurns turns.length
        (history ++ (log turns).flatMap (recordedItem rules)) = history := by
  cases turns with
  | nil => simp [log, dropLastNUserTurns]
  | cons turn turns =>
    obtain ⟨boundary, later, hown, hlog, hcount⟩ := exists_recorded_log_cons turns turn
    rw [hlog, ← append_assoc]
    apply dropLastNUserTurns_append hboundary hend turn.context_isContextual hown
    rw [hcount, length_cons]

/-- Turns that are replayed and rolled back leave no trace. -/
theorem replay_rolledBack {turns : List (PlainTurn rules)} {start : ForwardReplay}
    (hboundary : ∃ envelope ∈ start.history, rules.isUserTurnBoundary envelope.item)
    (hend : ∀ envelope, start.history.getLast? = some envelope →
      rules.isContextual envelope.item = false) :
    ForwardReplay.replay rules
        (log turns ++ [.eventMsg (.threadRolledBack turns.length)]) start = start := by
  rw [replay_append, replay_added start (isAdded_log turns)]
  change { start with history := rules.dropLastNUserTurns turns.length _ } = start
  rw [dropLastNUserTurns_append_log turns hboundary hend]

end PlainTurn

end Rexux.History
