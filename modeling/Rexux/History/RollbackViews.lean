import Rexux.History.ForwardReplay
import Rexux.History.ThreadHistory
import Rexux.History.TurnSegments

/-!
# Two readings of a rollback

The history for the model loses as many user messages as a rollback counts, the list of
turns as many turns.  They agree as long as the turns taken back have that many messages
between them.
-/

namespace Rexux.History

open Foundation List UndoLog RolloutEntry

/-- A message of the user stands in a turn as an item for the model and as an event. -/
inductive TurnRecord
  | userMessage (envelope : ResponseItemEnvelope) (event : UserMessageEvent)
  | other (item : RolloutItem)

namespace TurnRecord

def items : TurnRecord → List RolloutItem
  | .userMessage envelope event => [.responseItem envelope, .eventMsg (.userMessage event)]
  | .other item => [item]

/-- Nothing else is a boundary, and every compaction carries its history. -/
def isSilent (rules : HistoryRules) : RolloutItem → Bool
  | .responseItem envelope => !rules.isUserTurnBoundary envelope.item
  | .interAgentCommunication _ => false
  | .compacted compacted => compacted.replacementHistory.isSome
  | .eventMsg (.userMessage _) => false
  | _ => true

def isRecordOf (rules : HistoryRules) (display : DisplayRules) (id : Text) : TurnRecord → Bool
  | .userMessage envelope _ => rules.isUserTurnBoundary envelope.item
  | .other item => isSilent rules item && isShownInTurn display id item

def message? : TurnRecord → Option ResponseItemEnvelope
  | .userMessage envelope _ => some envelope
  | .other _ => none

end TurnRecord

/-- A turn whose user messages are recorded as item and event. -/
structure RecordedTurn (rules : HistoryRules) (display : DisplayRules) where
  id : Text
  records : List TurnRecord
  isRecordOf : ∀ record ∈ records, record.isRecordOf rules display id = true

namespace RecordedTurn

variable {rules : HistoryRules} {display : DisplayRules}

def block (turn : RecordedTurn rules display) : TurnBlock :=
  ⟨turn.id, turn.records.flatMap TurnRecord.items⟩

def userMessages (turn : RecordedTurn rules display) : List ResponseItemEnvelope :=
  turn.records.filterMap TurnRecord.message?

variable (turn : RecordedTurn rules display)

theorem item_of_mem_body :
    ∀ item ∈ turn.block.body, isShownInTurn display turn.block.id item ∧ carriesHistory item := by
  intro item hitem
  obtain ⟨record, hrecord, hitem⟩ := mem_flatMap.mp hitem
  have hwell := turn.isRecordOf record hrecord
  cases record with
  | userMessage envelope event =>
    simp only [TurnRecord.items, mem_cons, not_mem_nil, or_false] at hitem
    rcases hitem with rfl | rfl
    · exact ⟨rfl, rfl⟩
    · exact ⟨rfl, rfl⟩
  | other other =>
    cases mem_singleton.mp hitem
    obtain ⟨hcarries, hshown⟩ := Bool.and_eq_true _ _ ▸ hwell
    refine ⟨hshown, ?_⟩
    cases item with
    | compacted compacted => exact hcarries
    | _ => rfl

theorem isInTurn_of_isShownInTurn {id : Text} {item : RolloutItem}
    (h : isShownInTurn display id item) : isInTurn item := by
  cases item with
  | eventMsg event =>
    cases event with
    | turnStarted | turnComplete | turnAborted | threadRolledBack => cases h
    | _ => rfl
  | _ => rfl

theorem userLog_record {id : Text} {record : TurnRecord} (h : record.isRecordOf rules display id) :
    userLog rules record.items = record.message?.toList.map .done := by
  cases record with
  | userMessage envelope event =>
    have hboundary : rules.isUserTurnBoundary envelope.item := h
    simp [userLog, TurnRecord.items, TurnRecord.message?, userLogItem, hboundary]
  | other item =>
    simp only [TurnRecord.isRecordOf, Bool.and_eq_true] at h
    cases item with
    | responseItem envelope =>
      have hsilent : rules.isUserTurnBoundary envelope.item = false := by
        simpa [TurnRecord.isSilent] using h.1
      simp [userLog, TurnRecord.items, TurnRecord.message?, userLogItem, hsilent]
    | interAgentCommunication => cases h.1
    | eventMsg event =>
      cases event with
      | threadRolledBack => cases h.2
      | _ => rfl
    | _ => rfl

theorem countP_record {id : Text} {record : TurnRecord} (h : record.isRecordOf rules display id) :
    record.items.countP isUserMessageEvent = record.message?.toList.length := by
  cases record with
  | userMessage envelope event => rfl
  | other item =>
    simp only [TurnRecord.isRecordOf, Bool.and_eq_true] at h
    cases item with
    | eventMsg event =>
      cases event with
      | userMessage => cases h.1
      | _ => rfl
    | _ => rfl

theorem userLog_items : userLog rules turn.block.items = turn.userMessages.map .done := by
  have hends : userLog rules turn.block.items = userLog rules turn.block.body := by
    simp [userLog, TurnBlock.items, userLogItem]
  have hrecords : ∀ record ∈ turn.records,
      record.items.flatMap (userLogItem rules) = record.message?.toList.map .done :=
    fun record hrecord => userLog_record (turn.isRecordOf record hrecord)
  rw [hends, userLog, block, flatMap_assoc, flatMap_congr hrecords, userMessages,
    filterMap_eq_flatMap_toList, map_flatMap]

theorem countP_body : turn.block.body.countP isUserMessageEvent = turn.userMessages.length := by
  have hrecords := turn.isRecordOf
  unfold block userMessages
  generalize turn.records = records at hrecords ⊢
  induction records with
  | nil => rfl
  | cons record records ih =>
    rw [forall_mem_cons] at hrecords
    have hfirst := countP_record hrecords.1
    have hrest := ih hrecords.2
    rw [flatMap_cons, countP_append, hfirst, hrest, filterMap_cons]
    cases record.message? with
    | none => exact Nat.zero_add _
    | some envelope => exact Nat.add_comm _ _

/-! ## Rollouts of such turns -/

def entry : UndoEntry (RecordedTurn rules display) → RolloutEntry := UndoEntry.map block

def rollout (session : SessionMeta) (entries : List (UndoEntry (RecordedTurn rules display))) :
    List RolloutItem :=
  .sessionMeta session :: (entries.map entry).flatMap RolloutEntry.items

variable (session : SessionMeta) (entries : List (UndoEntry (RecordedTurn rules display)))

theorem carriesHistory_items (entry : UndoEntry (RecordedTurn rules display)) :
    ∀ item ∈ items (RecordedTurn.entry entry), carriesHistory item := by
  cases entry with
  | undone numTurns => exact forall_mem_singleton.mpr rfl
  | done turn =>
    exact forall_mem_cons.mpr ⟨rfl, forall_mem_append.mpr
      ⟨fun item hbody => (turn.item_of_mem_body item hbody).2, forall_mem_singleton.mpr rfl⟩⟩

theorem carriesHistory_rollout : ∀ item ∈ rollout session entries, carriesHistory item := by
  refine forall_mem_cons.mpr ⟨rfl, forall_mem_flatMap.mpr (forall_mem_map.mpr ?_)⟩
  exact fun entry _ => carriesHistory_items entry

theorem userLog_entries :
    userLog rules ((entries.map entry).flatMap items) =
      expand userMessages entries := by
  have hentries : ∀ entry ∈ entries,
      (items (RecordedTurn.entry entry)).flatMap (userLogItem rules) =
        expandEntry userMessages entry := by
    intro entry _
    cases entry with
    | done turn => exact turn.userLog_items
    | undone numTurns => rfl
  rw [userLog, flatMap_assoc, flatMap_map, flatMap_congr hentries]
  rfl

/-- The user messages that the model still sees. -/
def remainingUserMessages (rules : HistoryRules) (items : List RolloutItem) :
    List ResponseItemEnvelope :=
  rules.userMessages (ForwardReplay.replay rules items (startOfReplay none)).history

theorem remainingUserMessages_eq :
    remainingUserMessages rules (rollout session entries) = live (expand userMessages entries) := by
  rw [remainingUserMessages, userMessages_replay rules _ (carriesHistory_rollout session entries),
    ← userLog_entries]
  rfl

def userMessagesOf (id : Text) : List ResponseItemEnvelope :=
  (((things entries).find? (·.id = id)).map userMessages).getD []

variable {entries}

theorem userMessagesOf_id (hdistinct : ((things entries).map RecordedTurn.id).Nodup)
    {turn : RecordedTurn rules display} (hturn : turn ∈ things entries) :
    userMessagesOf entries turn.id = turn.userMessages := by
  have hfind : ((things entries).find? (·.id = turn.id)).isSome :=
    find?_isSome.mpr ⟨turn, hturn, decide_eq_true rfl⟩
  obtain ⟨found, hfound⟩ := Option.isSome_iff_exists.mp hfind
  have hid := find?_some hfound
  have hsame := inj_on_of_nodup_map hdistinct (mem_of_find?_eq_some hfound) hturn
    (of_decide_eq_true hid)
  rw [userMessagesOf, hfound, hsame]
  rfl

variable (entries)

/-- The user messages of the turns that the client still shows. -/
def shownUserMessages : List ResponseItemEnvelope :=
  ((buildTurnsFromRolloutItems display (rollout session entries)).filter
    Turn.hasUserMessage).flatMap fun turn => userMessagesOf entries turn.id

/-- Both readings of the rollout have the same turns of the user. -/
def ViewsAgree : Prop :=
  remainingUserMessages rules (rollout session entries) = shownUserMessages session entries

variable {entries}

/-- The client is shown the turns that stand, each with the count of its user messages. -/
theorem buildTurns_rollout :
    (buildTurnsFromRolloutItems display (rollout session entries)).map
        (fun turn => (turn.id, turn.items.countP ThreadItem.isUserMessage)) =
      (live entries).map fun turn => (turn.id, turn.userMessages.length) := by
  rw [rollout, buildTurns_eq_live]
  · unfold entry
    rw [live_map, map_map]
    apply map_congr_left
    intro turn _
    exact congrArg (turn.id, ·) turn.countP_body
  · intro block hblock
    unfold entry at hblock
    rw [things_map] at hblock
    obtain ⟨turn, -, rfl⟩ := mem_map.mp hblock
    exact fun item hitem => (turn.item_of_mem_body item hitem).1

/-- The user messages shown are those of the turns that stand. -/
theorem shownUserMessages_eq (hdistinct : ((things entries).map RecordedTurn.id).Nodup) :
    shownUserMessages session entries = (live entries).flatMap userMessages := by
  -- Only the id of a turn and the number of its messages matter.
  have hshown : ∀ turns : List Turn,
      (turns.filter Turn.hasUserMessage).flatMap (fun turn => userMessagesOf entries turn.id) =
        (turns.map fun turn => (turn.id, turn.items.countP ThreadItem.isUserMessage)).flatMap
          fun shown => if 0 < shown.2 then userMessagesOf entries shown.1 else [] := by
    intro turns
    induction turns with
    | nil => rfl
    | cons turn turns ih =>
      rw [map_cons, flatMap_cons, ← ih, filter_cons]
      have hcount : turn.hasUserMessage ↔ 0 < turn.items.countP ThreadItem.isUserMessage := by
        rw [Turn.hasUserMessage, any_eq_true, countP_pos_iff]
      by_cases hmessage : turn.hasUserMessage
      · rw [if_pos hmessage, if_pos (hcount.mp hmessage), flatMap_cons]
      · rw [if_neg hmessage, if_neg fun hpos => hmessage (hcount.mpr hpos), nil_append]
  have hlive : ∀ turn ∈ live entries,
      (if 0 < turn.userMessages.length then userMessagesOf entries turn.id else []) =
        turn.userMessages := by
    intro turn hturn
    rw [userMessagesOf_id hdistinct (mem_things_of_mem_live hturn)]
    split
    · rfl
    next hnone => exact (eq_nil_of_length_eq_zero (by omega)).symm
  rw [shownUserMessages, hshown, buildTurns_rollout, flatMap_map, flatMap_congr hlive]

/-- The views agree exactly if both undo logs leave the same messages. -/
theorem viewsAgree_iff (hdistinct : ((things entries).map RecordedTurn.id).Nodup) :
    ViewsAgree session entries ↔
      live (expand userMessages entries) = (live entries).flatMap userMessages := by
  rw [ViewsAgree, remainingUserMessages_eq, shownUserMessages_eq session hdistinct]

/-! ## What is resumed -/

theorem isWhole_entry (entry : UndoEntry (RecordedTurn rules display)) :
    RolloutEntry.IsWhole (RecordedTurn.entry entry) := by
  cases entry with
  | undone numTurns => trivial
  | done turn =>
    intro item hitem
    exact isInTurn_of_isShownInTurn (turn.item_of_mem_body item hitem).1

variable (entries) in
theorem reverseReplay_rollout :
    reverseReplay rules (rollout session entries) =
      scanEntries rules (entries.map entry).reverse [] .initial := by
  have hlog : (entries.map entry).flatMap items =
      logOf (entries.map entry).reverse := by
    rw [logOf, reverse_reverse]
  rw [rollout, hlog]
  apply reverseReplay_eq_scanEntries
  intro block hblock
  obtain ⟨entry, -, rfl⟩ := mem_map.mp (mem_reverse.mp hblock)
  exact isWhole_entry entry

theorem countsAsUserTurn_block
    (h : turn.block.countsAsUserTurn rules) : 0 < turn.userMessages.length := by
  obtain ⟨item, hitem, hcounts⟩ := any_eq_true.mp h
  obtain ⟨record, hrecord, hitem⟩ := mem_flatMap.mp hitem
  have hwell := turn.isRecordOf record hrecord
  have hmessage : ∃ envelope, record.message? = some envelope := by
    cases record with
    | userMessage envelope event => exact ⟨envelope, rfl⟩
    | other other =>
      cases mem_singleton.mp hitem
      simp only [TurnRecord.isRecordOf, Bool.and_eq_true] at hwell
      cases item with
      | responseItem envelope =>
        have hboundary : rules.isUserTurnBoundary envelope.item := hcounts
        have hsilent := hwell.1
        rw [TurnRecord.isSilent, hboundary] at hsilent
        cases hsilent
      | interAgentCommunication => cases hwell.1
      | eventMsg event =>
        cases event with
        | userMessage => cases hwell.1
        | _ => cases hcounts
      | _ => cases hcounts
  obtain ⟨envelope, hmessage⟩ := hmessage
  exact length_pos_of_mem (mem_filterMap.mpr ⟨record, hrecord, hmessage⟩)

/-- So the scan still has as many turns to skip as there are messages to take back. -/
theorem owed_le_pendingAfter (newer : List (UndoEntry (RecordedTurn rules display)))
    {owing pending : ℕ} (h : owing ≤ pending) :
    owed (userLog rules (logOf (newer.map entry))).reverse owing ≤
      pendingAfter rules (newer.map entry) pending := by
  induction newer generalizing owing pending with
  | nil => exact h
  | cons first newer ih =>
    rw [map_cons, logOf_cons, userLog, flatMap_append, reverse_append, owed_append]
    change owed (userLog rules (logOf (newer.map entry))).reverse
      (owed (userLog rules (items (entry first))).reverse owing) ≤ _
    cases first with
    | undone numTurns =>
      apply ih
      exact Nat.add_le_add_right h numTurns
    | done turn =>
      have hitems : userLog rules (items (entry (.done turn))) =
          turn.userMessages.map .done := turn.userLog_items
      rw [hitems, ← map_reverse, owed_done, length_reverse]
      apply ih
      split
      next hcounts =>
        have hpos := turn.countsAsUserTurn_block hcounts
        omega
      · omega

theorem userMessages_reconstructed_of_none
    (hbase : (reverseReplay rules (rollout session entries)).baseCompaction = none) :
    rules.userMessages (reconstructHistoryFromRollout rules (rollout session entries)).history =
      remainingUserMessages rules (rollout session entries) := by
  change rules.userMessages (reconstructHistory rules (rollout session entries)
    (reverseReplay rules (rollout session entries)).baseCompaction).history = _
  rw [hbase]
  rfl

variable {checkpoint : ReplayCheckpoint}

section

variable (hbase : (reverseReplay rules (rollout session entries)).baseCompaction = some checkpoint)
include hbase

/-- The checkpoint comes out of the rollout, with all that follows it. -/
theorem exists_split_of_baseCompaction :
    ∃ before, rollout session entries =
        before ++ .compacted checkpoint.compacted :: checkpoint.suffix ∧
      owed (userLog rules checkpoint.suffix).reverse 0 = 0 := by
  rw [reverseReplay_rollout, scanEntries_baseCompaction, ← map_reverse] at hbase
  obtain ⟨newer', block, older', hentries, hpending, hsegment⟩ :=
    exists_of_survivingCheckpoint_eq_some hbase
  obtain ⟨newer, rest, hreverse, rfl, hrest⟩ := map_eq_append_iff.mp hentries
  obtain ⟨first, older, rfl, hfirst, rfl⟩ := map_eq_cons_iff.mp hrest
  cases first with
  | undone numTurns => cases hfirst
  | done turn =>
    cases hfirst
    rw [segment_baseCompaction] at hsegment
    obtain ⟨inner, hinner, rfl⟩ := Option.map_eq_some_iff.mp hsegment
    obtain ⟨before, hbody⟩ := exists_of_lastCheckpoint_eq_some hinner
    have hlist : entries = older.reverse ++ .done turn :: newer.reverse := by
      rw [← reverse_reverse entries, hreverse]
      simp
    refine ⟨.sessionMeta session :: ((older.reverse.map entry).flatMap items ++
      (.eventMsg (.turnStarted turn.id) :: before)), ?_, ?_⟩
    · have hturn : items (entry (.done turn)) = .eventMsg (.turnStarted turn.id) ::
            (turn.block.body ++ [.eventMsg (.turnComplete turn.id)]) := rfl
      rw [rollout, hlist, map_append, map_cons, flatMap_append, flatMap_cons, hturn, hbody]
      simp [ReplayCheckpoint.extend, logOf, block]
    · -- What the turn itself adds behind the checkpoint is only messages.
      have hdone : ∃ messages : List ResponseItemEnvelope,
          userLog rules inner.suffix = messages.map .done := by
        have hlog : userLog rules before ++ userLog rules inner.suffix =
            turn.userMessages.map .done := by
          rw [← turn.userLog_items, TurnBlock.items, hbody]
          simp [userLog, userLogItem]
        obtain ⟨-, messages, -, -, hmessages⟩ := map_eq_append_iff.mp hlog.symm
        exact ⟨messages, hmessages.symm⟩
      obtain ⟨messages, hmessages⟩ := hdone
      have hsuffix : userLog rules (inner.extend (.eventMsg (.turnComplete turn.block.id) ::
          (logOf (newer.map entry) ++ []))).suffix =
            messages.map .done ++ userLog rules (logOf (newer.map entry)) := by
        rw [← hmessages]
        simp [ReplayCheckpoint.extend, userLog, userLogItem]
      have hnewer : owed (userLog rules (logOf (newer.map entry))).reverse 0 = 0 :=
        Nat.le_zero.mp ((owed_le_pendingAfter newer (Nat.le_refl 0)).trans (Nat.le_of_eq hpending))
      rw [hsuffix, reverse_append, owed_append, hnewer, ← map_reverse, owed_done, Nat.zero_sub]

end

end RecordedTurn

/-- Every other event is shown as a call. -/
def plainDisplay : DisplayRules where
  parseHookPromptMessage _ _ := none
  shown content := some (.call content content)

/-- A question that is answered with a call. -/
def askingTurn (id question : String) : RecordedTurn literalRules plainDisplay where
  id := id.toList
  records := [.userMessage (userMessage question) ⟨question.toList, none, none, [], []⟩,
    .other (.eventMsg (.other none "call".toList))]
  isRecordOf := forall_mem_cons.mpr ⟨rfl, forall_mem_singleton.mpr rfl⟩

def manualCompaction (id : String) : RecordedTurn literalRules plainDisplay where
  id := id.toList
  records := [.other (.compacted ⟨"summary".toList, some [userMessage "summary"], none, some 1,
    none, none, none, []⟩)]
  isRecordOf record hrecord := by
    cases mem_singleton.mp hrecord
    rfl

end Rexux.History
