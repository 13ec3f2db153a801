import Rexux.History.PlainTurns

/-!
# Rolled-back turns leave no trace

A plain turn is gone once it is rolled back: what is resumed is what would be without
it.
-/

namespace Rexux.History

open Foundation List ReverseReplay PlainTurn

variable {rules : HistoryRules} {turns : List (PlainTurn rules)} {suffix : List RolloutItem}
  {replay : ReverseReplay}

section Skip

/-- Turns that a rollback takes back are passed over. -/
theorem scanEntries_skip
    (hsettled : replay.isSettled = false) (hpending : replay.pendingRollbackTurns = turns.length) :
    scanEntries rules (entries turns) suffix replay =
      { replay with pendingRollbackTurns := 0 } := by
  induction turns generalizing suffix replay with
  | nil =>
    rw [length_nil] at hpending
    rw [← hpending]
    rfl
  | cons turn turns ih =>
    rw [length_cons] at hpending
    have hnext : finalizeActiveSegment (turn.block.segment rules suffix) replay =
        { replay with pendingRollbackTurns := turns.length } := by
      rw [finalizeActiveSegment, if_pos (by omega), segment_countsAsUserTurn,
        turn.countsAsUserTurn_block, if_pos rfl, hpending, Nat.add_sub_cancel]
    have hopen : ({ replay with
        pendingRollbackTurns := turns.length } : ReverseReplay).isSettled = false := hsettled
    rw [entries, map_cons, scanEntries, hnext, andThen_of_open hopen]
    exact ih hopen rfl

theorem reconstructHistory_extend (items tail : List RolloutItem) (base : Option ReplayCheckpoint) :
    reconstructHistory rules (items ++ tail) (base.map (·.extend tail)) =
      ForwardReplay.replay rules tail (reconstructHistory rules items base) := by
  cases base with
  | none => exact replay_append items tail _
  | some checkpoint => exact replay_append checkpoint.suffix tail _

end Skip

variable {window : ReconstructedWindow}

namespace PlainTurn

theorem scanEntries_pendingRollbackTurns (hpending : replay.pendingRollbackTurns = 0) :
    (scanEntries rules (entries turns) suffix replay).pendingRollbackTurns = 0 := by
  induction turns generalizing suffix replay with
  | nil => exact hpending
  | cons turn turns ih =>
    have hnext : (finalizeActiveSegment (turn.block.segment rules suffix)
        replay).pendingRollbackTurns = 0 := by
      rw [finalizeActiveSegment, hpending]
      exact hpending
    rw [entries, map_cons, scanEntries, andThen]
    split
    · exact hnext
    · exact ih hnext

/-- The scan is the same with the rolled back turns as without them. -/
theorem scanEntries_rolledBack (kept dropped later : List (PlainTurn rules)) :
    scanEntries rules (entries later ++
        (.undone dropped.length :: (entries dropped ++ entries kept))) [] .initial =
      (scanEntries rules (entries later) [] .initial).andThen
        (scanEntries rules (entries kept) (logOf (entries dropped) ++
          (.eventMsg (.threadRolledBack dropped.length) :: logOf (entries later)))) := by
  have hpending : (scanEntries rules (entries later) [] .initial).pendingRollbackTurns = 0 :=
    scanEntries_pendingRollbackTurns rfl
  rw [scanEntries_append rfl, append_nil]
  apply andThen_congr
  intro hopen
  generalize scanEntries rules (entries later) [] .initial = replay at hpending hopen
  rw [scanEntries, hpending, Nat.zero_add]
  have hstart : ({ replay with
      pendingRollbackTurns := dropped.length } : ReverseReplay).isSettled = false := hopen
  have hskipped : ({ replay with pendingRollbackTurns := 0 } : ReverseReplay) = replay := by
    rw [← hpending]
  rw [scanEntries_append hstart, scanEntries_skip hstart rfl]
  rw [hskipped, andThen_of_open hopen]

def rollout (session : SessionMeta) (turns : List (PlainTurn rules)) : List RolloutItem :=
  .sessionMeta session :: log turns

def rolledBackRollout (session : SessionMeta) (kept dropped later : List (PlainTurn rules)) :
    List RolloutItem :=
  rollout session kept ++
    (log dropped ++ (.eventMsg (.threadRolledBack dropped.length) :: log later))

section Resume

variable (session : SessionMeta) (kept dropped later : List (PlainTurn rules))

theorem rolledBackRollout_eq :
    rolledBackRollout session kept dropped later = .sessionMeta session ::
      logOf (entries later.reverse ++ (.undone dropped.reverse.length ::
        (entries dropped.reverse ++ entries kept.reverse))) := by
  simp [rolledBackRollout, rollout, logOf, entries, log, flatMap_map, RolloutEntry.items]

theorem rollout_append_eq :
    rollout session (kept ++ later) = .sessionMeta session ::
      logOf (entries later.reverse ++ entries kept.reverse) := by
  simp [rollout, logOf, entries, log, flatMap_map, RolloutEntry.items]

theorem reverseReplay_rolledBack :
    reverseReplay rules (rolledBackRollout session kept dropped later) =
      (scanEntries rules (entries later.reverse) [] .initial).andThen
        (scanEntries rules (entries kept.reverse)
          (log dropped ++ (.eventMsg (.threadRolledBack dropped.length) :: log later))) := by
  have hwhole : ∀ entry ∈ entries later.reverse ++
      (.undone dropped.reverse.length :: (entries dropped.reverse ++ entries kept.reverse)),
      RolloutEntry.IsWhole entry := by
    simp only [forall_mem_append, forall_mem_cons]
    exact ⟨fun _ => isWhole_of_mem_entries, trivial, fun _ => isWhole_of_mem_entries,
      fun _ => isWhole_of_mem_entries⟩
  rw [rolledBackRollout_eq, reverseReplay_eq_scanEntries hwhole, scanEntries_rolledBack,
    logOf_entries_reverse, logOf_entries_reverse, length_reverse]

theorem reverseReplay_kept :
    reverseReplay rules (rollout session (kept ++ later)) =
      (scanEntries rules (entries later.reverse) [] .initial).andThen
        (scanEntries rules (entries kept.reverse) (log later)) := by
  have hwhole : ∀ entry ∈ entries later.reverse ++ entries kept.reverse,
      RolloutEntry.IsWhole entry :=
    forall_mem_append.mpr ⟨fun _ => isWhole_of_mem_entries, fun _ => isWhole_of_mem_entries⟩
  rw [rollout_append_eq, reverseReplay_eq_scanEntries hwhole, scanEntries_append rfl,
    logOf_entries_reverse, append_nil]

theorem baseCompaction_andThen (tail : List RolloutItem) :
    ((scanEntries rules (entries later.reverse) [] .initial).andThen
        (scanEntries rules (entries kept.reverse) tail)).baseCompaction =
      (survivingCheckpoint rules (entries later.reverse) [] 0).or
        ((survivingCheckpoint rules (entries kept.reverse) [] 0).map (·.extend tail)) := by
  have hpending : (scanEntries rules (entries later.reverse) [] .initial).pendingRollbackTurns =
      0 := scanEntries_pendingRollbackTurns rfl
  have hlater : (scanEntries rules (entries later.reverse) [] .initial).baseCompaction =
      survivingCheckpoint rules (entries later.reverse) [] 0 :=
    scanEntries_baseCompaction _ _ _
  rw [andThen_baseCompaction (scanEntries_baseCompaction _ _ _), hlater, hpending,
    ← survivingCheckpoint_extend, nil_append]

/-- Only the recorded suffix differs, by the turns and their rollback. -/
theorem sameButSuffix_rolledBack :
    SameButSuffix (reverseReplay rules (rolledBackRollout session kept dropped later))
      (reverseReplay rules (rollout session (kept ++ later))) := by
  rw [reverseReplay_rolledBack, reverseReplay_kept]
  unfold andThen
  split
  · exact SameButSuffix.refl _
  · exact (SameButSuffix.refl _).scanEntries _ _ _

/-- The history of the kept turns alone. -/
def keptReplay : ForwardReplay :=
  reconstructHistory rules (rollout session kept)
    (survivingCheckpoint rules (entries kept.reverse) [] 0)

theorem history_rollout :
    (reconstructHistoryFromRollout rules (rollout session kept)).history =
      (keptReplay session kept).history := by
  have hbase : (reverseReplay rules (rollout session kept)).baseCompaction =
      survivingCheckpoint rules (entries kept.reverse) [] 0 := by
    have hreverse : reverseReplay rules (.sessionMeta session :: logOf (entries kept.reverse)) =
        scanEntries rules (entries kept.reverse) [] .initial :=
      reverseReplay_eq_scanEntries fun _ hentry => isWhole_of_mem_entries hentry
    rw [logOf_entries_reverse] at hreverse
    rw [rollout, hreverse]
    exact scanEntries_baseCompaction _ _ _
  rw [keptReplay, ← hbase]
  rfl

theorem reconstructHistory_rollout_append (tail : List RolloutItem) :
    reconstructHistory rules (rollout session kept ++ tail)
        ((survivingCheckpoint rules (entries later.reverse) [] 0).or
          ((survivingCheckpoint rules (entries kept.reverse) [] 0).map (·.extend tail))) =
      if (survivingCheckpoint rules (entries later.reverse) [] 0).isSome then
        reconstructHistory rules [] (survivingCheckpoint rules (entries later.reverse) [] 0)
      else ForwardReplay.replay rules tail (keptReplay session kept) := by
  cases survivingCheckpoint rules (entries later.reverse) [] 0 with
  | some checkpoint => rfl
  | none => exact reconstructHistory_extend _ _ _

/-- The replay of the suffix comes to the same history. -/
theorem reconstructHistory_rolledBack
    (hboundary : ∃ envelope ∈ (keptReplay session kept).history,
      rules.isUserTurnBoundary envelope.item)
    (hend : ∀ envelope, (keptReplay session kept).history.getLast? = some envelope →
      rules.isContextual envelope.item = false) :
    reconstructHistory rules (rolledBackRollout session kept dropped later)
        (reverseReplay rules (rolledBackRollout session kept dropped later)).baseCompaction =
      reconstructHistory rules (rollout session (kept ++ later))
        (reverseReplay rules (rollout session (kept ++ later))).baseCompaction := by
  have hundone : ForwardReplay.replay rules
      (log dropped ++ (.eventMsg (.threadRolledBack dropped.length) :: log later))
        (keptReplay session kept) =
      ForwardReplay.replay rules (log later) (keptReplay session kept) := by
    rw [append_cons, replay_append, replay_rolledBack hboundary hend]
  have hlater : rollout session (kept ++ later) = rollout session kept ++ log later := by
    simp [rollout, log]
  rw [reverseReplay_rolledBack, reverseReplay_kept, baseCompaction_andThen,
    baseCompaction_andThen, rolledBackRollout, hlater, reconstructHistory_rollout_append,
    reconstructHistory_rollout_append, hundone]

end Resume

theorem mem_rest_of_compacted {turn : PlainTurn rules} {compacted : CompactedItem}
    (h : .compacted compacted ∈ turn.block.items) : .compacted compacted ∈ turn.rest := by
  have hboundary := turn.boundary_isBoundary
  simp only [TurnBlock.items, block, mem_cons, mem_append, mem_map,
    not_mem_nil, reduceCtorEq, and_false, exists_false, false_or, or_false] at h
  rcases h with heq | hrest
  · rw [← heq] at hboundary
    cases hboundary
  · exact hrest

theorem not_isLegacyCompaction (hnumbered : ∀ turn ∈ turns, turn.IsNumbered) :
    ∀ item ∈ log turns, isLegacyCompaction item = false := by
  intro item hitem
  obtain ⟨turn, hturn, hitem⟩ := mem_flatMap.mp hitem
  cases item with
  | compacted compacted =>
    have hnumber := hnumbered turn hturn compacted (mem_rest_of_compacted hitem)
    simp [isLegacyCompaction, hnumber]
  | _ => rfl

theorem initialWindow_eq_some {session : SessionMeta} {items : List RolloutItem}
    (hwindow : sessionWindow rules (.sessionMeta session) = some window)
    (hitems : ∀ item ∈ items, isLegacyCompaction item = false) :
    initialWindow rules (.sessionMeta session :: items) = some window := by
  have hnone : (RolloutItem.sessionMeta session :: items).any isLegacyCompaction = false := by
    rw [any_cons, any_eq_false.mpr fun item hitem => Bool.eq_false_iff.mp (hitems item hitem)]
    rfl
  rw [initialWindow, hnone, if_neg Bool.false_ne_true, findSome?_cons, hwindow]

end PlainTurn

theorem reconstructHistoryFromRollout_congr {items items' : List RolloutItem}
    (hreverse : SameButSuffix (reverseReplay rules items) (reverseReplay rules items'))
    (hforward : reconstructHistory rules items (reverseReplay rules items).baseCompaction =
      reconstructHistory rules items' (reverseReplay rules items').baseCompaction)
    (hwindow : initialWindow rules items = some window)
    (hwindow' : initialWindow rules items' = some window) :
    reconstructHistoryFromRollout rules items = reconstructHistoryFromRollout rules items' := by
  obtain ⟨hrest, -⟩ := hreverse
  have hprevious := congrArg previousTurnSettings hrest
  have hreference := congrArg referenceContextItem hrest
  have hworld := congrArg worldStateReplay hrest
  have hnewest := congrArg ReverseReplay.window hrest
  unfold reconstructHistoryFromRollout
  dsimp only
  rw [hforward, hprevious, hreference, hworld, hnewest, hwindow, hwindow', Option.or_some]
  rfl

/-- Turns that were rolled back leave nothing behind: history, settings, reference
context, world state and window are resumed as if they had never been recorded.  The
session's window is known where its id is the UUIDv7 it is documented to be. -/
theorem rolled_back_turns_leave_no_trace
    {rules : HistoryRules} {session : SessionMeta} {window : ReconstructedWindow}
    (kept dropped later : List (PlainTurn rules))
    (hnumbered : ∀ turn ∈ kept ++ (dropped ++ later), turn.IsNumbered)
    (hwindow : sessionWindow rules (.sessionMeta session) = some window)
    (hboundary : ∃ envelope ∈ (reconstructHistoryFromRollout rules (rollout session kept)).history,
      rules.isUserTurnBoundary envelope.item = true)
    (hend : ∀ envelope,
      (reconstructHistoryFromRollout rules (rollout session kept)).history.getLast? =
        some envelope → rules.isContextual envelope.item = false) :
    reconstructHistoryFromRollout rules (rolledBackRollout session kept dropped later) =
      reconstructHistoryFromRollout rules (rollout session (kept ++ later)) := by
  rw [history_rollout] at hboundary hend
  apply reconstructHistoryFromRollout_congr
  · exact sameButSuffix_rolledBack session kept dropped later
  · exact reconstructHistory_rolledBack session kept dropped later hboundary hend
  · apply initialWindow_eq_some hwindow
    have hall := not_isLegacyCompaction hnumbered
    simp only [log, flatMap_append, forall_mem_append] at hall
    exact forall_mem_append.mpr ⟨hall.1,
      forall_mem_append.mpr ⟨hall.2.1, forall_mem_cons.mpr ⟨rfl, hall.2.2⟩⟩⟩
  · apply initialWindow_eq_some hwindow
    apply not_isLegacyCompaction
    intro turn hturn
    apply hnumbered
    simp only [mem_append] at hturn ⊢
    exact hturn.imp_right .inr

def compactingTurn (id question : String) (number : ℕ) : PlainTurn literalRules where
  id := id.toList
  context := []
  boundary := .responseItem (userMessage question)
  rest := [.compacted ⟨"summary".toList, some [userMessage "summary"], none, some number, none,
    none, none, []⟩]
  context_isContextual _ hmem := absurd hmem not_mem_nil
  boundary_isBoundary := rfl
  rest_isPlain item hitem := by
    rw [mem_singleton.mp hitem]
    rfl

theorem isNumbered_compactingTurn (id question : String) (number : ℕ) :
    (compactingTurn id question number).IsNumbered := by
  intro compacted hmem
  cases mem_singleton.mp hmem
  rfl

/-- A compaction in a rolled back turn is not resumed from. -/
theorem rolled_back_compaction_is_forgotten :
    (reconstructHistoryFromRollout literalRules
          (rollout newSession [compactingTurn "1" "first" 1])).history =
        [userMessage "summary"] ∧
      reconstructHistoryFromRollout literalRules
          (rolledBackRollout newSession [compactingTurn "1" "first" 1]
            [compactingTurn "2" "second" 2] [compactingTurn "3" "third" 3]) =
        reconstructHistoryFromRollout literalRules (rollout newSession
            ([compactingTurn "1" "first" 1] ++ [compactingTurn "3" "third" 3])) :=
  ⟨rfl, rolled_back_turns_leave_no_trace _ _ _ (by simp [isNumbered_compactingTurn]) rfl
    ⟨userMessage "summary", mem_singleton.mpr rfl, rfl⟩
    fun _ hlast => by cases hlast; rfl⟩

end Rexux.History
