import Rexux.History.ForwardReplay
import Rexux.History.TurnSegments

/-!
# Resuming a rollout without rollbacks

Where no marker is left every segment survives, and the scan comes to the last
compaction of the log.
-/

namespace Rexux.History

open Foundation ReverseReplay Option

variable {rules : HistoryRules}

/-- The checkpoint so far, that of the open turn included. -/
def ReverseReplay.candidate (replay : ReverseReplay) : Option ReplayCheckpoint :=
  replay.baseCompaction.or (replay.activeSegment.bind (·.baseCompaction))

variable {replay : ReverseReplay}

theorem candidate_inSegment
    {f : ActiveReplaySegment → ActiveReplaySegment} {found : Option ReplayCheckpoint}
    (hf : ∀ segment, (f segment).baseCompaction = segment.baseCompaction.or found) :
    (replay.inSegment f).candidate = replay.candidate.or found := by
  change replay.baseCompaction.or (f (replay.activeSegment.getD .default)).baseCompaction = _
  rw [hf, candidate, Option.or_assoc]
  cases replay.activeSegment with
  | none | some => rfl

section

variable (segment : ActiveReplaySegment)
include segment

theorem finalize_baseCompaction (hpending : replay.pendingRollbackTurns = 0) :
    (finalizeActiveSegment segment replay).baseCompaction =
      replay.baseCompaction.or segment.baseCompaction := by
  rw [finalizeActiveSegment, hpending]
  rfl

theorem finalize_pending (hpending : replay.pendingRollbackTurns = 0) :
    (finalizeActiveSegment segment replay).pendingRollbackTurns = 0 := by
  rw [finalizeActiveSegment, hpending]
  exact hpending

theorem addTurnContext_baseCompaction (context : TurnContextItem) :
    (segment.addTurnContext context).baseCompaction = segment.baseCompaction := by
  unfold ActiveReplaySegment.addTurnContext
  dsimp only
  split
  · rfl
  · rfl

end

theorem scanItem_candidate (rules : HistoryRules) {item : RolloutItem}
    (suffix : List RolloutItem) (hitem : isRollbackMarker item = false)
    (hpending : replay.pendingRollbackTurns = 0) :
    (scanItem rules suffix replay item).candidate = replay.candidate.or (checkpointAt suffix item) ∧
      (scanItem rules suffix replay item).pendingRollbackTurns = 0 := by
  have hkept : ∀ f : ActiveReplaySegment → ActiveReplaySegment,
      (∀ segment, (f segment).baseCompaction = segment.baseCompaction) →
      (replay.inSegment f).candidate = replay.candidate.or none := by
    intro f hf
    apply candidate_inSegment
    intro segment
    rw [hf, or_none]
  cases item with
  | compacted compacted => exact ⟨candidate_inSegment fun _ => rfl, hpending⟩
  | turnContext context =>
    exact ⟨hkept _ fun segment => addTurnContext_baseCompaction segment context, hpending⟩
  | worldState | responseItem | interAgentCommunication => exact ⟨hkept _ fun _ => rfl, hpending⟩
  | eventMsg event =>
    cases event with
    | threadRolledBack numTurns => cases hitem
    | turnComplete | userMessage => exact ⟨hkept _ fun _ => rfl, hpending⟩
    | turnAborted turnId =>
      change (replay.takeAborted turnId).candidate = replay.candidate.or none ∧
        (replay.takeAborted turnId).pendingRollbackTurns = 0
      rw [or_none]
      unfold takeAborted candidate
      cases hactive : replay.activeSegment with
      | some segment => exact ⟨rfl, hpending⟩
      | none =>
        refine ⟨?_, hpending⟩
        cases turnId with
        | none | some => rfl
    | turnStarted turnId =>
      change (replay.takeStarted turnId).candidate = replay.candidate.or none ∧
        (replay.takeStarted turnId).pendingRollbackTurns = 0
      rw [or_none]
      unfold takeStarted
      cases hactive : replay.activeSegment with
      | none => exact ⟨rfl, hpending⟩
      | some segment =>
        dsimp only
        split
        · have hopen : ({ replay with
              activeSegment := none } : ReverseReplay).pendingRollbackTurns = 0 := hpending
          refine ⟨?_, finalize_pending segment hopen⟩
          unfold candidate
          rw [finalize_baseCompaction segment hopen, finalizeActiveSegment_activeSegment, hactive]
          exact or_none
        · exact ⟨rfl, hpending⟩
    | itemCompleted | other => exact ⟨or_none.symm, hpending⟩
  | _ => exact ⟨or_none.symm, hpending⟩

theorem finish_baseCompaction (hpending : replay.pendingRollbackTurns = 0) :
    replay.finish.baseCompaction = replay.candidate := by
  unfold finish candidate
  cases hactive : replay.activeSegment with
  | none => exact or_none.symm
  | some segment => exact finalize_baseCompaction segment hpending

variable {items : List RolloutItem}

theorem lastCheckpoint_isSome (h : ∀ item ∈ items, carriesHistory item) :
    (lastCheckpoint items).isSome = items.any isCompacted := by
  induction items with
  | nil => rfl
  | cons item items ih =>
    rw [lastCheckpoint_cons, isSome_or, Bool.or_comm,
      ih fun other hother => h other (List.mem_cons_of_mem _ hother)]
    have hitem := h item List.mem_cons_self
    cases item with
    | compacted compacted =>
      have hhistory : compacted.replacementHistory.isSome := hitem
      change ((compacted.replacementHistory.map _).isSome || _) = _
      rw [isSome_map, hhistory]
      rfl
    | _ => rfl

section

variable (hitems : ∀ item ∈ items, isRollbackMarker item = false)
include hitems

theorem scan_candidate {suffix : List RolloutItem} (hpending : replay.pendingRollbackTurns = 0) :
    (scan rules items suffix replay).finish.baseCompaction =
      replay.candidate.or ((lastCheckpoint items.reverse).map (·.extend suffix)) := by
  induction items generalizing suffix replay with
  | nil =>
    rw [scan, finish_baseCompaction hpending]
    exact or_none.symm
  | cons item items ih =>
    obtain ⟨hcandidate, hnext⟩ :=
      scanItem_candidate rules suffix (hitems item List.mem_cons_self) hpending
    have hitem : lastCheckpoint [item] = checkpointAt [] item := by
      rw [lastCheckpoint_cons]
      rfl
    have hat : checkpointAt suffix item = (checkpointAt [] item).map (·.extend suffix) :=
      checkpointAt_append [] suffix item
    have hlast : (lastCheckpoint (item :: items).reverse).map (·.extend suffix) =
        (checkpointAt suffix item).or
          ((lastCheckpoint items.reverse).map (·.extend (item :: suffix))) := by
      rw [List.reverse_cons, lastCheckpoint_append, hitem, map_or, ← hat, map_map]
      congr 2
      funext checkpoint
      exact extend_extend checkpoint [item] suffix
    rw [scan]
    split
    next hsettled =>
      -- The scan stops only with a checkpoint in hand.
      have hbase : (scanItem rules suffix replay item).baseCompaction.isSome := by
        simp only [isSettled, Bool.and_eq_true] at hsettled
        exact hsettled.1.1
      have hsome : (replay.candidate.or (checkpointAt suffix item)).isSome := by
        rw [← hcandidate, candidate, isSome_or, hbase, Bool.true_or]
      rw [finish_baseCompaction hnext, hcandidate, hlast, ← Option.or_assoc]
      exact (or_of_isSome hsome).symm
    · rw [ih (fun other hother => hitems other (List.mem_cons_of_mem _ hother)) hnext,
        hcandidate, hlast, Option.or_assoc]

end

end Rexux.History
