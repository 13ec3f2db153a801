import Rexux.History.TurnBlocks

/-!
# The segment of a turn

What the reverse scan reads off a turn: whether a rollback counts it, and its newest
compaction, which knows the log behind it and depends on it in no other way.
-/

namespace Rexux.History

open Foundation List ReverseReplay Option

variable {rules : HistoryRules}

section Counting

/-- The item a turn of a user or of another agent begins with. -/
def isBoundaryItem (rules : HistoryRules) : RolloutItem → Bool
  | .responseItem envelope => rules.isUserTurnBoundary envelope.item
  | .interAgentCommunication _ => true
  | _ => false

def countsAsUserItem (rules : HistoryRules) : RolloutItem → Bool
  | .eventMsg (.userMessage _) => true
  | item => isBoundaryItem rules item

theorem segmentStep_countsAsUserTurn (suffix : List RolloutItem)
    (segment : ActiveReplaySegment) (item : RolloutItem) :
    (segmentStep rules suffix segment item).countsAsUserTurn =
      (segment.countsAsUserTurn || countsAsUserItem rules item) := by
  cases item with
  | eventMsg event =>
    cases event with
    | userMessage => rfl
    | _ => exact (Bool.or_false _).symm
  | turnContext context =>
    simp only [segmentStep, ActiveReplaySegment.addTurnContext]
    split <;> exact (Bool.or_false _).symm
  | responseItem | interAgentCommunication => rfl
  | _ => exact (Bool.or_false _).symm

theorem segmentFrom_countsAsUserTurn (items suffix : List RolloutItem)
    (segment : ActiveReplaySegment) :
    (segmentFrom rules items suffix segment).countsAsUserTurn =
      (segment.countsAsUserTurn || items.any (countsAsUserItem rules)) := by
  induction items generalizing suffix segment with
  | nil => exact (Bool.or_false _).symm
  | cons item items ih =>
    rw [segmentFrom, ih, segmentStep_countsAsUserTurn, any_cons, Bool.or_assoc]

/-- The turn has an item that counts as user input. -/
def TurnBlock.countsAsUserTurn (rules : HistoryRules) (block : TurnBlock) : Bool :=
  block.body.any (countsAsUserItem rules)

theorem segment_countsAsUserTurn (block : TurnBlock) (suffix : List RolloutItem) :
    (block.segment rules suffix).countsAsUserTurn = block.countsAsUserTurn rules := by
  rw [TurnBlock.segment, segmentFrom_countsAsUserTurn, any_reverse]
  rfl

end Counting

section Suffix

def ReplayCheckpoint.extend (tail : List RolloutItem) (checkpoint : ReplayCheckpoint) :
    ReplayCheckpoint :=
  { checkpoint with suffix := checkpoint.suffix ++ tail }

def ActiveReplaySegment.extend (tail : List RolloutItem) (segment : ActiveReplaySegment) :
    ActiveReplaySegment :=
  { segment with baseCompaction := segment.baseCompaction.map (·.extend tail) }

theorem segmentStep_extend (tail suffix : List RolloutItem) (segment : ActiveReplaySegment)
    (item : RolloutItem) :
    segmentStep rules (suffix ++ tail) (segment.extend tail) item =
      (segmentStep rules suffix segment item).extend tail := by
  cases item with
  | eventMsg event => cases event <;> rfl
  | compacted compacted =>
    simp only [segmentStep, ActiveReplaySegment.addCompacted, ActiveReplaySegment.extend,
      ActiveReplaySegment.checkpoint]
    cases segment.baseCompaction with
    | some base => rfl
    | none => cases compacted.replacementHistory <;> rfl
  | turnContext context =>
    simp only [segmentStep, ActiveReplaySegment.addTurnContext]
    change (if turnIdsAreCompatible (segment.orTurnId context.turnId).turnId context.turnId
      then _ else _) = _
    split
    · rfl
    · rfl
  | _ => rfl

theorem segmentFrom_extend (tail items suffix : List RolloutItem) (segment : ActiveReplaySegment) :
    segmentFrom rules items (suffix ++ tail) (segment.extend tail) =
      (segmentFrom rules items suffix segment).extend tail := by
  induction items generalizing suffix segment with
  | nil => rfl
  | cons item items ih =>
    rw [segmentFrom, segmentFrom, segmentStep_extend, ← ih]
    rfl

theorem segment_extend (block : TurnBlock) (tail : List RolloutItem) :
    block.segment rules tail = (block.segment rules []).extend tail := by
  exact segmentFrom_extend tail block.body.reverse [.eventMsg (.turnComplete block.id)]
    { ActiveReplaySegment.default with turnId := some block.id }

/-- Two replays that differ at most in what stands behind their checkpoint. -/
structure SameButSuffix (replay replay' : ReverseReplay) : Prop where
  rest : { replay with baseCompaction := none } = { replay' with baseCompaction := none }
  base : replay.baseCompaction.isSome = replay'.baseCompaction.isSome

theorem SameButSuffix.refl (replay : ReverseReplay) : SameButSuffix replay replay := ⟨rfl, rfl⟩

variable {replay replay' : ReverseReplay}

section

variable (h : SameButSuffix replay replay')
include h

theorem SameButSuffix.isSettled_eq : replay.isSettled = replay'.isSettled := by
  have hprevious := congrArg previousTurnSettings h.rest
  have hreference := congrArg referenceContextItem h.rest
  rw [isSettled, isSettled, h.base, hprevious, hreference]

theorem SameButSuffix.finalize (segment : ActiveReplaySegment) (tail tail' : List RolloutItem) :
    SameButSuffix (finalizeActiveSegment (segment.extend tail) replay)
      (finalizeActiveSegment (segment.extend tail') replay') := by
  obtain ⟨base, previous, reference, world, window, pending, active⟩ := replay
  obtain ⟨hrest, hbase⟩ := h
  cases hrest
  unfold finalizeActiveSegment
  split
  · change SameButSuffix (if segment.countsAsUserTurn then _ else _)
      (if segment.countsAsUserTurn then _ else _)
    split
    · exact ⟨rfl, hbase⟩
    · exact ⟨rfl, hbase⟩
  · refine ⟨rfl, ?_⟩
    simp only [surviveSegment, ActiveReplaySegment.extend, isSome_or, isSome_map]
    rw [hbase]

theorem SameButSuffix.scanEntries (entries : List RolloutEntry)
    (suffix suffix' : List RolloutItem) :
    SameButSuffix (scanEntries rules entries suffix replay)
      (scanEntries rules entries suffix' replay') := by
  induction entries generalizing suffix suffix' replay replay' with
  | nil => exact h
  | cons entry entries ih =>
    cases entry with
    | done block =>
      have hnext := h.finalize (block.segment rules []) suffix suffix'
      rw [← segment_extend, ← segment_extend] at hnext
      rw [History.scanEntries, History.scanEntries, andThen, andThen, hnext.isSettled_eq]
      split
      · exact hnext
      · exact ih hnext _ _
    | undone numTurns =>
      obtain ⟨base, previous, reference, world, window, pending, active⟩ := replay
      obtain ⟨hrest, hbase⟩ := h
      cases hrest
      apply ih
      exact ⟨rfl, hbase⟩

end

def pendingAfter (rules : HistoryRules) : List RolloutEntry → ℕ → ℕ
  | [], pending => pending
  | .done block :: older, pending =>
    pendingAfter rules older (if block.countsAsUserTurn rules then pending - 1 else pending)
  | .undone numTurns :: older, pending => pendingAfter rules older (pending + numTurns)

/-- The latest checkpoint in a turn that no rollback takes back. -/
def survivingCheckpoint (rules : HistoryRules) : List RolloutEntry → List RolloutItem → ℕ →
    Option ReplayCheckpoint
  | [], _, _ => none
  | .done block :: older, suffix, 0 =>
    (block.segment rules suffix).baseCompaction.or
      (survivingCheckpoint rules older (block.items ++ suffix) 0)
  | .done block :: older, suffix, pending + 1 =>
    survivingCheckpoint rules older (block.items ++ suffix)
      (if block.countsAsUserTurn rules then pending else pending + 1)
  | .undone numTurns :: older, suffix, pending =>
    survivingCheckpoint rules older (.eventMsg (.threadRolledBack numTurns) :: suffix)
      (pending + numTurns)

theorem segment_baseCompaction_append (block : TurnBlock) (suffix tail : List RolloutItem) :
    (block.segment rules (suffix ++ tail)).baseCompaction =
      (block.segment rules suffix).baseCompaction.map (·.extend tail) := by
  rw [segment_extend block (suffix ++ tail), segment_extend block suffix]
  simp only [ActiveReplaySegment.extend, Option.map_map]
  congr 1
  funext checkpoint
  simp [ReplayCheckpoint.extend]

theorem survivingCheckpoint_extend (entries : List RolloutEntry)
    (suffix tail : List RolloutItem) (pending : ℕ) :
    survivingCheckpoint rules entries (suffix ++ tail) pending =
      (survivingCheckpoint rules entries suffix pending).map (·.extend tail) := by
  induction entries generalizing suffix pending with
  | nil => rfl
  | cons entry entries ih =>
    cases entry with
    | done block =>
      cases pending with
      | zero =>
        rw [survivingCheckpoint, survivingCheckpoint, segment_baseCompaction_append,
          ← append_assoc, ih]
        cases (block.segment rules suffix).baseCompaction <;> rfl
      | succ pending => rw [survivingCheckpoint, survivingCheckpoint, ← append_assoc, ih]
    | undone numTurns => rw [survivingCheckpoint, survivingCheckpoint, ← cons_append, ih]

theorem ReverseReplay.andThen_baseCompaction {next : ReverseReplay → ReverseReplay}
    {found : Option ReplayCheckpoint}
    (h : (next replay).baseCompaction = replay.baseCompaction.or found) :
    (replay.andThen next).baseCompaction = replay.baseCompaction.or found := by
  unfold andThen
  split
  next hsettled =>
    simp only [isSettled, Bool.and_eq_true] at hsettled
    obtain ⟨base, hbase⟩ := isSome_iff_exists.mp hsettled.1.1
    rw [hbase]
    rfl
  · exact h

theorem scanEntries_baseCompaction
    (entries : List RolloutEntry) (suffix : List RolloutItem) (replay : ReverseReplay) :
    (scanEntries rules entries suffix replay).baseCompaction = replay.baseCompaction.or
        (survivingCheckpoint rules entries suffix replay.pendingRollbackTurns) := by
  induction entries generalizing suffix replay with
  | nil => exact (or_none).symm
  | cons entry entries ih =>
    cases entry with
    | done block =>
      rw [scanEntries, andThen_baseCompaction (ih _ _),
        finalizeActiveSegment, segment_countsAsUserTurn]
      cases hpending : replay.pendingRollbackTurns with
      | zero =>
        rw [if_neg (Nat.lt_irrefl 0), survivingCheckpoint, ← Option.or_assoc]
        rw [← hpending]
        rfl
      | succ pending =>
        rw [if_pos (Nat.succ_pos pending), survivingCheckpoint]
        split
        · rfl
        · rw [hpending]
    | undone numTurns => exact ih _ _

end Suffix

section Place

def lastCheckpoint : List RolloutItem → Option ReplayCheckpoint
  | [] => none
  | .compacted compacted :: items =>
    (lastCheckpoint items).or (ActiveReplaySegment.checkpoint compacted items)
  | _ :: items => lastCheckpoint items

def checkpointAt (suffix : List RolloutItem) : RolloutItem → Option ReplayCheckpoint
  | .compacted compacted => ActiveReplaySegment.checkpoint compacted suffix
  | _ => none

theorem lastCheckpoint_cons (item : RolloutItem) (items : List RolloutItem) :
    lastCheckpoint (item :: items) = (lastCheckpoint items).or (checkpointAt items item) := by
  cases item with
  | compacted compacted => rfl
  | _ => exact (or_none).symm

theorem checkpointAt_append (suffix tail : List RolloutItem) (item : RolloutItem) :
    checkpointAt (suffix ++ tail) item = (checkpointAt suffix item).map (·.extend tail) := by
  cases item with
  | compacted compacted =>
    simp only [checkpointAt, ActiveReplaySegment.checkpoint, Option.map_map]
    rfl
  | _ => rfl

theorem lastCheckpoint_append (older newer : List RolloutItem) :
    lastCheckpoint (older ++ newer) =
      (lastCheckpoint newer).or ((lastCheckpoint older).map (·.extend newer)) := by
  induction older with
  | nil => exact (or_none).symm
  | cons item older ih =>
    rw [cons_append, lastCheckpoint_cons, lastCheckpoint_cons, ih, checkpointAt_append,
      Option.or_assoc]
    cases lastCheckpoint older <;> rfl

variable {checkpoint : ReplayCheckpoint}

theorem exists_of_lastCheckpoint_eq_some {items : List RolloutItem}
    (h : lastCheckpoint items = some checkpoint) :
    ∃ before, items = before ++ .compacted checkpoint.compacted :: checkpoint.suffix := by
  induction items with
  | nil => cases h
  | cons item items ih =>
    rw [lastCheckpoint_cons] at h
    cases hlater : lastCheckpoint items with
    | some later =>
      rw [hlater] at h
      cases h
      obtain ⟨before, hitems⟩ := ih hlater
      exact ⟨item :: before, congrArg (item :: ·) hitems⟩
    | none =>
      rw [hlater] at h
      cases item with
      | compacted compacted =>
        obtain ⟨history, -, rfl⟩ := map_eq_some_iff.mp h
        exact ⟨[], rfl⟩
      | _ => cases h

theorem extend_extend (checkpoint : ReplayCheckpoint) (first second : List RolloutItem) :
    (checkpoint.extend first).extend second = checkpoint.extend (first ++ second) := by
  simp [ReplayCheckpoint.extend]

theorem segmentStep_baseCompaction (suffix : List RolloutItem) (segment : ActiveReplaySegment)
    (item : RolloutItem) :
    (segmentStep rules suffix segment item).baseCompaction =
      segment.baseCompaction.or (checkpointAt suffix item) := by
  cases item with
  | eventMsg event => cases event <;> exact (or_none).symm
  | turnContext context =>
    simp only [segmentStep, ActiveReplaySegment.addTurnContext]
    split <;> exact (or_none).symm
  | compacted compacted => rfl
  | _ => exact (or_none).symm

theorem segmentFrom_baseCompaction (items suffix : List RolloutItem)
    (segment : ActiveReplaySegment) :
    (segmentFrom rules items suffix segment).baseCompaction =
      segment.baseCompaction.or ((lastCheckpoint items.reverse).map (·.extend suffix)) := by
  induction items generalizing suffix segment with
  | nil => exact (or_none).symm
  | cons item items ih =>
    have hitem : checkpointAt suffix item = (lastCheckpoint [item]).map (·.extend suffix) := by
      rw [lastCheckpoint_cons, ← nil_append suffix, checkpointAt_append]
      rfl
    rw [segmentFrom, ih, segmentStep_baseCompaction, reverse_cons, lastCheckpoint_append,
      Option.or_assoc, hitem]
    cases lastCheckpoint [item] with
    | some checkpoint => rfl
    | none =>
      cases lastCheckpoint items.reverse with
      | none => rfl
      | some checkpoint => simp [extend_extend]

theorem segment_baseCompaction (block : TurnBlock) (suffix : List RolloutItem) :
    (block.segment rules suffix).baseCompaction = (lastCheckpoint block.body).map
        (·.extend (.eventMsg (.turnComplete block.id) :: suffix)) := by
  rw [TurnBlock.segment, segmentFrom_baseCompaction, reverse_reverse]
  rfl

theorem exists_of_survivingCheckpoint_eq_some
    {entries : List RolloutEntry} {suffix : List RolloutItem} {pending : ℕ}
    (h : survivingCheckpoint rules entries suffix pending = some checkpoint) :
    ∃ newer block older, entries = newer ++ .done block :: older ∧
      pendingAfter rules newer pending = 0 ∧
      (block.segment rules (logOf newer ++ suffix)).baseCompaction = some checkpoint := by
  induction entries generalizing suffix pending with
  | nil => cases h
  | cons entry entries ih =>
    cases entry with
    | done block =>
      cases pending with
      | zero =>
        rw [survivingCheckpoint] at h
        cases hbase : (block.segment rules suffix).baseCompaction with
        | some base =>
          rw [hbase] at h
          cases h
          exact ⟨[], block, entries, rfl, rfl, hbase⟩
        | none =>
          rw [hbase] at h
          obtain ⟨newer, found, older, rfl, hpending, hfound⟩ := ih h
          refine ⟨.done block :: newer, found, older, rfl, ?_, ?_⟩
          · rw [pendingAfter, ite_self]
            exact hpending
          · rw [logOf_cons, append_assoc]
            exact hfound
      | succ pending =>
        obtain ⟨newer, found, older, rfl, hpending, hfound⟩ := ih h
        refine ⟨.done block :: newer, found, older, rfl, hpending, ?_⟩
        rw [logOf_cons, append_assoc]
        exact hfound
    | undone numTurns =>
      obtain ⟨newer, found, older, rfl, hpending, hfound⟩ := ih h
      refine ⟨.undone numTurns :: newer, found, older, rfl, hpending, ?_⟩
      rw [logOf_cons, append_assoc]
      exact hfound

end Place

end Rexux.History
