import Rexux.Foundation.UndoLog
import Rexux.History.Reconstruct

/-!
# Rollouts made of whole turns

Where every turn is opened and completed in one piece, the reverse scan can be read
turn by turn: it builds the segment of a turn, finalizes it where the turn starts, and
has no segment open in between.
-/

namespace Rexux.History

open Foundation List ReverseReplay ActiveReplaySegment

/-- A turn with its start and its completion. -/
structure TurnBlock where
  id : Text
  body : List RolloutItem

def TurnBlock.items (block : TurnBlock) : List RolloutItem :=
  .eventMsg (.turnStarted block.id) ::
    (block.body ++ [.eventMsg (.turnComplete block.id)])

/-- What stands between the start and the end of a turn. -/
def isInTurn : RolloutItem → Bool
  | .eventMsg (.turnStarted _) => false
  | .eventMsg (.turnComplete _) => false
  | .eventMsg (.turnAborted _) => false
  | .eventMsg (.threadRolledBack _) => false
  | _ => true

/-- A turn, or the marker of a rollback. -/
abbrev RolloutEntry := UndoEntry TurnBlock

def RolloutEntry.items : RolloutEntry → List RolloutItem
  | .done block => block.items
  | .undone numTurns => [.eventMsg (.threadRolledBack numTurns)]

/-- Nothing in the turn starts or ends a turn, or rolls one back. -/
def RolloutEntry.IsWhole : RolloutEntry → Prop
  | .done block => ∀ item ∈ block.body, isInTurn item = true
  | .undone _ => True

variable {suffix older : List RolloutItem} {replay : ReverseReplay}

section Segment

variable (rules : HistoryRules)

/-- What an item adds to the segment of its turn. -/
def segmentStep (suffix : List RolloutItem) (segment : ActiveReplaySegment) :
    RolloutItem → ActiveReplaySegment
  | .compacted compacted => segment.addCompacted rules compacted suffix
  | .eventMsg (.userMessage _) => segment.markUserTurn true
  | .turnContext context => segment.addTurnContext context
  | .worldState state => segment.addWorldState state
  | .responseItem envelope => segment.markUserTurn (rules.isUserTurnBoundary envelope.item)
  | .interAgentCommunication _ => segment.markUserTurn true
  | _ => segment

def segmentFrom : List RolloutItem → List RolloutItem → ActiveReplaySegment → ActiveReplaySegment
  | [], _, segment => segment
  | item :: older, suffix, segment =>
    segmentFrom older (item :: suffix) (segmentStep rules suffix segment item)

def TurnBlock.segment (block : TurnBlock) (suffix : List RolloutItem) : ActiveReplaySegment :=
  segmentFrom rules block.body.reverse (.eventMsg (.turnComplete block.id) :: suffix)
    { default with turnId := some block.id }

variable {rules} {segment : ActiveReplaySegment} {item : RolloutItem}

theorem segmentStep_turnId {id : Text} (h : segment.turnId = some id) :
    (segmentStep rules suffix segment item).turnId = some id := by
  unfold segmentStep
  split
  · exact h
  · exact h
  next context =>
    unfold addTurnContext
    have hor : (segment.orTurnId context.turnId).turnId = some id := by
      rw [orTurnId, h]
      rfl
    dsimp only
    split
    all_goals exact hor
  all_goals exact h

variable {items : List RolloutItem}

theorem segmentFrom_turnId {id : Text} (h : segment.turnId = some id) :
    (segmentFrom rules items suffix segment).turnId = some id := by
  induction items generalizing suffix segment with
  | nil => exact h
  | cons item older ih => exact ih (segmentStep_turnId h)

/-- Go on unless everything looked for is found. -/
def ReverseReplay.andThen (replay : ReverseReplay) (next : ReverseReplay → ReverseReplay) :
    ReverseReplay :=
  if replay.isSettled then replay else next replay

theorem ReverseReplay.andThen_of_open (h : replay.isSettled = false)
    (next : ReverseReplay → ReverseReplay) : replay.andThen next = next replay := by
  rw [andThen, h, if_neg Bool.false_ne_true]

theorem ReverseReplay.andThen_congr {next next' : ReverseReplay → ReverseReplay}
    (h : replay.isSettled = false → next replay = next' replay) :
    replay.andThen next = replay.andThen next' := by
  unfold andThen
  split
  · rfl
  next hopen => exact h (Bool.eq_false_iff.mpr hopen)

theorem ReverseReplay.andThen_andThen (replay : ReverseReplay)
    (next later : ReverseReplay → ReverseReplay) :
    (replay.andThen next).andThen later =
      replay.andThen fun replay => (next replay).andThen later := by
  cases h : replay.isSettled with
  | true => simp [andThen, h]
  | false => rw [andThen_of_open h, andThen_of_open h]

variable (replay segment) in
def ReverseReplay.withSegment : ReverseReplay :=
  { replay with activeSegment := some segment }

variable (replay segment) in
@[simp] theorem isSettled_withSegment :
    (replay.withSegment segment).isSettled = replay.isSettled := rfl

variable (suffix replay segment) in
theorem scanItem_withSegment (hitem : isInTurn item) :
    scanItem rules suffix (replay.withSegment segment) item =
      replay.withSegment (segmentStep rules suffix segment item) := by
  cases item with
  | eventMsg event =>
    cases event with
    | turnStarted | turnComplete | turnAborted | threadRolledBack => cases hitem
    | userMessage | itemCompleted | other => rfl
  | _ => rfl

theorem scan_inTurn (hsettled : replay.isSettled = false) (hitems : ∀ item ∈ items, isInTurn item) :
    scan rules (items ++ older) suffix (replay.withSegment segment) =
      scan rules older (items.reverse ++ suffix)
        (replay.withSegment (segmentFrom rules items suffix segment)) := by
  induction items generalizing suffix segment with
  | nil => rfl
  | cons item items ih =>
    rw [forall_mem_cons] at hitems
    rw [cons_append, scan, scanItem_withSegment _ _ _ hitems.1,
      isSettled_withSegment, hsettled, ih hitems.2, reverse_cons, append_assoc]
    rfl

theorem scan_block {block : TurnBlock}
    (hbody : ∀ item ∈ block.body, isInTurn item) (hsettled : replay.isSettled = false)
    (hactive : replay.activeSegment = none) :
    scan rules (block.items.reverse ++ older) suffix replay =
      (finalizeActiveSegment (block.segment rules suffix) replay).andThen
        (scan rules older (block.items ++ suffix)) := by
  have hreverse : block.items.reverse ++ older = .eventMsg (.turnComplete block.id) ::
        (block.body.reverse ++ (.eventMsg (.turnStarted block.id) :: older)) := by
    simp [TurnBlock.items]
  have hcomplete : scanItem rules suffix replay
      (.eventMsg (.turnComplete block.id)) =
        replay.withSegment { default with turnId := some block.id } := by
    rw [scanItem, inSegment, hactive]
    rfl
  have hid : (block.segment rules suffix).turnId = some block.id := segmentFrom_turnId rfl
  have hstart (tail : List RolloutItem) : scanItem rules tail
      (replay.withSegment (block.segment rules suffix)) (.eventMsg (.turnStarted block.id)) =
        finalizeActiveSegment (block.segment rules suffix) replay := by
    rw [scanItem, takeStarted, withSegment]
    dsimp only
    rw [hid, if_pos (by simp [turnIdsAreCompatible]), ← hactive]
  have hbodyReverse : ∀ item ∈ block.body.reverse, isInTurn item :=
    fun item hitem => hbody item (mem_reverse.mp hitem)
  rw [hreverse, scan, hcomplete, isSettled_withSegment, hsettled, scan_inTurn hsettled hbodyReverse]
  change scan rules _ _ (replay.withSegment (block.segment rules suffix)) = _
  rw [scan, hstart]
  simp [TurnBlock.items, andThen]

end Segment

section Entries

variable (rules : HistoryRules)

def scanEntries : List RolloutEntry → List RolloutItem → ReverseReplay → ReverseReplay
  | [], _, replay => replay
  | .done block :: older, suffix, replay =>
    (finalizeActiveSegment (block.segment rules suffix) replay).andThen
      (scanEntries older (block.items ++ suffix))
  | .undone numTurns :: older, suffix, replay =>
    scanEntries older (.eventMsg (.threadRolledBack numTurns) :: suffix)
      { replay with pendingRollbackTurns := replay.pendingRollbackTurns + numTurns }

def logOf (entries : List RolloutEntry) : List RolloutItem :=
  entries.reverse.flatMap RolloutEntry.items

variable {rules}

theorem logOf_cons (entry : RolloutEntry) (entries : List RolloutEntry) :
    logOf (entry :: entries) = logOf entries ++ RolloutEntry.items entry := by
  simp [logOf]

theorem finalizeActiveSegment_activeSegment (segment : ActiveReplaySegment)
    (replay : ReverseReplay) :
    (finalizeActiveSegment segment replay).activeSegment = replay.activeSegment := by
  unfold finalizeActiveSegment
  split
  · split
    · rfl
    · rfl
  · rfl

variable {entries : List RolloutEntry}

theorem scanEntries_activeSegment (hactive : replay.activeSegment = none) :
    (scanEntries rules entries suffix replay).activeSegment = none := by
  induction entries generalizing suffix replay with
  | nil => exact hactive
  | cons entry entries ih =>
    cases entry with
    | done block =>
      have hnext : (finalizeActiveSegment (block.segment rules suffix)
          replay).activeSegment = none :=
        (finalizeActiveSegment_activeSegment _ _).trans hactive
      rw [scanEntries, andThen]
      split
      · exact hnext
      · exact ih hnext
    | undone numTurns => exact ih hactive

theorem scan_entries
    (hwhole : ∀ entry ∈ entries, RolloutEntry.IsWhole entry) (hsettled : replay.isSettled = false)
    (hactive : replay.activeSegment = none) :
    scan rules ((logOf entries).reverse ++ older) suffix replay =
      (scanEntries rules entries suffix replay).andThen
        (scan rules older (logOf entries ++ suffix)) := by
  induction entries generalizing suffix replay with
  | nil =>
    rw [scanEntries, andThen_of_open hsettled]
    rfl
  | cons entry entries ih =>
    obtain ⟨hentry, hentries⟩ := forall_mem_cons.mp hwhole
    rw [logOf_cons, reverse_append, append_assoc, append_assoc]
    cases entry with
    | done block =>
      have hnext : (finalizeActiveSegment (block.segment rules suffix)
          replay).activeSegment = none :=
        (finalizeActiveSegment_activeSegment _ _).trans hactive
      rw [scanEntries, andThen_andThen]
      change scan rules (block.items.reverse ++ _) suffix replay = _
      rw [scan_block hentry hsettled hactive]
      apply andThen_congr
      intro hopen
      exact ih hentries hopen hnext
    | undone numTurns =>
      change scan rules
        (.eventMsg (.threadRolledBack numTurns) :: ((logOf entries).reverse ++ older))
        suffix replay = _
      rw [scan, if_neg]
      · apply ih hentries
        · exact hsettled
        · exact hactive
      · exact Bool.eq_false_iff.mp hsettled

theorem scanEntries_append {newer older : List RolloutEntry} (hsettled : replay.isSettled = false) :
    scanEntries rules (newer ++ older) suffix replay =
      (scanEntries rules newer suffix replay).andThen
        (scanEntries rules older (logOf newer ++ suffix)) := by
  induction newer generalizing suffix replay with
  | nil =>
    rw [scanEntries, andThen_of_open hsettled]
    rfl
  | cons entry newer ih =>
    rw [logOf_cons, append_assoc]
    cases entry with
    | done block =>
      rw [cons_append, scanEntries, scanEntries, andThen_andThen]
      apply andThen_congr
      intro hopen
      exact ih hopen
    | undone numTurns =>
      apply ih
      exact hsettled

theorem reverseReplay_eq_scanEntries {session : SessionMeta}
    (hwhole : ∀ entry ∈ entries, RolloutEntry.IsWhole entry) :
    reverseReplay rules (.sessionMeta session :: logOf entries) =
      scanEntries rules entries [] .initial := by
  have hactive : (scanEntries rules entries [] .initial).activeSegment = none :=
    scanEntries_activeSegment rfl
  have hfinish : (scanEntries rules entries [] .initial).finish =
      scanEntries rules entries [] .initial := by
    rw [finish, hactive]
  unfold reverseReplay
  rw [reverse_cons, scan_entries hwhole rfl rfl, andThen]
  split
  · exact hfinish
  next hopen =>
    rw [scan, scanItem, if_neg hopen]
    exact hfinish

end Entries

end Rexux.History
