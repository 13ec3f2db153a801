import Rexux.History.UnmarkedReplay

/-!
# Where older items no longer matter

Once the reverse scan has met a compaction and the settings of a turn, what it makes of the
rollout is the same however far it goes on.
-/

namespace Rexux.History

open Foundation List ReverseReplay Option Bool

variable {rules : HistoryRules}

/-- What an item may add to the open segment; a new checkpoint comes with its window. -/
structure ActiveReplaySegment.Extends (segment next : ActiveReplaySegment) : Prop where
  base : ∃ found, next.baseCompaction = segment.baseCompaction.or found
  window : ∃ found, next.window = segment.window.or found
  states : ∃ older, next.worldStateReplay = segment.worldStateReplay ++ older
  fresh : segment.baseCompaction = none → next.baseCompaction.isSome = true →
    next.window.isSome = true ∧ .compacted ∈ next.worldStateReplay

theorem ActiveReplaySegment.Extends.of_same {segment next : ActiveReplaySegment}
    (hbase : next.baseCompaction = segment.baseCompaction) (hwindow : next.window = segment.window)
    (hstates : ∃ older, next.worldStateReplay = segment.worldStateReplay ++ older) :
    segment.Extends next where
  base := ⟨none, by rw [hbase, or_none]⟩
  window := ⟨none, by rw [hwindow, or_none]⟩
  states := hstates
  fresh := by
    intro hnone hsome
    rw [hbase, hnone] at hsome
    cases hsome

/-- Compactions as they are written today. -/
def isNumberedCompaction : RolloutItem → Bool
  | .compacted compacted => compacted.replacementHistory.isSome && compacted.windowNumber.isSome
  | _ => true

theorem ActiveReplaySegment.extends_addCompacted (segment : ActiveReplaySegment)
    {compacted : CompactedItem} (hnumber : compacted.windowNumber.isSome)
    (suffix : List RolloutItem) :
    segment.Extends (segment.addCompacted rules compacted suffix) where
  base := ⟨_, rfl⟩
  window := ⟨_, rfl⟩
  states := ⟨_, rfl⟩
  fresh := by
    intro _ _
    refine ⟨?_, mem_append_right _ mem_cons_self⟩
    change (segment.window.or (compacted.windowNumber.map _)).isSome
    rw [isSome_or, isSome_map, hnumber, Bool.or_true]

theorem ActiveReplaySegment.extends_addTurnContext (segment : ActiveReplaySegment)
    (context : TurnContextItem) : segment.Extends (segment.addTurnContext context) := by
  apply Extends.of_same (addTurnContext_baseCompaction segment context)
  · unfold addTurnContext
    dsimp only
    split
    · rfl
    · rfl
  · refine ⟨[], ?_⟩
    rw [append_nil]
    unfold addTurnContext
    dsimp only
    split
    · rfl
    · rfl

inductive ReverseReplay.Grows (replay : ReverseReplay) : ReverseReplay → Prop
  | same : Grows replay replay
  | finished : Grows replay replay.finish
  | grown {segment : ActiveReplaySegment}
      (hsegment : (replay.activeSegment.getD .default).Extends segment) :
      Grows replay { replay with activeSegment := some segment }

/-- Unless it rolls back, an item only adds to what was found. -/
theorem scanItem_grows (rules : HistoryRules) (suffix : List RolloutItem)
    (replay : ReverseReplay) {item : RolloutItem} (hmarker : isRollbackMarker item = false)
    (hnumbered : isNumberedCompaction item) : replay.Grows (scanItem rules suffix replay item) := by
  have hsame : ∀ segment : ActiveReplaySegment, ∃ older,
      segment.worldStateReplay = segment.worldStateReplay ++ older :=
    fun segment => ⟨[], (append_nil _).symm⟩
  cases item with
  | compacted compacted =>
    rw [isNumberedCompaction, and_eq_true] at hnumbered
    exact .grown (ActiveReplaySegment.extends_addCompacted _ hnumbered.2 suffix)
  | turnContext context => exact .grown (ActiveReplaySegment.extends_addTurnContext _ context)
  | worldState state => exact .grown (.of_same rfl rfl ⟨_, rfl⟩)
  | responseItem envelope => exact .grown (.of_same rfl rfl (hsame _))
  | interAgentCommunication communication => exact .grown (.of_same rfl rfl (hsame _))
  | eventMsg event =>
    cases event with
    | threadRolledBack numTurns => cases hmarker
    | turnComplete | userMessage => exact .grown (.of_same rfl rfl (hsame _))
    | turnAborted turnId =>
      change replay.Grows (replay.takeAborted turnId)
      unfold takeAborted
      cases hactive : replay.activeSegment with
      | some segment =>
        apply ReverseReplay.Grows.grown
        rw [hactive]
        exact .of_same rfl rfl (hsame segment)
      | none =>
        cases turnId with
        | none =>
          have hself : ({ replay with activeSegment := none } : ReverseReplay) = replay := by
            rw [← hactive]
          change replay.Grows { replay with activeSegment := none }
          rw [hself]
          exact .same
        | some id =>
          apply ReverseReplay.Grows.grown
          rw [hactive]
          exact .of_same rfl rfl (hsame .default)
    | turnStarted turnId =>
      have hfinish : replay.Grows replay.finish := .finished
      change replay.Grows (replay.takeStarted turnId)
      unfold takeStarted
      unfold finish at hfinish
      cases hactive : replay.activeSegment with
      | none => exact .same
      | some segment =>
        rw [hactive] at hfinish
        dsimp only
        split
        · exact hfinish
        · exact .same
    | itemCompleted | other => exact .same
  | _ => exact .same

namespace ReverseReplay

def windowCandidate (replay : ReverseReplay) : Option ReconstructedWindow :=
  replay.window.or (replay.activeSegment.bind (·.window))

def stateRecords (replay : ReverseReplay) : List WorldStateRecord :=
  replay.worldStateReplay ++ ((replay.activeSegment.map (·.worldStateReplay)).getD [])

def HasContext (replay : ReverseReplay) : Prop :=
  replay.previousTurnSettings.isSome = true ∧ isNeverSet replay.referenceContextItem = false

/-- A checkpoint comes with its window and its place among the records of the state. -/
structure IsNumbered (replay : ReverseReplay) : Prop where
  pending : replay.pendingRollbackTurns = 0
  window : replay.candidate.isSome = true → replay.windowCandidate.isSome = true
  states : replay.candidate.isSome = true → .compacted ∈ replay.stateRecords

variable {replay next : ReverseReplay}

theorem finish_of_some {segment : ActiveReplaySegment} (hpending : replay.pendingRollbackTurns = 0)
    (hactive : replay.activeSegment = some segment) :
    replay.finish = surviveSegment segment { replay with activeSegment := none } := by
  unfold finish
  rw [hactive]
  dsimp only
  rw [finalizeActiveSegment, hpending, if_neg (Nat.lt_irrefl 0)]

theorem finish_of_none (hactive : replay.activeSegment = none) : replay.finish = replay := by
  unfold finish
  rw [hactive]

section

variable (hpending : replay.pendingRollbackTurns = 0)
include hpending

theorem finish_activeSegment : replay.finish.activeSegment = none := by
  cases hactive : replay.activeSegment with
  | none => rw [finish_of_none hactive, hactive]
  | some segment => rw [finish_of_some hpending hactive]; rfl

theorem finish_pending : replay.finish.pendingRollbackTurns = 0 := by
  cases hactive : replay.activeSegment with
  | none => rw [finish_of_none hactive, hpending]
  | some segment => rw [finish_of_some hpending hactive]; exact hpending

theorem finish_window : replay.finish.window = replay.windowCandidate := by
  unfold windowCandidate
  cases hactive : replay.activeSegment with
  | none => rw [finish_of_none hactive, bind_none, or_none]
  | some segment => rw [finish_of_some hpending hactive]; rfl

theorem finish_worldStateReplay : replay.finish.worldStateReplay = replay.stateRecords := by
  unfold stateRecords
  cases hactive : replay.activeSegment with
  | none => rw [finish_of_none hactive, map_none, getD_none, append_nil]
  | some segment => rw [finish_of_some hpending hactive]; rfl

end

theorem HasContext.finish (h : replay.HasContext) (hpending : replay.pendingRollbackTurns = 0) :
    replay.finish.previousTurnSettings = replay.previousTurnSettings ∧
      replay.finish.referenceContextItem = replay.referenceContextItem := by
  cases hactive : replay.activeSegment with
  | none =>
    rw [finish_of_none hactive]
    exact ⟨rfl, rfl⟩
  | some segment =>
    rw [finish_of_some hpending hactive]
    obtain ⟨settings, hsettings⟩ := isSome_iff_exists.mp h.1
    refine ⟨?_, ?_⟩
    · change (if segment.hasContextBaseline then
        replay.previousTurnSettings.or segment.previousTurnSettings
          else replay.previousTurnSettings) = replay.previousTurnSettings
      rw [hsettings, some_or, ite_self]
    · change (if isNeverSet replay.referenceContextItem && _ then _ else _) = _
      rw [h.2, Bool.false_and, if_neg Bool.false_ne_true]

section

variable (hpending : replay.pendingRollbackTurns = 0)
include hpending

theorem candidate_finish : replay.finish.candidate = replay.candidate := by
  rw [candidate, finish_activeSegment hpending, finish_baseCompaction hpending,
    bind_none, or_none]

theorem windowCandidate_finish : replay.finish.windowCandidate = replay.windowCandidate := by
  rw [windowCandidate, finish_activeSegment hpending, finish_window hpending, bind_none,
    or_none]

theorem stateRecords_finish : replay.finish.stateRecords = replay.stateRecords := by
  rw [stateRecords, finish_activeSegment hpending, finish_worldStateReplay hpending,
    map_none, getD_none, append_nil]

end

/-- What was found stays found. -/
theorem Grows.found (h : replay.Grows next) (hpending : replay.pendingRollbackTurns = 0) :
    next.pendingRollbackTurns = 0 ∧
      (∃ found, next.candidate = replay.candidate.or found) ∧
      (∃ found, next.windowCandidate = replay.windowCandidate.or found) ∧
      (∃ older, next.stateRecords = replay.stateRecords ++ older) := by
  cases h with
  | same =>
    exact ⟨hpending, ⟨none, or_none.symm⟩, ⟨none, or_none.symm⟩, [],
      (append_nil _).symm⟩
  | finished =>
    refine ⟨finish_pending hpending, ⟨none, ?_⟩, ⟨none, ?_⟩, [], ?_⟩
    · rw [candidate_finish hpending, or_none]
    · rw [windowCandidate_finish hpending, or_none]
    · rw [stateRecords_finish hpending, append_nil]
  | @grown segment hsegment =>
    obtain ⟨base, hbase⟩ := hsegment.base
    obtain ⟨window, hwindow⟩ := hsegment.window
    obtain ⟨older, holder⟩ := hsegment.states
    refine ⟨hpending, ⟨base, ?_⟩, ⟨window, ?_⟩, older, ?_⟩
    · change replay.baseCompaction.or segment.baseCompaction = _
      rw [hbase, candidate, Option.or_assoc]
      cases replay.activeSegment with
      | none | some => rfl
    · change replay.window.or segment.window = _
      rw [hwindow, windowCandidate, Option.or_assoc]
      cases replay.activeSegment with
      | none | some => rfl
    · change replay.worldStateReplay ++ segment.worldStateReplay = _
      rw [holder, stateRecords, append_assoc]
      cases replay.activeSegment with
      | none | some => rfl

theorem IsNumbered.step (h : replay.IsNumbered) (hgrows : replay.Grows next) : next.IsNumbered := by
  obtain ⟨hpending, -, ⟨window, hwindow⟩, older, holder⟩ := hgrows.found h.pending
  -- A candidate that is new is that of the open segment.
  have hnext : next.candidate.isSome → replay.candidate.isSome ∨
      next.windowCandidate.isSome ∧ .compacted ∈ next.stateRecords := by
    intro hsome
    cases hgrows with
    | same => exact .inl hsome
    | finished => exact .inl (candidate_finish h.pending ▸ hsome)
    | @grown segment hsegment =>
      cases hold : replay.candidate with
      | some found => exact .inl rfl
      | none =>
        rw [candidate, or_eq_none_iff] at hold
        obtain ⟨hbase, hactive⟩ := hold
        have hfresh : (replay.activeSegment.getD .default).baseCompaction = none := by
          cases hsegment : replay.activeSegment with
          | none => rfl
          | some active =>
            rw [hsegment] at hactive
            exact hactive
        have hfound : segment.baseCompaction.isSome := by
          change (replay.baseCompaction.or segment.baseCompaction).isSome = true at hsome
          rwa [hbase] at hsome
        obtain ⟨hwindow, hstates⟩ := hsegment.fresh hfresh hfound
        refine .inr ⟨?_, mem_append_right _ hstates⟩
        change (replay.window.or segment.window).isSome
        rw [isSome_or, hwindow, Bool.or_true]
  refine ⟨hpending, ?_, ?_⟩
  · intro hsome
    rcases hnext hsome with hold | ⟨hfound, -⟩
    · rw [hwindow, isSome_or, h.window hold, Bool.true_or]
    · exact hfound
  · intro hsome
    rcases hnext hsome with hold | ⟨-, hfound⟩
    · rw [holder]
      exact mem_append_left _ (h.states hold)
    · exact hfound

theorem isNumbered_initial : initial.IsNumbered := ⟨rfl, (nomatch ·), (nomatch ·)⟩

theorem IsNumbered.scan {items suffix : List RolloutItem} (h : replay.IsNumbered)
    (hmarkers : ∀ item ∈ items, isRollbackMarker item = false)
    (hnumbered : ∀ item ∈ items, isNumberedCompaction item) :
    (scan rules items suffix replay).IsNumbered := by
  induction items generalizing suffix replay with
  | nil => exact h
  | cons item items ih =>
    rw [forall_mem_cons] at hmarkers hnumbered
    have hstep := h.step (scanItem_grows rules suffix replay hmarkers.1 hnumbered.1)
    rw [scan]
    split
    · exact hstep
    · exact ih hstep hmarkers.2 hnumbered.2

structure SameOutcome (rules : HistoryRules) (replay next : ReverseReplay) : Prop where
  baseCompaction : next.baseCompaction = replay.baseCompaction
  previousTurnSettings : next.previousTurnSettings = replay.previousTurnSettings
  referenceContextItem : next.referenceContextItem = replay.referenceContextItem
  window : next.window = replay.window
  worldState : next.worldStateReplay.reverse.foldl (worldStateStep rules) none =
    replay.worldStateReplay.reverse.foldl (worldStateStep rules) none

theorem SameOutcome.refl (rules : HistoryRules) (replay : ReverseReplay) :
    SameOutcome rules replay replay :=
  ⟨rfl, rfl, rfl, rfl, rfl⟩

theorem SameOutcome.trans {last : ReverseReplay} (h : SameOutcome rules replay next)
    (hnext : SameOutcome rules next last) : SameOutcome rules replay last where
  baseCompaction := hnext.baseCompaction.trans h.baseCompaction
  previousTurnSettings := hnext.previousTurnSettings.trans h.previousTurnSettings
  referenceContextItem := hnext.referenceContextItem.trans h.referenceContextItem
  window := hnext.window.trans h.window
  worldState := hnext.worldState.trans h.worldState

end ReverseReplay

variable {records : List WorldStateRecord}

theorem foldl_worldStateStep_of_mem (h : .compacted ∈ records) (baseline other : Option Text) :
    records.foldl (worldStateStep rules) baseline = records.foldl (worldStateStep rules) other := by
  induction records generalizing baseline other with
  | nil => cases h
  | cons record records ih =>
    rcases mem_cons.mp h with rfl | h
    · rfl
    · exact ih h _ _

/-- States before a compaction make no difference. -/
theorem foldl_worldStateStep_append (h : .compacted ∈ records) (older : List WorldStateRecord) :
    (records ++ older).reverse.foldl (worldStateStep rules) none =
      records.reverse.foldl (worldStateStep rules) none := by
  rw [reverse_append, foldl_append]
  exact foldl_worldStateStep_of_mem (mem_reverse.mpr h) _ _

namespace ReverseReplay

variable {replay next : ReverseReplay}

/-- Everything that is looked for has been met, if not all of it is settled. -/
structure IsFound (replay : ReverseReplay) : Prop where
  numbered : replay.IsNumbered
  candidate : replay.candidate.isSome = true
  context : replay.HasContext

theorem HasContext.step (h : replay.HasContext) (hpending : replay.pendingRollbackTurns = 0)
    (hgrows : replay.Grows next) :
    next.previousTurnSettings = replay.previousTurnSettings ∧
      next.referenceContextItem = replay.referenceContextItem := by
  cases hgrows with
  | same | grown => exact ⟨rfl, rfl⟩
  | finished => exact h.finish hpending

/-- Once all is found, an older item changes nothing. -/
theorem IsFound.step (h : replay.IsFound) (rules : HistoryRules) (hgrows : replay.Grows next) :
    next.IsFound ∧ SameOutcome rules replay.finish next.finish := by
  have hpending := h.numbered.pending
  have hnumbered := h.numbered.step hgrows
  obtain ⟨-, ⟨base, hbase⟩, ⟨window, hwindow⟩, older, holder⟩ := hgrows.found hpending
  obtain ⟨hsettings, hreference⟩ := h.context.step hpending hgrows
  have hcontext : next.HasContext := by
    unfold HasContext
    rw [hsettings, hreference]
    exact h.context
  obtain ⟨checkpoint, hcheckpoint⟩ := isSome_iff_exists.mp h.candidate
  obtain ⟨found, hfound⟩ := isSome_iff_exists.mp (h.numbered.window h.candidate)
  have hcandidate : next.candidate = replay.candidate := by
    rw [hbase, hcheckpoint, some_or]
  refine ⟨⟨hnumbered, hcandidate ▸ h.candidate, hcontext⟩, ⟨?_, ?_, ?_, ?_, ?_⟩⟩
  · rw [finish_baseCompaction hnumbered.pending, finish_baseCompaction hpending, hcandidate]
  · rw [(hcontext.finish hnumbered.pending).1, (h.context.finish hpending).1, hsettings]
  · rw [(hcontext.finish hnumbered.pending).2, (h.context.finish hpending).2, hreference]
  · rw [finish_window hnumbered.pending, finish_window hpending, hwindow, hfound, some_or]
  · rw [finish_worldStateReplay hnumbered.pending, finish_worldStateReplay hpending, holder,
      foldl_worldStateStep_append (h.numbered.states h.candidate)]

/-- Nor do all older items. -/
theorem IsFound.scan {items suffix : List RolloutItem} (h : replay.IsFound)
    (hmarkers : ∀ item ∈ items, isRollbackMarker item = false)
    (hnumbered : ∀ item ∈ items, isNumberedCompaction item) :
    SameOutcome rules replay.finish (scan rules items suffix replay).finish := by
  induction items generalizing suffix replay with
  | nil => exact .refl rules _
  | cons item items ih =>
    rw [forall_mem_cons] at hmarkers hnumbered
    obtain ⟨hnext, hsame⟩ :=
      h.step rules (scanItem_grows rules suffix replay hmarkers.1 hnumbered.1)
    rw [scan]
    split
    · exact hsame
    · exact hsame.trans (ih hnext hmarkers.2 hnumbered.2)

theorem scan_append (hsettled : replay.isSettled = false) (newer older : List RolloutItem)
    (suffix : List RolloutItem) :
    scan rules (newer ++ older) suffix replay =
      (scan rules newer suffix replay).andThen (scan rules older (newer.reverse ++ suffix)) := by
  induction newer generalizing replay suffix with
  | nil => exact (andThen_of_open hsettled _).symm
  | cons item newer ih =>
    rw [cons_append, scan, scan]
    split
    next hnext => rw [andThen, hnext, if_pos rfl]
    next hnext =>
      rw [ih (eq_false_iff.mpr hnext), reverse_cons, append_assoc]
      rfl

end ReverseReplay

end Rexux.History
