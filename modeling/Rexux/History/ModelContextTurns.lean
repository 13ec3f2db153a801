import Mathlib.Data.List.Nodup
import Rexux.History.ModelContext
import Rexux.History.SettledReplay

/-!
# Resuming from a bounded suffix

Both scans go through the turns of a rollout backwards.  They differ in the turn they take
an item to belong to: a completed item of an older turn may give its name to the segment of
the reader, which then goes on through both turns.
-/

namespace Rexux.History

open Foundation List ModelContextScan ReverseReplay ActiveReplaySegment

/-- The last event of a turn; an interrupted one need not be named. -/
inductive TurnEnding
  | complete
  | aborted (named : Bool)
  | missing
  deriving DecidableEq, Repr

/-- The records that end a turn. -/
def TurnEnding.items (id : Text) : TurnEnding → List RolloutItem
  | .complete => [.eventMsg (.turnComplete id)]
  | .aborted named => [.eventMsg (.turnAborted (if named then some id else none))]
  | .missing => []

/-- An item that may stand inside the turn of an id. -/
def isTurnItem (id : Text) : RolloutItem → Bool
  | .turnContext context => context.turnId = some id
  | .compacted compacted => compacted.replacementHistory.isSome && compacted.windowNumber.isSome
  | .eventMsg (.turnStarted _) => false
  | .eventMsg (.turnComplete _) => false
  | .eventMsg (.turnAborted _) => false
  | .eventMsg (.threadRolledBack _) => false
  | .sessionMeta _ => false
  | _ => true

/-- A turn with its records. -/
structure ModelTurn where
  id : Text
  body : List RolloutItem
  ending : TurnEnding
  body_isTurnItem : ∀ item ∈ body, isTurnItem id item = true
  has_context : ∃ context, .turnContext context ∈ body

namespace ModelTurn

def inner (turn : ModelTurn) : List RolloutItem := turn.body ++ turn.ending.items turn.id

def items (turn : ModelTurn) : List RolloutItem := .eventMsg (.turnStarted turn.id) :: turn.inner

/-- The turn has an item that counts as user input. -/
def HasBoundary (rules : HistoryRules) (turn : ModelTurn) : Prop :=
  turn.body.any (countsAsUserItem rules) = true

end ModelTurn

/-- A rollout of such turns. -/
def modelRollout (session : SessionMeta) (turns : List ModelTurn) : List RolloutItem :=
  .sessionMeta session :: turns.flatMap (·.items)

/-- The message of a user that a turn completes is also recorded for the model, in the turn
of the event or in that of the message. -/
def HasMatchedMessages (rules : HistoryRules) (isUserMessageItem : Text → Bool)
    (turns : List ModelTurn) : Prop :=
  ∀ turn ∈ turns, ∀ turnId content, .eventMsg (.itemCompleted turnId content) ∈ turn.body →
    isUserMessageItem content = true →
      turn.HasBoundary rules ∨ ∃ owner ∈ turns, owner.id = turnId ∧ owner.HasBoundary rules

def isInnerItem (id : Text) : RolloutItem → Bool
  | .eventMsg (.turnComplete turnId) => turnId = id
  | .eventMsg (.turnAborted turnId) => turnId.all (· = id)
  | item => isTurnItem id item

variable {item : RolloutItem} {id : Text}

theorem isInnerItem_of_isTurnItem (h : isTurnItem id item) : isInnerItem id item := by
  cases item with
  | eventMsg event =>
    cases event with
    | turnComplete | turnAborted => cases h
    | _ => exact h
  | _ => exact h

theorem ModelTurn.isInnerItem_of_mem (turn : ModelTurn) :
    ∀ item ∈ turn.inner.reverse, isInnerItem turn.id item := by
  intro item hitem
  rw [mem_reverse, inner, mem_append] at hitem
  rcases hitem with hbody | hend
  · exact isInnerItem_of_isTurnItem (turn.body_isTurnItem item hbody)
  · cases hending : turn.ending with
    | complete =>
      rw [hending] at hend
      rw [mem_singleton.mp hend]
      exact decide_eq_true rfl
    | aborted named =>
      rw [hending] at hend
      rw [mem_singleton.mp hend]
      cases named with
      | false => rfl
      | true => simp [isInnerItem]
    | missing =>
      rw [hending] at hend
      cases hend

/-- A full snapshot behind the last compaction; the newest item comes first. -/
def hasNewState : List RolloutItem → Bool
  | [] => false
  | .worldState state :: older => state.full || hasNewState older
  | .compacted _ :: _ => false
  | _ :: older => hasNewState older

/-! ## The reader in a turn -/

variable {rules : HistoryRules} {items : List RolloutItem} {scan : ModelContextScan}
  {isUserTurn : Bool} {isUserMessageItem : Text → Bool}

section Reader

theorem countsAsUserItem_of_responseItemCounts {envelope : ResponseItemEnvelope}
    (h : responseItemCountsAsUserTurn rules envelope.item) :
    countsAsUserItem rules (.responseItem envelope) := by
  change rules.isUserTurnBoundary envelope.item
  cases hitem : envelope.item with
  | agentMessage => rfl
  | message id role content phase passthrough =>
    rw [hitem] at h
    change (_ || _)
    rw [Bool.or_eq_true]
    exact .inr h
  | _ =>
    rw [hitem] at h
    cases h

def CompletesUserMessage (isUserMessageItem : Text → Bool) (turnId : Option Text)
    (item : RolloutItem) : Prop :=
  ∃ id content, item = .eventMsg (.itemCompleted id content) ∧
    isUserMessageItem content = true ∧ turnId = some id

/-- What one item may add to the segment of the reader. -/
structure ReaderStep (rules : HistoryRules) (isUserMessageItem : Text → Bool)
    (item : RolloutItem) (segment next : ActiveTurnSegment) : Prop where
  turnId : ∀ id, segment.turnId = some id → next.turnId = some id
  user : next.hasUserTurn = true → segment.hasUserTurn = true ∨
    countsAsUserItem rules item = true ∨ CompletesUserMessage isUserMessageItem next.turnId item
  state : next.hasFullWorldState = true → segment.hasFullWorldState = true ∨
    segment.sawCompaction = false ∧ ∃ state, item = .worldState state ∧ state.full = true
  compaction : segment.sawCompaction = true ∨ isCompacted item = true → next.sawCompaction = true

theorem ReaderStep.of_same {segment next : ActiveTurnSegment}
    (hturnId : ∀ id, segment.turnId = some id → next.turnId = some id)
    (huser : next.hasUserTurn = segment.hasUserTurn)
    (hstate : next.hasFullWorldState = segment.hasFullWorldState)
    (hcompaction : next.sawCompaction = segment.sawCompaction) (hitem : isCompacted item = false) :
    ReaderStep rules isUserMessageItem item segment next where
  turnId := hturnId
  user h := .inl (huser ▸ h)
  state h := .inl (hstate ▸ h)
  compaction := by
    rintro (h | h)
    · rw [hcompaction, h]
    · rw [hitem] at h
      cases h

theorem ReaderStep.of_user {segment : ActiveTurnSegment}
    (huser : isUserTurn → countsAsUserItem rules item) (hitem : isCompacted item = false) :
    ReaderStep rules isUserMessageItem item segment (segment.markUserTurn isUserTurn) where
  turnId _ h := h
  user h := by
    rcases Bool.or_eq_true_iff.mp h with h | h
    · exact .inl h
    · exact .inr (.inl (huser h))
  state h := .inl h
  compaction := by
    rintro (h | h)
    · exact h
    · rw [hitem] at h
      cases h

theorem or_eq_some {turnId : Option Text} (other : Option Text) (id : Text)
    (h : turnId = some id) : turnId.or other = some id := by
  rw [h, Option.some_or]

section

variable (segment : ActiveTurnSegment)
include segment

theorem ReaderStep.addItemCompleted (turnId content : Text) :
    ReaderStep rules isUserMessageItem (.eventMsg (.itemCompleted turnId content)) segment
      (segment.addItemCompleted turnId (isUserMessageItem content)) := by
  unfold ActiveTurnSegment.addItemCompleted
  dsimp only
  split
  next hcompatible =>
    refine ⟨or_eq_some _, ?_, .inl, fun h => h.elim id (fun h => nomatch h)⟩
    intro huser
    rcases Bool.or_eq_true_iff.mp huser with huser | huser
    · exact .inl huser
    · refine .inr (.inr ⟨turnId, content, rfl, huser, ?_⟩)
      change segment.turnId.or (some turnId) = some turnId
      change turnIdsAreCompatible (segment.turnId.or (some turnId)) (some turnId) at hcompatible
      cases hid : segment.turnId with
      | none => rfl
      | some id =>
        rw [hid] at hcompatible
        simp only [turnIdsAreCompatible, Option.some_or, Option.all_some,
          decide_eq_true_eq] at hcompatible
        rw [hcompatible, Option.some_or]
  · exact .of_same (or_eq_some _) rfl rfl rfl rfl

theorem ReaderStep.addTurnContext (context : TurnContextItem) :
    ReaderStep rules isUserMessageItem (.turnContext context) segment
      (segment.addTurnContext context) := by
  unfold ActiveTurnSegment.addTurnContext
  dsimp only
  split
  · exact .of_same (or_eq_some _) rfl rfl rfl rfl
  · exact .of_same (or_eq_some _) rfl rfl rfl rfl

theorem ReaderStep.addWorldState (state : WorldStateItem) :
    ReaderStep rules isUserMessageItem (.worldState state) segment
      (segment.addWorldState state) where
  turnId _ h := h
  user h := .inl h
  state h := by
    rcases Bool.or_eq_true_iff.mp h with h | h
    · exact .inl h
    · rw [Bool.and_eq_true, Bool.not_eq_true'] at h
      exact .inr ⟨h.2, state, rfl, h.1⟩
  compaction h := h.elim id (fun h => nomatch h)

end

/-- An item of a turn only changes the open segment. -/
theorem push_inner (rules : HistoryRules) (isUserMessageItem : Text → Bool)
    (hmust : scan.mustScanToStart = false) (hitem : isInnerItem id item) :
    (scan.push rules isUserMessageItem item).mustScanToStart = false ∧
      (scan.push rules isUserMessageItem item).sawCompletedTurnContext =
        scan.sawCompletedTurnContext ∧
      ReaderStep rules isUserMessageItem item scan.activeSegment
        (scan.push rules isUserMessageItem item).activeSegment := by
  unfold push observe
  rw [hmust, if_neg Bool.false_ne_true]
  cases item with
  | compacted compacted =>
    have hopen : ¬ (compacted.replacementHistory.isNone || compacted.windowNumber.isNone) := by
      change (_ && _) = true at hitem
      rw [Bool.and_eq_true] at hitem
      simp [Option.isSome_iff_ne_none.mp hitem.1, Option.isSome_iff_ne_none.mp hitem.2]
    simp only [observeItem, if_neg hopen]
    exact ⟨hmust, trivial, fun _ h => h, .inl, .inl, fun _ => rfl⟩
  | turnContext context => exact ⟨hmust, rfl, .addTurnContext _ context⟩
  | worldState state => exact ⟨hmust, rfl, .addWorldState _ state⟩
  | responseItem envelope => exact ⟨hmust, rfl, .of_user countsAsUserItem_of_responseItemCounts rfl⟩
  | interAgentCommunication => exact ⟨hmust, rfl, .of_user (fun _ => rfl) rfl⟩
  | eventMsg event =>
    cases event with
    | turnStarted | threadRolledBack => cases hitem
    | turnComplete | turnAborted => exact ⟨hmust, rfl, .of_same (or_eq_some _) rfl rfl rfl rfl⟩
    | userMessage => exact ⟨hmust, rfl, .of_user (fun _ => rfl) rfl⟩
    | itemCompleted turnId content => exact ⟨hmust, rfl, .addItemCompleted _ turnId content⟩
    | other => exact ⟨hmust, rfl, .of_same (fun _ h => h) rfl rfl rfl rfl⟩
  | _ => exact ⟨hmust, rfl, .of_same (fun _ h => h) rfl rfl rfl rfl⟩

/-- What a run of items may add to the segment of the reader. -/
structure ReaderRun (rules : HistoryRules) (isUserMessageItem : Text → Bool)
    (items : List RolloutItem) (segment next : ActiveTurnSegment) : Prop where
  turnId : ∀ id, segment.turnId = some id → next.turnId = some id
  user : next.hasUserTurn = true → segment.hasUserTurn = true ∨
    items.any (countsAsUserItem rules) = true ∨
      ∃ item ∈ items, CompletesUserMessage isUserMessageItem next.turnId item
  state : next.hasFullWorldState = true → segment.hasFullWorldState = true ∨
    segment.sawCompaction = false ∧ hasNewState items = true

theorem hasNewState_cons_of_not_compacted (hitem : isCompacted item = false)
    {older : List RolloutItem} (h : hasNewState older) : hasNewState (item :: older) := by
  cases item with
  | compacted => cases hitem
  | worldState state => simp [hasNewState, h]
  | _ => exact h

theorem ReaderRun.cons {segment middle next : ActiveTurnSegment}
    (hstep : ReaderStep rules isUserMessageItem item segment middle)
    (hrun : ReaderRun rules isUserMessageItem items middle next) :
    ReaderRun rules isUserMessageItem (item :: items) segment next where
  turnId id h := hrun.turnId id (hstep.turnId id h)
  user h := by
    rcases hrun.user h with h | h | ⟨other, hother, h⟩
    · rcases hstep.user h with h | h | ⟨id, content, hitem, huser, hid⟩
      · exact .inl h
      · exact .inr (.inl (by rw [any_cons, h, Bool.true_or]))
      · exact .inr (.inr ⟨item, mem_cons_self, id, content, hitem, huser, hrun.turnId id hid⟩)
    · exact .inr (.inl (by rw [any_cons, h, Bool.or_true]))
    · exact .inr (.inr ⟨other, mem_cons_of_mem _ hother, h⟩)
  state h := by
    rcases hrun.state h with h | ⟨hcompaction, h⟩
    · rcases hstep.state h with h | ⟨hcompaction, state, rfl, hfull⟩
      · exact .inl h
      · exact .inr ⟨hcompaction, by rw [hasNewState, hfull, Bool.true_or]⟩
    · have hboth : ¬ (segment.sawCompaction ∨ isCompacted item) := by
        intro hboth
        rw [hstep.compaction hboth] at hcompaction
        cases hcompaction
      rw [not_or, Bool.not_eq_true, Bool.not_eq_true] at hboth
      exact .inr ⟨hboth.1, hasNewState_cons_of_not_compacted hboth.2 h⟩

/-- So do all items of a turn, by induction. -/
theorem pushAll_inner (rules : HistoryRules) (isUserMessageItem : Text → Bool)
    (hmust : scan.mustScanToStart = false) (hitems : ∀ item ∈ items, isInnerItem id item) :
    (scan.pushAll rules isUserMessageItem items).mustScanToStart = false ∧
      (scan.pushAll rules isUserMessageItem items).sawCompletedTurnContext =
        scan.sawCompletedTurnContext ∧
      ReaderRun rules isUserMessageItem items scan.activeSegment
        (scan.pushAll rules isUserMessageItem items).activeSegment := by
  induction items generalizing scan with
  | nil => exact ⟨hmust, rfl, fun _ h => h, .inl, .inl⟩
  | cons item items ih =>
    rw [forall_mem_cons] at hitems
    obtain ⟨hnext, hsaw, hstep⟩ := push_inner rules isUserMessageItem hmust hitems.1
    obtain ⟨hlast, hsawLast, hrun⟩ := ih hnext hitems.2
    exact ⟨hlast, hsawLast.trans hsaw, hrun.cons hstep⟩

end Reader

/-! ## The reconstruction in a turn -/

variable {suffix : List RolloutItem} {replay : ReverseReplay}

section Replay

variable {next : ReverseReplay}

/-- What an item says about the state of the world. -/
def stateRecord : RolloutItem → Option WorldStateRecord
  | .compacted _ => some .compacted
  | .worldState state => some (.worldState state)
  | _ => none

def hasTurnContext (segment : ActiveReplaySegment) : Bool :=
  segment.previousTurnSettings.isSome && !ReverseReplay.isNeverSet segment.referenceContextItem

def isTurnContext : RolloutItem → Bool
  | .turnContext _ => true
  | _ => false

def ReverseReplay.openSegment (replay : ReverseReplay) : ActiveReplaySegment :=
  replay.activeSegment.getD .default

/-- The replay is in the turn of an id, or between turns. -/
def ReverseReplay.IsIn (id : Text) (replay : ReverseReplay) : Prop :=
  replay.openSegment.turnId.all (· = id) = true

theorem isIn_of_activeSegment (hactive : replay.activeSegment = none) (id : Text) :
    replay.IsIn id := by
  unfold ReverseReplay.IsIn ReverseReplay.openSegment
  rw [hactive]
  rfl

/-- What an item of a turn does to the replay. -/
structure ReplayStep (rules : HistoryRules) (id : Text) (item : RolloutItem)
    (replay next : ReverseReplay) : Prop where
  same : next = { replay with activeSegment := next.activeSegment }
  isIn : next.IsIn id
  counts : next.openSegment.countsAsUserTurn =
    (replay.openSegment.countsAsUserTurn || countsAsUserItem rules item)
  states : next.openSegment.worldStateReplay =
    replay.openSegment.worldStateReplay ++ (stateRecord item).toList
  context : hasTurnContext replay.openSegment = true ∨ isTurnContext item = true →
    hasTurnContext next.openSegment = true

variable {turnId : Option Text}

theorem ReplayStep.of_turnId (hsame : next = { replay with activeSegment := next.activeSegment })
    (hsegment : next.openSegment = { replay.openSegment with turnId := turnId })
    (hturnId : turnId.all (· = id)) (hcounts : countsAsUserItem rules item = false)
    (hstates : stateRecord item = none) (hcontext : isTurnContext item = false) :
    ReplayStep rules id item replay next where
  same := hsame
  isIn := by
    unfold ReverseReplay.IsIn
    rw [hsegment]
    exact hturnId
  counts := by
    rw [hsegment, hcounts, Bool.or_false]
  states := by
    rw [hsegment, hstates, Option.toList_none, append_nil]
  context := by
    rintro (h | h)
    · rw [hsegment]
      exact h
    · rw [hcontext] at h
      cases h

theorem ReplayStep.of_markUserTurn (hin : replay.IsIn id)
    (hcounts : countsAsUserItem rules item = isUserTurn) (hstates : stateRecord item = none)
    (hcontext : isTurnContext item = false) :
    ReplayStep rules id item replay (replay.inSegment (·.markUserTurn isUserTurn)) where
  same := rfl
  isIn := hin
  counts := by
    rw [hcounts]
    rfl
  states := by
    rw [hstates, Option.toList_none, append_nil]
    rfl
  context := by
    rintro (h | h)
    · exact h
    · rw [hcontext] at h
      cases h

theorem isNeverSet_clearReference (reference : TurnReferenceContextItem) :
    isNeverSet (clearReference reference) = false := by
  cases reference with
  | neverSet | _ => rfl

theorem isNeverSet_setReference (context : TurnContextItem) (reference : TurnReferenceContextItem) :
    isNeverSet (setReference context reference) = false := by
  cases reference with
  | neverSet | _ => rfl

theorem ReplayStep.compacted (hin : replay.IsIn id) (compacted : CompactedItem)
    (suffix : List RolloutItem) :
    ReplayStep rules id (.compacted compacted) replay
      (replay.inSegment (·.addCompacted rules compacted suffix)) where
  same := rfl
  isIn := hin
  counts := (Bool.or_false _).symm
  states := rfl
  context := by
    rintro (h | h)
    · rw [hasTurnContext, Bool.and_eq_true] at h
      change (replay.openSegment.previousTurnSettings.isSome &&
        !isNeverSet (clearReference _))
      rw [h.1, isNeverSet_clearReference]
      rfl
    · cases h

theorem or_some_eq (h : turnId.all (· = id)) : turnId.or (some id) = some id := by
  cases turnId with
  | none => rfl
  | some other =>
    rw [Option.all_some, decide_eq_true_eq] at h
    rw [h, Option.some_or]

variable {segment : ActiveReplaySegment} {context : TurnContextItem}

theorem addTurnContext_of_isIn (hsegment : segment.turnId.all (· = id))
    (hcontext : context.turnId = some id) :
    segment.addTurnContext context =
      { segment with
        turnId := some id
        previousTurnSettings := some ⟨context.model, context.compHash, context.realtimeActive⟩
        referenceContextItem := setReference context segment.referenceContextItem } := by
  unfold ActiveReplaySegment.addTurnContext orTurnId
  simp only [hcontext, or_some_eq hsegment]
  rw [if_pos (by simp [turnIdsAreCompatible])]

theorem ReplayStep.turnContext (hin : replay.IsIn id)
    (hcontext : context.turnId = some id) :
    ReplayStep rules id (.turnContext context) replay
      (replay.inSegment (·.addTurnContext context)) := by
  have hsegment : (replay.inSegment (·.addTurnContext context)).openSegment = _ :=
    addTurnContext_of_isIn hin hcontext
  refine ⟨rfl, ?_, ?_, ?_, fun _ => ?_⟩
  · unfold ReverseReplay.IsIn
    rw [hsegment]
    exact decide_eq_true rfl
  · rw [hsegment]
    exact (Bool.or_false _).symm
  · rw [hsegment]
    exact (append_nil _).symm
  · rw [hsegment, hasTurnContext]
    rw [isNeverSet_setReference]
    rfl

theorem openSegment_takeAborted (replay : ReverseReplay) (turnId : Option Text) :
    (replay.takeAborted turnId).openSegment = replay.openSegment.orTurnId turnId := by
  unfold takeAborted ReverseReplay.openSegment
  cases replay.activeSegment with
  | some segment => rfl
  | none =>
    cases turnId with
    | none | some => rfl

theorem takeAborted_same (replay : ReverseReplay) (turnId : Option Text) :
    replay.takeAborted turnId =
      { replay with activeSegment := (replay.takeAborted turnId).activeSegment } := by
  unfold takeAborted
  cases replay.activeSegment with
  | some | none => rfl

theorem all_or {other : Option Text} (h : turnId.all (· = id))
    (hother : other.all (· = id)) : (turnId.or other).all (· = id) := by
  cases turnId with
  | none => exact hother
  | some found => exact h

variable (rules suffix) in
theorem scanItem_inner (hin : replay.IsIn id) (hitem : isInnerItem id item) :
    ReplayStep rules id item replay (scanItem rules suffix replay item) := by
  cases item with
  | compacted compacted => exact .compacted hin compacted suffix
  | turnContext context => exact .turnContext hin (of_decide_eq_true hitem)
  | worldState state =>
    exact ⟨rfl, hin, (Bool.or_false _).symm, rfl, fun h => h.elim (fun h => h) (nomatch ·)⟩
  | responseItem | interAgentCommunication => exact .of_markUserTurn hin rfl rfl rfl
  | eventMsg event =>
    cases event with
    | turnStarted | threadRolledBack => cases hitem
    | turnComplete turnId =>
      refine .of_turnId rfl rfl (all_or hin ?_) rfl rfl rfl
      exact hitem
    | turnAborted turnId =>
      exact .of_turnId (takeAborted_same replay turnId)
        (openSegment_takeAborted replay turnId) (all_or hin hitem) rfl rfl rfl
    | userMessage => exact .of_markUserTurn hin rfl rfl rfl
    | itemCompleted | other => exact .of_turnId rfl rfl hin rfl rfl rfl
  | _ => exact .of_turnId rfl rfl hin rfl rfl rfl

/-- What some items of a turn do to the replay. -/
structure ReplayRun (rules : HistoryRules) (id : Text) (items : List RolloutItem)
    (replay next : ReverseReplay) : Prop where
  same : next = { replay with activeSegment := next.activeSegment }
  isIn : next.IsIn id
  counts : next.openSegment.countsAsUserTurn =
    (replay.openSegment.countsAsUserTurn || items.any (countsAsUserItem rules))
  states : next.openSegment.worldStateReplay =
    replay.openSegment.worldStateReplay ++ items.filterMap stateRecord
  context : hasTurnContext replay.openSegment = true ∨ items.any isTurnContext = true →
    hasTurnContext next.openSegment = true

theorem ReplayRun.cons {last : ReverseReplay}
    (hstep : ReplayStep rules id item replay next) (hrun : ReplayRun rules id items next last) :
    ReplayRun rules id (item :: items) replay last where
  same := by
    rw [hrun.same, hstep.same]
  isIn := hrun.isIn
  counts := by
    rw [hrun.counts, hstep.counts, any_cons, Bool.or_assoc]
  states := by
    rw [hrun.states, hstep.states, append_assoc]
    cases hrecord : stateRecord item with
    | none => rw [filterMap_cons_none hrecord]; rfl
    | some record => rw [filterMap_cons_some hrecord]; rfl
  context := by
    intro h
    apply hrun.context
    rw [any_cons, Bool.or_eq_true] at h
    rcases h with h | h | h
    · exact .inl (hstep.context (.inl h))
    · exact .inl (hstep.context (.inr h))
    · exact .inr h

theorem isSettled_of_same (h : next = { replay with activeSegment := next.activeSegment }) :
    next.isSettled = replay.isSettled := by
  rw [h]
  rfl

/-- The replay takes in the items of a turn. -/
theorem scan_inner (hsettled : replay.isSettled = false)
    (hin : replay.IsIn id) (hitems : ∀ item ∈ items, isInnerItem id item) :
    ReplayRun rules id items replay (ReverseReplay.scan rules items suffix replay) := by
  induction items generalizing suffix replay with
  | nil => exact ⟨rfl, hin, (Bool.or_false _).symm, (append_nil _).symm,
      fun h => h.elim (fun h => h) (nomatch ·)⟩
  | cons item items ih =>
    rw [forall_mem_cons] at hitems
    have hstep := scanItem_inner rules suffix hin hitems.1
    have hopen := (isSettled_of_same hstep.same).trans hsettled
    rw [ReverseReplay.scan, hopen]
    exact .cons hstep (ih hopen hstep.isIn hitems.2)

theorem any_takeWhile_stateRecord (items : List RolloutItem) :
    ((items.filterMap stateRecord).takeWhile isStateRecord).any
        isFullState = hasNewState items := by
  induction items with
  | nil => rfl
  | cons item items ih =>
    cases item with
    | compacted compacted => rfl
    | worldState state =>
      rw [hasNewState, ← ih]
      rfl
    | _ => exact ih

/-- The turn has a user item or sets a new state, so the scan finds its baseline there. -/
def ModelTurn.HasBaseline (rules : HistoryRules) (turn : ModelTurn) : Prop :=
  turn.inner.any (countsAsUserItem rules) = true ∨ hasNewState turn.inner.reverse = true

theorem ModelTurn.any_isTurnContext (turn : ModelTurn) : turn.inner.reverse.any isTurnContext := by
  obtain ⟨context, hcontext⟩ := turn.has_context
  rw [any_reverse, any_eq_true]
  exact ⟨_, mem_append_left _ hcontext, rfl⟩

theorem hasContext_surviveSegment
    (hsegment : hasTurnContext segment) (hbaseline : segment.hasContextBaseline) :
    (surviveSegment segment replay).HasContext := by
  rw [hasTurnContext, Bool.and_eq_true, Bool.not_eq_true'] at hsegment
  constructor
  · change (if segment.hasContextBaseline then
      replay.previousTurnSettings.or segment.previousTurnSettings
        else replay.previousTurnSettings).isSome
    rw [if_pos hbaseline, Option.isSome_or, hsegment.1, Bool.or_true]
  · change isNeverSet (if isNeverSet replay.referenceContextItem &&
      (segment.hasContextBaseline || _) then _ else _) = false
    rw [hbaseline, Bool.true_or, Bool.and_true]
    split
    · exact hsegment.2
    next hset => exact Bool.eq_false_iff.mpr hset

variable (suffix replay) in
theorem scan_singleton (item : RolloutItem) :
    ReverseReplay.scan rules [item] suffix replay = scanItem rules suffix replay item := by
  rw [ReverseReplay.scan]
  split
  · rfl
  · rfl

theorem scanItem_turnStarted (suffix : List RolloutItem)
    (hactive : replay.activeSegment = some segment) (hin : replay.IsIn id) :
    scanItem rules suffix replay (.eventMsg (.turnStarted id)) = replay.finish := by
  have hcompatible : turnIdsAreCompatible segment.turnId (some id) := by
    unfold ReverseReplay.IsIn ReverseReplay.openSegment at hin
    rw [hactive, Option.getD_some] at hin
    cases hturnId : segment.turnId with
    | none => rfl
    | some other =>
      rw [hturnId, Option.all_some, decide_eq_true_eq] at hin
      simp [turnIdsAreCompatible, hin]
  rw [scanItem, takeStarted, ReverseReplay.finish, hactive]
  exact if_pos hcompatible

variable (rules suffix) in
/-- The replay over a whole turn is between turns again, and has a context if the turn sets one. -/
theorem scan_turn (turn : ModelTurn)
    (hsettled : replay.isSettled = false) (hpending : replay.pendingRollbackTurns = 0)
    (hactive : replay.activeSegment = none) :
    (ReverseReplay.scan rules turn.items.reverse suffix replay).activeSegment = none ∧
      (ReverseReplay.scan rules turn.items.reverse suffix replay).pendingRollbackTurns = 0 ∧
      (replay.HasContext ∨ turn.HasBaseline rules →
        (ReverseReplay.scan rules turn.items.reverse suffix replay).HasContext) := by
  have hin := isIn_of_activeSegment hactive turn.id
  have hrun : ReplayRun rules turn.id turn.inner.reverse replay
      (ReverseReplay.scan rules turn.inner.reverse suffix replay) :=
    scan_inner hsettled hin turn.isInnerItem_of_mem
  have hopen := (isSettled_of_same hrun.same).trans hsettled
  have hcontext := hrun.context (.inr turn.any_isTurnContext)
  rw [ModelTurn.items, reverse_cons, scan_append hsettled, andThen_of_open hopen, scan_singleton]
  generalize ReverseReplay.scan rules turn.inner.reverse suffix replay = next at hrun hcontext ⊢
  have hnext : next.pendingRollbackTurns = 0 := by
    rw [hrun.same]
    exact hpending
  cases hsegment : next.activeSegment with
  | none =>
    rw [ReverseReplay.openSegment, hsegment] at hcontext
    cases hcontext
  | some segment =>
    rw [scanItem_turnStarted _ hsegment hrun.isIn]
    refine ⟨finish_activeSegment hnext, finish_pending hnext, ?_⟩
    have hcounts := hrun.counts
    have hstates := hrun.states
    unfold ReverseReplay.openSegment at hcontext hcounts hstates
    rw [hsegment] at hcontext hcounts hstates
    rw [hactive] at hcounts hstates
    rintro (hold | hbaseline)
    · have hkept : next.HasContext := by
        rw [hrun.same]
        exact hold
      unfold ReverseReplay.HasContext
      rw [(hkept.finish hnext).1, (hkept.finish hnext).2]
      exact hkept
    · rw [finish_of_some hnext hsegment]
      apply hasContext_surviveSegment hcontext
      rw [hasContextBaseline, hcounts, hstates]
      rw [any_reverse, Bool.or_eq_true]
      exact hbaseline.imp_right fun h => (any_takeWhile_stateRecord _).trans h

end Replay

section Turns

variable {older : List ModelTurn}

/-- Between two turns: what the reader counts on, the reconstruction has found, or will find
in the older turn that gave its name to the segment. -/
structure Agrees (rules : HistoryRules) (older : List ModelTurn) (scan : ModelContextScan)
    (replay : ReverseReplay) : Prop where
  must : scan.mustScanToStart = false
  active : replay.activeSegment = none
  pending : replay.pendingRollbackTurns = 0
  found : scan.sawCompletedTurnContext = true → replay.HasContext
  user : scan.activeSegment.hasUserTurn = true → replay.HasContext ∨
    ∃ turnId, scan.activeSegment.turnId = some turnId ∧
      ∀ turn ∈ older, turn.id = turnId → turn.HasBoundary rules
  state : scan.activeSegment.hasFullWorldState = true → replay.HasContext

theorem agrees_initial (rules : HistoryRules) (older : List ModelTurn) :
    Agrees rules older .initial .initial :=
  ⟨rfl, rfl, rfl, (nomatch ·), (nomatch ·), (nomatch ·)⟩

theorem mem_body_of_itemCompleted {turn : ModelTurn} {turnId content : Text}
    (h : .eventMsg (.itemCompleted turnId content) ∈ turn.inner.reverse) :
    .eventMsg (.itemCompleted turnId content) ∈ turn.body := by
  rw [mem_reverse, ModelTurn.inner, mem_append] at h
  rcases h with hbody | hend
  · exact hbody
  · cases hending : turn.ending with
    | complete | aborted named =>
      rw [hending] at hend
      cases mem_singleton.mp hend
    | missing =>
      rw [hending] at hend
      cases hend

theorem ModelTurn.HasBoundary.hasBaseline {turn : ModelTurn} (h : turn.HasBoundary rules) :
    turn.HasBaseline rules := by
  left
  rw [inner, any_append, Bool.or_eq_true]
  exact .inl h

theorem push_turnStarted (hmust : scan.mustScanToStart = false) :
    scan.push rules isUserMessageItem (.eventMsg (.turnStarted id)) =
      { (if turnIdsAreCompatible scan.activeSegment.turnId (some id) then
          scan.finalizeActiveSegment else scan) with
        itemsNewestFirst := scan.itemsNewestFirst ++ [.eventMsg (.turnStarted id)] } := by
  unfold push observe
  rw [hmust]
  rfl

/-- Both scans agree after one turn more. -/
theorem Agrees.turn {turn : ModelTurn}
    (h : Agrees rules (turn :: older) scan replay) (hsettled : replay.isSettled = false)
    (hmatched : ∀ turnId content, .eventMsg (.itemCompleted turnId content) ∈ turn.body →
      isUserMessageItem content → turn.HasBoundary rules ∨
        ∀ owner ∈ turn :: older, owner.id = turnId → owner.HasBoundary rules) :
    Agrees rules older (scan.pushAll rules isUserMessageItem turn.items.reverse)
      (ReverseReplay.scan rules turn.items.reverse suffix replay) := by
  obtain ⟨hactive, hpending, hcontext⟩ := scan_turn rules suffix turn hsettled h.pending h.active
  obtain ⟨hmust, hsaw, hrun⟩ := pushAll_inner rules isUserMessageItem h.must turn.isInnerItem_of_mem
  have hpush : scan.pushAll rules isUserMessageItem turn.items.reverse =
      (scan.pushAll rules isUserMessageItem turn.inner.reverse).push rules isUserMessageItem
        (.eventMsg (.turnStarted turn.id)) := by
    rw [ModelTurn.items, reverse_cons]
    exact foldl_append
  rw [hpush, push_turnStarted hmust]
  generalize scan.pushAll rules isUserMessageItem turn.inner.reverse = next at hmust hsaw hrun ⊢
  generalize ReverseReplay.scan rules turn.items.reverse suffix replay = last
    at hactive hpending hcontext ⊢
  have huser : next.activeSegment.hasUserTurn → last.HasContext ∨
      ∃ turnId, next.activeSegment.turnId = some turnId ∧
        ∀ owner ∈ turn :: older, owner.id = turnId → owner.HasBoundary rules := by
    intro huser
    rcases hrun.user huser with huser | hcounts | ⟨item, hitem, id, content, rfl, hmessage, hid⟩
    · rcases h.user huser with hold | ⟨turnId, hturnId, howners⟩
      · exact .inl (hcontext (.inl hold))
      · exact .inr ⟨turnId, hrun.turnId turnId hturnId, howners⟩
    · rw [any_reverse] at hcounts
      exact .inl (hcontext (.inr (.inl hcounts)))
    · rcases hmatched id content (mem_body_of_itemCompleted hitem) hmessage with hown | howners
      · exact .inl (hcontext (.inr hown.hasBaseline))
      · exact .inr ⟨id, hid, howners⟩
  have hstate : next.activeSegment.hasFullWorldState → last.HasContext := by
    intro hfull
    rcases hrun.state hfull with hfull | ⟨-, hnew⟩
    · exact hcontext (.inl (h.state hfull))
    · exact hcontext (.inr (.inr hnew))
  have hfound : next.sawCompletedTurnContext → last.HasContext :=
    fun hold => hcontext (.inl (h.found (hsaw ▸ hold)))
  split
  next hcompatible =>
    refine ⟨hmust, hactive, hpending, ?_, (nomatch ·), (nomatch ·)⟩
    intro hcomplete
    rcases Bool.or_eq_true_iff.mp hcomplete with hold | hclosed
    · exact hfound hold
    · rw [Bool.and_eq_true, Bool.or_eq_true] at hclosed
      rcases hclosed.2 with hmessage | hfull
      · rcases huser hmessage with hleft | ⟨turnId, hturnId, howners⟩
        · exact hleft
        · rw [hturnId] at hcompatible
          simp only [turnIdsAreCompatible, Option.all_some, decide_eq_true_eq] at hcompatible
          exact hcontext (.inr (howners turn mem_cons_self hcompatible).hasBaseline)
      · exact hstate hfull
  · refine ⟨hmust, hactive, hpending, hfound, ?_, hstate⟩
    intro hmessage
    rcases huser hmessage with hleft | ⟨turnId, hturnId, howners⟩
    · exact .inl hleft
    · exact .inr ⟨turnId, hturnId, fun owner howner => howners owner (mem_cons_of_mem _ howner)⟩

variable {taken : List RolloutItem}

theorem Agrees.hasContext_inner {turn : ModelTurn}
    (h : Agrees rules (turn :: older) scan replay) (hsettled : replay.isSettled = false)
    (htaken : taken <+: turn.inner.reverse)
    (hcomplete : (scan.pushAll rules isUserMessageItem taken).sawCompletedTurnContext) :
    (ReverseReplay.scan rules taken suffix replay).HasContext := by
  have hitems : ∀ item ∈ taken, isInnerItem turn.id item :=
    fun item hitem => turn.isInnerItem_of_mem item (htaken.subset hitem)
  obtain ⟨-, hsaw, -⟩ := pushAll_inner rules isUserMessageItem h.must hitems
  have hrun : ReplayRun rules turn.id taken replay (ReverseReplay.scan rules taken suffix replay) :=
    scan_inner hsettled (isIn_of_activeSegment h.active turn.id) hitems
  rw [hrun.same]
  exact h.found (hsaw ▸ hcomplete)

theorem hasContext_of_isSettled (h : replay.isSettled) : replay.HasContext := by
  rw [isSettled, Bool.and_eq_true, Bool.and_eq_true, Bool.not_eq_true'] at h
  exact ⟨h.1.2, h.2⟩

variable {turns : List ModelTurn}

theorem Agrees.hasContext (h : Agrees rules older scan replay) (hsettled : replay.isSettled = false)
    (holder : ∀ turn ∈ older, turn ∈ turns)
    (hmatched : ∀ turn ∈ turns, ∀ turnId content,
      .eventMsg (.itemCompleted turnId content) ∈ turn.body →
        isUserMessageItem content → turn.HasBoundary rules ∨
          ∀ owner ∈ turns, owner.id = turnId → owner.HasBoundary rules)
    (htaken : taken <+: older.flatMap (·.items.reverse))
    (hcomplete : (scan.pushAll rules isUserMessageItem taken).sawCompletedTurnContext) :
    (ReverseReplay.scan rules taken suffix replay).HasContext := by
  induction older generalizing scan replay suffix taken with
  | nil =>
    rw [flatMap_nil, prefix_nil] at htaken
    rw [htaken] at hcomplete ⊢
    exact h.found hcomplete
  | cons turn older ih =>
    have hturn : ∀ suffix, Agrees rules older
        (scan.pushAll rules isUserMessageItem turn.items.reverse)
        (ReverseReplay.scan rules turn.items.reverse suffix replay) := by
      intro suffix
      apply h.turn hsettled
      intro turnId content hitem hmessage
      have hmessages := hmatched turn (holder turn mem_cons_self) turnId content hitem
      apply (hmessages hmessage).imp_right
      exact fun howners owner howner => howners owner (holder owner howner)
    rw [flatMap_cons] at htaken
    rcases prefix_or_prefix_of_prefix htaken (prefix_append _ _) with hinside | ⟨more, rfl⟩
    · rw [ModelTurn.items, reverse_cons, prefix_concat_iff, ← reverse_cons] at hinside
      rcases hinside with rfl | hinner
      · exact (hturn suffix).found hcomplete
      · exact h.hasContext_inner hsettled hinner hcomplete
    · have hmore := (prefix_append_right_inj _).mp htaken
      rw [scan_append hsettled]
      have hpush : scan.pushAll rules isUserMessageItem (turn.items.reverse ++ more) =
          (scan.pushAll rules isUserMessageItem turn.items.reverse).pushAll rules
            isUserMessageItem more := foldl_append
      rw [hpush] at hcomplete
      cases hnext : (ReverseReplay.scan rules turn.items.reverse suffix replay).isSettled with
      | true =>
        rw [andThen, hnext]
        exact hasContext_of_isSettled hnext
      | false =>
        rw [andThen_of_open hnext]
        exact ih (hturn suffix) hnext
          (fun owner howner => holder owner (mem_cons_of_mem _ howner)) hmore hcomplete

/-! ## The two reconstructions -/

theorem isRollbackMarker_of_mem (turns : List ModelTurn) (h : item ∈ turns.flatMap (·.items)) :
    isRollbackMarker item = false ∧ isNumberedCompaction item := by
  obtain ⟨turn, -, hitem⟩ := mem_flatMap.mp h
  rcases mem_cons.mp hitem with rfl | hitem
  · exact ⟨rfl, rfl⟩
  · have hinner := turn.isInnerItem_of_mem item (mem_reverse.mpr hitem)
    cases item with
    | compacted compacted => exact ⟨rfl, hinner⟩
    | eventMsg event =>
      cases event with
      | threadRolledBack => cases hinner
      | _ => exact ⟨rfl, rfl⟩
    | _ => exact ⟨rfl, rfl⟩

theorem sawCompaction_push (h : (scan.push rules isUserMessageItem item).sawCompaction) :
    scan.sawCompaction ∨ isCompacted item := by
  unfold push observe at h
  split at h
  · exact .inl h
  · cases item with
    | compacted => exact .inr rfl
    | eventMsg event =>
      cases event with
      | turnStarted turnId =>
        dsimp only [observeItem] at h
        split at h
        · exact .inl h
        · exact .inl h
      | _ => exact .inl h
    | _ => exact .inl h

theorem sawCompaction_pushAll (h : (scan.pushAll rules isUserMessageItem items).sawCompaction) :
    scan.sawCompaction ∨ items.any isCompacted := by
  induction items generalizing scan with
  | nil => exact .inl h
  | cons item items ih =>
    rw [any_cons, Bool.or_eq_true]
    rcases ih h with hnext | hitems
    · exact (sawCompaction_push hnext).imp_right .inl
    · exact .inr (.inr hitems)

/-- Where the first scan stops, the second has found all that it looks for. -/
theorem isFound_of_hasBoundedCutoff {before newer : List RolloutItem}
    (hnodup : (turns.map (·.id)).Nodup)
    (hmatched : HasMatchedMessages rules isUserMessageItem turns)
    (hitems : turns.flatMap (·.items) = before ++ newer)
    (hcutoff : (initial.pushAll rules isUserMessageItem newer.reverse).hasBoundedCutoff) :
    (ReverseReplay.scan rules newer.reverse [] .initial).IsFound := by
  rw [hasBoundedCutoff, Bool.and_eq_true, Bool.and_eq_true] at hcutoff
  have hnewer : ∀ item ∈ newer.reverse, isRollbackMarker item = false ∧
      isNumberedCompaction item := by
    intro item hitem
    apply isRollbackMarker_of_mem turns
    rw [hitems]
    exact mem_append_right _ (mem_reverse.mp hitem)
  have hnumbered : (ReverseReplay.scan rules newer.reverse [] .initial).IsNumbered :=
    isNumbered_initial.scan (fun item hitem => (hnewer item hitem).1)
      fun item hitem => (hnewer item hitem).2
  refine ⟨hnumbered, ?_, ?_⟩
  · have hcompacted := (sawCompaction_pushAll hcutoff.1.2).resolve_left (nomatch ·)
    rw [any_reverse] at hcompacted
    have hfinish : (ReverseReplay.scan rules newer.reverse [] .initial).finish.baseCompaction = _ :=
      scan_candidate (fun item hitem => (hnewer item hitem).1) rfl
    rw [finish_baseCompaction hnumbered.pending, reverse_reverse] at hfinish
    rw [hfinish]
    change (Option.map _ (lastCheckpoint newer)).isSome
    rw [Option.isSome_map, lastCheckpoint_isSome]
    · exact hcompacted
    · intro item hitem
      have hcompaction := (hnewer item (mem_reverse.mpr hitem)).2
      cases item with
      | compacted compacted => exact (Bool.and_eq_true_iff.mp hcompaction).1
      | _ => rfl
  · apply (agrees_initial rules turns.reverse).hasContext rfl
      (fun turn hturn => mem_reverse.mp hturn) _ _ hcutoff.2
    · intro turn hturn turnId content hitem hmessage
      apply (hmatched turn hturn turnId content hitem hmessage).imp_right
      rintro ⟨owner, howner, hid, hboundary⟩ other hother hother_id
      have hsame := inj_on_of_nodup_map hnodup hother howner (hother_id.trans hid.symm)
      exact hsame ▸ hboundary
    · refine ⟨before.reverse, ?_⟩
      rw [← reverse_append, ← hitems, reverse_flatMap]
      rfl

end Turns

/-- What lies before that place makes no difference to the replay. -/
theorem reverseReplay_sameOutcome {older newer : List RolloutItem}
    (hfound : (ReverseReplay.scan rules newer.reverse [] .initial).IsFound)
    (holder : ∀ item ∈ older, isRollbackMarker item = false ∧ isNumberedCompaction item) :
    ReverseReplay.SameOutcome rules (ReverseReplay.scan rules newer.reverse [] .initial).finish
      (reverseReplay rules (older ++ newer)) := by
  unfold reverseReplay
  rw [reverse_append, scan_append rfl]
  unfold andThen
  split
  · exact .refl rules _
  · apply hfound.scan
    · exact fun item hitem => (holder item (mem_reverse.mp hitem)).1
    · exact fun item hitem => (holder item (mem_reverse.mp hitem)).2

theorem reconstruct_of_sameOutcome {others : List RolloutItem}
    (hitems : ReverseReplay.SameOutcome rules replay (reverseReplay rules items))
    (hothers : ReverseReplay.SameOutcome rules replay (reverseReplay rules others))
    (hbase : replay.baseCompaction.isSome) (hwindow : replay.window.isSome) :
    reconstructHistoryFromRollout rules items = reconstructHistoryFromRollout rules others := by
  obtain ⟨base, hbase⟩ := Option.isSome_iff_exists.mp hbase
  obtain ⟨window, hwindow⟩ := Option.isSome_iff_exists.mp hwindow
  unfold reconstructHistoryFromRollout
  simp only [hitems.baseCompaction, hothers.baseCompaction, hitems.previousTurnSettings,
    hothers.previousTurnSettings, hitems.referenceContextItem, hothers.referenceContextItem,
    hitems.worldState, hothers.worldState, hitems.window, hothers.window, hbase, hwindow]
  rfl

/-- A rollout is resumed from its bounded suffix as from the whole. -/
theorem model_context_resumes_rollout (rules : HistoryRules) {isUserMessageItem : Text → Bool}
    (session : SessionMeta) {turns : List ModelTurn} (hnodup : (turns.map (·.id)).Nodup)
    (hmatched : HasMatchedMessages rules isUserMessageItem turns) :
    reconstructHistoryFromRollout rules
        (modelContext rules isUserMessageItem session (modelRollout session turns)) =
      reconstructHistoryFromRollout rules (modelRollout session turns) := by
  rw [modelRollout]
  rcases modelContext_cases rules isUserMessageItem session
    (turns.flatMap (·.items)) with hall | ⟨older, newer, hsplit, hcontext, hcutoff⟩
  · rw [hall]
  · rw [hcontext]
    have hfound := isFound_of_hasBoundedCutoff hnodup hmatched hsplit hcutoff
    have holder : ∀ item ∈ RolloutItem.sessionMeta session :: older,
        isRollbackMarker item = false ∧ isNumberedCompaction item := by
      refine forall_mem_cons.mpr ⟨⟨rfl, rfl⟩, fun item hitem => ?_⟩
      apply isRollbackMarker_of_mem turns
      rw [hsplit]
      exact mem_append_left _ hitem
    have hwhole := reverseReplay_sameOutcome hfound holder
    have hsuffix := reverseReplay_sameOutcome hfound
      (fun item (hitem : item ∈ [RolloutItem.sessionMeta session]) =>
        holder item (mem_cons.mpr (.inl (mem_singleton.mp hitem))))
    rw [hsplit]
    apply reconstruct_of_sameOutcome hsuffix hwhole
    · rw [finish_baseCompaction hfound.numbered.pending]
      exact hfound.candidate
    · rw [finish_window hfound.numbered.pending]
      exact hfound.numbered.window hfound.candidate

def compactedTurn (id : Text) : ModelTurn where
  id := id
  body :=
    [.turnContext ⟨some id, [], none, none, []⟩, .responseItem (userMessage "question"),
      .compacted ⟨[], some [], none, some 1, none, none, none, []⟩,
      .eventMsg (.itemCompleted "older".toList [])]
  ending := .aborted false
  body_isTurnItem := by simp [isTurnItem]
  has_context := ⟨_, mem_cons_self⟩

/-- A rollout with compacted turns is resumed from a part of it. -/
theorem compacted_turns_resume :
    reconstructHistoryFromRollout literalRules
        (modelContext literalRules (fun _ => true) newSession (modelRollout newSession
            [compactedTurn "first".toList, compactedTurn "second".toList])) =
      reconstructHistoryFromRollout literalRules (modelRollout newSession
          [compactedTurn "first".toList, compactedTurn "second".toList]) := by
  apply model_context_resumes_rollout
  · decide
  · intro turn hturn _ _ _ _
    left
    rcases mem_cons.mp hturn with rfl | hturn
    · rfl
    · rw [mem_singleton.mp hturn]
      rfl

end Rexux.History
