import Rexux.History.TurnBlocks

/-!
# The turns a client is shown

A rollout is also read into the list of turns that clients display.  Of a turn only its
items are modelled, not its status, times and error, and the changes reported to clients
that follow the list are left out.
-/

namespace Rexux.History

open Foundation List UndoLog

/-! ## Items of a turn -/

inductive UserInput
  | text (text : Text)
  | image (url : Text)
  | localImage (path : Text)
  | audio (url : Text)
  | localAudio (path : Text)
  deriving DecidableEq, Repr

/-- The items of a turn as a client shows them. -/
inductive ThreadItem
  | userMessage (id : Text) (content : List UserInput)
  | hookPrompt (id : Text) (fragments : Text)
  | reasoning (id : Text) (summary content : List Text)
  | other (id : Text) (content : Text)
  deriving DecidableEq, Repr

def ThreadItem.id : ThreadItem → Text
  | .userMessage id _ | .hookPrompt id _ | .reasoning id _ _ | .other id _ => id

def ThreadItem.isUserMessage : ThreadItem → Bool
  | .userMessage _ _ => true
  | _ => false

open ThreadItem (isUserMessage)

def numbered (label : String) (index : ℕ) : Text := label.toList ++ (toString index).toList

/-- The first item with the id is replaced.  The positions that the source keeps for a long
turn are those of the first items with an id, so it finds the same one. -/
def upsert (item : ThreadItem) : List ThreadItem → List ThreadItem
  | [] => [item]
  | existing :: items =>
    if existing.id = item.id then item :: items else existing :: upsert item items

/-- A change of the items of a turn, which can take the next number for an id. -/
abbrev ItemEdit := ℕ → List ThreadItem → ℕ × List ThreadItem

def pushNumbered (item : Text → ThreadItem) : ItemEdit := fun index items =>
  (index + 1, items ++ [item (numbered "item-" index)])

/-- What an event shows: a message, more of a reasoning, or a call or a review in the place
of the item with its id.  Reviews need not have an id of their own. -/
inductive ShownItem
  | message (content : Text)
  | reasoning (isRaw : Bool) (text : Text)
  | call (id content : Text)
  | review (id : Option Text) (content : Text)
  deriving DecidableEq, Repr

/-- What an event that is shown does to the items of its turn. -/
def ShownItem.edit : ShownItem → ItemEdit
  | .message content => pushNumbered (.other · content)
  | .reasoning isRaw text => fun index items =>
    match items.getLast? with
    | some (.reasoning id summary content) =>
      (index, items.dropLast ++ [if isRaw then .reasoning id summary (content ++ [text])
        else .reasoning id (summary ++ [text]) content])
    | _ =>
      pushNumbered (fun id => if isRaw then .reasoning id [] [text] else .reasoning id [text] [])
        index items
  | .call id content | .review (some id) content => fun index items =>
    (index, upsert (.other id content) items)
  | .review none content => fun index items =>
    (index + 1, upsert (.other (numbered "item-" index) content) items)

/-- How hook prompts and the events other than those of a turn are shown. -/
structure DisplayRules where
  parseHookPromptMessage : Option Text → List ContentItem → Option (Text × Text)
  shown : Text → Option ShownItem

/-- A turn while it is built. -/
structure PendingTurn where
  id : Text
  items : List ThreadItem
  openedExplicitly : Bool
  sawCompaction : Bool
  rolloutStartIndex : ℕ
  deriving DecidableEq, Repr

structure Turn where
  id : Text
  items : List ThreadItem
  deriving DecidableEq, Repr

def PendingTurn.toTurn (turn : PendingTurn) : Turn := ⟨turn.id, turn.items⟩

def Turn.hasUserMessage (turn : Turn) : Bool := turn.items.any isUserMessage

/-! ## The builder -/

/-- The turns so far, the current one and the counters. -/
structure ThreadHistoryBuilder where
  turns : List PendingTurn
  currentTurn : Option PendingTurn
  nextItemIndex : ℕ
  currentRolloutIndex : ℕ
  nextRolloutIndex : ℕ
  deriving DecidableEq, Repr

/-- The parts of a user message. -/
def buildUserInputs (payload : UserMessageEvent) : List UserInput :=
  (if trim payload.message = [] then [] else [.text payload.message]) ++
    (payload.images.getD []).map .image ++ payload.localImages.map .localImage ++
    (payload.audio.getD []).map .audio ++ payload.localAudio.map .localAudio

namespace ThreadHistoryBuilder

def new : ThreadHistoryBuilder := ⟨[], none, 1, 0, 0⟩

variable (rules : DisplayRules) (builder : ThreadHistoryBuilder)

/-- An empty turn that nothing opened is dropped, unless it holds a compaction. -/
def finishCurrentTurn : ThreadHistoryBuilder :=
  match builder.currentTurn with
  | none => builder
  | some turn =>
    if turn.items.isEmpty && !turn.openedExplicitly && !turn.sawCompaction then
      { builder with currentTurn := none }
    else { builder with turns := builder.turns ++ [turn], currentTurn := none }

/-- A turn without an id is named by its place in the rollout. -/
def newTurn (id : Option Text) : PendingTurn :=
  ⟨id.getD (numbered "rollout-" builder.currentRolloutIndex), [], false, false,
    builder.currentRolloutIndex⟩

def ensureTurn : PendingTurn :=
  builder.currentTurn.getD (builder.newTurn none)

def pushItemInCurrentTurn (item : ThreadItem) : ThreadHistoryBuilder :=
  let turn := builder.ensureTurn
  { builder with currentTurn := some { turn with items := turn.items ++ [item] } }

def editItemsInCurrentTurn (edit : ItemEdit) : ThreadHistoryBuilder :=
  let turn := builder.ensureTurn
  let edited := edit builder.nextItemIndex turn.items
  { builder with
    nextItemIndex := edited.1
    currentTurn := some { turn with items := edited.2 } }

/-- Edit the finished turn of an id. -/
def editTurns (turnId : Text) (edit : ItemEdit) (index : ℕ) :
    List PendingTurn → ℕ × List PendingTurn
  | [] => (index, [])
  | turn :: turns =>
    if turn.id = turnId then
      let edited := edit index turn.items
      (edited.1, { turn with items := edited.2 } :: turns)
    else
      let edited := editTurns turnId edit index turns
      (edited.1, turn :: edited.2)

def isCurrentTurn (turnId : Text) : Bool :=
  builder.currentTurn.any (·.id = turnId)

/-- An item for a turn that is not known is dropped. -/
def editItemsInTurnId (turnId : Text) (edit : ItemEdit) : ThreadHistoryBuilder :=
  if builder.isCurrentTurn turnId then builder.editItemsInCurrentTurn edit
  else
    let edited := editTurns turnId edit builder.nextItemIndex builder.turns
    { builder with nextItemIndex := edited.1, turns := edited.2 }

/-- The items of a review open their turn if it is not known. -/
def ensureReviewTurn (turnId : Text) : ThreadHistoryBuilder :=
  if !builder.isCurrentTurn turnId && !builder.turns.any (·.id = turnId) then
    let builder := builder.finishCurrentTurn
    { builder with currentTurn := some (builder.newTurn (some turnId)) }
  else builder

def handleShown (turnId : Option Text) (content : Text) : ThreadHistoryBuilder :=
  match rules.shown content, turnId with
  | none, _ => builder
  | some (.call id content), some turnId =>
    builder.editItemsInTurnId turnId (ShownItem.call id content).edit
  | some (.review id content), some turnId =>
    (builder.ensureReviewTurn turnId).editItemsInTurnId turnId (ShownItem.review id content).edit
  | some shown, _ => builder.editItemsInCurrentTurn shown.edit

/-- Of the response items only hook prompts are shown. -/
def handleResponseItem : ResponseItem → ThreadHistoryBuilder
  | .message id role content _ _ =>
    if role = "user".toList then
      match rules.parseHookPromptMessage id content with
      | none => builder
      | some (id, fragments) => builder.pushItemInCurrentTurn (.hookPrompt id fragments)
    else builder
  | _ => builder

/-- A message outside an explicit turn starts a turn of its own. -/
def handleUserMessage (payload : UserMessageEvent) : ThreadHistoryBuilder :=
  let builder :=
    match builder.currentTurn with
    | none => builder
    | some turn =>
      if !turn.openedExplicitly && !(turn.sawCompaction && turn.items.isEmpty) then
        builder.finishCurrentTurn
      else builder
  builder.editItemsInCurrentTurn (pushNumbered (.userMessage · (buildUserInputs payload)))

/-- A turn is opened explicitly. -/
def handleTurnStarted (turnId : Text) : ThreadHistoryBuilder :=
  let builder := builder.finishCurrentTurn
  { builder with
    currentTurn := some { builder.newTurn (some turnId) with openedExplicitly := true } }

/-- A completion of a turn that is not known closes the current one. -/
def handleTurnComplete (turnId : Text) : ThreadHistoryBuilder :=
  if builder.isCurrentTurn turnId then builder.finishCurrentTurn
  else if builder.turns.any (·.id = turnId) then builder
  else builder.finishCurrentTurn

/-- A compaction opens a turn if there is none, and is noted there. -/
def handleCompacted : ThreadHistoryBuilder :=
  { builder with currentTurn := some { builder.ensureTurn with sawCompaction := true } }

/-- Any turn counts, with a user message or without. -/
def handleThreadRollback (numTurns : ℕ) : ThreadHistoryBuilder :=
  let builder := builder.finishCurrentTurn
  let turns :=
    if builder.turns.length ≤ numTurns then []
    else builder.turns.take (builder.turns.length - numTurns)
  { builder with
    turns := turns
    nextItemIndex := (turns.flatMap (·.items)).length + 1 }

def handleEvent : EventMsg → ThreadHistoryBuilder
  | .userMessage payload => builder.handleUserMessage payload
  | .threadRolledBack numTurns => builder.handleThreadRollback numTurns
  | .turnAborted _ => builder
  | .turnStarted turnId => builder.handleTurnStarted turnId
  | .turnComplete turnId => builder.handleTurnComplete turnId
  | .itemCompleted turnId content => builder.handleShown rules (some turnId) content
  | .other turnId content => builder.handleShown rules turnId content

def advance : ThreadHistoryBuilder :=
  { builder with
    currentRolloutIndex := builder.nextRolloutIndex
    nextRolloutIndex := builder.nextRolloutIndex + 1 }

def handleRolloutItem : RolloutItem → ThreadHistoryBuilder
  | .eventMsg event => builder.advance.handleEvent rules event
  | .compacted _ => builder.advance.handleCompacted
  | .responseItem envelope => builder.advance.handleResponseItem rules envelope.item
  | _ => builder.advance

def finish : List Turn :=
  builder.finishCurrentTurn.turns.map PendingTurn.toTurn

end ThreadHistoryBuilder

/-- The turns that a client is shown for a rollout. -/
def buildTurnsFromRolloutItems (rules : DisplayRules) (items : List RolloutItem) : List Turn :=
  (items.foldl (ThreadHistoryBuilder.handleRolloutItem rules) .new).finish

/-! ## Ids of items -/

/-- The builder numbers its own items `item-1`, `item-2` and so on. -/
def isOwnId (id : Text) : Bool := !"item-".toList.isPrefixOf id

def ShownItem.isOwn : ShownItem → Bool
  | .call id _ => isOwnId id
  | .review id _ => id.all isOwnId
  | _ => true

/-- User messages are among the items that are numbered. -/
def AreNumbered (next : ℕ) (items : List ThreadItem) : Prop :=
  ∀ item ∈ items, item.isUserMessage → ∃ index < next, item.id = numbered "item-" index

section Edits

variable {next index : ℕ} {items : List ThreadItem}

theorem numbered_ne_of_lt (h : index < next) : numbered "item-" index ≠ numbered "item-" next := by
  intro heq
  have hdigits : Nat.toDigits 10 index = Nat.toDigits 10 next := by simpa [numbered] using heq
  rw [← Nat.ofDigitChars_ten_toDigits (n := index), hdigits, Nat.ofDigitChars_ten_toDigits] at h
  exact lt_irrefl _ h

theorem AreNumbered.of_filter_eq {edited : List ThreadItem} (h : AreNumbered index items)
    (hle : index ≤ next) (hfilter : edited.filter isUserMessage = items.filter isUserMessage) :
    AreNumbered next edited := by
  intro item hitem hmessage
  have hmem : item ∈ items.filter isUserMessage := hfilter ▸ mem_filter.mpr ⟨hitem, hmessage⟩
  obtain ⟨number, hlt, hid⟩ := h item (mem_of_mem_filter hmem) hmessage
  exact ⟨number, hlt.trans_le hle, hid⟩

/-- Replacing an item by its id keeps the user messages, unless the id is that of one. -/
theorem filter_upsert {id : Text} (content : Text)
    (h : ∀ item ∈ items, item.isUserMessage → item.id ≠ id) :
    (upsert (.other id content) items).filter isUserMessage = items.filter isUserMessage := by
  have hnew : (ThreadItem.other id content).isUserMessage = false := rfl
  induction items with
  | nil => rfl
  | cons existing items ih =>
    rw [forall_mem_cons] at h
    rw [upsert]
    split
    next hid =>
      have hother : existing.isUserMessage = false :=
        Bool.eq_false_iff.mpr fun hmessage => h.1 hmessage hid
      rw [filter_cons_of_neg (by simp [hnew]), filter_cons_of_neg (by simp [hother])]
    · rw [filter_cons, filter_cons, ih h.2]

theorem AreNumbered.filter_upsert_own {id : Text} (h : AreNumbered index items)
    (hid : isOwnId id) (content : Text) :
    (upsert (.other id content) items).filter isUserMessage = items.filter isUserMessage := by
  refine filter_upsert content ?_
  rintro item hitem hmessage rfl
  obtain ⟨number, -, hnumber⟩ := h item hitem hmessage
  simp [hnumber, isOwnId, numbered] at hid

/-- What an event shows is no user message and takes the place of none. -/
theorem AreNumbered.filter_edit {shown : ShownItem} (h : AreNumbered index items)
    (hown : shown.isOwn) :
    (shown.edit index items).2.filter isUserMessage = items.filter isUserMessage ∧
      index ≤ (shown.edit index items).1 := by
  cases shown with
  | message content => exact ⟨by simp [ShownItem.edit, pushNumbered, isUserMessage], Nat.le_succ _⟩
  | reasoning isRaw text =>
    unfold ShownItem.edit
    dsimp only
    split
    next id summary content hlast =>
      obtain ⟨front, rfl⟩ := getLast?_eq_some_iff.mp hlast
      cases isRaw <;> exact ⟨by simp [isUserMessage], le_refl _⟩
    · cases isRaw <;> exact ⟨by simp [pushNumbered, isUserMessage], Nat.le_succ _⟩
  | call id content => exact ⟨h.filter_upsert_own hown content, le_refl _⟩
  | review id content =>
    cases id with
    | some id => exact ⟨h.filter_upsert_own hown content, le_refl _⟩
    | none =>
      refine ⟨filter_upsert content fun item hitem hmessage => ?_, Nat.le_succ _⟩
      obtain ⟨number, hlt, hnumber⟩ := h item hitem hmessage
      exact hnumber ▸ numbered_ne_of_lt hlt

end Edits

/-! ## Whole turns -/

def PendingTurn.summary (turn : PendingTurn) : Text × ℕ :=
  (turn.id, turn.items.countP isUserMessage)

def isUserMessageEvent : RolloutItem → Bool
  | .eventMsg (.userMessage _) => true
  | _ => false

/-- Calls and reviews do not have an id that the builder gives, and a review names no other
turn than `id`. -/
def ShownItem.isInTurn (id : Text) (turnId : Option Text) : ShownItem → Bool
  | .call itemId _ => isOwnId itemId
  | .review itemId _ => itemId.all isOwnId && turnId.all (· = id)
  | _ => true

/-- The items of the turn `id`. -/
def isShownInTurn (rules : DisplayRules) (id : Text) : RolloutItem → Bool
  | .eventMsg (.userMessage _) => true
  | .eventMsg (.itemCompleted turnId content) =>
    (rules.shown content).all (·.isInTurn id (some turnId))
  | .eventMsg (.other turnId content) => (rules.shown content).all (·.isInTurn id turnId)
  | .eventMsg _ => false
  | _ => true

variable {rules : DisplayRules}

namespace ThreadHistoryBuilder

variable {builder : ThreadHistoryBuilder}

/-- The turns by id and number of user messages. -/
structure AreSummarized (turns : List PendingTurn) (finished : List (Text × ℕ)) : Prop where
  summaries : turns.map PendingTurn.summary = finished
  numbered : ∀ turn ∈ turns, ∃ next, AreNumbered next turn.items

structure IsClosed (builder : ThreadHistoryBuilder) (finished : List (Text × ℕ)) : Prop where
  current : builder.currentTurn = none
  turns : AreSummarized builder.turns finished

/-- The builder is in the turn. -/
structure IsOpen (builder : ThreadHistoryBuilder) (finished : List (Text × ℕ))
    (turn : Text × ℕ) : Prop where
  current : ∃ pending, builder.currentTurn = some pending ∧ pending.openedExplicitly = true ∧
    pending.summary = turn ∧ AreNumbered builder.nextItemIndex pending.items
  turns : AreSummarized builder.turns finished

variable {finished : List (Text × ℕ)} {turn : Text × ℕ}

theorem IsClosed.advance (h : builder.IsClosed finished) : builder.advance.IsClosed finished :=
  ⟨h.current, h.turns⟩

theorem IsOpen.advance (h : builder.IsOpen finished turn) : builder.advance.IsOpen finished turn :=
  ⟨h.current, h.turns⟩

theorem IsClosed.handleTurnStarted (h : builder.IsClosed finished) (turnId : Text) :
    (builder.handleTurnStarted turnId).IsOpen finished (turnId, 0) := by
  have hfinish : builder.finishCurrentTurn = builder := by
    rw [finishCurrentTurn, h.current]
  rw [ThreadHistoryBuilder.handleTurnStarted, hfinish]
  exact ⟨⟨_, rfl, rfl, rfl, nofun⟩, h.turns⟩

variable {count : ℕ}

theorem IsOpen.handleTurnComplete {turnId : Text} (h : builder.IsOpen finished (turnId, count)) :
    (builder.handleTurnComplete turnId).IsClosed (finished ++ [(turnId, count)]) := by
  obtain ⟨pending, hcurrent, hexplicit, hsummary, hnumbered⟩ := h.current
  have hid : pending.id = turnId := congrArg Prod.fst hsummary
  rw [ThreadHistoryBuilder.handleTurnComplete, isCurrentTurn, hcurrent, Option.any_some,
    decide_eq_true hid, if_pos rfl, finishCurrentTurn, hcurrent]
  dsimp only
  rw [hexplicit, Bool.not_true, Bool.and_false, Bool.false_and, if_neg Bool.false_ne_true]
  refine ⟨rfl, ?_, forall_mem_append.mpr ⟨h.turns.numbered, ?_⟩⟩
  · rw [map_append, h.turns.summaries, map_singleton, hsummary]
  · exact forall_mem_singleton.mpr ⟨_, hnumbered⟩

/-- A rollback drops as many turns as it says. -/
theorem IsClosed.handleThreadRollback (h : builder.IsClosed finished) (numTurns : ℕ) :
    (builder.handleThreadRollback numTurns).IsClosed (finished.rdrop numTurns) := by
  have hfinish : builder.finishCurrentTurn = builder := by
    rw [finishCurrentTurn, h.current]
  rw [ThreadHistoryBuilder.handleThreadRollback, hfinish]
  have hkept : builder.turns.rdrop numTurns = if builder.turns.length ≤ numTurns then []
      else builder.turns.take (builder.turns.length - numTurns) := by
    split
    next hall => rw [rdrop_eq_nil_iff.mpr hall]
    · rfl
  simp only [← hkept]
  refine ⟨h.current, ?_, fun turn hturn => h.turns.numbered turn (mem_of_mem_take hturn)⟩
  rw [← h.turns.summaries, ← map_rdrop]

variable {id : Text}

theorem summary_eq_of_filter_eq (pending : PendingTurn) {edited : List ThreadItem}
    (h : edited.filter isUserMessage = pending.items.filter isUserMessage) :
    { pending with items := edited }.summary = pending.summary := by
  rw [PendingTurn.summary, PendingTurn.summary, countP_eq_length_filter, h, countP_eq_length_filter]

theorem IsOpen.editCurrent (h : builder.IsOpen finished turn) (edit : ItemEdit)
    (hedit : ∀ {items}, AreNumbered builder.nextItemIndex items →
      (edit builder.nextItemIndex items).2.filter isUserMessage = items.filter isUserMessage ∧
        builder.nextItemIndex ≤ (edit builder.nextItemIndex items).1) :
    (builder.editItemsInCurrentTurn edit).IsOpen finished turn := by
  obtain ⟨pending, hcurrent, hexplicit, rfl, hnumbered⟩ := h.current
  obtain ⟨hfilter, hle⟩ := hedit hnumbered
  rw [editItemsInCurrentTurn, ensureTurn, hcurrent]
  exact ⟨⟨_, rfl, hexplicit, summary_eq_of_filter_eq pending hfilter,
    hnumbered.of_filter_eq hle hfilter⟩, h.turns⟩

theorem IsOpen.pushItem (h : builder.IsOpen finished turn) {item : ThreadItem}
    (hitem : item.isUserMessage = false) :
    (builder.pushItemInCurrentTurn item).IsOpen finished turn :=
  h.editCurrent (fun index items => (index, items ++ [item]))
    fun _ => ⟨by simp [hitem], le_refl _⟩

theorem IsOpen.handleUserMessage (h : builder.IsOpen finished (id, count))
    (payload : UserMessageEvent) :
    (builder.handleUserMessage payload).IsOpen finished (id, count + 1) := by
  obtain ⟨pending, hcurrent, hexplicit, hsummary, hnumbered⟩ := h.current
  cases hsummary
  simp only [ThreadHistoryBuilder.handleUserMessage, hcurrent, hexplicit, Bool.not_true,
    Bool.false_and, if_neg Bool.false_ne_true, editItemsInCurrentTurn, ensureTurn]
  refine ⟨⟨_, rfl, hexplicit, ?_, ?_⟩, h.turns⟩
  · simp [PendingTurn.summary, pushNumbered, isUserMessage]
  · refine forall_mem_append.mpr ⟨hnumbered.of_filter_eq (Nat.le_succ _) rfl, ?_⟩
    exact forall_mem_singleton.mpr fun _ => ⟨_, Nat.lt_succ_self _, rfl⟩

theorem AreSummarized.upsertInTurns {turns : List PendingTurn} (h : AreSummarized turns finished)
    {itemId : Text} (hown : isOwnId itemId) (content turnId : Text) (index : ℕ) :
    ∃ edited, editTurns turnId (ShownItem.call itemId content).edit index turns = (index, edited) ∧
      AreSummarized edited finished := by
  obtain ⟨rfl, hnumbered⟩ := h
  induction turns with
  | nil => exact ⟨[], rfl, rfl, nofun⟩
  | cons first turns ih =>
    rw [forall_mem_cons] at hnumbered
    obtain ⟨⟨next, hfirst⟩, hrest⟩ := hnumbered
    rw [editTurns]
    split
    · have hfilter := hfirst.filter_upsert_own hown content
      have hedited := hfirst.of_filter_eq (le_refl _) hfilter
      refine ⟨_, rfl, ?_, forall_mem_cons.mpr ⟨⟨next, hedited⟩, hrest⟩⟩
      exact congrArg (· :: _) (summary_eq_of_filter_eq first hfilter)
    · obtain ⟨edited, heq, hsummaries, hturns⟩ := ih hrest
      refine ⟨first :: edited, by rw [heq], ?_, forall_mem_cons.mpr ⟨⟨next, hfirst⟩, hturns⟩⟩
      exact congrArg (first.summary :: ·) hsummaries

theorem IsOpen.upsertInTurnId (h : builder.IsOpen finished turn) {itemId : Text}
    (hown : isOwnId itemId) (content turnId : Text) :
    (builder.editItemsInTurnId turnId (ShownItem.call itemId content).edit).IsOpen
      finished turn := by
  rw [editItemsInTurnId]
  split
  · exact h.editCurrent _ fun hnumbered => hnumbered.filter_edit hown
  · obtain ⟨edited, heq, hturns⟩ :=
      h.turns.upsertInTurns hown content turnId builder.nextItemIndex
    rw [heq]
    exact ⟨h.current, hturns⟩

section

variable {content : Text} (h : builder.IsOpen finished (id, count))
include h

/-- What is shown in a turn keeps its user messages. -/
theorem IsOpen.handleShown {turnId : Option Text}
    (hshown : (rules.shown content).all (·.isInTurn id turnId)) :
    (builder.handleShown rules turnId content).IsOpen finished (id, count) := by
  unfold ThreadHistoryBuilder.handleShown
  split
  · exact h
  next itemId itemContent turnId heq =>
    rw [heq] at hshown
    exact h.upsertInTurnId hshown itemContent turnId
  next itemId itemContent turnId heq =>
    -- The review is in the current turn, so no turn is opened for it.
    rw [heq] at hshown
    obtain ⟨hown, hturn⟩ := Bool.and_eq_true_iff.mp hshown
    obtain rfl : turnId = id := of_decide_eq_true hturn
    have hcurrent : builder.isCurrentTurn turnId := by
      obtain ⟨pending, hpending, -, hsummary, -⟩ := h.current
      rw [isCurrentTurn, hpending]
      exact decide_eq_true (congrArg Prod.fst hsummary)
    have hensure : builder.ensureReviewTurn turnId = builder := by
      rw [ensureReviewTurn, hcurrent]
      rfl
    rw [hensure, editItemsInTurnId, if_pos hcurrent]
    exact h.editCurrent _ fun hnumbered => hnumbered.filter_edit hown
  next shown heq _ _ =>
    refine h.editCurrent _ fun hnumbered => hnumbered.filter_edit ?_
    rw [heq] at hshown
    cases shown with
    | review => exact (Bool.and_eq_true_iff.mp hshown).1
    | _ => exact hshown

omit h in
theorem IsOpen.handleResponseItem (h : builder.IsOpen finished turn) (item : ResponseItem) :
    (builder.handleResponseItem rules item).IsOpen finished turn := by
  unfold ThreadHistoryBuilder.handleResponseItem
  split
  · split
    · split
      · exact h
      · exact h.pushItem rfl
    · exact h
  · exact h

omit h in
theorem IsOpen.handleCompacted (h : builder.IsOpen finished turn) :
    builder.handleCompacted.IsOpen finished turn := by
  obtain ⟨pending, hcurrent, hexplicit, rfl, hnumbered⟩ := h.current
  rw [ThreadHistoryBuilder.handleCompacted, ensureTurn, hcurrent]
  exact ⟨⟨_, rfl, hexplicit, rfl, hnumbered⟩, h.turns⟩

/-- Any item of a turn leaves the builder in that turn. -/
theorem IsOpen.handleRolloutItem {item : RolloutItem} (hitem : isShownInTurn rules id item) :
    (builder.handleRolloutItem rules item).IsOpen finished
      (id, count + if isUserMessageEvent item then 1 else 0) := by
  cases item with
  | eventMsg event =>
    cases event with
    | userMessage payload => exact h.advance.handleUserMessage payload
    | itemCompleted turnId content | other turnId content => exact h.advance.handleShown hitem
    | _ => cases hitem
  | responseItem envelope => exact h.advance.handleResponseItem envelope.item
  | compacted compacted => exact h.advance.handleCompacted
  | _ => exact h.advance

theorem IsOpen.foldl
    {items : List RolloutItem} (hitems : ∀ item ∈ items, isShownInTurn rules id item) :
    (items.foldl (ThreadHistoryBuilder.handleRolloutItem rules) builder).IsOpen finished
      (id, count + items.countP isUserMessageEvent) := by
  induction items generalizing builder count with
  | nil => exact h
  | cons item items ih =>
    rw [forall_mem_cons] at hitems
    have hnext := h.handleRolloutItem hitems.1
    have hrest := ih hnext hitems.2
    rw [countP_cons, Nat.add_comm (items.countP _), ← Nat.add_assoc]
    exact hrest

end

theorem IsClosed.foldl_items (h : builder.IsClosed finished) {block : TurnBlock}
    (hbody : ∀ item ∈ block.body, isShownInTurn rules block.id item) :
    (block.items.foldl (ThreadHistoryBuilder.handleRolloutItem rules) builder).IsClosed
      (finished ++ [(block.id, block.body.countP isUserMessageEvent)]) := by
  have hopen := (h.advance.handleTurnStarted block.id).foldl hbody
  rw [Nat.zero_add] at hopen
  rw [TurnBlock.items, foldl_cons, foldl_append]
  exact hopen.advance.handleTurnComplete

theorem IsClosed.finish (h : builder.IsClosed finished) :
    builder.finish.map (fun turn => (turn.id, turn.items.countP isUserMessage)) = finished := by
  rw [ThreadHistoryBuilder.finish, finishCurrentTurn, h.current, map_map, ← h.turns.summaries]
  rfl

end ThreadHistoryBuilder

theorem buildTurns_eq_live (session : SessionMeta) {entries : List RolloutEntry}
    (hshown : ∀ block ∈ things entries,
      ∀ item ∈ block.body, isShownInTurn rules block.id item) :
    (buildTurnsFromRolloutItems rules
        (.sessionMeta session :: entries.flatMap RolloutEntry.items)).map
          (fun turn => (turn.id, turn.items.countP isUserMessage)) =
      (live entries).map fun block => (block.id, block.body.countP isUserMessageEvent) := by
  apply ThreadHistoryBuilder.IsClosed.finish
  rw [foldl_cons]
  induction entries using List.reverseRecOn with
  | nil => exact ⟨rfl, rfl, nofun⟩
  | append_singleton entries entry ih =>
    rw [things_append] at hshown
    have hbefore := ih fun block hblock => hshown block (mem_append_left _ hblock)
    rw [flatMap_append, flatMap_singleton, foldl_append, live_concat]
    cases entry with
    | done block =>
      have hbody := hshown block (mem_append_right _ (mem_singleton_self block))
      rw [step, map_append]
      exact hbefore.foldl_items hbody
    | undone numTurns =>
      rw [step, map_rdrop]
      exact hbefore.advance.handleThreadRollback numTurns

end Rexux.History
