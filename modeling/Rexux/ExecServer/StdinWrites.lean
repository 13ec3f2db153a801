import Rexux.Foundation.RecentSet
import Rexux.Foundation.Text

/-!
# Writing to the standard input of a process

A client that loses its connection repeats a `process/write` request under the same
write id.  The server may then have several handlers for one write, each of which can
be dropped wherever it awaits something.  What each handler does between two awaits is
one step here, and a run is any order of such steps: a new request, the resumption or
the cancellation of a handler, and what the rest of the server does to the process.
-/

namespace Rexux.ExecServer

open Foundation List

/-! ## Requests and handlers -/

def retainedStdinWriteIdsPerProcess : ℕ := 4096

/-- The ids of the latest writes that were accepted. -/
abbrev AcceptedStdinWriteIds := RecentSet Text retainedStdinWriteIdsPerProcess

structure WriteParams where
  chunk : List UInt8
  writeId : Text
  deriving DecidableEq, Repr

inductive WriteStatus
  | accepted
  | unknownProcess
  | stdinClosed
  | starting
  deriving DecidableEq, Repr

inductive WriteError
  | invalidParams (message : Text)
  | internalError (message : Text)
  deriving DecidableEq, Repr

def emptyWriteId : WriteError := .invalidParams "writeId must not be empty".toList

def stdinWriteFailed : WriteError := .internalError "failed to write to process stdin".toList

/-- Where a handler of `exec_write` is.  `connected` says whether the sender it got is
that of the process, or one whose receiver is gone. -/
inductive WritePhase
  | lookup
  | firstCheck (connected : Bool)
  | reserving (connected : Bool)
  | secondCheck
  | done (response : Except WriteError WriteStatus)
  | cancelled

/-- A request and how far its handler has come. -/
structure WriteHandler where
  params : WriteParams
  phase : WritePhase

inductive ProcessEntry
  | starting
  | running
  | removed
  deriving DecidableEq, Repr

/-- The process a write is for.  `handed` is what was sent to its stdin, oldest first,
and `received` how much of it the writer task has taken. -/
structure StdinState where
  entry : ProcessEntry
  tty : Bool
  pipeStdin : Bool
  senderTaken : Bool
  receiverClosed : Bool
  permits : ℕ
  accepted : AcceptedStdinWriteIds
  handed : List WriteParams
  received : ℕ
  handlers : List WriteHandler

open StdinState

/-- A process that is being started, with its channel of a capacity. -/
def StdinState.start (tty pipeStdin : Bool) (capacity : ℕ) : StdinState where
  entry := .starting
  tty := tty
  pipeStdin := pipeStdin
  senderTaken := false
  receiverClosed := false
  permits := capacity
  accepted := .empty
  handed := []
  received := 0
  handlers := []

/-! ## The handler, from await to await -/

def beginWrite (params : WriteParams) : WriteHandler where
  params := params
  phase := if params.writeId = [] then .done (.error emptyWriteId) else .lookup

namespace StdinState

variable (state : StdinState)

/-- The process table is read first. -/
def lookupProcess : WritePhase :=
  match state.entry with
  | .removed => .done (.ok .unknownProcess)
  | .starting => .done (.ok .starting)
  | .running =>
    if !state.tty && !state.pipeStdin then .done (.ok .stdinClosed)
    else .firstCheck (!state.senderTaken)

/-- A repeated id is answered at once; another write goes on to reserve its place. -/
def checkAccepted (params : WriteParams) (connected : Bool) : WritePhase :=
  if state.accepted.contains params.writeId then .done (.ok .accepted)
  else .reserving connected

/-- A permit, an error when nobody will receive, or nothing yet. -/
def reserve (connected : Bool) : Option (StdinState × WritePhase) :=
  if !connected || state.receiverClosed then some (state, .done (.error stdinWriteFailed))
  else if state.permits = 0 then none
  else some ({ state with permits := state.permits - 1 }, .secondCheck)

/-- The end of a handler: under the lock of the accepted ids, look again, send and
remember.  Nothing is awaited in between. -/
def sendOnce (params : WriteParams) : StdinState × WritePhase :=
  if state.accepted.contains params.writeId then
    ({ state with permits := state.permits + 1 }, .done (.ok .accepted))
  else
    ({ state with
        handed := state.handed ++ [params]
        accepted := state.accepted.remember params.writeId },
      .done (.ok .accepted))

/-- A handler goes on to its next lock. -/
def resumeWrite (handler : WriteHandler) : Option (StdinState × WritePhase) :=
  match handler.phase with
  | .lookup => some (state, state.lookupProcess)
  | .firstCheck connected => some (state, state.checkAccepted handler.params connected)
  | .reserving connected => state.reserve connected
  | .secondCheck => some (state.sendOnce handler.params)
  | .done _ => none
  | .cancelled => none

/-- A dropped handler gives back the permit it holds. -/
def dropHandler (handler : WriteHandler) : Option StdinState :=
  match handler.phase with
  | .lookup => some state
  | .firstCheck _ => some state
  | .reserving _ => some state
  | .secondCheck => some { state with permits := state.permits + 1 }
  | .done _ => none
  | .cancelled => none

def setPhase (index : ℕ) (handler : WriteHandler) (phase : WritePhase) : StdinState :=
  { state with handlers := state.handlers.set index { handler with phase := phase } }

end StdinState

/-- What clients, handlers and the process can do. -/
inductive WriteAction
  | request (params : WriteParams)
  | resume (index : ℕ)
  | cancel (index : ℕ)
  | receive
  | closeReceiver
  | takeSender
  | startProcess
  | removeProcess
  deriving DecidableEq, Repr

variable (state : StdinState)

def StdinState.step : WriteAction → Option StdinState
  | .request params => some { state with handlers := state.handlers ++ [beginWrite params] }
  | .resume index =>
    match state.handlers[index]? with
    | none => none
    | some handler =>
      (state.resumeWrite handler).map fun result => result.1.setPhase index handler result.2
  | .cancel index =>
    match state.handlers[index]? with
    | none => none
    | some handler =>
      (state.dropHandler handler).map fun dropped => dropped.setPhase index handler .cancelled
  | .receive =>
    if state.received < state.handed.length then
      some { state with received := state.received + 1, permits := state.permits + 1 }
    else none
  | .closeReceiver => some { state with receiverClosed := true }
  | .takeSender => some { state with senderTaken := true }
  | .startProcess =>
    if state.entry = .starting then some { state with entry := .running } else none
  | .removeProcess => some { state with entry := .removed }

def StdinState.run : StdinState → List WriteAction → Option StdinState
  | state, [] => some state
  | state, action :: actions =>
    match state.step action with
    | none => none
    | some next => next.run actions

/-- The ids of the writes that were handed to the process. -/
def StdinState.handedIds : List Text := state.handed.map WriteParams.writeId

/-- How many other write ids were accepted since this one was first. -/
def StdinState.othersSince (writeId : Text) : ℕ :=
  ((state.handedIds.dropWhile (· ≠ writeId)).toFinset.erase writeId).card

/-- The action makes the decision about an id. -/
def StdinState.Decides (writeId : Text) (action : WriteAction) : Prop :=
  ∃ index handler, action = .resume index ∧ state.handlers[index]? = some handler ∧
    handler.params.writeId = writeId ∧ handler.phase = .secondCheck

/-- Whenever the run decides about the write id, fewer others were accepted since its
first acceptance than the server remembers. -/
def RetriesWithinWindow (writeId : Text) : StdinState → List WriteAction → Prop
  | _, [] => True
  | state, action :: actions =>
    (state.Decides writeId action → state.othersSince writeId < retainedStdinWriteIdsPerProcess) ∧
    ∀ next, state.step action = some next → RetriesWithinWindow writeId next actions

def StdinState.handedFor (writeId : Text) : List WriteParams :=
  state.handed.filter (·.writeId = writeId)

/-! ## What a step can do -/

variable {state next : StdinState} {action : WriteAction} {actions : List WriteAction}
  {writeId : Text}

/-- A step leaves the handlers alone, adds one, moves one on without sending, or is the
decision of one whose write id is not among the accepted ones. -/
inductive StepEffect (state : StdinState) (action : WriteAction) (next : StdinState) : Prop
  | quiet
      (hhanded : next.handed = state.handed)
      (haccepted : next.accepted = state.accepted)
      (hhandlers : next.handlers = state.handlers)
  | began (params : WriteParams)
      (hhanded : next.handed = state.handed)
      (haccepted : next.accepted = state.accepted)
      (hhandlers : next.handlers = state.handlers ++ [beginWrite params])
  | moved (index : ℕ) (handler : WriteHandler) (phase : WritePhase)
      (hhandler : state.handlers[index]? = some handler)
      (hphase : phase = .done (.ok .accepted) →
        state.accepted.contains handler.params.writeId = true)
      (hhanded : next.handed = state.handed)
      (haccepted : next.accepted = state.accepted)
      (hhandlers : next.handlers = state.handlers.set index { handler with phase := phase })
  | sent (index : ℕ) (handler : WriteHandler)
      (haction : action = .resume index)
      (hhandler : state.handlers[index]? = some handler)
      (hphase : handler.phase = .secondCheck)
      (hnew : state.accepted.contains handler.params.writeId = false)
      (hhanded : next.handed = state.handed ++ [handler.params])
      (haccepted : next.accepted = state.accepted.remember handler.params.writeId)
      (hhandlers : next.handlers =
        state.handlers.set index { handler with phase := .done (.ok .accepted) })

theorem lookupProcess_ne_accepted (state : StdinState) :
    state.lookupProcess ≠ .done (.ok .accepted) := by
  unfold lookupProcess
  split
  · simp
  · simp
  · split <;> simp

variable {handler : WriteHandler} {index : ℕ}

/-- A handler that goes on hands its write over at most once. -/
theorem stepEffect_resume
    (hhandler : state.handlers[index]? = some handler) {result : StdinState × WritePhase}
    (hresume : state.resumeWrite handler = some result) :
    StepEffect state (.resume index) (result.1.setPhase index handler result.2) := by
  unfold resumeWrite at hresume
  split at hresume
  · cases hresume
    exact .moved index handler _ hhandler
      (fun h => absurd h (lookupProcess_ne_accepted state)) rfl rfl rfl
  next connected hphase =>
    cases hresume
    refine .moved index handler _ hhandler (fun h => ?_) rfl rfl rfl
    unfold checkAccepted at h
    split_ifs at h
    assumption
  next connected hphase =>
    unfold reserve at hresume
    split at hresume
    · cases hresume
      exact .moved index handler _ hhandler (fun h => by cases h) rfl rfl rfl
    · split at hresume
      · cases hresume
      · cases hresume
        exact .moved index handler _ hhandler (fun h => by cases h) rfl rfl rfl
  next hphase =>
    cases hresume
    unfold sendOnce
    split
    next hknown => exact .moved index handler _ hhandler (fun _ => hknown) rfl rfl rfl
    next hnew =>
      exact .sent index handler rfl hhandler hphase (by simpa using hnew) rfl rfl rfl
  · cases hresume
  · cases hresume

/-- A handler that is cancelled hands nothing over. -/
theorem stepEffect_cancel (hhandler : state.handlers[index]? = some handler) {dropped : StdinState}
    (hdrop : state.dropHandler handler = some dropped) :
    StepEffect state (.cancel index) (dropped.setPhase index handler .cancelled) := by
  have heffect : dropped.handed = state.handed ∧ dropped.accepted = state.accepted ∧
      dropped.handlers = state.handlers := by
    unfold dropHandler at hdrop
    split at hdrop <;> cases hdrop <;> exact ⟨rfl, rfl, rfl⟩
  refine .moved index handler .cancelled hhandler (fun h => by cases h) heffect.1 heffect.2.1 ?_
  rw [setPhase, heffect.2.2]

theorem stepEffect (h : state.step action = some next) : StepEffect state action next := by
  cases action with
  | request params =>
    cases h
    exact .began params rfl rfl rfl
  | resume index =>
    simp only [step] at h
    split at h
    · cases h
    next handler hhandler =>
      obtain ⟨result, hresume, rfl⟩ := Option.map_eq_some_iff.mp h
      exact stepEffect_resume hhandler hresume
  | cancel index =>
    simp only [step] at h
    split at h
    · cases h
    next handler hhandler =>
      obtain ⟨dropped, hdrop, rfl⟩ := Option.map_eq_some_iff.mp h
      exact stepEffect_cancel hhandler hdrop
  | receive | startProcess =>
    simp only [step] at h
    split_ifs at h
    cases h
    exact .quiet rfl rfl rfl
  | closeReceiver | takeSender | removeProcess =>
    cases h
    exact .quiet rfl rfl rfl

/-- The memory is that of what was sent, an acceptance means that something was, and
what was sent came with a request. -/
structure WriteInvariant (state : StdinState) : Prop where
  remembers : state.accepted.Remembers state.handedIds
  accepted : ∀ handler ∈ state.handlers, handler.phase = .done (.ok .accepted) →
    handler.params.writeId ∈ state.handedIds
  requested : ∀ params ∈ state.handed, ∃ handler ∈ state.handlers, handler.params = params

theorem writeInvariant_start (tty pipeStdin : Bool) (capacity : ℕ) :
    WriteInvariant (.start tty pipeStdin capacity) where
  remembers := RecentSet.remembers_empty
  accepted := by simp [start]
  requested := by simp [start]

theorem exists_params_set {handlers : List WriteHandler}
    (hhandler : handlers[index]? = some handler) (phase : WritePhase) {other : WriteHandler}
    (hother : other ∈ handlers) :
    ∃ moved ∈ handlers.set index { handler with phase := phase },
      moved.params = other.params := by
  obtain ⟨position, hposition⟩ := mem_iff_getElem?.mp hother
  by_cases heq : index = position
  · subst heq
    rw [hhandler] at hposition
    cases hposition
    have hlt := (List.getElem?_eq_some_iff.mp hhandler).1
    exact ⟨_, mem_iff_getElem?.mpr ⟨index, getElem?_set_self hlt⟩, rfl⟩
  · refine ⟨other, mem_iff_getElem?.mpr ⟨position, ?_⟩, rfl⟩
    rw [getElem?_set_ne heq]
    exact hposition

section

variable (hinv : WriteInvariant state)
include hinv

theorem mem_handedIds_of_contains (h : state.accepted.contains writeId) :
    writeId ∈ state.handedIds := by
  rw [RecentSet.contains_iff, hinv.remembers] at h
  exact mem_of_mem_drop h

theorem WriteInvariant.of_handed_eq
    (hhanded : next.handed = state.handed) (haccepted : next.accepted = state.accepted)
    (hdone : ∀ handler ∈ next.handlers, handler.phase = .done (.ok .accepted) →
      handler ∈ state.handlers ∨ state.accepted.contains handler.params.writeId)
    (hkept : ∀ handler ∈ state.handlers, ∃ other ∈ next.handlers, other.params = handler.params) :
    WriteInvariant next := by
  have hids : next.handedIds = state.handedIds := by
    rw [handedIds, hhanded, handedIds]
  refine ⟨?_, fun handler hhandler hphase => ?_, fun params hparams => ?_⟩
  · rw [haccepted, hids]
    exact hinv.remembers
  · rw [hids]
    rcases hdone handler hhandler hphase with hold | hknown
    · exact hinv.accepted handler hold hphase
    · exact mem_handedIds_of_contains hinv hknown
  · rw [hhanded] at hparams
    obtain ⟨handler, hhandler, rfl⟩ := hinv.requested params hparams
    exact hkept handler hhandler

theorem WriteInvariant.step (h : state.step action = some next) : WriteInvariant next := by
  cases stepEffect h with
  | quiet hhanded haccepted hhandlers =>
    refine hinv.of_handed_eq hhanded haccepted ?_ ?_
    · rw [hhandlers]
      exact fun handler hhandler _ => .inl hhandler
    · rw [hhandlers]
      exact fun handler hhandler => ⟨handler, hhandler, rfl⟩
  | began params hhanded haccepted hhandlers =>
    refine hinv.of_handed_eq hhanded haccepted ?_ ?_
    · rw [hhandlers]
      intro handler hhandler hphase
      rcases mem_append.mp hhandler with hold | hnew
      · exact .inl hold
      · rw [mem_singleton.mp hnew, beginWrite] at hphase
        split at hphase <;> cases hphase
    · rw [hhandlers]
      exact fun handler hhandler => ⟨handler, mem_append_left _ hhandler, rfl⟩
  | moved index handler phase hhandler hphase hhanded haccepted hhandlers =>
    refine hinv.of_handed_eq hhanded haccepted ?_ ?_
    · rw [hhandlers]
      intro other hother hdone
      rcases mem_or_eq_of_mem_set hother with hold | rfl
      · exact .inl hold
      · exact .inr (hphase hdone)
    · rw [hhandlers]
      exact fun other hother => exists_params_set hhandler phase hother
  | sent index handler haction hhandler hphase hnew hhanded haccepted hhandlers =>
    have hids : next.handedIds = state.handedIds ++ [handler.params.writeId] := by
      rw [handedIds, hhanded, map_append]
      rfl
    refine ⟨?_, ?_, ?_⟩
    · rw [haccepted, hids]
      exact hinv.remembers.remember hnew
    · rw [hhandlers, hids]
      intro other hother hdone
      rw [mem_append]
      rcases mem_or_eq_of_mem_set hother with hold | rfl
      · exact .inl (hinv.accepted other hold hdone)
      · exact .inr mem_cons_self
    · rw [hhandlers, hhanded]
      intro params hparams
      rcases mem_append.mp hparams with hold | hnew
      · obtain ⟨other, hother, rfl⟩ := hinv.requested params hold
        exact exists_params_set hhandler _ hother
      · rw [mem_singleton.mp hnew]
        exact exists_params_set hhandler _ (mem_of_getElem? hhandler)

/-- An id is remembered while few others have been handed over since. -/
theorem contains_of_othersSince_lt (hmem : writeId ∈ state.handedIds)
    (hfew : state.othersSince writeId < retainedStdinWriteIdsPerProcess) :
    state.accepted.contains writeId := by
  by_contra hforgotten
  have hne : state.handedIds.dropWhile (· ≠ writeId) ≠ [] := by
    rw [Ne, dropWhile_eq_nil_iff]
    intro hall
    simpa using hall writeId hmem
  obtain ⟨first, between, hsuffix⟩ := exists_cons_of_ne_nil hne
  have hfirst : first = writeId := by
    have hhead := head_dropWhile_not (· ≠ writeId) hne
    simp only [hsuffix, head_cons] at hhead
    simpa using hhead
  subst hfirst
  have hsplit : state.handedIds.takeWhile (· ≠ first) ++
      state.handedIds.dropWhile (· ≠ first) = state.handedIds :=
    takeWhile_append_dropWhile
  rw [hsuffix] at hsplit
  have hremembers := hinv.remembers
  rw [← hsplit] at hremembers
  have hcard := hremembers.capacity_le_card (by simpa using hforgotten)
  have hothers : state.othersSince first = (between.toFinset.erase first).card := by
    rw [othersSince, hsuffix, toFinset_cons, Finset.erase_insert_eq_erase]
  omega

/-- One action does not hand a write over for a second time. -/
theorem handedFor_step
    (hwindow : state.Decides writeId action →
      state.othersSince writeId < retainedStdinWriteIdsPerProcess)
    (honce : (state.handedFor writeId).length ≤ 1) (h : state.step action = some next) :
    (next.handedFor writeId).length ≤ 1 := by
  cases stepEffect h with
  | quiet hhanded _ _ => rwa [handedFor, hhanded]
  | began _ hhanded _ _ => rwa [handedFor, hhanded]
  | moved _ _ _ _ _ hhanded _ _ => rwa [handedFor, hhanded]
  | sent index handler haction hhandler hphase hnew hhanded _ _ =>
    rw [handedFor, hhanded, filter_append]
    by_cases hid : handler.params.writeId = writeId
    · have hnone : state.handedFor writeId = [] := by
        refine filter_eq_nil_iff.mpr fun params hparams heq => ?_
        have hmem : writeId ∈ state.handedIds := by
          rw [← of_decide_eq_true heq]
          exact mem_map_of_mem hparams
        have hfew := hwindow ⟨index, handler, haction, hhandler, hid, hphase⟩
        rw [hid, contains_of_othersSince_lt hinv hmem hfew] at hnew
        cases hnew
      rw [handedFor] at hnone
      simp [hnone, hid]
    · rw [filter_singleton, decide_eq_false hid, cond_false, append_nil]
      exact honce

end

theorem othersSince_le (state : StdinState) (writeId : Text) :
    state.othersSince writeId ≤ state.handed.length := by
  calc
    state.othersSince writeId
        ≤ (state.handedIds.dropWhile (· ≠ writeId)).toFinset.card := Finset.card_erase_le
    _ ≤ (state.handedIds.dropWhile (· ≠ writeId)).length := toFinset_card_le _
    _ ≤ state.handedIds.length := (dropWhile_suffix _).length_le
    _ = state.handed.length := length_map _

theorem retriesWithinWindow_of_length
    (hshort : state.handed.length + actions.length < retainedStdinWriteIdsPerProcess) :
    RetriesWithinWindow writeId state actions := by
  induction actions generalizing state with
  | nil => trivial
  | cons action actions ih =>
    rw [length_cons] at hshort
    refine ⟨fun _ => ?_, fun next hstep => ih ?_⟩
    · have hle := othersSince_le state writeId
      omega
    · have hgrows : next.handed.length ≤ state.handed.length + 1 := by
        cases stepEffect hstep with
        | quiet hhanded _ _ => simp [hhanded]
        | began _ hhanded _ _ => simp [hhanded]
        | moved _ _ _ _ _ hhanded _ _ => simp [hhanded]
        | sent _ _ _ _ _ _ hhanded _ _ => simp [hhanded]
      omega

/-- Nor does a run in which every retry comes in time. -/
theorem handedFor_run (hinv : WriteInvariant state) (honce : (state.handedFor writeId).length ≤ 1)
    (hwindow : RetriesWithinWindow writeId state actions) (hrun : state.run actions = some next) :
    WriteInvariant next ∧ (next.handedFor writeId).length ≤ 1 := by
  induction actions generalizing state with
  | nil =>
    cases hrun
    exact ⟨hinv, honce⟩
  | cons action actions ih =>
    unfold run at hrun
    split at hrun
    · cases hrun
    next middle hstep =>
      exact ih (hinv.step hstep) (handedFor_step hinv hwindow.1 honce hstep)
        (hwindow.2 middle hstep) hrun

/-- However the handlers of a process interleave, are repeated or are dropped: the bytes
of a write id are handed to its stdin at most once, and exactly once when a handler
answers that they were accepted, if it is retried while the server remembers it. -/
theorem stdin_handed_over_once (tty pipeStdin : Bool) (capacity : ℕ) (actions : List WriteAction)
    (writeId : Text) (hwindow : RetriesWithinWindow writeId (.start tty pipeStdin capacity) actions)
    {final : StdinState} (hrun : (start tty pipeStdin capacity).run actions = some final) :
    (final.handedFor writeId).length ≤ 1 ∧
      ∀ handler ∈ final.handlers, handler.params.writeId = writeId →
        handler.phase = .done (.ok .accepted) →
        ∃ sent, final.handedFor writeId = [sent] ∧
          ((∀ other ∈ final.handlers, other.params.writeId = writeId →
              other.params.chunk = handler.params.chunk) →
            sent = handler.params) := by
  obtain ⟨hinv, honce⟩ := handedFor_run (writeInvariant_start tty pipeStdin capacity)
    (Nat.zero_le _) hwindow hrun
  refine ⟨honce, fun handler hhandler hid hphase => ?_⟩
  have hmem := hinv.accepted handler hhandler hphase
  rw [hid, handedIds, mem_map] at hmem
  obtain ⟨params, hparams, hsame⟩ := hmem
  have hsent : params ∈ final.handedFor writeId := mem_filter.mpr ⟨hparams, decide_eq_true hsame⟩
  have hone : (final.handedFor writeId).length = 1 := le_antisymm honce (length_pos_of_mem hsent)
  obtain ⟨sent, hlist⟩ := length_eq_one_iff.mp hone
  rw [hlist, mem_singleton] at hsent
  subst hsent
  refine ⟨params, hlist, fun hchunks => ?_⟩
  obtain ⟨sender, hsender, rfl⟩ := hinv.requested params hparams
  have hchunk := hchunks sender hsender hsame
  cases hparams : sender.params with
  | mk chunk id =>
    cases hother : handler.params with
    | mk chunk' id' =>
      rw [hparams] at hchunk hsame
      rw [hother] at hchunk hid
      rw [WriteParams.mk.injEq]
      exact ⟨hchunk, hsame.trans hid.symm⟩

/-! ### A dropped handler and two retries

The first handler is dropped while it waits for the lock, with its permit.  The retry
sends, and a second retry is told so. -/

def hello : WriteParams := ⟨[104, 105], ['1']⟩

def droppedThenRetried : List WriteAction :=
  [.startProcess, .request hello, .resume 0, .resume 0, .resume 0, .cancel 0,
    .request hello, .resume 1, .resume 1, .resume 1, .request hello, .resume 2, .resume 1,
    .receive, .resume 2]

def retriedState : StdinState where
  entry := .running
  tty := false
  pipeStdin := true
  senderTaken := false
  receiverClosed := false
  permits := 1
  accepted := RecentSet.empty.remember ['1']
  handed := [hello]
  received := 1
  handlers := [⟨hello, .cancelled⟩, ⟨hello, .done (.ok .accepted)⟩, ⟨hello, .done (.ok .accepted)⟩]

/-- The first request is cancelled on the way, and two retries are accepted. -/
theorem hello_handed_over_once :
    (retriedState.handedFor ['1']).length ≤ 1 ∧
      ∀ handler ∈ retriedState.handlers, handler.params.writeId = ['1'] →
        handler.phase = .done (.ok .accepted) →
        ∃ sent, retriedState.handedFor ['1'] = [sent] ∧
          ((∀ other ∈ retriedState.handlers, other.params.writeId = ['1'] →
              other.params.chunk = handler.params.chunk) →
            sent = handler.params) :=
  stdin_handed_over_once false true 1 droppedThenRetried ['1']
    (retriesWithinWindow_of_length (by decide)) rfl

end Rexux.ExecServer
