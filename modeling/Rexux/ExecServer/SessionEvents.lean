import Rexux.Foundation.OrderedMap
import Rexux.Foundation.Outcome

/-!
# Publishing the events of a remote process

A client session of the exec server learns about its process twice: from live
notifications, which may be lost, repeated or overtaken, and from read responses
that it asks for after a reconnection.  Both paths meet in one reorder buffer, and
an event is published only when every event before it has been.

A read response carries the output chunks the server still retains, but only flags
for the exit and the close of the process, so `recoverEvents` has to infer where in
the sequence they belong.
-/

namespace Rexux.ExecServer

open Foundation

/-! ## Events and read responses -/

inductive ExecOutputStream
  | stdout
  | stderr
  | pty
  deriving DecidableEq, Repr

structure ProcessOutputChunk where
  seq : ℕ
  stream : ExecOutputStream
  chunk : List UInt8
  deriving DecidableEq, Repr

/-- An event of a process; failures have no number. -/
inductive ExecProcessEvent
  | output (chunk : ProcessOutputChunk)
  | exited (seq : ℕ) (exitCode : ℤ) (sandboxDenied : Option Bool)
  | closed (seq : ℕ)
  | failed (message : String)
  deriving DecidableEq, Repr

namespace ExecProcessEvent

def seq : ExecProcessEvent → Option ℕ
  | output chunk => some chunk.seq
  | exited seq _ _ => some seq
  | closed seq => some seq
  | failed _ => none

def isExited : ExecProcessEvent → Bool
  | exited _ _ _ => true
  | _ => false

def isClosed : ExecProcessEvent → Bool
  | closed _ => true
  | _ => false

/-- The bytes that an event takes up while it waits. -/
def pendingBytes : ExecProcessEvent → ℕ
  | output chunk => chunk.chunk.length
  | failed message => message.utf8ByteSize
  | exited _ _ _ => 0
  | closed _ => 0

/-- Fold what a read response says about the sandbox into a pending exit. -/
def noteSandboxDenied (sandboxDenied : Bool) : ExecProcessEvent → ExecProcessEvent
  | exited seq exitCode pendingDenied =>
    exited seq exitCode (some (pendingDenied.getD false || sandboxDenied))
  | event => event

end ExecProcessEvent

/-- A snapshot of the process that was read from the server. -/
structure ReadResponse where
  chunks : List ProcessOutputChunk
  nextSeq : ℕ
  exited : Bool
  exitCode : Option ℤ
  closed : Bool
  failure : Option String
  sandboxDenied : Bool
  deriving DecidableEq, Repr

/-! ## The session -/

def maxPendingProcessEvents : ℕ := 256

def maxPendingProcessEventBytes : ℕ := 1024 * 1024

/-- Addition of 64-bit numbers that stops at the largest. -/
def saturatingAdd (a b : ℕ) : ℕ := min (a + b) (2 ^ 64 - 1)

inductive ProtocolError
  | unsequenced
  | tooManyPending
  | eventTooLarge
  | tooManyPendingBytes
  | processFailed (message : String)
  | closeConflict (targetSeq : ℕ)
  | beyondTarget (seq targetSeq : ℕ)
  | noExitCode
  | recoveryGap (targetSeq : ℕ)
  deriving DecidableEq, Repr

def ProtocolError.message : ProtocolError → String
  | unsequenced => "cannot reorder an unsequenced process event"
  | tooManyPending => s!"process event reorder buffer exceeds {maxPendingProcessEvents} entries"
  | eventTooLarge => s!"process event exceeds {maxPendingProcessEventBytes} bytes"
  | tooManyPendingBytes =>
    s!"process event reorder buffer exceeds {maxPendingProcessEventBytes} bytes"
  | processFailed message => s!"process failed while recovering: {message}"
  | closeConflict targetSeq =>
    s!"process close sequence {targetSeq} conflicts with recovered output"
  | beyondTarget seq targetSeq =>
    s!"recovered process output sequence {seq} exceeds target sequence {targetSeq}"
  | noExitCode => "recovering exited process did not include its exit code"
  | recoveryGap targetSeq =>
    s!"process events are no longer retained while recovering through sequence {targetSeq}"

/-- How far events are published, and those that came early. -/
structure OrderedSessionEvents where
  lastPublishedSeq : ℕ
  exitPublished : Bool
  closedPublished : Bool
  pending : OrderedMap ExecProcessEvent
  pendingBytes : ℕ
  failure : Option String

/-- `events` is what the subscribers have been shown, oldest first. -/
structure SessionState where
  events : List ExecProcessEvent
  orderedEvents : OrderedSessionEvents
  wake : ℕ

def SessionState.new : SessionState where
  events := []
  orderedEvents :=
    { lastPublishedSeq := 0
      exitPublished := false
      closedPublished := false
      pending := .empty
      pendingBytes := 0
      failure := none }
  wake := 0

/-- A session operation may fail, and keeps what it did to the session when it does. -/
abbrev SessionM := EStateM ProtocolError SessionState

namespace OrderedSessionEvents

variable (ordered : OrderedSessionEvents)

/-- The number of the event to be published next. -/
def nextSeq : ℕ := saturatingAdd ordered.lastPublishedSeq 1

/-- Keep an event until it is due, within the limits. -/
def insertPending (event : ExecProcessEvent) : Except ProtocolError OrderedSessionEvents :=
  match event.seq with
  | none => .error .unsequenced
  | some seq =>
    if (ordered.pending.get? seq).isSome then .ok ordered
    else
      -- The next expected event is published by every caller at once, so it can
      -- drain a full buffer without being retained.
      let closesGap := seq = ordered.nextSeq
      if ¬closesGap ∧ maxPendingProcessEvents ≤ ordered.pending.size then
        .error .tooManyPending
      else if maxPendingProcessEventBytes < event.pendingBytes then .error .eventTooLarge
      else
        let pendingBytes := saturatingAdd ordered.pendingBytes event.pendingBytes
        if ¬closesGap ∧ maxPendingProcessEventBytes < pendingBytes then
          .error .tooManyPendingBytes
        else
          .ok
            { ordered with
              pending := ordered.pending.insert seq event
              pendingBytes := pendingBytes }

/-- How many events up to a number are neither published nor pending. -/
def missingCount (targetSeq : ℕ) : ℕ :=
  let eventCount := targetSeq - ordered.lastPublishedSeq
  let firstUnpublishedSeq := ordered.nextSeq
  let retainedCount :=
    if firstUnpublishedSeq ≤ targetSeq then
      ordered.pending.countIn firstUnpublishedSeq targetSeq
    else 0
  eventCount - retainedCount

def firstMissingFrom (expected : ℕ) : List ℕ → ℕ
  | [] => expected
  | seq :: seqs =>
    if seq = expected then firstMissingFrom (saturatingAdd expected 1) seqs else expected

/-- The first number that is neither published nor pending. -/
def firstMissingSeq (targetSeq : ℕ) : ℕ :=
  firstMissingFrom ordered.nextSeq (ordered.pending.keysIn ordered.nextSeq targetSeq)

end OrderedSessionEvents

namespace SessionState

variable (session : SessionState)

def noteChange (seq : ℕ) : SessionState :=
  { session with wake := max session.wake seq }

/-- Publish an event as the next one. -/
def publishNext (event : ExecProcessEvent) : SessionState :=
  let ordered := session.orderedEvents
  { session with
    events := session.events ++ [event]
    orderedEvents :=
      { ordered with
        lastPublishedSeq := ordered.nextSeq
        exitPublished := ordered.exitPublished || event.isExited
        closedPublished := ordered.closedPublished || event.isClosed
        pending := ordered.pending.erase ordered.nextSeq
        pendingBytes := ordered.pendingBytes - event.pendingBytes } }

/-- Publish pending events as long as the next one is there. -/
def publishReadyLoop : ℕ → SessionState → Bool × SessionState
  | 0, session => (false, session)
  | fuel + 1, session =>
    match session.orderedEvents.pending.get? session.orderedEvents.nextSeq with
    | none => (false, session)
    | some event =>
      let rest := publishReadyLoop fuel (session.publishNext event)
      (event.isClosed || rest.1, rest.2)

/-- The loop takes one entry out of the buffer at each turn. -/
def publishReady : Bool × SessionState :=
  publishReadyLoop session.orderedEvents.pending.size session

/-- The first failure ends the session. -/
def setFailure (message : String) : SessionState :=
  let ordered := session.orderedEvents
  if ordered.failure.isSome || ordered.closedPublished then session
  else
    { events := session.events ++ [.failed message]
      orderedEvents :=
        { ordered with failure := some message, pending := .empty, pendingBytes := 0 }
      wake := saturatingAdd session.wake 1 }

end SessionState

/-! ## The two publication paths -/

def insertPending (event : ExecProcessEvent) : SessionM Unit := fun session =>
  match session.orderedEvents.insertPending event with
  | .error error => .error error session
  | .ok ordered => .ok () { session with orderedEvents := ordered }

def publishReady : SessionM Bool := fun session => .ok session.publishReady.1 session.publishReady.2

/-- Take an event: publish it with what follows, keep it, or drop a copy. -/
def publishOrderedEvent (event : ExecProcessEvent) : SessionM Bool := do
  let session ← get
  match event.seq with
  | none => do
      set { session with events := session.events ++ [event] }
      return false
  | some seq =>
    if session.orderedEvents.failure.isSome || session.orderedEvents.closedPublished ||
        seq ≤ session.orderedEvents.lastPublishedSeq then
      return false
    else do
      insertPending event
      publishReady

variable (response : ReadResponse) (targetSeq : ℕ)

def isPendingExit (entry : ℕ × ExecProcessEvent) : Bool :=
  entry.1 ≤ targetSeq && entry.2.isExited

/-- Whether an exit is pending up to the target; what the response says about the
sandbox is folded into it. -/
def notePendingExit (sandboxDenied : Bool) : SessionM Bool := fun session =>
  let ordered := session.orderedEvents
  .ok (ordered.pending.entries.any (isPendingExit targetSeq))
    { session with
      orderedEvents :=
        { ordered with
          pending := ordered.pending.modifyFirst (isPendingExit targetSeq)
            (.noteSandboxDenied sandboxDenied) } }

/-- The number of the close is taken by another event or by a chunk. -/
def closeConflicts (session : SessionState) (response : ReadResponse) (targetSeq : ℕ) : Bool :=
  (session.orderedEvents.pending.get? targetSeq).any (!·.isClosed) ||
    response.chunks.any (·.seq = targetSeq)

/-- The exit that the snapshot tells of, under the number that is missing. -/
def insertRecoveredExit (seq : ℕ) : SessionM Unit :=
  match response.exitCode with
  | none => throw .noExitCode
  | some exitCode => insertPending (.exited seq exitCode (some response.sandboxDenied))

/-- The loop of `recoverEvents` carries whether it published the close, and whether
the exit is accounted for. -/
structure RecoveryProgress where
  publishedClosed : Bool
  exitKnown : Bool

/-- A chunk beyond the next expected number leaves a gap there; while the exit of the
process is unaccounted for, the gap is taken for it. -/
def recoverExitBefore (chunk : ProcessOutputChunk) (progress : RecoveryProgress) :
    SessionM RecoveryProgress := do
  let session ← get
  let nextSeq := session.orderedEvents.nextSeq
  if response.exited && !progress.exitKnown && nextSeq < chunk.seq then do
    insertRecoveredExit response nextSeq
    let closed ← publishReady
    return { publishedClosed := progress.publishedClosed || closed, exitKnown := true }
  else
    return progress

def recoverOutput (chunk : ProcessOutputChunk) (progress : RecoveryProgress) :
    SessionM RecoveryProgress := do
  let session ← get
  if session.orderedEvents.lastPublishedSeq < chunk.seq then do
    insertPending (.output chunk)
    let closed ← publishReady
    return { progress with publishedClosed := progress.publishedClosed || closed }
  else
    return progress

/-- A chunk of the snapshot fills the gap that it belongs to. -/
def recoverChunk (progress : RecoveryProgress) (chunk : ProcessOutputChunk) :
    SessionM RecoveryProgress :=
  if targetSeq < chunk.seq then throw (.beyondTarget chunk.seq targetSeq)
  else do
    let progress ← recoverExitBefore response chunk progress
    recoverOutput chunk progress

/-- The close that the snapshot tells of, if it was not received. -/
def recoverClosed : SessionM Unit := do
  let session ← get
  let closedPending := (session.orderedEvents.pending.get? targetSeq).any (·.isClosed)
  if response.closed && !session.orderedEvents.closedPublished && !closedPending then
    insertPending (.closed targetSeq)
  else
    return ()

/-- Everything up to the target has to be accounted for, but for the exit. -/
def recoverExit (exitKnown : Bool) : SessionM Unit := do
  let session ← get
  let missingCount := session.orderedEvents.missingCount targetSeq
  if response.exited && !exitKnown then
    if missingCount ≠ 1 then throw (.recoveryGap targetSeq)
    else insertRecoveredExit response (session.orderedEvents.firstMissingSeq targetSeq)
  else if missingCount ≠ 0 then throw (.recoveryGap targetSeq)
  else return ()

/-- The part of `recoverEvents` after the early returns. -/
def recoverThrough : SessionM Bool := do
  let exitPending ← notePendingExit targetSeq response.sandboxDenied
  let session ← get
  if response.closed && closeConflicts session response targetSeq then
    throw (.closeConflict targetSeq)
  else do
    let exitKnown := session.orderedEvents.exitPublished || exitPending
    let progress ←
      response.chunks.foldlM (recoverChunk response targetSeq)
        { publishedClosed := false, exitKnown := exitKnown }
    recoverClosed response targetSeq
    recoverExit response targetSeq progress.exitKnown
    let closed ← publishReady
    modify (·.noteChange targetSeq)
    return progress.publishedClosed || closed

/-- Fill the gaps from a snapshot, or refuse it. -/
def recoverEvents : SessionM Bool :=
  match response.failure with
  | some message => throw (.processFailed message)
  | none => do
      let targetSeq := response.nextSeq - 1
      let session ← get
      if session.orderedEvents.failure.isSome || session.orderedEvents.closedPublished ||
          targetSeq ≤ session.orderedEvents.lastPublishedSeq then
        return false
      else
        recoverThrough response targetSeq

section Operations

variable {ordered ordered' : OrderedSessionEvents} {session session' : SessionState}
  {event : ExecProcessEvent} {response : ReadResponse} {targetSeq : ℕ}

theorem saturatingAdd_one {n : ℕ} (h : n + 1 < 2 ^ 64) : saturatingAdd n 1 = n + 1 := by
  unfold saturatingAdd
  omega

theorem OrderedSessionEvents.insertPending_ok (h : ordered.insertPending event = .ok ordered') :
    ∃ seq, event.seq = some seq ∧
      (ordered.pending.get? seq ≠ none ∧ ordered' = ordered ∨
        ordered.pending.get? seq = none ∧
          ∃ pendingBytes, ordered' =
            { ordered with
              pending := ordered.pending.insert seq event
              pendingBytes := pendingBytes }) := by
  unfold insertPending at h
  cases hseq : event.seq with
  | none =>
    rw [hseq] at h
    cases h
  | some seq =>
    rw [hseq] at h
    refine ⟨seq, rfl, ?_⟩
    dsimp only at h
    split at h
    next hsome =>
      cases h
      exact .inl ⟨Option.isSome_iff_ne_none.mp hsome, rfl⟩
    next hnone =>
      have hnone : ordered.pending.get? seq = none := by simpa using hnone
      split at h
      · cases h
      · split at h
        · cases h
        · split at h
          · cases h
          · cases h
            exact .inr ⟨hnone, _, rfl⟩

theorem insertPending_run (h : insertPending event session = .ok () session') :
    ∃ ordered, session.orderedEvents.insertPending event = .ok ordered ∧
      session' = { session with orderedEvents := ordered } := by
  unfold insertPending at h
  split at h
  · cases h
  · cases h
    exact ⟨_, ‹_›, rfl⟩

theorem SessionState.publishReady_keeps (kept : SessionState → Prop)
    (hstep : ∀ session event, kept session →
      session.orderedEvents.pending.get? session.orderedEvents.nextSeq = some event →
      kept (session.publishNext event)) (hstart : kept session) : kept session.publishReady.2 := by
  unfold publishReady
  generalize session.orderedEvents.pending.size = fuel
  induction fuel generalizing session with
  | zero => exact hstart
  | succ fuel ih =>
    unfold publishReadyLoop
    split
    · exact hstart
    · exact ih (hstep _ _ hstart ‹_›)

end Operations

end Rexux.ExecServer
