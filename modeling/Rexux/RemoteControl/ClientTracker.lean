import Rexux.Foundation.Dict
import Rexux.RemoteControl.Protocol

/-!
# Connections of remote-control clients

The tracker opens a connection for each pair of a client and a stream that
initialises, together with a task that sends what the server writes to it.  When such
a task ends, its pair comes out of the join set and the websocket reader closes what
the tracker has under that pair.

A client that initialises a stream again gets a new connection under the old pair,
and by then the task of the old one may not have been collected.  What the tracker
does is modelled with every task known by the connection it was spawned for, so that
a close can be told by what caused it.
-/

namespace Rexux.RemoteControl

open Foundation List List.Subset

/-! ## The tracker -/

abbrev ClientKey := ClientId × StreamId

structure ClientState where
  connectionId : ConnectionId
  lastActivityAt : ℕ
  lastInboundSeqId : Option ℕ
  deriving DecidableEq, Repr

/-- An outbound task in the join set; `ended` once it has returned its pair. -/
structure OutboundTask where
  connectionId : ConnectionId
  key : ClientKey
  ended : Bool
  deriving DecidableEq, Repr

/-- Why a connection was closed. -/
inductive CloseCause
  | closeMessage (key : ClientKey)
  | restarted (key : ClientKey)
  | idle (lastActivityAt now : ℕ)
  | outboundEnded (task : OutboundTask)
  | initializeUndelivered (key : ClientKey)
  deriving DecidableEq, Repr

/-- What the tracker tells the server. -/
inductive TransportEvent
  | connectionOpened (connectionId : ConnectionId) (key : ClientKey)
  | connectionClosed (connectionId : ConnectionId) (cause : CloseCause)
  | incomingMessage (connectionId : ConnectionId) (message : JSONRPCMessage)
  deriving DecidableEq, Repr

/-- The clients, their outbound tasks and the events that were sent. -/
structure ClientTracker where
  clients : Dict ClientKey ClientState
  legacyStreamIds : Dict ClientId StreamId
  joinSet : List OutboundTask
  nextConnectionId : ConnectionId
  events : List TransportEvent

open ClientTracker

def ClientTracker.new : ClientTracker where
  clients := .empty
  legacyStreamIds := .empty
  joinSet := []
  nextConnectionId := 0
  events := []

/-- Whether the app server takes the events of a message in time. -/
structure Delivery where
  closed : Bool
  opened : Bool
  incoming : Bool
  deriving DecidableEq, Repr

/-- Ten minutes, in milliseconds. -/
def remoteControlClientIdleTimeout : ℕ := 10 * 60 * 1000

def remoteControlClientIsAlive (client : ClientState) (now : ℕ) : Bool :=
  now - client.lastActivityAt < remoteControlClientIdleTimeout

namespace ClientTracker

variable (tracker : ClientTracker) (key : ClientKey)

def removeClient : ClientTracker :=
  { tracker with
    clients := tracker.clients.erase key
    legacyStreamIds :=
      if tracker.legacyStreamIds.get? key.1 = some key.2 then tracker.legacyStreamIds.erase key.1
      else tracker.legacyStreamIds }

/-- The close is sent by a task of its own, so that it is not lost with its caller. -/
def closeClient (cause : ClientState → CloseCause) : ClientTracker :=
  match tracker.clients.get? key with
  | none => tracker
  | some client =>
    let removed := tracker.removeClient key
    { removed with
      events := removed.events ++ [.connectionClosed client.connectionId (cause client)] }

/-- The stream a message belongs to, and the legacy streams afterwards.  A message of a
client that names no stream belongs to the one its last initialize has opened. -/
def resolveStream (envelope : ClientEnvelope) (fresh : StreamId) :
    StreamId × Dict ClientId StreamId :=
  match envelope.streamId with
  | some streamId => (streamId, tracker.legacyStreamIds)
  | none =>
    if envelope.isInitialize then
      ((tracker.legacyStreamIds.get? envelope.clientId).getD fresh,
        tracker.legacyStreamIds.erase envelope.clientId)
    else
      ((tracker.legacyStreamIds.get? envelope.clientId).getD
          (if envelope.event = .ping then fresh else []),
        tracker.legacyStreamIds)

def touch (client : ClientState) (now : ℕ) : ClientTracker :=
  { tracker with clients := tracker.clients.insert key { client with lastActivityAt := now } }

def recordInboundMessageDelivery (seqId : Option ℕ) : ClientTracker :=
  match seqId, tracker.clients.get? key with
  | some seqId, some client =>
    { tracker with
      clients := tracker.clients.insert key { client with lastInboundSeqId := some seqId } }
  | _, _ => tracker

def forwardMessage (connectionId : ConnectionId) (message : JSONRPCMessage) : ClientTracker :=
  { tracker with events := tracker.events ++ [.incomingMessage connectionId message] }

/-- The connection is announced, its task spawned and its client recorded. -/
def openConnection (now : ℕ) : ClientTracker :=
  { tracker with
    clients := tracker.clients.insert key
      { connectionId := tracker.nextConnectionId
        lastActivityAt := now
        lastInboundSeqId := none }
    joinSet := tracker.joinSet ++ [⟨tracker.nextConnectionId, key, false⟩]
    nextConnectionId := tracker.nextConnectionId + 1
    events := tracker.events ++ [.connectionOpened tracker.nextConnectionId key] }

def noteLegacyStream (isLegacy : Bool) (key : ClientKey) : ClientTracker :=
  if isLegacy then
    { tracker with legacyStreamIds := tracker.legacyStreamIds.insert key.1 key.2 }
  else tracker

def startConnection (isLegacy : Bool) (message : JSONRPCMessage) (seqId : Option ℕ) (now : ℕ)
    (delivery : Delivery) : ClientTracker :=
  if !delivery.opened then
    { tracker with nextConnectionId := tracker.nextConnectionId + 1 }
  else
    let opened := (tracker.openConnection key now).noteLegacyStream isLegacy key
    if !delivery.incoming then
      opened.closeClient key fun _ => .initializeUndelivered key
    else
      let forwarded := opened.forwardMessage tracker.nextConnectionId message
      if isLegacy then forwarded else forwarded.recordInboundMessageDelivery key seqId

def isRepeated (seqId : Option ℕ) : Bool :=
  match seqId, tracker.clients.get? key with
  | some seqId, some client => client.lastInboundSeqId.any (seqId ≤ ·)
  | _, _ => false

/-- A client that initializes again is closed first. -/
def closeForReinitialize (isInitialize : Bool) (key : ClientKey) : ClientTracker :=
  if isInitialize then tracker.closeClient key fun _ => .restarted key else tracker

def handleClientMessage (envelope : ClientEnvelope) (message : JSONRPCMessage) (key : ClientKey)
    (now : ℕ) (delivery : Delivery) : ClientTracker :=
  if tracker.isRepeated key envelope.seqId && !envelope.isInitialize then tracker
  else
    let current := tracker.closeForReinitialize envelope.isInitialize key
    -- A close that cannot be delivered ends the handling of the message.
    if envelope.isInitialize && (tracker.clients.get? key).isSome && !delivery.closed then current
    else
      match current.clients.get? key with
      | some client =>
        let touched := current.touch key client now
        if !delivery.incoming then touched
        else
          (touched.forwardMessage client.connectionId message).recordInboundMessageDelivery
            key envelope.seqId
      | none =>
        if !envelope.isInitialize then current
        else
          current.startConnection key envelope.streamId.isNone message envelope.seqId now delivery

/-- Find the stream of the client, then handle the message. -/
def handleMessage (envelope : ClientEnvelope) (now : ℕ) (fresh : StreamId) (delivery : Delivery) :
    ClientTracker :=
  let resolved := tracker.resolveStream envelope fresh
  let tracker := { tracker with legacyStreamIds := resolved.2 }
  if resolved.1 = [] then tracker
  else
    let key : ClientKey := (envelope.clientId, resolved.1)
    match envelope.event with
    | .clientMessage message => tracker.handleClientMessage envelope message key now delivery
    | .clientMessageChunk _ _ _ _ => tracker
    | .ack _ => tracker
    | .ping =>
      match tracker.clients.get? key with
      | some client => tracker.touch key client now
      | none => tracker
    | .clientClosed => tracker.closeClient key fun _ => .closeMessage key

/-- Close the expired clients one after the other.  The sweep ends early if the app
server is gone, after `limit` of them. -/
def closeExpiredClients (now limit : ℕ) : ClientTracker :=
  let expired := tracker.clients.entries.filter (!remoteControlClientIsAlive ·.2 now)
  (expired.take limit).foldl
    (fun tracker entry => tracker.closeClient entry.1 fun client => .idle client.lastActivityAt now)
    tracker

/-- The reader takes an ended task out of the join set and closes the client of the
pair it returned. -/
def collect (task : OutboundTask) : ClientTracker :=
  { tracker with joinSet := tracker.joinSet.erase task }.closeClient task.key
    fun _ => .outboundEnded task

end ClientTracker

/-- What the websocket reader can be woken by, and what outbound tasks do meanwhile. -/
inductive TrackerAction
  | message (envelope : ClientEnvelope) (now : ℕ) (fresh : StreamId) (delivery : Delivery)
  | outboundEnds (task : OutboundTask)
  | outboundPanics (task : OutboundTask)
  | collect (task : OutboundTask)
  | idleSweep (now limit : ℕ)

def ClientTracker.hasTask (tracker : ClientTracker) (task : OutboundTask) : Bool :=
  tracker.joinSet.any (· = task)

/-- One action; a task can only end if it is in the set. -/
def ClientTracker.step (tracker : ClientTracker) : TrackerAction → Option ClientTracker
  | .message envelope now fresh delivery => some (tracker.handleMessage envelope now fresh delivery)
  | .outboundEnds task =>
    if tracker.hasTask task then
      some { tracker with joinSet := { task with ended := true } :: tracker.joinSet.erase task }
    else none
  | .outboundPanics task =>
    if tracker.hasTask task then
      some { tracker with joinSet := tracker.joinSet.erase task }
    else none
  | .collect task =>
    if tracker.hasTask task && task.ended then some (tracker.collect task) else none
  | .idleSweep now limit => some (tracker.closeExpiredClients now limit)

def ClientTracker.run : ClientTracker → List TrackerAction → Option ClientTracker
  | tracker, [] => some tracker
  | tracker, action :: actions =>
    match tracker.step action with
    | none => none
    | some next => next.run actions

/-- The connection was closed for a reason of its own.  That its `initialize` could not
be handed to the app server is one only if something was `undelivered`. -/
def CloseCause.IsOwn (undelivered : Prop) (events : List TransportEvent)
    (connectionId : ConnectionId) : CloseCause → Prop
  | .closeMessage key => .connectionOpened connectionId key ∈ events
  | .restarted key => .connectionOpened connectionId key ∈ events
  | .idle lastActivityAt now => remoteControlClientIdleTimeout ≤ now - lastActivityAt
  | .outboundEnded task => task.connectionId = connectionId
  | .initializeUndelivered key => undelivered ∧ .connectionOpened connectionId key ∈ events

/-- A message that initialises a stream comes when the join set has no task of its pair
any more. -/
def ClientTracker.AwaitsTask (tracker : ClientTracker) : TrackerAction → Prop
  | .message envelope _ fresh _ => envelope.isInitialize = true →
      ∀ task ∈ tracker.joinSet,
        task.key ≠ (envelope.clientId, (tracker.resolveStream envelope fresh).1)
  | _ => True

/-- A task is collected when its own connection stands under its pair, or none does. -/
def ClientTracker.CollectsOwn (tracker : ClientTracker) : TrackerAction → Prop
  | .collect task => ∀ client, tracker.clients.get? task.key = some client →
      task.connectionId = client.connectionId
  | _ => True

def HoldsAlong (property : ClientTracker → TrackerAction → Prop) :
    ClientTracker → List TrackerAction → Prop
  | _, [] => True
  | tracker, action :: actions =>
    property tracker action ∧
      ∀ next, tracker.step action = some next → HoldsAlong property next actions

def TasksAwaited : ClientTracker → List TrackerAction → Prop := HoldsAlong AwaitsTask

def CollectedInTime : ClientTracker → List TrackerAction → Prop := HoldsAlong CollectsOwn

def TrackerAction.IsDelivered : TrackerAction → Prop
  | .message _ _ _ delivery => delivery = ⟨true, true, true⟩
  | _ => True

/-- A client is known by the connection that was opened for its pair, and everything closed so
far was closed for its own reason.  If tasks are awaited, those of the pair are its own. -/
structure TrackerInvariant (undelivered awaited : Prop) (tracker : ClientTracker) : Prop where
  opened : ∀ key client, tracker.clients.get? key = some client →
    .connectionOpened client.connectionId key ∈ tracker.events
  tasks : awaited → ∀ key client, tracker.clients.get? key = some client →
    ∀ task ∈ tracker.joinSet, task.key = key → task.connectionId = client.connectionId
  closed : ∀ connectionId cause, .connectionClosed connectionId cause ∈ tracker.events →
    cause.IsOwn undelivered tracker.events connectionId

variable {undelivered awaited : Prop} {tracker next : ClientTracker} {key : ClientKey}
  {client : ClientState}

theorem trackerInvariant_new (undelivered awaited : Prop) :
    TrackerInvariant undelivered awaited .new where
  opened := by
    intro key client h
    cases h
  tasks := by
    intro _ key client h
    cases h
  closed := by
    intro connectionId cause h
    cases h

theorem CloseCause.IsOwn.mono {events more : List TransportEvent} (hsubset : events ⊆ more)
    {connectionId : ConnectionId} {cause : CloseCause}
    (hown : cause.IsOwn undelivered events connectionId) :
    cause.IsOwn undelivered more connectionId := by
  cases cause with
  | closeMessage | restarted => exact hsubset hown
  | idle | outboundEnded => exact hown
  | initializeUndelivered key => exact ⟨hown.1, hsubset hown.2⟩

variable {delivery : Delivery}

section

variable (hinv : TrackerInvariant undelivered awaited tracker)
include hinv

theorem TrackerInvariant.of_subset
    (hclients : ∀ key client, next.clients.get? key = some client →
      ∃ before, tracker.clients.get? key = some before ∧ before.connectionId = client.connectionId)
    (htasks : ∀ task ∈ next.joinSet, ∃ before ∈ tracker.joinSet,
      before.key = task.key ∧ before.connectionId = task.connectionId)
    (hevents : tracker.events ⊆ next.events)
    (hclosed : ∀ connectionId cause, .connectionClosed connectionId cause ∈ next.events →
      .connectionClosed connectionId cause ∈ tracker.events ∨
        cause.IsOwn undelivered tracker.events connectionId) :
    TrackerInvariant undelivered awaited next := by
  refine ⟨?_, ?_, ?_⟩
  · intro key client hget
    obtain ⟨before, hbefore, hid⟩ := hclients key client hget
    rw [← hid]
    exact hevents (hinv.opened key before hbefore)
  · intro hawaited key client hget task htask hkey
    obtain ⟨before, hbefore, hid⟩ := hclients key client hget
    obtain ⟨earlier, hearlier, hsame, hconnection⟩ := htasks task htask
    rw [← hid, ← hconnection]
    exact hinv.tasks hawaited key before hbefore earlier hearlier (hsame.trans hkey)
  · intro connectionId cause hmem
    rcases hclosed connectionId cause hmem with hold | hown
    · exact (hinv.closed connectionId cause hold).mono hevents
    · exact hown.mono hevents

/-- Closing a client for a cause of its own keeps the invariant. -/
theorem TrackerInvariant.closeClient {cause : ClientState → CloseCause}
    (hcause : ∀ client, tracker.clients.get? key = some client →
      (cause client).IsOwn undelivered tracker.events client.connectionId) :
    TrackerInvariant undelivered awaited (tracker.closeClient key cause) := by
  unfold ClientTracker.closeClient
  cases hclient : tracker.clients.get? key with
  | none => exact hinv
  | some client =>
    refine hinv.of_subset ?_ ?_ (subset_append_left _ _) ?_
    · exact fun other found hget => ⟨found, Dict.get?_of_get?_erase hget, rfl⟩
    · exact fun task htask => ⟨task, htask, rfl, rfl⟩
    · intro connectionId closing hmem
      rcases mem_append.mp hmem with hold | hnew
      · exact .inl hold
      · cases mem_singleton.mp hnew
        exact .inr (hcause client hclient)

theorem TrackerInvariant.insertClient
    (hclient : tracker.clients.get? key = some client) {changed : ClientState}
    (hsame : changed.connectionId = client.connectionId) :
    TrackerInvariant undelivered awaited
      { tracker with clients := tracker.clients.insert key changed } := by
  refine hinv.of_subset ?_ (fun task htask => ⟨task, htask, rfl, rfl⟩)
    (refl _) (fun connectionId cause hmem => .inl hmem)
  intro other found hget
  rw [Dict.get?_insert] at hget
  split at hget
  next heq =>
    cases hget
    rw [heq]
    exact ⟨client, hclient, hsame.symm⟩
  · exact ⟨found, hget, rfl⟩

theorem TrackerInvariant.touch (hclient : tracker.clients.get? key = some client) (now : ℕ) :
    TrackerInvariant undelivered awaited (tracker.touch key client now) :=
  hinv.insertClient hclient rfl

theorem TrackerInvariant.recordInboundMessageDelivery (key : ClientKey) (seqId : Option ℕ) :
    TrackerInvariant undelivered awaited (tracker.recordInboundMessageDelivery key seqId) := by
  unfold ClientTracker.recordInboundMessageDelivery
  split
  next seqId client hclient => exact hinv.insertClient hclient rfl
  · exact hinv

theorem TrackerInvariant.forwardMessage (connectionId : ConnectionId) (message : JSONRPCMessage) :
    TrackerInvariant undelivered awaited (tracker.forwardMessage connectionId message) := by
  refine hinv.of_subset (fun key client hget => ⟨client, hget, rfl⟩)
    (fun task htask => ⟨task, htask, rfl, rfl⟩) (subset_append_left _ _) ?_
  intro connectionId cause hmem
  rcases mem_append.mp hmem with hold | hnew
  · exact .inl hold
  · cases mem_singleton.mp hnew

theorem TrackerInvariant.setRest
    (legacyStreamIds : Dict ClientId StreamId) (nextConnectionId : ConnectionId) :
    TrackerInvariant undelivered awaited
      { tracker with
        legacyStreamIds := legacyStreamIds
        nextConnectionId := nextConnectionId } :=
  ⟨hinv.opened, hinv.tasks, hinv.closed⟩

/-- A new connection takes a number that was never used. -/
theorem TrackerInvariant.openConnection
    (hfree : awaited → ∀ task ∈ tracker.joinSet, task.key ≠ key) (now : ℕ) :
    TrackerInvariant undelivered awaited (tracker.openConnection key now) := by
  unfold ClientTracker.openConnection
  refine ⟨?_, ?_, ?_⟩
  · intro other client hget
    rw [Dict.get?_insert] at hget
    rw [mem_append]
    split at hget
    next heq =>
      cases hget
      rw [heq]
      exact .inr mem_cons_self
    · exact .inl (hinv.opened other client hget)
  · intro hawaited other client hget task htask hkey
    rw [Dict.get?_insert] at hget
    rcases mem_append.mp htask with hold | hnew
    · split at hget
      next heq => exact absurd (hkey.trans heq) (hfree hawaited task hold)
      · exact hinv.tasks hawaited other client hget task hold hkey
    · rw [mem_singleton.mp hnew] at hkey ⊢
      rw [if_pos hkey.symm] at hget
      cases hget
      rfl
  · intro connectionId cause hmem
    rcases mem_append.mp hmem with hold | hnew
    · exact (hinv.closed connectionId cause hold).mono (subset_append_left _ _)
    · cases mem_singleton.mp hnew

theorem TrackerInvariant.noteLegacyStream (isLegacy : Bool) (key : ClientKey) :
    TrackerInvariant undelivered awaited (tracker.noteLegacyStream isLegacy key) := by
  unfold ClientTracker.noteLegacyStream
  split
  · exact hinv.setRest _ _
  · exact hinv

theorem TrackerInvariant.startConnection
    (hfree : awaited → ∀ task ∈ tracker.joinSet, task.key ≠ key) (isLegacy : Bool)
    (message : JSONRPCMessage) (seqId : Option ℕ) (now : ℕ)
    (hdelivery : delivery ≠ ⟨true, true, true⟩ → undelivered) :
    TrackerInvariant undelivered awaited
      (tracker.startConnection key isLegacy message seqId now delivery) := by
  have hopened := (hinv.openConnection hfree now).noteLegacyStream isLegacy key
  unfold ClientTracker.startConnection
  split
  · exact hinv.setRest _ _
  · split
    next hincoming =>
      refine hopened.closeClient fun client hget => ⟨hdelivery ?_, ?_⟩
      · rintro rfl
        cases hincoming
      · exact hopened.opened key client hget
    · have hforward := hopened.forwardMessage tracker.nextConnectionId message
      split
      · exact hforward
      · exact hforward.recordInboundMessageDelivery key seqId

theorem TrackerInvariant.closeForReinitialize (isInitialize : Bool) (key : ClientKey) :
    TrackerInvariant undelivered awaited (tracker.closeForReinitialize isInitialize key) ∧
      (tracker.closeForReinitialize isInitialize key).joinSet = tracker.joinSet := by
  unfold ClientTracker.closeForReinitialize
  split
  · refine ⟨hinv.closeClient fun client hget => hinv.opened key client hget, ?_⟩
    unfold ClientTracker.closeClient
    split <;> rfl
  · exact ⟨hinv, rfl⟩

variable {envelope : ClientEnvelope}

theorem TrackerInvariant.handleClientMessage
    (hfree : awaited → envelope.isInitialize → ∀ task ∈ tracker.joinSet, task.key ≠ key)
    (message : JSONRPCMessage) (now : ℕ)
    (hdelivery : delivery ≠ ⟨true, true, true⟩ → undelivered) :
    TrackerInvariant undelivered awaited
      (tracker.handleClientMessage envelope message key now delivery) := by
  obtain ⟨hcurrent, hjoin⟩ := hinv.closeForReinitialize envelope.isInitialize key
  unfold ClientTracker.handleClientMessage
  split
  · exact hinv
  · dsimp only
    split
    · exact hcurrent
    · split
      next client hclient =>
        have htouched := hcurrent.touch hclient now
        split
        · exact htouched
        · exact (htouched.forwardMessage _ _).recordInboundMessageDelivery _ _
      · split
        · exact hcurrent
        next hinitialize =>
          refine hcurrent.startConnection ?_ _ _ _ _ hdelivery
          rw [hjoin]
          exact fun hawaited => hfree hawaited (by simpa using hinitialize)

/-- Whatever a message does, the invariant is kept. -/
theorem TrackerInvariant.handleMessage {now : ℕ} {fresh : StreamId}
    (hfree : awaited → tracker.AwaitsTask (.message envelope now fresh delivery))
    (hdelivery : delivery ≠ ⟨true, true, true⟩ → undelivered) :
    TrackerInvariant undelivered awaited (tracker.handleMessage envelope now fresh delivery) := by
  have hrest := hinv.setRest (tracker.resolveStream envelope fresh).2 tracker.nextConnectionId
  unfold ClientTracker.handleMessage
  dsimp only
  split
  · exact hrest
  · split
    next message hevent => exact hrest.handleClientMessage hfree message now hdelivery
    · exact hrest
    · exact hrest
    · split
      next client hclient => exact hrest.touch hclient now
      · exact hrest
    · exact hrest.closeClient fun client hget => hrest.opened _ client hget

theorem TrackerInvariant.closeExpiredClients (now limit : ℕ) :
    TrackerInvariant undelivered awaited (tracker.closeExpiredClients now limit) := by
  unfold ClientTracker.closeExpiredClients
  dsimp only
  -- Closing some of the expired leaves the others as they were: still expired.
  have hexpired : ∀ entry ∈ (tracker.clients.entries.filter
      (!remoteControlClientIsAlive ·.2 now)).take limit, ∀ client,
      tracker.clients.get? entry.1 = some client →
        remoteControlClientIdleTimeout ≤ now - client.lastActivityAt := by
    intro entry hentry client hclient
    obtain ⟨hmem, hdead⟩ := mem_filter.mp (mem_of_mem_take hentry)
    rw [Dict.get?_eq_some_iff.mpr hmem] at hclient
    cases hclient
    simpa [remoteControlClientIsAlive] using hdead
  generalize (tracker.clients.entries.filter
    (!remoteControlClientIsAlive ·.2 now)).take limit = expired at *
  induction expired generalizing tracker with
  | nil => exact hinv
  | cons entry expired ih =>
    rw [foldl_cons]
    refine ih (hinv.closeClient fun client hget => ?_) ?_
    · exact hexpired entry mem_cons_self client hget
    · intro other hother client hget
      refine hexpired other (mem_cons_of_mem _ hother) client ?_
      unfold ClientTracker.closeClient at hget
      split at hget
      · exact hget
      · exact Dict.get?_of_get?_erase hget

/-- Collecting a task closes its client, if the client is still the task's own. -/
theorem TrackerInvariant.collect {task : OutboundTask}
    (hcollects : tracker.CollectsOwn (.collect task)) :
    TrackerInvariant undelivered awaited (tracker.collect task) := by
  have hrest : TrackerInvariant undelivered awaited
      { tracker with joinSet := tracker.joinSet.erase task } :=
    hinv.of_subset (fun key client hget => ⟨client, hget, rfl⟩)
      (fun other hother => ⟨other, mem_of_mem_erase hother, rfl, rfl⟩)
      (refl _) (fun connectionId cause hmem => .inl hmem)
  exact hrest.closeClient hcollects

end

theorem hasTask_iff {task : OutboundTask} : tracker.hasTask task ↔ task ∈ tracker.joinSet := by
  simp [hasTask]

theorem TrackerInvariant.step (hinv : TrackerInvariant undelivered awaited tracker)
    {action : TrackerAction}
    (hawaits : awaited → tracker.AwaitsTask action) (hcollects : tracker.CollectsOwn action)
    (hdelivered : ¬action.IsDelivered → undelivered) (hstep : tracker.step action = some next) :
    TrackerInvariant undelivered awaited next := by
  cases action with
  | message envelope now fresh delivery =>
    cases hstep
    exact hinv.handleMessage hawaits hdelivered
  | outboundEnds task =>
    simp only [ClientTracker.step] at hstep
    split_ifs at hstep with htask
    cases hstep
    refine hinv.of_subset (fun key client hget => ⟨client, hget, rfl⟩) ?_
      (refl _) (fun connectionId cause hmem => .inl hmem)
    intro other hother
    rcases mem_cons.mp hother with rfl | hother
    · exact ⟨task, hasTask_iff.mp htask, rfl, rfl⟩
    · exact ⟨other, mem_of_mem_erase hother, rfl, rfl⟩
  | outboundPanics task =>
    simp only [ClientTracker.step] at hstep
    split_ifs at hstep
    cases hstep
    exact hinv.of_subset (fun key client hget => ⟨client, hget, rfl⟩)
      (fun other hother => ⟨other, mem_of_mem_erase hother, rfl, rfl⟩)
      (refl _) (fun connectionId cause hmem => .inl hmem)
  | collect task =>
    simp only [ClientTracker.step] at hstep
    split_ifs at hstep
    cases hstep
    exact hinv.collect hcollects
  | idleSweep now limit =>
    cases hstep
    exact hinv.closeExpiredClients now limit

/-- The invariant holds after every run in which tasks are collected in time. -/
theorem TrackerInvariant.run {actions : List TrackerAction}
    (hinv : TrackerInvariant undelivered awaited tracker)
    (hawaited : awaited → TasksAwaited tracker actions)
    (hcollected : CollectedInTime tracker actions)
    (hdelivered : ∀ action ∈ actions, ¬action.IsDelivered → undelivered)
    (hrun : tracker.run actions = some next) : TrackerInvariant undelivered awaited next := by
  induction actions generalizing tracker with
  | nil =>
    cases hrun
    exact hinv
  | cons action actions ih =>
    rw [forall_mem_cons] at hdelivered
    unfold run at hrun
    split at hrun
    · cases hrun
    next middle hstep =>
      have hmiddle := hinv.step (fun h => (hawaited h).1) hcollected.1 hdelivered.1 hstep
      exact ih hmiddle (fun h => (hawaited h).2 middle hstep) (hcollected.2 middle hstep)
        hdelivered.2 hrun

/-- Where tasks are awaited, a task that is collected is that of the connection under its
pair. -/
theorem TrackerInvariant.collectsOwn (hinv : TrackerInvariant undelivered True tracker)
    {action : TrackerAction} (hstep : tracker.step action = some next) :
    tracker.CollectsOwn action := by
  cases action with
  | message | outboundEnds | outboundPanics | idleSweep => exact trivial
  | collect task =>
    intro client hget
    simp only [ClientTracker.step] at hstep
    split_ifs at hstep with htask
    exact hinv.tasks trivial task.key client hget task
      (hasTask_iff.mp (Bool.and_eq_true_iff.mp htask).1) rfl

/-- Waiting for the tasks of a key before it is opened again is enough. -/
theorem collectedInTime_of_tasksAwaited {actions : List TrackerAction}
    (hinv : TrackerInvariant True True tracker) (hawaited : TasksAwaited tracker actions)
    (hrun : tracker.run actions = some next) : CollectedInTime tracker actions := by
  induction actions generalizing tracker with
  | nil => exact trivial
  | cons action actions ih =>
    unfold run at hrun
    split at hrun
    · cases hrun
    next middle hstep =>
      have hcollects := hinv.collectsOwn hstep
      refine ⟨hcollects, fun other hother => ?_⟩
      obtain rfl : middle = other := Option.some.inj (hstep.symm.trans hother)
      exact ih (hinv.step (fun _ => hawaited.1) hcollects (fun _ => trivial) hstep)
        (hawaited.2 middle hstep) hrun

/-! ## Events are kept -/

section Events

variable (tracker key) in
theorem events_subset_closeClient (cause : ClientState → CloseCause) :
    tracker.events ⊆ (tracker.closeClient key cause).events := by
  unfold closeClient
  split
  · exact List.Subset.refl _
  · exact subset_append_left _ _

variable (tracker key) in
theorem events_recordInboundMessageDelivery (seqId : Option ℕ) :
    (tracker.recordInboundMessageDelivery key seqId).events = tracker.events := by
  unfold recordInboundMessageDelivery
  split <;> rfl

variable (tracker key) in
theorem events_subset_startConnection (isLegacy : Bool) (message : JSONRPCMessage)
    (seqId : Option ℕ) (now : ℕ) (delivery : Delivery) :
    tracker.events ⊆
      (tracker.startConnection key isLegacy message seqId now delivery).events := by
  have hopened : tracker.events ⊆
      ((tracker.openConnection key now).noteLegacyStream isLegacy key).events := by
    unfold noteLegacyStream
    split
    · exact subset_append_left _ _
    · exact subset_append_left _ _
  unfold startConnection
  dsimp only
  split_ifs
  · exact List.Subset.refl _
  · exact List.Subset.trans hopened (events_subset_closeClient _ _ _)
  · exact List.Subset.trans hopened (subset_append_left _ _)
  · rw [events_recordInboundMessageDelivery]
    exact List.Subset.trans hopened (subset_append_left _ _)

variable (tracker key) in
theorem events_subset_handleClientMessage (envelope : ClientEnvelope) (message : JSONRPCMessage)
    (now : ℕ) (delivery : Delivery) :
    tracker.events ⊆ (tracker.handleClientMessage envelope message key now delivery).events := by
  have hcurrent : tracker.events ⊆
      (tracker.closeForReinitialize envelope.isInitialize key).events := by
    unfold closeForReinitialize
    split
    · exact events_subset_closeClient _ _ _
    · exact List.Subset.refl _
  unfold handleClientMessage
  dsimp only
  split
  · exact List.Subset.refl _
  · split
    · exact hcurrent
    · split
      · split
        · exact hcurrent
        · rw [events_recordInboundMessageDelivery]
          exact List.Subset.trans hcurrent (subset_append_left _ _)
      · split
        · exact hcurrent
        · exact List.Subset.trans hcurrent (events_subset_startConnection _ _ _ _ _ _ _)

theorem events_subset_step {action : TrackerAction} (hstep : tracker.step action = some next) :
    tracker.events ⊆ next.events := by
  cases action with
  | message envelope now fresh delivery =>
    cases hstep
    have hresolved : tracker.events ⊆
        { tracker with legacyStreamIds := (tracker.resolveStream envelope fresh).2 }.events :=
      List.Subset.refl _
    unfold handleMessage
    dsimp only
    split
    · exact List.Subset.refl _
    · split
      · exact List.Subset.trans hresolved (events_subset_handleClientMessage _ _ _ _ _ _)
      · exact List.Subset.refl _
      · exact List.Subset.refl _
      · split
        · exact List.Subset.refl _
        · exact List.Subset.refl _
      · exact List.Subset.trans hresolved (events_subset_closeClient _ _ _)
  | outboundEnds task | outboundPanics task =>
    simp only [ClientTracker.step] at hstep
    split_ifs at hstep
    cases hstep
    exact List.Subset.refl _
  | collect task =>
    simp only [ClientTracker.step] at hstep
    split_ifs at hstep
    cases hstep
    exact events_subset_closeClient { tracker with joinSet := tracker.joinSet.erase task } _ _
  | idleSweep now limit =>
    cases hstep
    refine foldlRecOn (motive := fun last : ClientTracker => tracker.events ⊆ last.events) _ _
      (List.Subset.refl _) fun last hlast entry _ => ?_
    exact List.Subset.trans hlast (events_subset_closeClient _ _ _)

theorem events_subset_run {actions : List TrackerAction} (hrun : tracker.run actions = some next) :
    tracker.events ⊆ next.events := by
  induction actions generalizing tracker with
  | nil =>
    cases hrun
    exact List.Subset.refl _
  | cons action actions ih =>
    unfold run at hrun
    split at hrun
    · cases hrun
    next middle hstep => exact List.Subset.trans (events_subset_step hstep) (ih hrun)

/-- A task of another connection is named as the reason why the client was closed. -/
theorem connectionClosed_mem_collect {task : OutboundTask}
    (hclient : tracker.clients.get? task.key = some client) :
    .connectionClosed client.connectionId (.outboundEnded task) ∈
      (tracker.collect task).events := by
  unfold collect closeClient
  rw [hclient]
  exact mem_append_right _ mem_cons_self

theorem collectedInTime_of_closed {actions : List TrackerAction}
    (hrun : tracker.run actions = some next)
    (hclosed : ∀ connectionId task,
      .connectionClosed connectionId (.outboundEnded task) ∈ next.events →
        task.connectionId = connectionId) : CollectedInTime tracker actions := by
  induction actions generalizing tracker with
  | nil => exact trivial
  | cons action actions ih =>
    unfold run at hrun
    split at hrun
    · cases hrun
    next middle hstep =>
      refine ⟨?_, fun other hother => ?_⟩
      · cases action with
        | message | outboundEnds | outboundPanics | idleSweep => exact trivial
        | collect task =>
          intro client hget
          simp only [ClientTracker.step] at hstep
          split_ifs at hstep
          cases hstep
          exact hclosed _ task (events_subset_run hrun (connectionClosed_mem_collect hget))
      · obtain rfl : middle = other := Option.some.inj (hstep.symm.trans hother)
        exact ih hrun

end Events

/-- Every connection that is closed is closed for a reason of its own exactly if every task is
collected before another connection stands under its pair.  It is if no stream is initialised
while the join set still has a task of its pair. -/
theorem connections_closed_by_own_cause {actions : List TrackerAction} {tracker : ClientTracker}
    (hrun : new.run actions = some tracker) :
    ((∀ connectionId cause, .connectionClosed connectionId cause ∈ tracker.events →
        cause.IsOwn (∃ action ∈ actions, ¬action.IsDelivered) tracker.events connectionId) ↔
      CollectedInTime .new actions) ∧
    (TasksAwaited .new actions → CollectedInTime .new actions) := by
  refine ⟨⟨?_, ?_⟩, ?_⟩
  · intro hown
    exact collectedInTime_of_closed hrun fun connectionId task hmem => hown _ _ hmem
  · intro hcollected
    have hinv := (trackerInvariant_new (∃ action ∈ actions, ¬action.IsDelivered) False).run
      False.elim hcollected (fun action haction hnot => ⟨action, haction, hnot⟩) hrun
    exact hinv.closed
  · intro hawaited
    exact collectedInTime_of_tasksAwaited (trackerInvariant_new True True) hawaited hrun

def initializeRequest : JSONRPCMessage := .request "initialize".toList []

def initializeEnvelope : ClientEnvelope where
  event := .clientMessage initializeRequest
  clientId := ['c']
  streamId := some ['s']
  seqId := some 0
  cursor := none

def allDelivered : Delivery := ⟨true, true, true⟩

def outboundTask (connectionId : ConnectionId) (ended : Bool) : OutboundTask :=
  ⟨connectionId, (['c'], ['s']), ended⟩

def initializedTwice : List TrackerAction :=
  [.message initializeEnvelope 0 [] allDelivered,
    .message initializeEnvelope 1 [] allDelivered,
    .outboundEnds (outboundTask 0 false), .collect (outboundTask 0 true)]

/-- When the task of the first connection is collected, the second is closed. -/
theorem stale_task_closes_successor :
    ¬∀ tracker, new.run initializedTwice = some tracker →
      ∀ connectionId cause, .connectionClosed connectionId cause ∈ tracker.events →
        cause.IsOwn (∃ action ∈ initializedTwice, ¬action.IsDelivered) tracker.events
          connectionId := by
  intro hown
  have hzero : (0 : ℕ) = 1 := hown _ rfl 1 (.outboundEnded (outboundTask 0 true)) (by decide)
  cases hzero

theorem HoldsAlong.cons {property : ClientTracker → TrackerAction → Prop} {action : TrackerAction}
    {actions : List TrackerAction} (hproperty : property tracker action)
    (hstep : tracker.step action = some next) (hrest : HoldsAlong property next actions) :
    HoldsAlong property tracker (action :: actions) := by
  refine ⟨hproperty, fun other hother => ?_⟩
  rw [hstep] at hother
  cases hother
  exact hrest

/-- The task of the first connection is collected after the second was closed. -/
def closedBeforeCollected : List TrackerAction :=
  [.message initializeEnvelope 0 [] allDelivered,
    .message initializeEnvelope 1 [] allDelivered,
    .message { initializeEnvelope with event := .clientClosed } 2 [] allDelivered,
    .outboundEnds (outboundTask 0 false), .collect (outboundTask 0 true)]

theorem collectedInTime_closedBeforeCollected : CollectedInTime .new closedBeforeCollected := by
  refine .cons trivial rfl (.cons trivial rfl (.cons trivial rfl (.cons trivial rfl
    (.cons ?_ rfl trivial))))
  intro client hget
  cases hget

/-- A client initializes twice before its first task has ended. -/
theorem reinitialized_closed_by_own_cause :
    ∃ tracker, new.run closedBeforeCollected = some tracker ∧
      CloseCause.IsOwn (∃ action ∈ closedBeforeCollected, ¬action.IsDelivered) tracker.events 0
        (.restarted (['c'], ['s'])) :=
  ⟨_, rfl, (connections_closed_by_own_cause rfl).1.mpr collectedInTime_closedBeforeCollected _ _
    (by decide)⟩

end Rexux.RemoteControl
