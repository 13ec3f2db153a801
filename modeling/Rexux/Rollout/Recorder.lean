import Rexux.Foundation.LineLog

/-!
# The writer of a rollout

The background task that appends the items of a thread to its rollout file.  Every
operation on the file may fail, and a write that fails may leave any part of its bytes
behind.  The log of errors and the files of compressed rollouts are not modelled.
-/

namespace Rexux.Rollout

open Foundation

def ordinalLimit : ℕ := 2 ^ 64

inductive RolloutOrdinalState
  | legacy
  | paginated (next : Option ℕ)
  deriving DecidableEq, Repr

namespace RolloutOrdinalState

/-- None is the error of an overflow. -/
def current : RolloutOrdinalState → Option (Option ℕ)
  | .legacy => some none
  | .paginated none => none
  | .paginated (some ordinal) => some (some ordinal)

def checked (ordinal : ℕ) : Option ℕ := if ordinal < ordinalLimit then some ordinal else none

def advance : RolloutOrdinalState → RolloutOrdinalState
  | .paginated (some ordinal) => .paginated (checked (ordinal + 1))
  | state => state

/-- The state before the record with an ordinal is written. -/
def before (ordinal : ℕ) : RolloutOrdinalState := .paginated (checked ordinal)

theorem of_current_before {ordinal : ℕ} {found : Option ℕ}
    (h : (before ordinal).current = some found) : found = some ordinal := by
  rw [before, checked] at h
  split at h
  · exact (Option.some.inj h).symm
  · cases h

theorem advance_before {ordinal : ℕ} {found : Option ℕ}
    (h : (before ordinal).current = some found) :
    (before ordinal).advance = before (ordinal + 1) := by
  rw [before, checked] at h
  rw [before, checked]
  split at h
  next hlt =>
    rw [if_pos hlt]
    rfl
  · cases h

end RolloutOrdinalState

structure RolloutLine (Time Item : Type) where
  timestamp : Time
  ordinal : Option ℕ
  item : Item
  deriving DecidableEq, Repr

/-- A write that fails may lose any number of its last bytes. -/
inductive Outcome
  | done
  | failed (lost : ℕ)
  deriving DecidableEq, Repr

/-- What comes from outside, at each operation on the file.  `sessionMetaLine` is the record
of the session with what is known of its repository. -/
structure Environment (Time Item SessionMeta : Type) where
  opening : ℕ → Outcome
  writing : ℕ → Outcome
  flushing : ℕ → Bool
  now : ℕ → Time
  sessionMetaLine : ℕ → SessionMeta → Item

/-- The writer's file handle, its queue and the next ordinal. -/
structure RolloutWriterState (Item SessionMeta : Type) where
  isOpen : Bool
  deferredCreation : Bool
  pendingItems : List Item
  session : Option SessionMeta
  ordinalState : RolloutOrdinalState
  deriving DecidableEq, Repr

/-- The writer and its file.  `tick` counts operations; `appends` are the changes of the
file with the file before them, and `recorded` the items that were handed over. -/
structure System (Item SessionMeta : Type) where
  state : RolloutWriterState Item SessionMeta
  file : ByteString
  tick : ℕ
  isRunning : Bool
  recorded : List Item
  appends : List (ByteString × ByteString)
  deriving DecidableEq, Repr

variable {Time Item SessionMeta : Type}

namespace System

/-- An operation that succeeded, or failed, with what it left. -/
abbrev Result (Item SessionMeta : Type) := Bool × System Item SessionMeta

def andThen (result : Result Item SessionMeta)
    (next : System Item SessionMeta → Result Item SessionMeta) : Result Item SessionMeta :=
  if result.1 then next result.2 else result

variable (sys : System Item SessionMeta)

def append (bytes : ByteString) (outcome : Outcome) : Result Item SessionMeta :=
  match outcome with
  | .done =>
    (true, { sys with
      file := sys.file ++ bytes
      tick := sys.tick + 1
      appends := (sys.file, bytes) :: sys.appends })
  | .failed lost =>
    (false, { sys with
      file := sys.file ++ bytes.take (bytes.length - lost)
      tick := sys.tick + 1
      appends := (sys.file, bytes.take (bytes.length - lost)) :: sys.appends })

def setOpen : System Item SessionMeta :=
  { sys with state := { sys.state with isOpen := true, deferredCreation := false } }

def enterRecoveryMode : System Item SessionMeta :=
  { sys with state := { sys.state with isOpen := false } }

def advance : System Item SessionMeta :=
  { sys with state := { sys.state with ordinalState := sys.state.ordinalState.advance } }

def isDeferred : Bool :=
  !sys.state.isOpen && sys.state.deferredCreation

section Operations

variable (format : LineFormat (RolloutLine Time Item)) (env : Environment Time Item SessionMeta)

variable (sys : System Item SessionMeta)

/-- Opening a file completes its last line. -/
def openLogFile : Result Item SessionMeta :=
  sys.append (terminator sys.file) (env.opening sys.tick)

def ensureWriterOpen : Result Item SessionMeta :=
  if sys.state.isOpen then (true, sys)
  else andThen (sys.openLogFile env) fun sys => (true, sys.setOpen)

def writeRolloutItem (item : Item) (ordinal : Option ℕ) (sys : System Item SessionMeta) :
    Result Item SessionMeta :=
  sys.append (format.line ⟨env.now sys.tick, ordinal, item⟩) (env.writing sys.tick)

/-- Write an item under the current ordinal and go to the next one. -/
def writeNext (item : Item) (sys : System Item SessionMeta) : Result Item SessionMeta :=
  match sys.state.ordinalState.current with
  | none => (false, sys)
  | some ordinal =>
    andThen (sys.writeRolloutItem format env item ordinal) fun sys => (true, sys.advance)

def writeSessionMeta (session : SessionMeta) (sys : System Item SessionMeta) :
    Result Item SessionMeta :=
  if sys.state.isOpen then sys.writeNext format env (env.sessionMetaLine sys.tick session)
  else (true, sys)

def writeSessionMetaIfNeeded : Result Item SessionMeta :=
  match sys.state.session with
  | none => (true, sys)
  | some session =>
    andThen (sys.writeSessionMeta format env session) fun sys =>
      (true, { sys with state := { sys.state with session := none } })

/-- The number of items written before the first failure. -/
def writeItems : List Item → System Item SessionMeta → ℕ × Result Item SessionMeta
  | [], sys => (0, true, sys)
  | item :: items, sys =>
    match sys.writeNext format env item with
    | (false, sys) => (0, false, sys)
    | (true, sys) => ((writeItems items sys).1 + 1, (writeItems items sys).2)

def drain (count : ℕ) (sys : System Item SessionMeta) : System Item SessionMeta :=
  { sys with state := { sys.state with pendingItems := sys.state.pendingItems.drop count } }

/-- Write the queue; what was written is taken from it. -/
def writePendingItemsOnce : Result Item SessionMeta :=
  if sys.state.isOpen then
    let written := writeItems format env sys.state.pendingItems sys
    (written.2.1, written.2.2.drain written.1)
  else (false, sys)

def flushFile : Result Item SessionMeta :=
  (!sys.state.isOpen || env.flushing sys.tick, { sys with tick := sys.tick + 1 })

/-- Open the file, write what describes the session, then the queue. -/
def writePendingOnce : Result Item SessionMeta :=
  andThen (andThen (andThen (sys.ensureWriterOpen env) (writeSessionMetaIfNeeded format env))
    (writePendingItemsOnce format env)) (flushFile env)

/-- A first failure is answered by opening the file again, a second one is reported. -/
def writePendingWithRecovery : Result Item SessionMeta :=
  match sys.writePendingOnce format env with
  | (true, sys) => (true, sys)
  | (false, sys) =>
    match sys.enterRecoveryMode.writePendingOnce format env with
    | (true, sys) => (true, sys)
    | (false, sys) => (false, sys.enterRecoveryMode)

def persist : Result Item SessionMeta :=
  sys.writePendingWithRecovery format env

/-- The barriers that leave a rollout without items unwritten. -/
def flush : Result Item SessionMeta :=
  if sys.isDeferred && sys.state.pendingItems.isEmpty then (true, sys)
  else sys.writePendingWithRecovery format env

def shutdown : Result Item SessionMeta := sys.flush format env

def addItems (items : List Item) (sys : System Item SessionMeta) : System Item SessionMeta :=
  { sys with
    state := { sys.state with pendingItems := sys.state.pendingItems ++ items }
    recorded := sys.recorded ++ items }

/-- Without a file the items stay in the queue. -/
def flushIfMaterialized : System Item SessionMeta :=
  if sys.isDeferred then sys
  else
    match sys.flush format env with
    | (true, sys) => sys
    | (false, sys) => sys.enterRecoveryMode

end Operations

end System

inductive RolloutCmd (Item : Type)
  | addItems (items : List Item)
  | persist
  | flush
  | shutdown
  deriving DecidableEq, Repr

section Writer

variable (format : LineFormat (RolloutLine Time Item)) (env : Environment Time Item SessionMeta)

def handle (sys : System Item SessionMeta) : RolloutCmd Item → Option Bool × System Item SessionMeta
  | .addItems items => (none, (sys.addItems items).flushIfMaterialized format env)
  | .persist => (some (sys.persist format env).1, (sys.persist format env).2)
  | .flush => (some (sys.flush format env).1, (sys.flush format env).2)
  | .shutdown =>
    (some (sys.shutdown format env).1,
      { (sys.shutdown format env).2 with isRunning := !(sys.shutdown format env).1 })

/-- After a shutdown that succeeded no command is taken. -/
def step (sys : System Item SessionMeta) (cmd : RolloutCmd Item) : System Item SessionMeta :=
  if sys.isRunning then (handle format env sys cmd).2 else sys

/-- The writer's loop over its commands. -/
def rolloutWriter (cmds : List (RolloutCmd Item)) (sys : System Item SessionMeta) :
    System Item SessionMeta :=
  cmds.foldl (step format env) sys

end Writer

/-- A new rollout, or one that is resumed with whole lines in its file. -/
inductive Start (SessionMeta : Type)
  | create (session : SessionMeta) (historyBase : Option ℕ)
  | resume (file : ByteString) (isTerminated : IsTerminated file) (next : ℕ)

namespace Start

def file : Start SessionMeta → ByteString
  | .create _ _ => []
  | .resume file _ _ => file

def session : Start SessionMeta → Option SessionMeta
  | .create session _ => some session
  | .resume _ _ _ => none

def first : Start SessionMeta → ℕ
  | .create _ historyBase => historyBase.getD 0
  | .resume _ _ next => next

theorem isTerminated_file (start : Start SessionMeta) : IsTerminated start.file := by
  cases start with
  | create => exact .inl rfl
  | resume _ hterminated => exact hterminated

def writer (start : Start SessionMeta) : RolloutWriterState Item SessionMeta where
  isOpen := start.session.isNone
  deferredCreation := start.session.isSome
  pendingItems := []
  session := start.session
  ordinalState := .before start.first

def system (start : Start SessionMeta) : System Item SessionMeta where
  state := start.writer
  file := start.file
  tick := 0
  isRunning := true
  recorded := []
  appends := []

end Start

end Rexux.Rollout
