import Rexux.ExecServer.PublishedPrefix

/-!
# The log of a process on the server

Three tasks work on a running process: one for each output pipe and one that waits
for the exit.  Each takes the process lock to append an event, so the steps below
are what the tasks do while they hold it, in any order the scheduler likes.

The log that comes out is the one a session follows: it is numbered from one on, has
at most one exit, and ends with the close.  A read that does not limit its bytes is a
snapshot of it, at the time of the read and for as long as the log grows.
-/

namespace Rexux.ExecServer

open Foundation List

/-! ## The process and its tasks -/

def retainedOutputBytesPerProcess : ℕ := 1024 * 1024

def retainedOutputChunksPerProcess : ℕ := 50000

/-- The two tasks that read a process. -/
inductive StreamTask
  | stdoutTask
  | stderrTask
  deriving DecidableEq, Repr

/-- `events` is everything ever published for the process, oldest first. -/
structure RunningProcess where
  tty : Bool
  output : List ProcessOutputChunk
  retainedBytes : ℕ
  nextSeq : ℕ
  exitCode : Option ℤ
  sandboxDenied : Bool
  openStreams : ℕ
  closed : Bool
  events : List ExecProcessEvent

open RunningProcess

def RunningProcess.start (tty : Bool) : RunningProcess where
  tty := tty
  output := []
  retainedBytes := 0
  nextSeq := 1
  exitCode := none
  sandboxDenied := false
  openStreams := 2
  closed := false
  events := []

namespace RunningProcess

variable (process : RunningProcess)

/-- With a terminal both tasks read the same stream. -/
def streamOf : StreamTask → ExecOutputStream
  | .stdoutTask => if process.tty then .pty else .stdout
  | .stderrTask => if process.tty then .pty else .stderr

/-- Drop the oldest chunks until the limits hold again. -/
def evict : ℕ → List ProcessOutputChunk → ℕ × List ProcessOutputChunk
  | retainedBytes, [] => (retainedBytes, [])
  | retainedBytes, chunk :: output =>
    if retainedOutputBytesPerProcess < retainedBytes ∨
        retainedOutputChunksPerProcess < (chunk :: output).length then
      evict (retainedBytes - chunk.chunk.length) output
    else (retainedBytes, chunk :: output)

/-- A chunk is numbered, retained and announced, and old chunks are evicted. -/
def streamOutput (stream : ExecOutputStream) (bytes : List UInt8) : RunningProcess :=
  let chunk : ProcessOutputChunk := ⟨process.nextSeq, stream, bytes⟩
  let retained := evict (process.retainedBytes + bytes.length) (process.output ++ [chunk])
  { process with
    nextSeq := process.nextSeq + 1
    retainedBytes := retained.1
    output := retained.2
    events := process.events ++ [.output chunk] }

/-- The end of `watch_exit`; the classification of the exit is the caller's. -/
def recordExit (exitCode : ℤ) (sandboxDenied : Bool) : RunningProcess :=
  { process with
    nextSeq := process.nextSeq + 1
    exitCode := some exitCode
    sandboxDenied := sandboxDenied
    events := process.events ++ [.exited process.nextSeq exitCode (some sandboxDenied)] }

/-- A stream has ended. -/
def finishOutputStream : RunningProcess :=
  { process with openStreams := process.openStreams - 1 }

/-- The process is closed once it has exited and its streams have ended. -/
def maybeEmitClosed : RunningProcess :=
  if process.closed || process.openStreams ≠ 0 || process.exitCode.isNone then process
  else
    { process with
      closed := true
      nextSeq := process.nextSeq + 1
      events := process.events ++ [.closed process.nextSeq] }

/-- The chunks of one answer, up to a number of bytes; the first one always fits. -/
def takeChunks (maxBytes : ℕ) :
    ℕ → List ProcessOutputChunk → ℕ → List ProcessOutputChunk → List ProcessOutputChunk × ℕ
  | _, chunks, nextSeq, [] => (chunks, nextSeq)
  | totalBytes, chunks, nextSeq, retained :: rest =>
    if chunks ≠ [] ∧ maxBytes < totalBytes + retained.chunk.length then (chunks, nextSeq)
    else if maxBytes ≤ totalBytes + retained.chunk.length then
      (chunks ++ [retained], retained.seq + 1)
    else
      takeChunks maxBytes (totalBytes + retained.chunk.length) (chunks ++ [retained])
        (retained.seq + 1) rest

/-- What a read returns after a number. -/
def execRead (afterSeq maxBytes : Option ℕ) : ReadResponse :=
  let taken := takeChunks (maxBytes.getD (2 ^ 64 - 1)) 0 [] process.nextSeq
    (process.output.filter (afterSeq.getD 0 < ·.seq))
  { chunks := taken.1
    nextSeq := if maxBytes.isNone then process.nextSeq else taken.2
    exited := process.exitCode.isSome
    exitCode := process.exitCode
    closed := process.closed
    failure := none
    sandboxDenied := process.sandboxDenied }

end RunningProcess

/-- The process and the tasks that are still at work for it. -/
structure ServerState where
  process : RunningProcess
  streaming : List StreamTask
  watchingExit : Bool

def ServerState.start (tty : Bool) : ServerState where
  process := .start tty
  streaming := [.stdoutTask, .stderrTask]
  watchingExit := true

/-- What a task does while it holds the process lock. -/
inductive ServerStep : ServerState → ServerState → Prop
  | streamOutput {state : ServerState} (task : StreamTask) (bytes : List UInt8) :
      task ∈ state.streaming →
        ServerStep state
          { state with
            process := state.process.streamOutput (state.process.streamOf task) bytes }
  | finishOutputStream {state : ServerState} (task : StreamTask) :
      task ∈ state.streaming →
        ServerStep state
          { state with
            process := state.process.finishOutputStream
            streaming := state.streaming.erase task }
  | watchExit {state : ServerState} (exitCode : ℤ) (sandboxDenied : Bool) :
      state.watchingExit = true →
        ServerStep state
          { state with
            process := state.process.recordExit exitCode sandboxDenied
            watchingExit := false }
  | maybeEmitClosed {state : ServerState} :
      ServerStep state { state with process := state.process.maybeEmitClosed }

/-- The flags of a process say what is in its log. -/
structure LogInvariant (state : ServerState) : Prop where
  nextSeq : state.process.nextSeq = state.process.events.length + 1
  numbered : ∀ index event, state.process.events[index]? = some event → event.seq = some (index + 1)
  openStreams : state.process.openStreams = state.streaming.length
  output : ∀ chunk ∈ state.process.output, .output chunk ∈ state.process.events
  exited : ∀ exitCode, state.process.exitCode = some exitCode ↔
    ∃ seq denied, .exited seq exitCode denied ∈ state.process.events
  exitedOnce : ∀ event ∈ state.process.events, ∀ other ∈ state.process.events,
    event.isExited = true → other.isExited = true → event.seq = other.seq
  watching : state.watchingExit = true → state.process.exitCode = none
  closed : state.process.closed = true ↔ ∃ seq, .closed seq ∈ state.process.events
  closedLast : ∀ event ∈ state.process.events, event.isClosed = true →
    event.seq = some state.process.events.length
  atRest : state.process.closed = true →
    state.process.openStreams = 0 ∧ state.process.exitCode ≠ none

theorem logInvariant_start (tty : Bool) : LogInvariant (.start tty) where
  nextSeq := rfl
  numbered := by simp [ServerState.start, start]
  openStreams := rfl
  output := by simp [ServerState.start, start]
  exited := by simp [ServerState.start, start]
  exitedOnce := by simp [ServerState.start, start]
  watching := fun _ => rfl
  closed := by simp [ServerState.start, start]
  closedLast := by simp [ServerState.start, start]
  atRest := by simp [ServerState.start, start]

variable {state state' : ServerState} {event : ExecProcessEvent}

theorem numbered_append {events : List ExecProcessEvent}
    (hnumbered : ∀ index event, events[index]? = some event → event.seq = some (index + 1))
    (hseq : event.seq = some (events.length + 1)) :
    ∀ index other, (events ++ [event])[index]? = some other → other.seq = some (index + 1) := by
  intro index other hget
  rcases Nat.lt_trichotomy index events.length with hlt | rfl | hgt
  · rw [getElem?_append_left hlt] at hget
    exact hnumbered index other hget
  · rw [getElem?_concat_length] at hget
    cases hget
    exact hseq
  · rw [getElem?_eq_none (by rw [length_append, length_singleton]; omega)] at hget
    cases hget

theorem evict_suffix (retainedBytes : ℕ) (output : List ProcessOutputChunk) :
    (evict retainedBytes output).2 <:+ output := by
  fun_induction evict with
  | case1 | case3 => exact suffix_refl _
  | case2 _ _ _ _ ih => exact ih.trans (suffix_cons _ _)

variable {process : RunningProcess}

section

variable (hinv : LogInvariant state)
include hinv

variable {task : StreamTask}

theorem LogInvariant.not_closed_of_streaming (htask : task ∈ state.streaming) :
    state.process.closed = false := by
  by_contra hclosed
  have hzero := (hinv.atRest (by simpa using hclosed)).1
  rw [hinv.openStreams] at hzero
  exact ne_nil_of_mem htask (eq_nil_of_length_eq_zero hzero)

theorem LogInvariant.not_mem_of_not_closed (hclosed : state.process.closed = false)
    (hmem : event ∈ state.process.events) : event.isClosed = false := by
  cases event with
  | closed seq =>
    rw [hinv.closed.mpr ⟨seq, hmem⟩] at hclosed
    cases hclosed
  | output | exited | failed => rfl

/-- One more event in an open log, with the flags set by it. -/
theorem LogInvariant.append {watching : Bool} (hopen : state.process.closed = false)
    (hevents : process.events = state.process.events ++ [event])
    (hseq : event.seq = some state.process.nextSeq)
    (hnext : process.nextSeq = state.process.nextSeq + 1)
    (hstreams : process.openStreams = state.process.openStreams)
    (houtput : ∀ chunk ∈ process.output, chunk ∈ state.process.output ∨ event = .output chunk)
    (hexited : ∀ code, process.exitCode = some code ↔
      state.process.exitCode = some code ∨ ∃ seq denied, event = .exited seq code denied)
    (hfirst : event.isExited → state.process.exitCode = none)
    (hwatching : watching → process.exitCode = none)
    (hclosed : process.closed ↔ ∃ seq, event = .closed seq)
    (hrest : process.closed → process.openStreams = 0 ∧ process.exitCode ≠ none) :
    LogInvariant { state with process, watchingExit := watching } := by
  have hnone : event.isExited → ∀ old ∈ state.process.events, old.isExited = false := by
    intro hexit old hold
    cases old with
    | exited seq code denied =>
      have hsome := (hinv.exited code).mpr ⟨seq, denied, hold⟩
      rw [hfirst hexit] at hsome
      cases hsome
    | output | closed | failed => rfl
  constructor
  all_goals simp only [hevents, mem_append, mem_singleton]
  case nextSeq => simp [hnext, hinv.nextSeq]
  case numbered => exact numbered_append hinv.numbered (hseq.trans (congrArg some hinv.nextSeq))
  case openStreams => exact hstreams.trans hinv.openStreams
  case output => exact fun chunk hchunk =>
    (houtput chunk hchunk).imp (hinv.output chunk) Eq.symm
  case exited =>
    intro code
    rw [hexited, hinv.exited]
    simp only [exists_or, eq_comm]
  case exitedOnce =>
    rintro old (hold | rfl) other (hother | rfl) hexit hexitToo
    · exact hinv.exitedOnce old hold other hother hexit hexitToo
    · rw [hnone hexitToo old hold] at hexit
      cases hexit
    · rw [hnone hexit other hother] at hexitToo
      cases hexitToo
    · rfl
  case watching => exact hwatching
  case closed =>
    rw [hclosed]
    refine exists_congr fun seq => ⟨fun h => .inr h.symm, ?_⟩
    rintro (hold | hnew)
    · cases hinv.not_mem_of_not_closed hopen hold
    · exact hnew.symm
  case closedLast =>
    rintro old (hold | rfl) hold'
    · rw [hinv.not_mem_of_not_closed hopen hold] at hold'
      cases hold'
    · rw [hseq, hinv.nextSeq, length_append, length_singleton]
  case atRest => exact hrest

theorem LogInvariant.streamOutput
    (htask : task ∈ state.streaming) (stream : ExecOutputStream) (bytes : List UInt8) :
    LogInvariant { state with process := state.process.streamOutput stream bytes } := by
  have hopen := hinv.not_closed_of_streaming htask
  refine hinv.append hopen rfl rfl rfl rfl ?_ (by simp [RunningProcess.streamOutput]) nofun
    hinv.watching (by simp [RunningProcess.streamOutput, hopen]) hinv.atRest
  intro chunk hchunk
  exact (mem_append.mp ((evict_suffix _ _).subset hchunk)).imp_right fun hnew =>
    congrArg _ (mem_singleton.mp hnew).symm

theorem LogInvariant.finishOutputStream (htask : task ∈ state.streaming) :
    LogInvariant
      { state with
        process := state.process.finishOutputStream
        streaming := state.streaming.erase task } := by
  have hopen := hinv.not_closed_of_streaming htask
  refine
    { hinv with
      openStreams := ?_
      atRest := ?_ }
  · rw [length_erase_of_mem htask, ← hinv.openStreams]
    rfl
  · intro hclosed
    rw [show state.process.closed from hclosed] at hopen
    cases hopen

/-- The exit is recorded once, under the next number. -/
theorem LogInvariant.recordExit (hwatching : state.watchingExit)
    (exitCode : ℤ) (sandboxDenied : Bool) :
    LogInvariant
      { state with
        process := state.process.recordExit exitCode sandboxDenied
        watchingExit := false } := by
  have hnone := hinv.watching hwatching
  have hopen : state.process.closed = false := by
    by_contra hclosed
    exact (hinv.atRest (by simpa using hclosed)).2 hnone
  refine hinv.append hopen rfl rfl rfl rfl (fun _ => .inl) ?_ (fun _ => hnone) nofun
    (by simp [RunningProcess.recordExit, hopen]) ?_
  · simp [RunningProcess.recordExit, hnone]
  · intro hclosed
    rw [show state.process.closed from hclosed] at hopen
    cases hopen

theorem LogInvariant.maybeEmitClosed :
    LogInvariant { state with process := state.process.maybeEmitClosed } := by
  unfold RunningProcess.maybeEmitClosed
  split
  · exact hinv
  next hready =>
    simp only [Bool.or_eq_true, decide_eq_true_eq, not_or, Bool.not_eq_true,
      Option.isNone_eq_false_iff, not_not] at hready
    obtain ⟨⟨hopen, hstreams⟩, hexit⟩ := hready
    exact hinv.append hopen rfl rfl rfl rfl (fun _ => .inl) (by simp) nofun hinv.watching
      (by simp) fun _ => ⟨hstreams, Option.isSome_iff_ne_none.mp hexit⟩

theorem LogInvariant.step (hstep : ServerStep state state') : LogInvariant state' := by
  cases hstep with
  | streamOutput task bytes htask => exact hinv.streamOutput htask _ bytes
  | finishOutputStream task htask => exact hinv.finishOutputStream htask
  | watchExit exitCode sandboxDenied hwatching =>
    exact hinv.recordExit hwatching exitCode sandboxDenied
  | maybeEmitClosed => exact hinv.maybeEmitClosed

end

theorem ServerStep.events_prefix (hstep : ServerStep state state') :
    state.process.events <+: state'.process.events := by
  cases hstep with
  | streamOutput | watchExit => exact prefix_append _ _
  | finishOutputStream task htask => exact prefix_refl _
  | maybeEmitClosed =>
    unfold RunningProcess.maybeEmitClosed
    split
    · exact prefix_refl _
    · exact prefix_append _ _

/-! ## Every run of the server -/

/-- Any interleaving of the steps. -/
def ServerRun : ServerState → ServerState → Prop := Relation.ReflTransGen ServerStep

theorem LogInvariant.run (hinv : LogInvariant state) (hrun : ServerRun state state') :
    LogInvariant state' := by
  induction hrun with
  | refl => exact hinv
  | tail _ hstep ih => exact ih.step hstep

theorem ServerRun.events_prefix (hrun : ServerRun state state') :
    state.process.events <+: state'.process.events := by
  induction hrun with
  | refl => exact prefix_refl _
  | tail _ hstep ih => exact ih.trans hstep.events_prefix

/-- A page is a front part of what is retained. -/
theorem takeChunks_spec (maxBytes totalBytes nextSeq : ℕ)
    (chunks retained : List ProcessOutputChunk) :
    ∃ taken unread, retained = taken ++ unread ∧
      takeChunks maxBytes totalBytes chunks nextSeq retained =
        (chunks ++ taken, (taken.getLast?.map (·.seq + 1)).getD nextSeq) ∧
      (chunks = [] → retained ≠ [] → taken ≠ []) ∧
      (totalBytes + (retained.map (·.chunk.length)).sum < maxBytes → unread = []) := by
  induction retained generalizing totalBytes nextSeq chunks with
  | nil => exact ⟨[], [], rfl, by simp [takeChunks], by simp, fun _ => rfl⟩
  | cons chunk retained ih =>
    rw [takeChunks]
    split_ifs with hover hfull
    · refine ⟨[], chunk :: retained, rfl, by simp, by simp [hover.1], ?_⟩
      grind
    · refine ⟨[chunk], retained, rfl, by simp, by simp, ?_⟩
      grind
    · obtain ⟨taken, unread, rfl, htake, -, hall⟩ :=
        ih (totalBytes + chunk.chunk.length) (chunk.seq + 1) (chunks ++ [chunk])
      refine ⟨chunk :: taken, unread, rfl, ?_, by simp, ?_⟩
      · rw [htake, getLast?_cons]
        cases taken.getLast? <;> simp
      · grind

/-- What a read without a byte limit answers stays a snapshot while the log grows. -/
theorem LogInvariant.execRead_isSnapshot (hinv : LogInvariant state) (afterSeq : Option ℕ)
    {log : List ExecProcessEvent} (hlog : IsServerLog log)
    (hbegins : state.process.events <+: log) :
    IsSnapshot log (state.process.execRead afterSeq none) := by
  have htake := prefix_iff_eq_take.mp hbegins
  -- Up to its own number, a read sees all of the later log.
  have hseen : ∀ event ∈ log, ∀ seq, event.seq = some seq →
      (event ∈ state.process.events ↔ seq < state.process.nextSeq) := by
    intro event hevent seq hseq
    rw [htake, hlog.mem_take_iff hevent hseq, hinv.nextSeq]
    omega
  refine
    { nextSeq_le := ?_
      chunks := ?_
      exited := ?_
      exitCode := ?_
      closed := ?_ }
  · show state.process.nextSeq ≤ _
    rw [hinv.nextSeq]
    have := hbegins.length_le
    omega
  · intro chunk hchunk
    obtain ⟨taken, unread, hsplit, htaken, -⟩ := takeChunks_spec (2 ^ 64 - 1) 0
      state.process.nextSeq [] (state.process.output.filter (afterSeq.getD 0 < ·.seq))
    have hread : chunk ∈ taken := by
      rw [execRead, Option.getD_none, htaken] at hchunk
      exact hchunk
    have hretained := hsplit ▸ mem_append_left unread hread
    have hmem := hinv.output chunk (mem_filter.mp hretained).1
    exact ⟨hbegins.subset hmem, (hseen _ (hbegins.subset hmem) _ rfl).mp hmem⟩
  · show state.process.exitCode.isSome ↔ _
    rw [Option.isSome_iff_exists]
    constructor
    · rintro ⟨exitCode, hexit⟩
      obtain ⟨seq, denied, hmem⟩ := (hinv.exited exitCode).mp hexit
      exact ⟨seq, exitCode, denied, hbegins.subset hmem,
        (hseen _ (hbegins.subset hmem) _ rfl).mp hmem⟩
    · rintro ⟨seq, exitCode, denied, hmem, hlt⟩
      exact ⟨exitCode, (hinv.exited exitCode).mpr ⟨seq, denied, (hseen _ hmem _ rfl).mpr hlt⟩⟩
  · intro seq exitCode denied hmem hlt
    exact (hinv.exited exitCode).mpr ⟨seq, denied, (hseen _ hmem _ rfl).mpr hlt⟩
  · show state.process.closed ↔ _
    rw [hinv.closed]
    constructor
    · rintro ⟨seq, hmem⟩
      exact ⟨seq, hbegins.subset hmem, (hseen _ (hbegins.subset hmem) _ rfl).mp hmem⟩
    · rintro ⟨seq, hmem, hlt⟩
      exact ⟨seq, (hseen _ hmem _ rfl).mpr hlt⟩

/-- What reaches a session of a server that has got to `state`. -/
def Arrival.ComesFrom (tty : Bool) (state : ServerState) : Arrival → Prop
  | .notification event => event ∈ state.process.events
  | .recovery response => ∃ earlier afterSeq, ServerRun (.start tty) earlier ∧
      ServerRun earlier state ∧ response = earlier.process.execRead afterSeq none
  | .failure _ => True

variable {tty : Bool}

/-- Whatever reaches a session, it shows a prefix of the log. -/
theorem follows_server (hserver : ServerRun (.start tty) state)
    (hfits : state.process.events.length < 2 ^ 64) {arrivals : List Arrival}
    (hcomes : ∀ arrival ∈ arrivals, arrival.ComesFrom tty state) {session : SessionState}
    (hrun : receiveAll arrivals .new = .ok () session) :
    Follows (state.process.events.map ExecProcessEvent.withoutDenied) session := by
  have hinv := (logInvariant_start tty).run hserver
  have hlog : IsServerLog _ := ⟨hfits, hinv.numbered, hinv.exitedOnce, hinv.closedLast⟩
  refine follows_receiveAll hlog (fun arrival harrival => ?_) hrun
  have hcomes := hcomes arrival harrival
  cases arrival with
  | notification event => exact hcomes
  | recovery response =>
    obtain ⟨earlier, afterSeq, hearlier, hlater, rfl⟩ := hcomes
    exact ((logInvariant_start tty).run hearlier).execRead_isSnapshot afterSeq hlog
      hlater.events_prefix
  | failure message => trivial

/-! ## Paged reads -/

/-- The retained chunks are ordered, numbered below the next one, and within their limit. -/
structure RetainsInOrder (process : RunningProcess) : Prop where
  ordered : process.output.Pairwise (·.seq < ·.seq)
  bounds : ∀ chunk ∈ process.output, 0 < chunk.seq ∧ chunk.seq < process.nextSeq
  bytes : process.retainedBytes = (process.output.map (·.chunk.length)).sum
  bytes_le : process.retainedBytes ≤ retainedOutputBytesPerProcess
  nextSeq_pos : 0 < process.nextSeq

/-- Eviction drops the oldest chunks, until the rest fits. -/
theorem evict_spec (output : List ProcessOutputChunk) :
    ∃ kept, kept <:+ output ∧ (kept.map (·.chunk.length)).sum ≤ retainedOutputBytesPerProcess ∧
      evict (output.map (·.chunk.length)).sum output =
        ((kept.map (·.chunk.length)).sum, kept) := by
  induction output with
  | nil => exact ⟨[], nil_suffix, Nat.zero_le _, rfl⟩
  | cons chunk output ih =>
    rw [evict]
    split_ifs with hover
    · obtain ⟨kept, hsuffix, hle, hevict⟩ := ih
      refine ⟨kept, hsuffix.trans (suffix_cons _ _), hle, ?_⟩
      rw [map_cons, sum_cons, Nat.add_sub_cancel_left, hevict]
    · exact ⟨_, suffix_refl _, by omega, rfl⟩

/-- The chunks stay in order while new ones arrive and old ones are dropped. -/
theorem RetainsInOrder.streamOutput (h : RetainsInOrder process)
    (stream : ExecOutputStream) (bytes : List UInt8) :
    RetainsInOrder (process.streamOutput stream bytes) := by
  obtain ⟨kept, hsuffix, hle, hevict⟩ :=
    evict_spec (process.output ++ [⟨process.nextSeq, stream, bytes⟩])
  rw [map_append, sum_append, ← h.bytes, map_singleton, sum_singleton] at hevict
  have hordered : kept.Pairwise (·.seq < ·.seq) := by
    refine List.Pairwise.sublist hsuffix.sublist ?_
    rw [pairwise_append]
    refine ⟨h.ordered, pairwise_singleton _ _, fun chunk hchunk new hnew => ?_⟩
    rw [mem_singleton.mp hnew]
    exact (h.bounds chunk hchunk).2
  have hbounds : ∀ chunk ∈ kept, 0 < chunk.seq ∧ chunk.seq < process.nextSeq + 1 := by
    intro chunk hchunk
    have hpos := h.nextSeq_pos
    rcases mem_append.mp (hsuffix.subset hchunk) with hold | hnew
    · have hold := h.bounds chunk hold
      omega
    · rw [mem_singleton.mp hnew]
      exact ⟨hpos, Nat.lt_succ_self _⟩
  unfold RunningProcess.streamOutput
  simp only [hevict]
  exact ⟨hordered, hbounds, rfl, hle, Nat.succ_pos _⟩

theorem RetainsInOrder.of_output_eq {process' : RunningProcess}
    (h : RetainsInOrder process) (houtput : process'.output = process.output)
    (hbytes : process'.retainedBytes = process.retainedBytes)
    (hnext : process.nextSeq ≤ process'.nextSeq) : RetainsInOrder process' := by
  obtain ⟨hordered, hbounds, hsum, hle, hpos⟩ := h
  rw [← houtput] at hordered hbounds hsum
  rw [← hbytes] at hsum hle
  refine ⟨hordered, fun chunk hchunk => ?_, hsum, hle, by omega⟩
  have hchunk := hbounds chunk hchunk
  omega

theorem retainsInOrder_run (hrun : ServerRun (.start tty) state) :
    RetainsInOrder state.process := by
  induction hrun with
  | refl => exact ⟨.nil, nofun, rfl, Nat.zero_le _, Nat.one_pos⟩
  | tail _ hstep ih =>
    cases hstep with
    | streamOutput task bytes _ => exact ih.streamOutput _ bytes
    | finishOutputStream => exact ih.of_output_eq rfl rfl (Nat.le_refl _)
    | watchExit => exact ih.of_output_eq rfl rfl (Nat.le_succ _)
    | maybeEmitClosed =>
      unfold maybeEmitClosed
      split
      · exact ih
      · exact ih.of_output_eq rfl rfl (Nat.le_succ _)

@[simp] def ExecProcessEvent.chunk? : ExecProcessEvent → Option ProcessOutputChunk
  | .output chunk => some chunk
  | _ => none

theorem output_suffix_run (hrun : ServerRun (.start tty) state) :
    state.process.output <:+ state.process.events.filterMap ExecProcessEvent.chunk? := by
  induction hrun with
  | refl => exact nil_suffix
  | tail _ hstep ih =>
    cases hstep with
    | streamOutput =>
      simp only [RunningProcess.streamOutput, filterMap_append]
      exact (evict_suffix _ _).trans (suffix_append_self_iff.mpr ih)
    | finishOutputStream => exact ih
    | watchExit => simpa [recordExit, filterMap_cons] using ih
    | maybeEmitClosed =>
      unfold maybeEmitClosed
      split
      · exact ih
      · simpa [filterMap_cons] using ih

/-- However the tasks interleave, only the oldest output is given up. -/
theorem server_keeps_books (hrun : ServerRun (.start tty) state) :
    LogInvariant state ∧ RetainsInOrder state.process ∧
      state.process.output <:+ state.process.events.filterMap ExecProcessEvent.chunk? :=
  ⟨(logInvariant_start tty).run hrun, retainsInOrder_run hrun, output_suffix_run hrun⟩

/-- Where a client that has read some pages goes on. -/
def cursorAfter (pages : List ReadResponse) : Option ℕ := pages.getLast?.map (·.nextSeq - 1)

/-- Pages read one after the other, each behind the one before. -/
def readPages (process : RunningProcess) (budgets : List (Option ℕ)) : List ReadResponse :=
  budgets.foldl (fun pages maxBytes => pages ++ [process.execRead (cursorAfter pages) maxBytes]) []

theorem bounds_of_pairwise {early late : List ProcessOutputChunk} {last : ProcessOutputChunk}
    (h : (early ++ [last] ++ late).Pairwise (·.seq < ·.seq)) :
    (∀ chunk ∈ early ++ [last], chunk.seq ≤ last.seq) ∧ ∀ chunk ∈ late, last.seq < chunk.seq := by
  simp only [pairwise_append, mem_append, mem_singleton, forall_eq] at h ⊢
  refine ⟨?_, h.2.2 last (.inr rfl)⟩
  rintro chunk (hearly | rfl)
  · exact Nat.le_of_lt (h.1.2.2 chunk hearly)
  · exact Nat.le_refl _

theorem RetainsInOrder.execRead (h : RetainsInOrder process)
    {read unread : List ProcessOutputChunk} {afterSeq : Option ℕ}
    (hsplit : process.output = read ++ unread) (hread : ∀ chunk ∈ read, chunk.seq ≤ afterSeq.getD 0)
    (hunread : ∀ chunk ∈ unread, afterSeq.getD 0 < chunk.seq) (maxBytes : Option ℕ) :
    ∃ left, unread = (process.execRead afterSeq maxBytes).chunks ++ left ∧
      (unread ≠ [] → (process.execRead afterSeq maxBytes).chunks ≠ []) ∧
      (∀ chunk ∈ read ++ (process.execRead afterSeq maxBytes).chunks,
        chunk.seq ≤ (process.execRead afterSeq maxBytes).nextSeq - 1) ∧
      ∀ chunk ∈ left, (process.execRead afterSeq maxBytes).nextSeq - 1 < chunk.seq := by
  have hfilter : process.output.filter (afterSeq.getD 0 < ·.seq) = unread := by
    rw [hsplit, filter_append, filter_eq_nil_iff.mpr]
    · simpa using hunread
    · simpa using hread
  obtain ⟨taken, left, rfl, htake, hprogress, hall⟩ :=
    takeChunks_spec (maxBytes.getD (2 ^ 64 - 1)) 0 process.nextSeq [] unread
  have hchunks : (process.execRead afterSeq maxBytes).chunks = taken := by
    rw [RunningProcess.execRead, hfilter, htake, nil_append]
  rw [hchunks, ← append_assoc] at *
  refine ⟨left, rfl, hprogress rfl, ?_⟩
  have hordered := h.ordered
  rw [hsplit] at hordered
  have hdone : left = [] → (∀ chunk ∈ read ++ taken, chunk.seq ≤ process.nextSeq - 1) ∧
      ∀ chunk ∈ left, process.nextSeq - 1 < chunk.seq := by
    rintro rfl
    rw [append_nil] at hsplit
    refine ⟨fun chunk hchunk => ?_, nofun⟩
    exact Nat.le_sub_one_of_lt (h.bounds chunk (hsplit ▸ hchunk)).2
  cases maxBytes with
  | none =>
    apply hdone
    apply hall
    -- The retained bytes are far below the limit that stands for none.
    have hbytes := h.bytes.symm.trans_le h.bytes_le
    rw [hsplit, append_assoc, map_append, sum_append] at hbytes
    unfold retainedOutputBytesPerProcess at hbytes
    rw [Option.getD_none]
    omega
  | some budget =>
    have hnext : (process.execRead afterSeq (some budget)).nextSeq =
        (taken.getLast?.map (·.seq + 1)).getD process.nextSeq := by
      rw [RunningProcess.execRead, hfilter, htake]
      rfl
    rw [hnext]
    rcases eq_nil_or_concat taken with rfl | ⟨early, last, rfl⟩
    · apply hdone
      by_contra hne
      exact hprogress rfl hne rfl
    · rw [concat_eq_append, ← append_assoc] at hordered ⊢
      rw [getLast?_concat]
      exact bounds_of_pairwise hordered

/-- Pages continue each other without a gap. -/
theorem RetainsInOrder.exists_unread (h : RetainsInOrder process) (budgets : List (Option ℕ)) :
    ∃ unread, process.output = (readPages process budgets).flatMap (·.chunks) ++ unread ∧
      (∀ chunk ∈ (readPages process budgets).flatMap (·.chunks),
        chunk.seq ≤ (cursorAfter (readPages process budgets)).getD 0) ∧
      (∀ chunk ∈ unread, (cursorAfter (readPages process budgets)).getD 0 < chunk.seq) ∧
      (unread = [] ∨ budgets.length + unread.length ≤ process.output.length) := by
  induction budgets using List.reverseRecOn with
  | nil =>
    refine ⟨process.output, rfl, nofun, fun chunk hchunk => (h.bounds chunk hchunk).1, .inr ?_⟩
    exact Nat.le_of_eq (Nat.zero_add _)
  | append_singleton budgets maxBytes ih =>
    obtain ⟨unread, hsplit, hread, hunread, hcount⟩ := ih
    obtain ⟨left, hleft, hprogress, hread', hunread'⟩ := h.execRead hsplit hread hunread maxBytes
    have hcursor : (cursorAfter (readPages process budgets ++ [process.execRead
        (cursorAfter (readPages process budgets)) maxBytes])).getD 0 =
        (process.execRead (cursorAfter (readPages process budgets)) maxBytes).nextSeq - 1 := by
      rw [cursorAfter, getLast?_concat]
      rfl
    rw [readPages, foldl_append, foldl_cons, foldl_nil, ← readPages, flatMap_append,
      flatMap_singleton, hcursor]
    refine ⟨left, ?_, hread', hunread', ?_⟩
    · rw [append_assoc, ← hleft]
      exact hsplit
    · have hlengths := congrArg List.length hleft
      rw [length_append] at hlengths ⊢
      by_cases hnone : left = []
      · exact .inl hnone
      · have hne : unread ≠ [] := by
          rintro rfl
          exact hnone (append_eq_nil_iff.mp hleft.symm).2
        have hpos := length_pos_iff.mpr (hprogress hne)
        have hcount := hcount.resolve_left hne
        rw [length_singleton]
        exact .inr (by omega)

/-- Page by page, whatever the budgets, the retained chunks are delivered once and in order, at
least one with every call while some are left.  Whether the process is closed is reported
with every page. -/
theorem paged_reads_deliver_once {tty : Bool} (hrun : ServerRun (.start tty) state)
    (budgets : List (Option ℕ)) :
    (∃ unread, state.process.output =
        (readPages state.process budgets).flatMap (·.chunks) ++ unread ∧
      ∀ maxBytes, unread ≠ [] →
        (state.process.execRead (cursorAfter (readPages state.process budgets)) maxBytes).chunks ≠
          []) ∧
    (state.process.output.length ≤ budgets.length →
      (readPages state.process budgets).flatMap (·.chunks) = state.process.output) ∧
    ∀ afterSeq maxBytes, (state.process.execRead afterSeq maxBytes).closed =
      state.process.closed := by
  have hretains := retainsInOrder_run hrun
  obtain ⟨unread, hsplit, hread, hunread, hcount⟩ := hretains.exists_unread budgets
  refine ⟨⟨unread, hsplit, fun maxBytes hne => ?_⟩, fun hlength => ?_, fun _ _ => rfl⟩
  · obtain ⟨left, -, hprogress, -⟩ := hretains.execRead hsplit hread hunread maxBytes
    exact hprogress hne
  · have hnone : unread = [] := by
      rcases hcount with hnone | hcount
      · exact hnone
      · exact eq_nil_of_length_eq_zero (by omega)
    rw [hsplit, hnone, append_nil]

def closedState : ServerState where
  process :=
    { start false with
      output := [⟨1, .stdout, [104]⟩, ⟨2, .stdout, [105]⟩]
      retainedBytes := 2
      nextSeq := 5
      exitCode := some 0
      openStreams := 0
      closed := true
      events := [.output ⟨1, .stdout, [104]⟩, .output ⟨2, .stdout, [105]⟩,
        .exited 3 0 (some false), .closed 4] }
  streaming := []
  watchingExit := false

theorem run_closedState : ServerRun (.start false) closedState :=
  .head (.streamOutput .stdoutTask [104] (by decide)) <|
  .head (.streamOutput .stdoutTask [105] (by decide)) <|
  .head (.watchExit 0 false rfl) <|
  .head (.finishOutputStream .stdoutTask (by decide)) <|
  .head (.finishOutputStream .stderrTask (by decide)) <|
  .single .maybeEmitClosed

/-- A client that misses everything but the close recovers the log. -/
theorem closedState_followed :
    let arrivals := [.notification (.closed 4), .recovery (closedState.process.execRead none none)]
    ∃ session, receiveAll arrivals .new = .ok () session ∧
      Follows (closedState.process.events.map ExecProcessEvent.withoutDenied) session := by
  intro arrivals
  have hcomes : ∀ arrival ∈ arrivals, arrival.ComesFrom false closedState :=
    forall_mem_cons.mpr ⟨by simp [Arrival.ComesFrom, closedState],
      forall_mem_singleton.mpr ⟨_, _, run_closedState, .refl, rfl⟩⟩
  exact ⟨_, rfl, follows_server run_closedState (by decide) hcomes rfl⟩

theorem closedState_keeps_books : LogInvariant closedState ∧ RetainsInOrder closedState.process :=
  (server_keeps_books run_closedState).imp_right And.left

theorem two_pages_deliver_closedState :
    (readPages closedState.process [some 1, some 1]).flatMap (·.chunks) =
      closedState.process.output :=
  (paged_reads_deliver_once run_closedState [some 1, some 1]).2.1 (by decide)

/-- The first page says that the process is closed, and leaves a chunk. -/
theorem closed_with_chunk_unread :
    ServerRun (.start false) closedState ∧
      (closedState.process.execRead none (some 1)).closed = true ∧
      ∃ chunk ∈ closedState.process.output,
        chunk ∉ (closedState.process.execRead none (some 1)).chunks :=
  ⟨run_closedState, rfl, ⟨2, .stdout, [105]⟩, by decide, by decide⟩

end Rexux.ExecServer
