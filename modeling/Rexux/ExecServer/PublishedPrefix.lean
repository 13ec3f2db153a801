import Rexux.ExecServer.SessionEvents

/-!
# What a session publishes is a prefix of the server's log

The server numbers the events of a process from one on.  However its notifications
are lost, repeated or reordered, and whenever read responses are recovered in
between, a session whose calls all succeed has published a prefix of that log.

The invariant `Follows` says it of the session between two calls.  Inside
`recoverEvents` it can fail for a while: the loop takes the first gap for the exit
of the process, and the gap may as well be an output chunk the server no longer
retains.  The real exit is then still missing when the call counts what is missing,
and the call fails.
-/

namespace Rexux.ExecServer

open Foundation List OrderedSessionEvents OrderedMap ExecProcessEvent SessionState

/-- The exit without what was found out about the sandbox. -/
def ExecProcessEvent.withoutDenied : ExecProcessEvent → ExecProcessEvent
  | .exited seq exitCode _ => .exited seq exitCode none
  | event => event

/-- The events a server produces for one process, oldest first. -/
structure IsServerLog (log : List ExecProcessEvent) : Prop where
  fits : log.length < 2 ^ 64
  numbered : ∀ index event, log[index]? = some event → event.seq = some (index + 1)
  exitedOnce : ∀ event ∈ log, ∀ other ∈ log,
    event.isExited = true → other.isExited = true → event.seq = other.seq
  closedLast : ∀ event ∈ log, event.isClosed = true → event.seq = some log.length

/-- A read response that tells the truth about the log up to its `nextSeq`.  Chunks may
be missing from it, since the server retains only so many. -/
structure IsSnapshot (log : List ExecProcessEvent) (response : ReadResponse) : Prop where
  nextSeq_le : response.nextSeq ≤ log.length + 1
  chunks : ∀ chunk ∈ response.chunks, .output chunk ∈ log ∧ chunk.seq < response.nextSeq
  exited : response.exited = true ↔
    ∃ seq exitCode denied, .exited seq exitCode denied ∈ log ∧ seq < response.nextSeq
  exitCode : ∀ seq exitCode denied, .exited seq exitCode denied ∈ log →
    seq < response.nextSeq → response.exitCode = some exitCode
  closed : response.closed = true ↔ ∃ seq, .closed seq ∈ log ∧ seq < response.nextSeq

variable {log : List ExecProcessEvent} {event : ExecProcessEvent}

section WithoutDenied

@[simp] theorem seq_withoutDenied : event.withoutDenied.seq = event.seq := by
  cases event <;> rfl

@[simp] theorem isExited_withoutDenied : event.withoutDenied.isExited = event.isExited := by
  cases event <;> rfl

@[simp] theorem isClosed_withoutDenied : event.withoutDenied.isClosed = event.isClosed := by
  cases event <;> rfl

theorem withoutDenied_noteSandboxDenied (denied : Bool) :
    (event.noteSandboxDenied denied).withoutDenied = event.withoutDenied := by
  cases event <;> rfl

theorem seq_noteSandboxDenied (denied : Bool) :
    (event.noteSandboxDenied denied).seq = event.seq := by
  cases event <;> rfl

theorem IsServerLog.withoutDenied (hlog : IsServerLog log) :
    IsServerLog (log.map withoutDenied) where
  fits := by
    rw [length_map]
    exact hlog.fits
  numbered := by
    intro index event hevent
    rw [getElem?_map, Option.map_eq_some_iff] at hevent
    obtain ⟨original, horiginal, rfl⟩ := hevent
    rw [seq_withoutDenied]
    exact hlog.numbered index original horiginal
  exitedOnce := by
    intro event hevent other hother
    obtain ⟨event, hoccurs, rfl⟩ := mem_map.mp hevent
    obtain ⟨other, hoccursToo, rfl⟩ := mem_map.mp hother
    simpa using hlog.exitedOnce event hoccurs other hoccursToo
  closedLast := by
    intro event hevent
    obtain ⟨event, hoccurs, rfl⟩ := mem_map.mp hevent
    simpa using hlog.closedLast event hoccurs

end WithoutDenied

section Log

variable {other : ExecProcessEvent} {seq : ℕ} (hlog : IsServerLog log) (hmem : event ∈ log)
include hlog hmem

theorem IsServerLog.getElem?_of_seq (hseq : event.seq = some seq) :
    0 < seq ∧ log[seq - 1]? = some event := by
  obtain ⟨index, hindex⟩ := mem_iff_getElem?.mp hmem
  have hnumber := hlog.numbered index event hindex
  rw [hseq, Option.some.injEq] at hnumber
  subst hnumber
  exact ⟨Nat.succ_pos _, hindex⟩

theorem IsServerLog.seq_le_length (hseq : event.seq = some seq) : seq ≤ log.length := by
  obtain ⟨hpos, hget⟩ := hlog.getElem?_of_seq hmem hseq
  have hlt := (List.getElem?_eq_some_iff.mp hget).1
  omega

theorem IsServerLog.eq_of_seq (hother : other ∈ log)
    (hseq : event.seq = some seq) (hseqOther : other.seq = some seq) : event = other := by
  have hget := (hlog.getElem?_of_seq hmem hseq).2
  rw [(hlog.getElem?_of_seq hother hseqOther).2] at hget
  exact (Option.some.inj hget).symm

theorem IsServerLog.mem_take_iff (hseq : event.seq = some seq) (n : ℕ) :
    event ∈ log.take n ↔ seq ≤ n := by
  obtain ⟨hpos, hget⟩ := hlog.getElem?_of_seq hmem hseq
  constructor
  · intro htake
    obtain ⟨index, hindex⟩ := mem_iff_getElem?.mp htake
    rw [getElem?_take] at hindex
    split_ifs at hindex with hlt
    have hnumber := hlog.numbered index event hindex
    rw [hseq, Option.some.injEq] at hnumber
    omega
  · intro hle
    refine mem_iff_getElem?.mpr ⟨seq - 1, ?_⟩
    rw [getElem?_take_of_lt (by omega), hget]

theorem IsServerLog.take_succ (hseq : event.seq = some (seq + 1)) :
    log.take (seq + 1) = log.take seq ++ [event] := by
  have hget := (hlog.getElem?_of_seq hmem hseq).2
  rw [Nat.add_sub_cancel] at hget
  rw [take_add_one, hget]
  rfl

end Log

/-- The session has published the log up to `lastPublishedSeq`, and what it keeps back
is in the log after that. -/
structure Follows (log : List ExecProcessEvent) (session : SessionState) : Prop where
  last_le : session.orderedEvents.lastPublishedSeq ≤ log.length
  published : session.events.map withoutDenied =
    log.take session.orderedEvents.lastPublishedSeq ++
      session.orderedEvents.failure.toList.map failed
  pending : ∀ seq event, session.orderedEvents.pending.get? seq = some event →
    session.orderedEvents.lastPublishedSeq < seq ∧ event.seq = some seq ∧ event.withoutDenied ∈ log
  exitPublished : session.orderedEvents.exitPublished = true ↔
    ∃ event ∈ log.take session.orderedEvents.lastPublishedSeq, event.isExited = true
  closedPublished : session.orderedEvents.closedPublished = true ↔
    ∃ event ∈ log.take session.orderedEvents.lastPublishedSeq, event.isClosed = true
  openAtFailure : session.orderedEvents.failure ≠ none →
    session.orderedEvents.closedPublished = false

/-- The event of a number is neither published nor pending. -/
structure Missing (seq : ℕ) (ordered : OrderedSessionEvents) : Prop where
  unpublished : ordered.lastPublishedSeq < seq
  absent : ordered.pending.get? seq = none

variable {session session' : SessionState} {seq : ℕ}

theorem follows_new (log : List ExecProcessEvent) : Follows log .new where
  last_le := Nat.zero_le _
  published := rfl
  pending := by
    intro seq event h
    cases h
  exitPublished := by simp [new]
  closedPublished := by simp [new]
  openAtFailure := fun _ => rfl

theorem Follows.insertPending (hfollows : Follows log session) (hmem : event.withoutDenied ∈ log)
    (hnew : ∀ seq, event.seq = some seq → session.orderedEvents.lastPublishedSeq < seq)
    (hrun : insertPending event session = .ok () session') :
    Follows log session' ∧ session'.orderedEvents.failure = session.orderedEvents.failure := by
  obtain ⟨ordered, hordered, rfl⟩ := insertPending_run hrun
  obtain ⟨seq, hseq, ⟨-, rfl⟩ | ⟨hnone, bytes, rfl⟩⟩ := insertPending_ok hordered
  · exact ⟨hfollows, rfl⟩
  · refine ⟨{ hfollows with pending := ?_ }, rfl⟩
    intro other found hget
    rw [get?_insert] at hget
    split at hget
    next heq =>
      cases hget
      rw [heq]
      exact ⟨hnew seq hseq, hseq, hmem⟩
    · exact hfollows.pending other found hget

theorem Missing.insertPending (hmissing : Missing seq session.orderedEvents)
    (hne : event.seq ≠ some seq) (hrun : insertPending event session = .ok () session') :
    Missing seq session'.orderedEvents := by
  obtain ⟨ordered, hordered, rfl⟩ := insertPending_run hrun
  obtain ⟨inserted, hseq, ⟨-, rfl⟩ | ⟨hnone, bytes, rfl⟩⟩ := insertPending_ok hordered
  · exact hmissing
  · refine ⟨hmissing.unpublished, ?_⟩
    rw [get?_insert, if_neg, hmissing.absent]
    rintro rfl
    exact hne hseq

/-! ## Publishing what is ready -/

theorem exists_mem_append_singleton {p : ExecProcessEvent → Bool} {events : List ExecProcessEvent}
    {flag : Bool} (h : flag ↔ ∃ event ∈ events, p event) :
    (flag || p event) ↔ ∃ other ∈ events ++ [event], p other := by
  rw [Bool.or_eq_true, h]
  simp

/-- Publishing the next pending event keeps to the log. -/
theorem Follows.publishNext (hlog : IsServerLog log) (hfollows : Follows log session)
    (hopen : session.orderedEvents.failure = none)
    (hget : session.orderedEvents.pending.get? session.orderedEvents.nextSeq = some event) :
    Follows log (session.publishNext event) := by
  obtain ⟨hlt, hseq, hmem⟩ := hfollows.pending _ _ hget
  have hle := hlog.seq_le_length hmem (seq_withoutDenied.trans hseq)
  have hfits := hlog.fits
  have hnext : session.orderedEvents.nextSeq = _ := saturatingAdd_one (by omega)
  have htake : log.take session.orderedEvents.nextSeq =
      log.take session.orderedEvents.lastPublishedSeq ++ [event.withoutDenied] := by
    rw [hnext] at hseq ⊢
    exact hlog.take_succ hmem (seq_withoutDenied.trans hseq)
  refine
    { last_le := hle
      published := ?_
      pending := ?_
      exitPublished := ?_
      closedPublished := ?_
      openAtFailure := fun h => absurd hopen h }
  · have hpublished := hfollows.published
    rw [hopen] at hpublished
    show (session.events ++ [event]).map _ = log.take session.orderedEvents.nextSeq ++
      session.orderedEvents.failure.toList.map _
    rw [hopen, htake, map_append, hpublished]
    simp
  · intro other found hother
    have hother : (session.orderedEvents.pending.erase
        session.orderedEvents.nextSeq).get? other = some found := hother
    rw [get?_erase] at hother
    split_ifs at hother with hne
    obtain ⟨hafter, hrest⟩ := hfollows.pending other found hother
    refine ⟨?_, hrest⟩
    show session.orderedEvents.nextSeq < other
    omega
  · show (_ || event.isExited) ↔ ∃ _ ∈ log.take session.orderedEvents.nextSeq, _
    rw [htake, ← isExited_withoutDenied]
    exact exists_mem_append_singleton hfollows.exitPublished
  · show (_ || event.isClosed) ↔ ∃ _ ∈ log.take session.orderedEvents.nextSeq, _
    rw [htake, ← isClosed_withoutDenied]
    exact exists_mem_append_singleton hfollows.closedPublished

/-- So does publishing all that is ready. -/
theorem Follows.publishReady (hlog : IsServerLog log) (hfollows : Follows log session)
    (hopen : session.orderedEvents.failure = none) :
    Follows log session.publishReady.2 ∧ session.publishReady.2.orderedEvents.failure = none := by
  refine publishReady_keeps
    (fun session => Follows log session ∧ session.orderedEvents.failure = none)
    ?_ ⟨hfollows, hopen⟩
  rintro session event ⟨hfollows, hopen⟩ hget
  exact ⟨hfollows.publishNext hlog hopen hget, hopen⟩

theorem Missing.publishReady (hseq : seq < 2 ^ 64) (hmissing : Missing seq session.orderedEvents) :
    Missing seq session.publishReady.2.orderedEvents := by
  refine publishReady_keeps (fun session => Missing seq session.orderedEvents) ?_ hmissing
  intro session event hmissing hget
  have hnext : session.orderedEvents.nextSeq ≠ seq := by
    rintro rfl
    rw [hmissing.absent] at hget
    cases hget
  have hlast := hmissing.unpublished
  have hsucc : session.orderedEvents.nextSeq = session.orderedEvents.lastPublishedSeq + 1 :=
    saturatingAdd_one (by omega)
  refine ⟨?_, ?_⟩
  · show session.orderedEvents.nextSeq < seq
    omega
  · show (session.orderedEvents.pending.erase session.orderedEvents.nextSeq).get? seq = none
    rw [get?_erase, hmissing.absent, ite_self]

/-- The exit of the process, at or before the target, is neither published nor pending. -/
def ExitMissing (log : List ExecProcessEvent) (targetSeq : ℕ)
    (ordered : OrderedSessionEvents) : Prop :=
  ∃ seq exitCode, .exited seq exitCode none ∈ log ∧ seq ≤ targetSeq ∧ Missing seq ordered

/-- What `recoverEvents` is called on, past its early returns. -/
structure Recovering (log : List ExecProcessEvent) (response : ReadResponse)
    (targetSeq : ℕ) : Prop where
  isServerLog : IsServerLog log
  plain : ∀ event ∈ log, event.withoutDenied = event
  isSnapshot : IsSnapshot log response
  nextSeq : response.nextSeq = targetSeq + 1

/-- The session follows the log, and knows of the exit if the loop says so. -/
structure InStep (log : List ExecProcessEvent) (response : ReadResponse) (targetSeq : ℕ)
    (exitKnown : Bool) (session : SessionState) : Prop where
  follows : Follows log session
  unfailed : session.orderedEvents.failure = none
  exit : response.exited = true → exitKnown = false →
    ExitMissing log targetSeq session.orderedEvents

/-- Either the session is in step, or an event was taken for the exit that is not, and
the call is going to fail. -/
def Accounted (log : List ExecProcessEvent) (response : ReadResponse) (targetSeq : ℕ)
    (progress : RecoveryProgress)
    (session : SessionState) : Prop :=
  InStep log response targetSeq progress.exitKnown session ∨
    progress.exitKnown = true ∧ ExitMissing log targetSeq session.orderedEvents

variable {response : ReadResponse} {targetSeq : ℕ} {progress progress' : RecoveryProgress}
  {exitKnown : Bool} {chunk : ProcessOutputChunk}

namespace Recovering

section

variable (hrec : Recovering log response targetSeq)
include hrec

theorem target_le : targetSeq ≤ log.length := by
  have hle := hrec.isSnapshot.nextSeq_le
  rw [hrec.nextSeq] at hle
  omega

theorem target_lt : targetSeq < 2 ^ 64 := lt_of_le_of_lt hrec.target_le hrec.isServerLog.fits

theorem exists_exited (h : response.exited) :
    ∃ seq exitCode, .exited seq exitCode none ∈ log ∧ seq ≤ targetSeq := by
  rw [hrec.isSnapshot.exited, hrec.nextSeq] at h
  obtain ⟨seq, exitCode, denied, hmem, hlt⟩ := h
  have hplain := hrec.plain _ hmem
  refine ⟨seq, exitCode, ?_, by omega⟩
  rw [← hplain] at hmem
  exact hmem

theorem exitCode_eq {exitCode : ℤ}
    (hmem : .exited seq exitCode none ∈ log) (hle : seq ≤ targetSeq) :
    response.exitCode = some exitCode :=
  hrec.isSnapshot.exitCode seq exitCode none hmem (by rw [hrec.nextSeq]; omega)

theorem closed_mem (hclosed : response.closed) : .closed targetSeq ∈ log := by
  obtain ⟨seq, hmem, hlt⟩ := hrec.isSnapshot.closed.mp hclosed
  have hlast := hrec.isServerLog.closedLast _ hmem rfl
  rw [ExecProcessEvent.seq, Option.some.injEq] at hlast
  have hle := hrec.target_le
  rw [hrec.nextSeq] at hlt
  have htarget : targetSeq = seq := by omega
  rw [htarget]
  exact hmem

end

end Recovering

/-- The exit stays missing while other events come in. -/
theorem ExitMissing.insertPending (hlog : IsServerLog log)
    (hmissing : ExitMissing log targetSeq session.orderedEvents) (hmem : event ∈ log)
    (hother : event.isExited = false) (hrun : insertPending event session = .ok () session') :
    ExitMissing log targetSeq session'.orderedEvents := by
  obtain ⟨seq, exitCode, hexit, hle, hmissing⟩ := hmissing
  refine ⟨seq, exitCode, hexit, hle, hmissing.insertPending ?_ hrun⟩
  intro hseq
  rw [hlog.eq_of_seq hmem hexit hseq rfl] at hother
  cases hother

theorem ExitMissing.publishReady (hlog : IsServerLog log)
    (hmissing : ExitMissing log targetSeq session.orderedEvents) :
    ExitMissing log targetSeq session.publishReady.2.orderedEvents := by
  obtain ⟨seq, exitCode, hexit, hle, hmissing⟩ := hmissing
  refine ⟨seq, exitCode, hexit, hle, hmissing.publishReady ?_⟩
  exact lt_of_le_of_lt (hlog.seq_le_length hexit rfl) hlog.fits

section

variable (hrec : Recovering log response targetSeq)
include hrec

section

variable (hstep : InStep log response targetSeq exitKnown session)
include hstep

theorem InStep.insertPending (hmem : event ∈ log) (hother : event.isExited = false)
    (hnew : ∀ seq, event.seq = some seq → session.orderedEvents.lastPublishedSeq < seq)
    (hrun : insertPending event session = .ok () session') :
    InStep log response targetSeq exitKnown session' := by
  have hplain : event.withoutDenied ∈ log := by
    rw [hrec.plain event hmem]
    exact hmem
  obtain ⟨hfollows, hfailure⟩ := hstep.follows.insertPending hplain hnew hrun
  refine ⟨hfollows, hfailure.trans hstep.unfailed, fun hexited hknown => ?_⟩
  exact (hstep.exit hexited hknown).insertPending hrec.isServerLog hmem hother hrun

theorem InStep.publishReady : InStep log response targetSeq exitKnown session.publishReady.2 := by
  obtain ⟨hfollows, hunfailed⟩ := hstep.follows.publishReady hrec.isServerLog hstep.unfailed
  exact ⟨hfollows, hunfailed, fun hexited hknown =>
    (hstep.exit hexited hknown).publishReady hrec.isServerLog⟩

end

theorem Follows.insertRecoveredExit
    (hfollows : Follows log session) {exitCode : ℤ} (hmem : .exited seq exitCode none ∈ log)
    (hle : seq ≤ targetSeq) (hnew : session.orderedEvents.lastPublishedSeq < seq)
    (hrun : insertRecoveredExit response seq session = .ok () session') :
    Follows log session' ∧ session'.orderedEvents.failure = session.orderedEvents.failure := by
  unfold ExecServer.insertRecoveredExit at hrun
  rw [hrec.exitCode_eq hmem hle] at hrun
  refine Follows.insertPending hfollows ?_ ?_ hrun
  · exact hmem
  · intro other hother
    cases hother
    exact hnew

/-- The exit of the response goes in at `seq`: either this is where the exit is, or the
exit stays missing. -/
theorem InStep.insertRecoveredExit
    (hstep : InStep log response targetSeq false session) (hexited : response.exited)
    (hnew : session.orderedEvents.lastPublishedSeq < seq)
    (hrun : insertRecoveredExit response seq session = .ok () session') :
    Follows log session' ∧ session'.orderedEvents.failure = none ∨
      ExitMissing log targetSeq session'.orderedEvents := by
  obtain ⟨exitSeq, exitCode, hmem, hle, hmissing⟩ := hstep.exit hexited rfl
  by_cases heq : seq = exitSeq
  · subst heq
    left
    obtain ⟨hfollows, hfailure⟩ := hstep.follows.insertRecoveredExit hrec hmem hle hnew hrun
    exact ⟨hfollows, hfailure.trans hstep.unfailed⟩
  · right
    unfold ExecServer.insertRecoveredExit at hrun
    rw [hrec.exitCode_eq hmem hle] at hrun
    refine ⟨exitSeq, exitCode, hmem, hle, hmissing.insertPending ?_ hrun⟩
    intro hseq
    exact heq (Option.some.inj hseq)

variable (haccounted : Accounted log response targetSeq progress session)
include haccounted

theorem Accounted.recoverExitBefore (hchunk : chunk.seq ≤ targetSeq)
    (hrun : recoverExitBefore response chunk progress session = .ok progress' session') :
    Accounted log response targetSeq progress' session' := by
  unfold ExecServer.recoverExitBefore at hrun
  rw [run_get_bind] at hrun
  split at hrun
  next hgap =>
    simp only [Bool.and_eq_true, Bool.not_eq_true', decide_eq_true_eq] at hgap
    obtain ⟨⟨hexited, hunknown⟩, hlt⟩ := hgap
    have hstep : InStep log response targetSeq false session := by
      rcases haccounted with hstep | ⟨hknown, -⟩
      · rwa [hunknown] at hstep
      · rw [hunknown] at hknown
        cases hknown
    obtain ⟨⟨⟩, inserted, hinsert, hrun⟩ := run_bind_eq_ok_iff.mp hrun
    cases hrun
    have hnew : session.orderedEvents.lastPublishedSeq < session.orderedEvents.nextSeq := by
      have htarget := hrec.target_lt
      unfold OrderedSessionEvents.nextSeq saturatingAdd at hlt ⊢
      omega
    rcases hstep.insertRecoveredExit hrec hexited hnew hinsert with ⟨hfollows, hunfailed⟩ | hmissing
    · obtain ⟨hfollows, hunfailed⟩ := hfollows.publishReady hrec.isServerLog hunfailed
      exact .inl ⟨hfollows, hunfailed, fun _ hknown => by cases hknown⟩
    · exact .inr ⟨rfl, hmissing.publishReady hrec.isServerLog⟩
  · cases hrun
    exact haccounted

theorem Accounted.recoverOutput (hchunk : .output chunk ∈ log)
    (hrun : recoverOutput chunk progress session = .ok progress' session') :
    Accounted log response targetSeq progress' session' := by
  unfold ExecServer.recoverOutput at hrun
  rw [run_get_bind] at hrun
  split at hrun
  next hnew =>
    obtain ⟨⟨⟩, inserted, hinsert, hrun⟩ := run_bind_eq_ok_iff.mp hrun
    cases hrun
    rcases haccounted with hstep | ⟨hknown, hmissing⟩
    · left
      refine (hstep.insertPending hrec hchunk rfl ?_ hinsert).publishReady hrec
      intro seq hseq
      cases hseq
      exact hnew
    · exact .inr ⟨hknown, (hmissing.insertPending hrec.isServerLog hchunk rfl
        hinsert).publishReady hrec.isServerLog⟩
  · cases hrun
    exact haccounted

/-- A chunk of the snapshot is taken into account once. -/
theorem Accounted.recoverChunk (hchunk : .output chunk ∈ log)
    (hrun : recoverChunk response targetSeq progress chunk session = .ok progress' session') :
    Accounted log response targetSeq progress' session' := by
  unfold ExecServer.recoverChunk at hrun
  split at hrun
  · cases hrun
  next hle =>
    obtain ⟨between, middle, hexit, hrun⟩ := run_bind_eq_ok_iff.mp hrun
    exact (haccounted.recoverExitBefore hrec (not_lt.mp hle) hexit).recoverOutput hrec hchunk hrun

theorem Accounted.recoverClosed
    (hrun : recoverClosed response targetSeq session = .ok () session') :
    Accounted log response targetSeq progress session' := by
  unfold ExecServer.recoverClosed at hrun
  rw [run_get_bind] at hrun
  split at hrun
  next hclosed =>
    simp only [Bool.and_eq_true] at hclosed
    obtain ⟨⟨hclosed, hunpublished⟩, -⟩ := hclosed
    have hmem := hrec.closed_mem hclosed
    rcases haccounted with hstep | ⟨hknown, hmissing⟩
    · refine .inl (hstep.insertPending hrec hmem rfl ?_ hrun)
      intro seq hseq
      cases hseq
      by_contra hle
      have htake := (hrec.isServerLog.mem_take_iff hmem rfl
        session.orderedEvents.lastPublishedSeq).mpr (not_lt.mp hle)
      rw [hstep.follows.closedPublished.mpr ⟨_, htake, rfl⟩] at hunpublished
      cases hunpublished
    · exact .inr ⟨hknown, hmissing.insertPending hrec.isServerLog hmem rfl hrun⟩
  · cases hrun
    exact haccounted

end

/-! ## Counting what is missing -/

/-- At least as many events are counted missing as are known to be. -/
theorem missingCount_ge (htarget : targetSeq < 2 ^ 64) (ordered : OrderedSessionEvents)
    (missing : Finset ℕ) (hne : missing.Nonempty)
    (hmissing : ∀ seq ∈ missing, seq ≤ targetSeq ∧ Missing seq ordered) :
    missing.card ≤ ordered.missingCount targetSeq := by
  obtain ⟨seq, hseq⟩ := hne
  have hlast := (hmissing seq hseq).2.unpublished
  have hle := (hmissing seq hseq).1
  have hnext : ordered.nextSeq = ordered.lastPublishedSeq + 1 := saturatingAdd_one (by omega)
  have hcount := ordered.pending.countIn_add_card_le ordered.nextSeq targetSeq missing
    (fun other hother => by
      have hother := hmissing other hother
      have hafter := hother.2.unpublished
      exact ⟨by omega, hother.1, hother.2.absent⟩)
  unfold missingCount
  dsimp only
  rw [if_pos (by omega)]
  omega

theorem firstMissingFrom_spec (seq : ℕ) {seqs : List ℕ} {expected : ℕ}
    (hsorted : seqs.Pairwise (· < ·)) (hlow : ∀ other ∈ seqs, expected ≤ other)
    (hfits : seq < 2 ^ 64) (hle : expected ≤ seq) (hmissing : seq ∉ seqs) :
    expected ≤ firstMissingFrom expected seqs ∧
      firstMissingFrom expected seqs ≤ seq ∧
      firstMissingFrom expected seqs ∉ seqs := by
  induction seqs generalizing expected with
  | nil => exact ⟨le_rfl, hle, not_mem_nil⟩
  | cons first seqs ih =>
    rw [pairwise_cons] at hsorted
    rw [mem_cons, not_or] at hmissing
    unfold firstMissingFrom
    split
    next heq =>
      subst heq
      rw [saturatingAdd_one (by omega)]
      have hafter : ∀ other ∈ seqs, first + 1 ≤ other := hsorted.1
      obtain ⟨hge, hup, hnot⟩ := ih hsorted.2 hafter (by omega) hmissing.2
      refine ⟨by omega, hup, ?_⟩
      rw [mem_cons, not_or]
      exact ⟨by omega, hnot⟩
    next hne =>
      refine ⟨le_rfl, hle, fun hmem => ?_⟩
      have hfirst := hlow first mem_cons_self
      rcases mem_cons.mp hmem with heq | hmem
      · exact hne heq.symm
      · have hgt := hsorted.1 _ hmem
        omega

/-- If one event is missing the search finds it. -/
theorem firstMissingSeq_eq (htarget : targetSeq < 2 ^ 64) {ordered : OrderedSessionEvents}
    (hle : seq ≤ targetSeq) (hmissing : Missing seq ordered)
    (hcount : ordered.missingCount targetSeq = 1) : ordered.firstMissingSeq targetSeq = seq := by
  have hlast := hmissing.unpublished
  have hnext : ordered.nextSeq = ordered.lastPublishedSeq + 1 := saturatingAdd_one (by omega)
  obtain ⟨hge, hup, hnot⟩ := firstMissingFrom_spec seq
    (ordered.pending.sorted_keysIn ordered.nextSeq targetSeq)
    (fun other hother => (mem_keysIn.mp hother).1) (by omega) (by omega)
    (fun hmem => (mem_keysIn.mp hmem).2.2 hmissing.absent)
  by_contra hne
  -- Otherwise two numbers are missing: the one the walk stops at, and this one.
  have htwo := missingCount_ge htarget ordered {ordered.firstMissingSeq targetSeq, seq}
    (Finset.insert_nonempty _ _) (fun other hother => by
      rw [Finset.mem_insert, Finset.mem_singleton] at hother
      rcases hother with rfl | rfl
      · refine ⟨hup.trans hle, lt_of_lt_of_le (by omega) hge, ?_⟩
        by_contra hsome
        exact hnot (mem_keysIn.mpr ⟨hge, hup.trans hle, hsome⟩)
      · exact ⟨hle, hmissing⟩)
  rw [Finset.card_pair hne] at htwo
  omega

/-- The recovered exit takes the one number that is left. -/
theorem Accounted.recoverExit (hrec : Recovering log response targetSeq)
    (haccounted : Accounted log response targetSeq progress session)
    (hrun : recoverExit response targetSeq progress.exitKnown session = .ok () session') :
    Follows log session' ∧ session'.orderedEvents.failure = none := by
  unfold ExecServer.recoverExit at hrun
  rw [run_get_bind] at hrun
  rcases haccounted with hstep | ⟨hknown, seq, exitCode, hmem, hle, hmissing⟩
  · split at hrun
    next hunknown =>
      rw [Bool.and_eq_true, Bool.not_eq_true'] at hunknown
      rw [hunknown.2] at hstep
      split at hrun
      · cases hrun
      next hcount =>
        have hcount := not_not.mp hcount
        obtain ⟨seq, exitCode, hmem, hle, hmissing⟩ := hstep.exit hunknown.1 rfl
        rw [firstMissingSeq_eq hrec.target_lt hle hmissing hcount] at hrun
        obtain ⟨hfollows, hfailure⟩ :=
          hstep.follows.insertRecoveredExit hrec hmem hle hmissing.unpublished hrun
        exact ⟨hfollows, hfailure.trans hstep.unfailed⟩
    · split at hrun
      · cases hrun
      · cases hrun
        exact ⟨hstep.follows, hstep.unfailed⟩
  · rw [hknown, Bool.not_true, Bool.and_false, if_neg Bool.false_ne_true] at hrun
    have hone := missingCount_ge hrec.target_lt session.orderedEvents {seq}
      (Finset.singleton_nonempty _) (fun other hother => by
        rw [Finset.mem_singleton.mp hother]
        exact ⟨hle, hmissing⟩)
    rw [Finset.card_singleton] at hone
    rw [if_pos (by omega)] at hrun
    cases hrun

/-! ## Whole calls -/

theorem InStep.notePendingExit (hrec : Recovering log response targetSeq)
    (hfollows : Follows log session) (hunfailed : session.orderedEvents.failure = none)
    {exitPending : Bool}
    (hrun : notePendingExit targetSeq response.sandboxDenied session = .ok exitPending session') :
    InStep log response targetSeq
      (session'.orderedEvents.exitPublished || exitPending) session' := by
  cases hrun
  refine ⟨{ hfollows with pending := ?_ }, hunfailed, ?_⟩
  · intro seq event hget
    rcases get?_modifyFirst hget with hold | ⟨old, hold, -, rfl⟩
    · exact hfollows.pending seq event hold
    · rw [withoutDenied_noteSandboxDenied, seq_noteSandboxDenied]
      exact hfollows.pending seq old hold
  · intro hexited hunknown
    rw [Bool.or_eq_false_iff, any_eq_false] at hunknown
    obtain ⟨hunpublished, hnone⟩ := hunknown
    obtain ⟨seq, exitCode, hmem, hle⟩ := hrec.exists_exited hexited
    refine ⟨seq, exitCode, hmem, hle, ?_, ?_⟩
    · by_contra hpublished
      have htake := (hrec.isServerLog.mem_take_iff hmem rfl
        session.orderedEvents.lastPublishedSeq).mpr (not_lt.mp hpublished)
      have hflag := hfollows.exitPublished.mpr ⟨_, htake, rfl⟩
      rw [show session.orderedEvents.exitPublished = false from hunpublished] at hflag
      cases hflag
    · rw [Option.eq_none_iff_forall_ne_some]
      intro event hget
      obtain ⟨old, hold, hexit⟩ : ∃ old, session.orderedEvents.pending.get? seq = some old ∧
          old.withoutDenied = event.withoutDenied := by
        rcases get?_modifyFirst hget with hold | ⟨old, hold, -, rfl⟩
        · exact ⟨event, hold, rfl⟩
        · exact ⟨old, hold, (withoutDenied_noteSandboxDenied _).symm⟩
      obtain ⟨-, hseq, hoccurs⟩ := hfollows.pending seq old hold
      have heq := hrec.isServerLog.eq_of_seq hoccurs hmem (seq_withoutDenied.trans hseq) rfl
      have hisExited : old.isExited := by
        rw [← isExited_withoutDenied, heq]
        rfl
      refine hnone (seq, old) (get?_eq_some_iff.mp hold) ?_
      simp [isPendingExit, hle, hisExited]

variable {publishedClosed : Bool}

theorem Follows.recoverThrough (hrec : Recovering log response targetSeq)
    (hfollows : Follows log session) (hunfailed : session.orderedEvents.failure = none)
    (hrun : recoverThrough response targetSeq session = .ok publishedClosed session') :
    Follows log session' := by
  unfold ExecServer.recoverThrough at hrun
  obtain ⟨exitPending, noted, hnote, hrun⟩ := run_bind_eq_ok_iff.mp hrun
  have hstep := InStep.notePendingExit hrec hfollows hunfailed hnote
  rw [run_get_bind] at hrun
  split at hrun
  · cases hrun
  · obtain ⟨progress, looped, hloop, hrun⟩ := run_bind_eq_ok_iff.mp hrun
    have haccounted : Accounted log response targetSeq progress looped := by
      refine foldlM_keeps (Accounted log response targetSeq) ?_ (.inl hstep) hloop
      intro chunk hchunk progress session progress' session' haccounted hrun
      exact haccounted.recoverChunk hrec (hrec.isSnapshot.chunks chunk hchunk).1 hrun
    obtain ⟨⟨⟩, closing, hclose, hrun⟩ := run_bind_eq_ok_iff.mp hrun
    have haccounted := haccounted.recoverClosed hrec hclose
    obtain ⟨⟨⟩, complete, hexit, hrun⟩ := run_bind_eq_ok_iff.mp hrun
    obtain ⟨hfollows, hunfailed⟩ := haccounted.recoverExit hrec hexit
    cases hrun
    exact { (hfollows.publishReady hrec.isServerLog hunfailed).1 with }

theorem recoverEvents_cases (response : ReadResponse) (session : SessionState) :
    (∃ message, response.failure = some message ∧
        recoverEvents response session = .error (.processFailed message) session) ∨
      recoverEvents response session = .ok false session ∨
      response.failure = none ∧ session.orderedEvents.failure = none ∧
        response.nextSeq = response.nextSeq - 1 + 1 ∧
        recoverEvents response session =
          recoverThrough response (response.nextSeq - 1) session := by
  unfold recoverEvents
  cases hfailure : response.failure with
  | some message => exact .inl ⟨message, rfl, rfl⟩
  | none =>
    dsimp only
    rw [run_get_bind]
    split
    · exact .inr (.inl rfl)
    next hlive =>
      simp only [Bool.or_eq_true, decide_eq_true_eq, not_or] at hlive
      obtain ⟨⟨hunfailed, -⟩, htarget⟩ := hlive
      exact .inr (.inr ⟨rfl, by simpa using hunfailed, by omega, rfl⟩)

/-- A snapshot of the server leaves the session on the log. -/
theorem Follows.recoverEvents (hlog : IsServerLog log)
    (hplain : ∀ event ∈ log, event.withoutDenied = event) (hfollows : Follows log session)
    (hsnapshot : IsSnapshot log response)
    (hrun : recoverEvents response session = .ok publishedClosed session') :
    Follows log session' := by
  rcases recoverEvents_cases response session with
    ⟨_, -, hcall⟩ | hcall | ⟨-, hunfailed, htarget, hcall⟩ <;> rw [hcall] at hrun
  · cases hrun
  · cases hrun
    exact hfollows
  · exact hfollows.recoverThrough ⟨hlog, hplain, hsnapshot, htarget⟩ hunfailed hrun

/-- A notification of the server leaves the session on the log. -/
theorem Follows.publishOrderedEvent (hlog : IsServerLog log) (hfollows : Follows log session)
    (hmem : event.withoutDenied ∈ log)
    (hrun : publishOrderedEvent event session = .ok publishedClosed session') :
    Follows log session' := by
  obtain ⟨index, hindex⟩ := mem_iff_getElem?.mp hmem
  have hseq := hlog.numbered index _ hindex
  rw [seq_withoutDenied] at hseq
  unfold ExecServer.publishOrderedEvent at hrun
  rw [run_get_bind, hseq] at hrun
  dsimp only at hrun
  split at hrun
  · cases hrun
    exact hfollows
  next hlive =>
    simp only [Bool.or_eq_true, decide_eq_true_eq, not_or] at hlive
    obtain ⟨⟨hunfailed, -⟩, hnew⟩ := hlive
    obtain ⟨⟨⟩, inserted, hinsert, hrun⟩ := run_bind_eq_ok_iff.mp hrun
    obtain ⟨hinserted, hfailure⟩ := hfollows.insertPending hmem
      (fun other hother => by
        rw [hseq, Option.some.injEq] at hother
        omega) hinsert
    cases hrun
    exact (hinserted.publishReady hlog (hfailure.trans (by simpa using hunfailed))).1

theorem Follows.setFailure (hfollows : Follows log session) (message : String) :
    Follows log (session.setFailure message) := by
  unfold SessionState.setFailure
  dsimp only
  split
  · exact hfollows
  next hlive =>
    simp only [Bool.or_eq_true, not_or, Bool.not_eq_true, Option.isSome_eq_false_iff,
      Option.isNone_iff_eq_none] at hlive
    refine
      { hfollows with
        published := ?_
        pending := ?_
        openAtFailure := fun _ => hlive.2 }
    · have hpublished := hfollows.published
      rw [hlive.1] at hpublished
      simp only [map_append, hpublished]
      simp [withoutDenied]
    · intro seq event hget
      cases hget

/-- What can happen to a session: a notification arrives, a read response is
recovered, or the connection to the server is given up. -/
inductive Arrival
  | notification (event : ExecProcessEvent)
  | recovery (response : ReadResponse)
  | failure (message : String)

/-- A notification is published in order, a snapshot fills gaps. -/
def Arrival.receive : Arrival → SessionM Unit
  | notification event => do
      let _ ← publishOrderedEvent event
      return ()
  | recovery response => do
      let _ ← recoverEvents response
      return ()
  | failure message => modify (·.setFailure message)

/-- A run in which every call succeeds ends in `.ok`. -/
def receiveAll (arrivals : List Arrival) : SessionM Unit :=
  arrivals.foldlM (fun _ arrival => arrival.receive) ()

/-- The arrival comes from the server with this log. -/
def Arrival.IsTruthful (log : List ExecProcessEvent) : Arrival → Prop
  | notification event => event ∈ log
  | recovery response => IsSnapshot log response
  | failure _ => True

theorem exited_mem_of_map {exitCode : ℤ} {denied : Option Bool}
    (h : .exited seq exitCode denied ∈ log.map withoutDenied) :
    ∃ original, .exited seq exitCode original ∈ log := by
  obtain ⟨event, hevent, heq⟩ := mem_map.mp h
  cases event with
  | exited seq' exitCode' original =>
    cases heq
    exact ⟨original, hevent⟩
  | output | closed | failed => cases heq

theorem IsSnapshot.withoutDenied
    (hsnapshot : IsSnapshot log response) : IsSnapshot (log.map withoutDenied) response where
  nextSeq_le := by
    rw [length_map]
    exact hsnapshot.nextSeq_le
  chunks := by
    intro chunk hchunk
    obtain ⟨hmem, hlt⟩ := hsnapshot.chunks chunk hchunk
    exact ⟨mem_map_of_mem hmem, hlt⟩
  exited := by
    rw [hsnapshot.exited]
    constructor
    · rintro ⟨seq, exitCode, denied, hmem, hlt⟩
      exact ⟨seq, exitCode, none, mem_map_of_mem hmem, hlt⟩
    · rintro ⟨seq, exitCode, denied, hmem, hlt⟩
      obtain ⟨denied, hmem⟩ := exited_mem_of_map hmem
      exact ⟨seq, exitCode, denied, hmem, hlt⟩
  exitCode := by
    intro seq exitCode denied hmem hlt
    obtain ⟨denied, hmem⟩ := exited_mem_of_map hmem
    exact hsnapshot.exitCode seq exitCode denied hmem hlt
  closed := by
    rw [hsnapshot.closed]
    constructor
    · rintro ⟨seq, hmem, hlt⟩
      exact ⟨seq, mem_map_of_mem hmem, hlt⟩
    · rintro ⟨seq, hmem, hlt⟩
      obtain ⟨original, horiginal, heq⟩ := mem_map.mp hmem
      cases original with
      | closed seq' =>
        cases heq
        exact ⟨seq, horiginal, hlt⟩
      | output | exited | failed => cases heq

theorem withoutDenied_withoutDenied (event : ExecProcessEvent) :
    event.withoutDenied.withoutDenied = event.withoutDenied := by
  cases event <;> rfl

theorem Follows.receive (hlog : IsServerLog log) {arrival : Arrival}
    (htrue : arrival.IsTruthful log) (hfollows : Follows (log.map withoutDenied) session)
    (hrun : arrival.receive session = .ok () session') :
    Follows (log.map withoutDenied) session' := by
  cases arrival with
  | notification event =>
    unfold Arrival.receive at hrun
    obtain ⟨publishedClosed, published, hcall, hrun⟩ := run_bind_eq_ok_iff.mp hrun
    cases hrun
    exact hfollows.publishOrderedEvent hlog.withoutDenied (mem_map_of_mem htrue) hcall
  | recovery response =>
    unfold Arrival.receive at hrun
    obtain ⟨publishedClosed, recovered, hcall, hrun⟩ := run_bind_eq_ok_iff.mp hrun
    cases hrun
    refine hfollows.recoverEvents hlog.withoutDenied ?_ (IsSnapshot.withoutDenied htrue) hcall
    intro event hevent
    obtain ⟨original, -, rfl⟩ := mem_map.mp hevent
    exact withoutDenied_withoutDenied original
  | failure message =>
    cases hrun
    exact hfollows.setFailure message

/-- Whatever arrives, in which order ever, the session follows the log. -/
theorem follows_receiveAll (hlog : IsServerLog log)
    {arrivals : List Arrival} (htrue : ∀ arrival ∈ arrivals, arrival.IsTruthful log)
    (hrun : receiveAll arrivals .new = .ok () session) :
    Follows (log.map withoutDenied) session := by
  refine foldlM_keeps (fun _ session => Follows (log.map withoutDenied) session)
    ?_ (follows_new _) hrun
  intro arrival harrival _ session _ session' hfollows hcall
  exact hfollows.receive hlog (htrue arrival harrival) hcall

/-! ## What the subscribers have seen -/

/-- The events that have a number. -/
def sequenced (events : List ExecProcessEvent) : List ExecProcessEvent :=
  events.filter (·.seq.isSome)

/-- After a close or a failure nothing is left to publish. -/
def ExecProcessEvent.isFinal : ExecProcessEvent → Bool
  | .closed _ => true
  | .failed _ => true
  | _ => false

theorem sequenced_eq_self (hlog : IsServerLog log) : sequenced log = log := by
  refine filter_eq_self.mpr fun event hevent => ?_
  obtain ⟨index, hindex⟩ := mem_iff_getElem?.mp hevent
  rw [hlog.numbered index event hindex]
  rfl

theorem sequenced_map_withoutDenied (events : List ExecProcessEvent) :
    sequenced (events.map withoutDenied) = (sequenced events).map withoutDenied := by
  unfold sequenced
  rw [filter_map]
  congr 1
  refine filter_congr fun event _ => ?_
  rw [Function.comp_apply, seq_withoutDenied]

theorem sequenced_failures (failure : Option String) :
    sequenced (failure.toList.map failed) = [] := by
  cases failure <;> rfl

/-- What was published at any moment begins the log. -/
theorem Follows.sequenced_prefix (hlog : IsServerLog log) (hfollows : Follows log session)
    {moment : List ExecProcessEvent} (hmoment : moment <+: session.events) :
    (sequenced moment).map withoutDenied <+: log := by
  have hbegins := hmoment.map withoutDenied
  rw [hfollows.published] at hbegins
  have hall := hbegins.filter (fun event : ExecProcessEvent => event.seq.isSome)
  rw [filter_append] at hall
  change sequenced _ <+: sequenced _ ++ sequenced _ at hall
  rw [sequenced_failures, append_nil, sequenced_map_withoutDenied] at hall
  have htake : sequenced (log.take session.orderedEvents.lastPublishedSeq) <+: sequenced log := by
    apply IsPrefix.filter
    exact take_prefix _ log
  rw [sequenced_eq_self hlog] at htake
  exact hall.trans htake

theorem IsServerLog.nodup_seq (hlog : IsServerLog log) : (log.map ExecProcessEvent.seq).Nodup := by
  rw [nodup_iff_getElem?_ne_getElem?]
  intro i j hij hj heq
  rw [length_map] at hj
  rw [getElem?_map, getElem?_map, getElem?_eq_getElem hj, getElem?_eq_getElem (hij.trans hj),
    Option.map_some, Option.map_some, hlog.numbered i _ (getElem?_eq_getElem _),
    hlog.numbered j _ (getElem?_eq_getElem _)] at heq
  simp only [Option.some.injEq] at heq
  omega

theorem Follows.final_last (hlog : IsServerLog log) (hfollows : Follows log session)
    {before after : List ExecProcessEvent} (hevents : session.events = before ++ event :: after)
    (hfinal : event.isFinal) : after = [] := by
  have hpublished := hfollows.published
  rw [hevents, map_append] at hpublished
  have hlength := congrArg List.length hpublished
  simp only [length_append, length_cons, length_map, length_take] at hlength
  have hget := congrArg (·[before.length]?) hpublished
  simp only [getElem?_append, length_map, lt_irrefl, if_false, Nat.sub_self, length_take,
      min_eq_left hfollows.last_le] at hget
  refine eq_nil_of_length_eq_zero ?_
  split at hget
  next hlt =>
    rw [getElem?_take_of_lt hlt] at hget
    have hmem := mem_of_getElem? hget.symm
    have hseq := hlog.numbered _ _ hget.symm
    cases event with
    | closed seq =>
      have hlast := hlog.closedLast _ hmem rfl
      rw [hseq, Option.some.injEq] at hlast
      have htake := (hlog.mem_take_iff hmem hseq session.orderedEvents.lastPublishedSeq).mpr hlt
      have hclosed := hfollows.closedPublished.mpr ⟨_, htake, rfl⟩
      have hunfailed : session.orderedEvents.failure = none := by
        by_contra hfailed
        rw [hfollows.openAtFailure hfailed] at hclosed
        cases hclosed
      rw [hunfailed, Option.toList_none, length_nil] at hlength
      omega
    | failed message => cases hseq
    | output | exited => cases hfinal
  next hge =>
    have hone : session.orderedEvents.failure.toList.length ≤ 1 := by
      cases session.orderedEvents.failure <;> simp
    omega

/-- Whatever order, loss and repetition the notifications of a log arrive with, and
whichever snapshots of it are recovered in between: as long as every call succeeds,
the session has shown a prefix of the log at every moment, each event once, and
nothing after a close or a failure. -/
theorem published_prefix_of_log {log : List ExecProcessEvent} (hlog : IsServerLog log)
    {arrivals : List Arrival} (htrue : ∀ arrival ∈ arrivals, arrival.IsTruthful log)
    {session : SessionState} (hrun : receiveAll arrivals .new = .ok () session) :
    (∀ moment, moment <+: session.events → (sequenced moment).map withoutDenied <+:
          log.map withoutDenied ∧
        ((sequenced moment).map ExecProcessEvent.seq).Nodup) ∧
      ∀ before event after, session.events = before ++ event :: after →
        event.isFinal = true → after = [] := by
  have hfollows := follows_receiveAll hlog htrue hrun
  refine ⟨fun moment hmoment => ?_, fun before event after hevents hfinal =>
    hfollows.final_last hlog.withoutDenied hevents hfinal⟩
  have hbegins := hfollows.sequenced_prefix hlog.withoutDenied hmoment
  refine ⟨hbegins, ?_⟩
  have hseqs := (hbegins.map ExecProcessEvent.seq).sublist.nodup hlog.withoutDenied.nodup_seq
  rw [map_map] at hseqs
  rwa [show ExecProcessEvent.seq ∘ withoutDenied = ExecProcessEvent.seq from
    funext fun _ => seq_withoutDenied] at hseqs

/-! ### A lost exit

The exit notification of this log never arrives.  Its place is inferred from the gap
between the two chunks of the read response. -/

def shortLog : List ExecProcessEvent :=
  [.output ⟨1, .stdout, [104]⟩, .exited 2 0 (some false), .output ⟨3, .stderr, [105]⟩, .closed 4]

def shortSnapshot : ReadResponse where
  chunks := [⟨1, .stdout, [104]⟩, ⟨3, .stderr, [105]⟩]
  nextSeq := 5
  exited := true
  exitCode := some 0
  closed := true
  failure := none
  sandboxDenied := true

def arrivalsWithoutExit : List Arrival :=
  [.notification (.closed 4), .notification (.output ⟨1, .stdout, [104]⟩),
    .notification (.output ⟨1, .stdout, [104]⟩), .recovery shortSnapshot,
    .notification (.output ⟨3, .stderr, [105]⟩)]

def sessionWithoutExit : SessionState where
  events := [.output ⟨1, .stdout, [104]⟩, .exited 2 0 (some true),
    .output ⟨3, .stderr, [105]⟩, .closed 4]
  orderedEvents :=
    { lastPublishedSeq := 4
      exitPublished := true
      closedPublished := true
      pending := .empty
      pendingBytes := 0
      failure := none }
  wake := 4

theorem receiveAll_arrivalsWithoutExit :
    receiveAll arrivalsWithoutExit .new = .ok () sessionWithoutExit := rfl

theorem shortLog_isServerLog : IsServerLog shortLog where
  fits := by decide
  numbered := by
    intro index event hget
    match index, hget with
    | 0, rfl => rfl
    | 1, rfl => rfl
    | 2, rfl => rfl
    | 3, rfl => rfl
  exitedOnce := by decide
  closedLast := by decide

theorem shortSnapshot_isSnapshot : IsSnapshot shortLog shortSnapshot where
  nextSeq_le := by decide
  chunks := by decide
  exited := by simp [shortLog, shortSnapshot]
  exitCode := by
    intro seq exitCode denied hmem hlt
    obtain ⟨-, rfl, -⟩ : seq = 2 ∧ exitCode = 0 ∧ denied = some false := by
      simpa [shortLog] using hmem
    rfl
  closed := by simp [shortLog, shortSnapshot]

/-- The exit was lost; the snapshot puts it back before the close. -/
theorem lost_exit_recovered_in_order :
    (∀ moment, moment <+: sessionWithoutExit.events → (sequenced moment).map withoutDenied <+:
          shortLog.map withoutDenied ∧
        ((sequenced moment).map ExecProcessEvent.seq).Nodup) ∧
      ∀ before event after, sessionWithoutExit.events = before ++ event :: after →
        event.isFinal = true → after = [] := by
  refine published_prefix_of_log shortLog_isServerLog ?_ receiveAll_arrivalsWithoutExit
  simp only [arrivalsWithoutExit, forall_mem_cons, Arrival.IsTruthful]
  exact ⟨by decide, by decide, by decide, shortSnapshot_isSnapshot, by decide,
    fun _ h => absurd h not_mem_nil⟩

end Rexux.ExecServer
