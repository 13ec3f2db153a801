import Rexux.ExecServer.NoiseRelay

/-!
# The reorder window keeps its books

Any record can arrive: the relay is not trusted, and records are decrypted only after
they were put in order.  Here a push also leaves a state behind when it fails, and a
subtraction that would go below zero is an outcome of its own.
-/

namespace Rexux.ExecServer

open Foundation List OrderedMap OrderedCiphertextFrames

/-- What a push answers, an underflow of the byte count included. -/
inductive PushOutcome
  | released (ready : List ByteString)
  | rejected (err : RelayError)
  | underflowed
  deriving DecidableEq, Repr

variable {frames : OrderedCiphertextFrames} {payload : ByteString}

namespace OrderedCiphertextFrames

/-- The release loop, with the state that it leaves when it fails. -/
def drainReady : ℕ → List ByteString → OrderedCiphertextFrames →
    PushOutcome × OrderedCiphertextFrames
  | 0, ready, frames => (.released ready, frames)
  | fuel + 1, ready, frames =>
    match frames.pending.get? frames.nextSeq with
    | none => (.released ready, frames)
    | some payload =>
      if frames.pendingBytes < payload.length then
        (.underflowed, { frames with pending := frames.pending.erase frames.nextSeq })
      else
        let removed : OrderedCiphertextFrames :=
          { frames with
            pending := frames.pending.erase frames.nextSeq
            pendingBytes := frames.pendingBytes - payload.length }
        match removed.advance with
        | .error err => (.rejected err, removed)
        | .ok advanced => drainReady fuel (ready ++ [payload]) advanced

/-- The push, with the state that it leaves when it fails. -/
def pushInPlace (frames : OrderedCiphertextFrames) (seq : ℕ) (payload : ByteString) :
    PushOutcome × OrderedCiphertextFrames :=
  if seq < frames.nextSeq ∨ (frames.pending.get? seq).isSome then (.released [], frames)
  else if frames.nextSeq < seq then
    if maxReorderDistance < seq - frames.nextSeq then (.rejected .exceedsReorderWindow, frames)
    else if maxPendingBytes < frames.pendingBytes + payload.length then
      (.rejected .pendingBufferFull, frames)
    else
      (.released [],
        { frames with
          pending := frames.pending.insert seq payload
          pendingBytes := frames.pendingBytes + payload.length })
  else
    match frames.advance with
    | .error err => (.rejected err, frames)
    | .ok advanced => drainReady advanced.pending.size [payload] advanced

/-- The result of a push that has not underflowed. -/
def answer (pushed : PushOutcome × OrderedCiphertextFrames) :
    Option (Except RelayError (List ByteString × OrderedCiphertextFrames)) :=
  match pushed.1 with
  | .released ready => some (.ok (ready, pushed.2))
  | .rejected err => some (.error err)
  | .underflowed => none

variable {result : Except RelayError (List ByteString × OrderedCiphertextFrames)}

/-- The loop that keeps its state answers as the source's does. -/
theorem releaseReady_of_drainReady {fuel : ℕ} {ready : List ByteString}
    (h : answer (drainReady fuel ready frames) = some result) :
    (releaseReady fuel frames).map (fun rest => (ready ++ rest.1, rest.2)) = result := by
  induction fuel generalizing ready frames with
  | zero =>
    cases h
    rw [releaseReady, Except.map, append_nil]
    rfl
  | succ fuel ih =>
    rw [drainReady] at h
    rw [releaseReady]
    cases hget : frames.pending.get? frames.nextSeq with
    | none =>
      rw [hget] at h
      cases h
      rw [Except.map, append_nil]
    | some payload =>
      rw [hget] at h
      dsimp only at h ⊢
      split at h
      · cases h
      · cases hadvance : advance
            { frames with
              pending := frames.pending.erase frames.nextSeq
              pendingBytes := frames.pendingBytes - payload.length } with
        | error failure =>
          rw [hadvance] at h
          cases h
          rfl
        | ok advanced =>
          rw [hadvance] at h
          rw [ok_bind, ← ih h]
          cases releaseReady fuel advanced with
          | error failure => rfl
          | ok rest =>
            rw [ok_bind, pure_eq_ok, Except.map, Except.map, append_assoc, singleton_append]

theorem push_of_pushInPlace {seq : ℕ} (h : answer (frames.pushInPlace seq payload) = some result) :
    frames.push seq payload = result := by
  rw [pushInPlace] at h
  rw [push]
  split_ifs at h ⊢
  iterate 4 exact Option.some.inj h
  · cases hadvance : frames.advance with
    | error failure =>
      rw [hadvance] at h
      exact Option.some.inj h
    | ok advanced =>
      rw [hadvance] at h
      rw [ok_bind, ← releaseReady_of_drainReady h]
      cases releaseReady advanced.pending.size advanced with
      | error | ok => rfl

end OrderedCiphertextFrames

/-! ## The books -/

/-- The window holds no frame out of its range and counts its bytes. -/
structure Books (frames : OrderedCiphertextFrames) : Prop where
  next_lt : frames.nextSeq < 2 ^ 32
  pending : ∀ seq payload, frames.pending.get? seq = some payload →
    frames.nextSeq ≤ seq ∧ seq ≤ frames.nextSeq + maxReorderDistance ∧ seq < 2 ^ 32
  pendingBytes : frames.pendingBytes = frames.pending.total List.length
  pendingBytes_le : frames.pendingBytes ≤ maxPendingBytes

/-- The payload of a number that was released or is pending. -/
def knownAt (released : List ByteString) (frames : OrderedCiphertextFrames) (seq : ℕ) :
    Option ByteString :=
  released[seq]?.or (frames.pending.get? seq)

variable {released : List ByteString}

section Push

variable {seq : ℕ}

theorem Books.total_erase (hbooks : Books frames) (hget : frames.pending.get? seq = some payload) :
    frames.pendingBytes = payload.length + (frames.pending.erase seq).total List.length := by
  rw [hbooks.pendingBytes]
  apply total_eq_add hget
  · rw [get?_erase, if_pos rfl]
  · intro other hne
    rw [get?_erase, if_neg hne]

theorem Books.remove (hbooks : Books frames)
    (hget : frames.pending.get? frames.nextSeq = some payload) :
    Books
      { frames with
        pending := frames.pending.erase frames.nextSeq
        pendingBytes := frames.pendingBytes - payload.length } := by
  have htotal := hbooks.total_erase hget
  obtain ⟨hnext, hpending, hbytes, hle⟩ := hbooks
  refine ⟨hnext, ?_, ?_, ?_⟩ <;> grind [get?_erase]

theorem Books.advance (hbooks : Books frames) (hnone : frames.pending.get? frames.nextSeq = none)
    (hlt : frames.nextSeq + 1 < 2 ^ 32) : Books { frames with nextSeq := frames.nextSeq + 1 } := by
  obtain ⟨hnext, hpending, hbytes, hle⟩ := hbooks
  exact ⟨hlt, by grind, hbytes, hle⟩

theorem knownAt_release (hlength : released.length = frames.nextSeq)
    (hget : frames.pending.get? frames.nextSeq = some payload) (pendingBytes nextSeq : ℕ) :
    knownAt (released ++ [payload]) ⟨nextSeq, frames.pending.erase frames.nextSeq, pendingBytes⟩ =
      knownAt released frames := by
  grind [knownAt, get?_erase]

/-- The release loop never underflows, and leaves the books right. -/
theorem Books.drainReady {fuel : ℕ} (ready : List ByteString) (hbooks : Books frames)
    (hfuel : frames.pending.size ≤ fuel) (hlength : released.length = frames.nextSeq) :
    ∃ frames', Books frames' ∧ frames'.pending.get? frames'.nextSeq = none ∧
      ((∃ more, OrderedCiphertextFrames.drainReady fuel ready frames =
            (.released (ready ++ more), frames') ∧
          (released ++ more).length = frames'.nextSeq ∧
          knownAt (released ++ more) frames' = knownAt released frames) ∨
        (OrderedCiphertextFrames.drainReady fuel ready frames =
            (.rejected .sequenceExhausted, frames') ∧
          (frames.pending.get? (2 ^ 32 - 1)).isSome)) := by
  induction fuel generalizing frames released ready with
  | zero =>
    have hempty : frames.pending.entries = [] := eq_nil_of_length_eq_zero (Nat.le_zero.mp hfuel)
    refine ⟨frames, hbooks, ?_, .inl ⟨[], ?_, by simpa using hlength, by simp⟩⟩
    · rw [get?, hempty]
      rfl
    · rw [append_nil, OrderedCiphertextFrames.drainReady]
  | succ fuel ih =>
    rw [OrderedCiphertextFrames.drainReady]
    cases hget : frames.pending.get? frames.nextSeq with
    | none => exact ⟨frames, hbooks, hget, .inl ⟨[], by simp, by simpa using hlength, by simp⟩⟩
    | some payload =>
      have htotal := hbooks.total_erase hget
      have hremoved := hbooks.remove hget
      have hnone : (frames.pending.erase frames.nextSeq).get? frames.nextSeq = none := by
        rw [get?_erase, if_pos rfl]
      dsimp only
      rw [if_neg (by omega), OrderedCiphertextFrames.advance]
      split_ifs with hlt
      · have hsize : (frames.pending.erase frames.nextSeq).size ≤ fuel :=
          Nat.le_of_lt_succ ((size_erase_lt hget).trans_le hfuel)
        have hlength' : (released ++ [payload]).length = frames.nextSeq + 1 := by
          simp [hlength]
        obtain ⟨frames', hbooks', hnone', ⟨more, hdrain, hmore, hknown⟩ | ⟨hdrain, hlast⟩⟩ :=
          ih (ready ++ [payload]) (hremoved.advance hnone hlt) hsize hlength'
        · rw [append_assoc] at hdrain hmore hknown
          refine ⟨frames', hbooks', hnone', .inl ⟨payload :: more, hdrain, hmore, ?_⟩⟩
          exact hknown.trans (knownAt_release hlength hget _ _)
        · refine ⟨frames', hbooks', hnone', .inr ⟨hdrain, ?_⟩⟩
          grind [get?_erase]
      · refine ⟨_, hremoved, hnone, .inr ⟨rfl, ?_⟩⟩
        have hnext := hbooks.next_lt
        dsimp only at hlt
        rw [show 2 ^ 32 - 1 = frames.nextSeq by omega, hget]
        rfl

/-- What a push can do: release and remember, fail and change nothing, or come to the end of
the sequence numbers in the middle of a release. -/
inductive Pushed (frames : OrderedCiphertextFrames) (seq : ℕ) (payload : ByteString)
    (released : List ByteString) : PushOutcome → OrderedCiphertextFrames → Prop
  | accepted {ready : List ByteString} {frames' : OrderedCiphertextFrames}
      (hlength : (released ++ ready).length = frames'.nextSeq)
      (hknown : ∀ other, knownAt (released ++ ready) frames' other =
        (knownAt released frames other).or (if other = seq then some payload else none)) :
      Pushed frames seq payload released (.released ready) frames'
  | refused {err : RelayError} (herr : err = .sequenceExhausted → seq + 1 = 2 ^ 32) :
      Pushed frames seq payload released (.rejected err) frames
  | exhausted {frames' : OrderedCiphertextFrames} (hseq : seq = frames.nextSeq)
      (hlast : (frames.pending.get? (2 ^ 32 - 1)).isSome) :
      Pushed frames seq payload released (.rejected .sequenceExhausted) frames'

/-- A push of any frame leaves the books right. -/
theorem Books.pushInPlace (payload : ByteString) (hbooks : Books frames)
    (hnone : frames.pending.get? frames.nextSeq = none) (hseq : seq < 2 ^ 32)
    (hlength : released.length = frames.nextSeq) :
    Books (frames.pushInPlace seq payload).2 ∧ (frames.pushInPlace seq payload).2.pending.get?
        (frames.pushInPlace seq payload).2.nextSeq = none ∧
      Pushed frames seq payload released (frames.pushInPlace seq payload).1
        (frames.pushInPlace seq payload).2 := by
  unfold OrderedCiphertextFrames.pushInPlace
  split_ifs with hdup hearly hfar hroom
  · refine ⟨hbooks, hnone, .accepted (by simpa using hlength) ?_⟩
    grind [knownAt, Option.isSome_iff_exists]
  · exact ⟨hbooks, hnone, .refused (nomatch ·)⟩
  · exact ⟨hbooks, hnone, .refused (nomatch ·)⟩
  · have hfresh : frames.pending.get? seq = none :=
      Option.not_isSome_iff_eq_none.mp fun hsome => hdup (.inr hsome)
    have hinserted : (frames.pending.insert seq payload).get? seq = some payload := by
      rw [get?_insert, if_pos rfl]
    have htotal : (frames.pending.insert seq payload).total List.length =
        payload.length + frames.pending.total List.length := by
      apply total_eq_add hinserted <;> grind [get?_insert]
    obtain ⟨hnext, hpending, hbytes, hle⟩ := hbooks
    refine ⟨⟨hnext, ?_, ?_, ?_⟩, ?_, .accepted (by simpa using hlength) ?_⟩
    all_goals grind [knownAt, get?_insert]
  · rw [OrderedCiphertextFrames.advance]
    split_ifs with hlt
    · have hlength' : (released ++ [payload]).length = frames.nextSeq + 1 := by
        simp [hlength]
      obtain ⟨frames', hbooks', hnone', hrun⟩ :=
        (hbooks.advance hnone hlt).drainReady [payload] (Nat.le_refl _) hlength'
      dsimp only at hrun ⊢
      obtain ⟨more, hdrain, hmore, hknown⟩ | ⟨hdrain, hlast⟩ := hrun
      · rw [append_assoc] at hmore hknown
        rw [hdrain]
        refine ⟨hbooks', hnone', .accepted hmore ?_⟩
        rw [hknown]
        grind [knownAt]
      · rw [hdrain]
        exact ⟨hbooks', hnone', .exhausted (by omega) hlast⟩
    · exact ⟨hbooks, hnone, .refused fun _ => by omega⟩

end Push

/-! ## Whatever is pushed -/

/-- The window, what it has released, and the calls that it has accepted. -/
structure Reception where
  frames : OrderedCiphertextFrames
  released : List ByteString
  accepted : List (UInt32 × ByteString)

def Reception.receive (reception : Reception) (call : UInt32 × ByteString) : Reception :=
  let pushed := reception.frames.pushInPlace call.1.toNat call.2
  match pushed.1 with
  | .released ready => ⟨pushed.2, reception.released ++ ready, reception.accepted ++ [call]⟩
  | _ => { reception with frames := pushed.2 }

def receiveCalls (calls : List (UInt32 × ByteString)) : Reception :=
  calls.foldl Reception.receive ⟨.empty, [], []⟩

/-- The first accepted payload for a number. -/
def firstAccepted (accepted : List (UInt32 × ByteString)) (seq : ℕ) : Option ByteString :=
  (accepted.find? (·.1.toNat = seq)).map Prod.snd

/-- A number that a sender can take. -/
def IsSendable (seq : UInt32) : Prop := seq.toNat + 1 < 2 ^ 32

/-- The books are right, and nothing pending is due. -/
structure InOrder (reception : Reception) : Prop where
  books : Books reception.frames
  waiting : reception.frames.pending.get? reception.frames.nextSeq = none

/-- What was released is as long as the next number says, and of the first copies. -/
structure Delivers (reception : Reception) : Prop where
  length : reception.released.length = reception.frames.nextSeq
  known : ∀ seq, knownAt reception.released reception.frames seq =
    firstAccepted reception.accepted seq

/-- No push has come to the end of the sequence numbers. -/
def NotExhausted (calls : List (UInt32 × ByteString)) : Prop :=
  ∀ before call, before ++ [call] <+: calls →
    ((receiveCalls before).frames.pushInPlace call.1.toNat call.2).1 ≠
      .rejected .sequenceExhausted

theorem firstAccepted_append (accepted : List (UInt32 × ByteString)) (call : UInt32 × ByteString)
    (seq : ℕ) :
    firstAccepted (accepted ++ [call]) seq =
      (firstAccepted accepted seq).or (if seq = call.1.toNat then some call.2 else none) := by
  rw [firstAccepted, firstAccepted]
  by_cases heq : seq = call.1.toNat
  · simp [heq]
  · simp [heq, Ne.symm heq]

variable {reception : Reception}

theorem InOrder.push (h : InOrder reception)
    (call : UInt32 × ByteString) (hlength : released.length = reception.frames.nextSeq) :
    Pushed reception.frames call.1.toNat call.2 released
      (reception.frames.pushInPlace call.1.toNat call.2).1
      (reception.frames.pushInPlace call.1.toNat call.2).2 :=
  (h.books.pushInPlace call.2 h.waiting call.1.toNat_lt hlength).2.2

theorem frames_receive (reception : Reception) (call : UInt32 × ByteString) :
    (reception.receive call).frames = (reception.frames.pushInPlace call.1.toNat call.2).2 := by
  rw [Reception.receive]
  split
  · rfl
  · rfl

variable {err : RelayError} {frames' : OrderedCiphertextFrames} (call : UInt32 × ByteString)

section

variable (h : reception.frames.pushInPlace call.1.toNat call.2 = (.rejected err, frames'))
include h

theorem released_lt_of_rejected (hlt : reception.released.length < frames'.nextSeq) :
    (reception.receive call).released.length < (reception.receive call).frames.nextSeq := by
  rw [Reception.receive, h]
  exact hlt

end

variable (calls : List (UInt32 × ByteString))

theorem receiveCalls_append :
    receiveCalls (calls ++ [call]) = (receiveCalls calls).receive call :=
  foldl_append

theorem InOrder.receive (h : InOrder reception) : InOrder (reception.receive call) := by
  have hpush := h.books.pushInPlace call.2 h.waiting call.1.toNat_lt (length_replicate (a := []))
  refine ⟨?_, ?_⟩
  · rw [frames_receive]
    exact hpush.1
  · rw [frames_receive]
    exact hpush.2.1

theorem inOrder_receiveCalls :
    InOrder (receiveCalls calls) := by
  apply List.foldlRecOn
  · exact ⟨⟨by decide, nofun, rfl, Nat.zero_le _⟩, rfl⟩
  · intro reception h call _
    exact h.receive call

theorem accepted_receiveCalls_subset : (receiveCalls calls).accepted ⊆ calls := by
  induction calls using List.reverseRecOn with
  | nil => exact List.Subset.refl _
  | append_singleton calls call ih =>
    have hmore := List.Subset.trans ih (subset_append_left calls [call])
    rw [receiveCalls_append, Reception.receive]
    split
    · exact append_subset.mpr ⟨hmore, subset_append_right calls [call]⟩
    · exact hmore

theorem Delivers.last_not_pending (h : Delivers reception)
    (hsendable : ∀ call ∈ reception.accepted, IsSendable call.1) :
    ¬ (reception.frames.pending.get? (2 ^ 32 - 1)).isSome := by
  intro hlast
  have hknown : (knownAt reception.released reception.frames (2 ^ 32 - 1)).isSome := by
    rw [knownAt, Option.isSome_or, hlast, Bool.or_true]
  rw [h.known, firstAccepted, Option.isSome_map, find?_isSome] at hknown
  obtain ⟨call, hmem, hseq⟩ := hknown
  have hcall := hsendable call hmem
  have hseq : call.1.toNat = 2 ^ 32 - 1 := of_decide_eq_true hseq
  unfold IsSendable at hcall
  omega

/-- One call more, and what was released is still in order, of the first copies. -/
theorem Delivers.receive {call : UInt32 × ByteString} (h : Delivers reception)
    (hinOrder : InOrder reception)
    (hcall : (reception.frames.pushInPlace call.1.toNat call.2).1 ≠
      .rejected .sequenceExhausted) : Delivers (reception.receive call) := by
  have hpushed := hinOrder.push call h.length
  rw [Reception.receive]
  generalize reception.frames.pushInPlace call.1.toNat call.2 = pushed at hpushed hcall
  obtain ⟨outcome, frames'⟩ := pushed
  cases hpushed with
  | accepted hlength hknown =>
    refine ⟨hlength, fun seq => ?_⟩
    rw [firstAccepted_append, ← h.known, hknown]
  | refused => exact h
  | exhausted => exact absurd rfl hcall

theorem delivers_receiveCalls {calls : List (UInt32 × ByteString)} (hcalls : NotExhausted calls) :
    Delivers (receiveCalls calls) := by
  induction calls using List.reverseRecOn with
  | nil => exact ⟨rfl, fun _ => rfl⟩
  | append_singleton calls call ih =>
    have hbefore : NotExhausted calls := fun before other hbegins =>
      hcalls before other (hbegins.trans (prefix_append calls [call]))
    rw [receiveCalls_append]
    exact (ih hbefore).receive (inOrder_receiveCalls calls) (hcalls calls call prefix_rfl)

/-- Numbers that a sender can take do not exhaust the window. -/
theorem Delivers.not_exhausted {call : UInt32 × ByteString} (h : Delivers reception)
    (hinOrder : InOrder reception)
    (hsendable : ∀ call ∈ reception.accepted, IsSendable call.1) (hcall : IsSendable call.1) :
    (reception.frames.pushInPlace call.1.toNat call.2).1 ≠ .rejected .sequenceExhausted := by
  have hpushed := hinOrder.push call h.length
  generalize reception.frames.pushInPlace call.1.toNat call.2 = pushed at hpushed
  obtain ⟨outcome, frames'⟩ := pushed
  cases hpushed with
  | accepted => exact nofun
  | refused herr =>
    rintro ⟨⟩
    exact absurd (herr rfl) (Nat.ne_of_lt hcall)
  | exhausted _ hlast => exact absurd hlast (h.last_not_pending hsendable)

theorem notExhausted_of_sendable {calls : List (UInt32 × ByteString)}
    (hcalls : ∀ call ∈ calls, IsSendable call.1) : NotExhausted calls := by
  induction calls using List.reverseRecOn with
  | nil =>
    intro before call hprefix
    exact absurd (prefix_nil.mp hprefix) (append_ne_nil_of_right_ne_nil _ (cons_ne_nil _ _))
  | append_singleton calls call ih =>
    rw [forall_mem_append] at hcalls
    have hbefore := ih hcalls.1
    intro before other hprefix
    rcases prefix_concat_iff.mp hprefix with heq | hprefix
    · obtain ⟨rfl, hlast⟩ := append_inj' heq rfl
      cases hlast
      apply (delivers_receiveCalls hbefore).not_exhausted (inOrder_receiveCalls _)
      · exact fun call hmem => hcalls.1 call (accepted_receiveCalls_subset _ hmem)
      · exact hcalls.2 _ mem_cons_self
    · exact hbefore before other hprefix

/-- Whatever is pushed, the window stays within its bounds and counts its bytes, and a push
that fails changes nothing but at the end of the sequence numbers, with the last of them
pending.  Until then the first copies come out in order, and it is not reached without the last
number, which no sender takes. -/
theorem reorder_window_keeps_books :
    (∀ seq payload, (receiveCalls calls).frames.pending.get? seq = some payload →
      (receiveCalls calls).frames.nextSeq < seq ∧
      seq ≤ (receiveCalls calls).frames.nextSeq + maxReorderDistance) ∧
    (receiveCalls calls).frames.pendingBytes =
      (receiveCalls calls).frames.pending.total List.length ∧
    (receiveCalls calls).frames.pendingBytes ≤ maxPendingBytes ∧
    (∀ call : UInt32 × ByteString,
      ((receiveCalls calls).frames.pushInPlace call.1.toNat call.2).1 ≠ .underflowed ∧
      ∀ err, ((receiveCalls calls).frames.pushInPlace call.1.toNat call.2).1 = .rejected err →
        ((receiveCalls calls).frames.pushInPlace call.1.toNat call.2).2 =
            (receiveCalls calls).frames ∨
          (err = .sequenceExhausted ∧
            call.1.toNat = (receiveCalls calls).frames.nextSeq ∧
            ((receiveCalls calls).frames.pending.get? (2 ^ 32 - 1)).isSome)) ∧
    (NotExhausted calls →
      (receiveCalls calls).released.length = (receiveCalls calls).frames.nextSeq ∧
      ∀ seq < (receiveCalls calls).frames.nextSeq,
        (receiveCalls calls).released[seq]? = firstAccepted (receiveCalls calls).accepted seq) ∧
    ((∀ call ∈ calls, IsSendable call.1) →
      NotExhausted calls ∧
      ∀ call : UInt32 × ByteString, IsSendable call.1 →
        ((receiveCalls calls).frames.pushInPlace call.1.toNat call.2).1 ≠
          .rejected .sequenceExhausted) ∧
    ∀ nextSeq seq later, takeNextSequence nextSeq = some (seq, later) → seq + 1 < 2 ^ 32 := by
  have hinOrder := inOrder_receiveCalls calls
  refine ⟨?_, hinOrder.books.pendingBytes, hinOrder.books.pendingBytes_le, ?_, ?_, ?_, ?_⟩
  · intro seq payload hget
    have hbounds := hinOrder.books.pending seq payload hget
    refine ⟨Nat.lt_of_le_of_ne hbounds.1 ?_, hbounds.2.1⟩
    rintro rfl
    rw [hinOrder.waiting] at hget
    cases hget
  · intro call
    have hpushed := hinOrder.push call (length_replicate (a := []))
    generalize (receiveCalls calls).frames.pushInPlace call.1.toNat call.2 = pushed at hpushed
    obtain ⟨outcome, frames'⟩ := pushed
    cases hpushed with
    | accepted => exact ⟨nofun, fun err h => nomatch h⟩
    | refused => exact ⟨nofun, fun err _ => .inl rfl⟩
    | exhausted hseq hlast =>
      refine ⟨nofun, ?_⟩
      rintro err ⟨⟩
      exact .inr ⟨rfl, hseq, hlast⟩
  · intro hcalls
    have hdelivers := delivers_receiveCalls hcalls
    refine ⟨hdelivers.length, fun seq hseq => ?_⟩
    rw [← hdelivers.known, knownAt]
    rw [getElem?_eq_getElem (by rw [hdelivers.length]; exact hseq)]
    rfl
  · intro hcalls
    have hexhausted := notExhausted_of_sendable hcalls
    refine ⟨hexhausted, fun call hcall => ?_⟩
    apply (delivers_receiveCalls hexhausted).not_exhausted hinOrder _ hcall
    exact fun call hmem => hcalls call (accepted_receiveCalls_subset _ hmem)
  · intro nextSeq seq later htake
    rw [takeNextSequence] at htake
    split_ifs at htake with hlt
    cases htake
    exact hlt

/-- The first copy of an early record is the one that comes out. -/
theorem earlyCopy_released_in_order :
    (receiveCalls [(1, [7]), (1, [8]), (0, [9])]).released[1]? =
      firstAccepted (receiveCalls [(1, [7]), (1, [8]), (0, [9])]).accepted 1 :=
  have hkeeps := (reorder_window_keeps_books [(1, [7]), (1, [8]), (0, [9])]).2.2.2.2
  (hkeeps.1 (hkeeps.2.1 (by simp [IsSendable])).1).2 1 (by decide)

def countUp (count : ℕ) : List (UInt32 × ByteString) :=
  (List.range count).map fun seq => (UInt32.ofNat seq, [])

theorem frames_countUp {count : ℕ} (hcount : count < 2 ^ 32) :
    (receiveCalls (countUp count)).frames = ⟨count, .empty, 0⟩ ∧
      (receiveCalls (countUp count)).released.length = count := by
  induction count with
  | zero => exact ⟨rfl, rfl⟩
  | succ count ih =>
    obtain ⟨hframes, hreleased⟩ := ih (by omega)
    have hcalls : countUp (count + 1) = countUp count ++ [(UInt32.ofNat count, [])] := by
      rw [countUp, range_succ, map_append]
      rfl
    have hseq : (UInt32.ofNat count).toNat = count :=
      UInt32.toNat_ofNat_of_lt' (Nat.lt_of_succ_lt hcount)
    have hpush : pushInPlace ⟨count, .empty, 0⟩ count [] =
        (.released [[]], ⟨count + 1, .empty, 0⟩) := by
      rw [pushInPlace, if_neg (by simp), if_neg (Nat.lt_irrefl _),
        advance, if_pos hcount]
      rfl
    rw [hcalls, receiveCalls_append]
    simp only [Reception.receive, hframes, hseq, hpush, length_append, hreleased]
    exact ⟨trivial, rfl⟩

theorem push_before_last (hframes : reception.frames = ⟨2 ^ 32 - 2, .empty, 0⟩)
    (hlength : reception.released.length = 2 ^ 32 - 2) :
    ∃ frames', (reception.receive (4294967295, [])).frames.pushInPlace (2 ^ 32 - 2) [] =
        (.rejected .sequenceExhausted, frames') ∧ frames'.nextSeq = 2 ^ 32 - 1 ∧
      (reception.receive (4294967295, [])).frames.nextSeq = 2 ^ 32 - 2 ∧
      (reception.receive (4294967295, [])).released.length = 2 ^ 32 - 2 := by
  have hpending : (reception.receive (4294967295, [])).frames =
      ⟨2 ^ 32 - 2, .insert .empty (2 ^ 32 - 1) [], 0⟩ := by
    rw [frames_receive, hframes]
    rfl
  refine ⟨⟨2 ^ 32 - 1, .erase (.insert .empty (2 ^ 32 - 1) []) (2 ^ 32 - 1), 0⟩, ?_, rfl, ?_, ?_⟩
  · rw [hpending]
    rfl
  · rw [hpending]
  · rw [Reception.receive, hframes]
    exact (congrArg List.length (append_nil _)).trans hlength

/-- With the last number pending, the record before it is taken and the push fails: the state
has changed, and a record that a sender can number so is not released. -/
theorem exhausted_push_loses_record :
    ∃ calls call, takeNextSequence call.1.toNat = some (call.1.toNat, call.1.toNat + 1) ∧
      ((receiveCalls calls).frames.pushInPlace call.1.toNat call.2).1 =
        .rejected .sequenceExhausted ∧
      ((receiveCalls calls).frames.pushInPlace call.1.toNat call.2).2 ≠
        (receiveCalls calls).frames ∧
      (receiveCalls (calls ++ [call])).released.length <
        (receiveCalls (calls ++ [call])).frames.nextSeq := by
  obtain ⟨hframes, hlength⟩ := frames_countUp (show 2 ^ 32 - 2 < 2 ^ 32 by decide)
  generalize countUp (2 ^ 32 - 2) = calls at hframes hlength
  obtain ⟨frames', hpush, hnext, hnow, hreleased⟩ := push_before_last hframes hlength
  refine ⟨calls ++ [(4294967295, [])], (4294967294, []), rfl, ?_⟩
  simp only [receiveCalls_append]
  generalize (receiveCalls calls).receive (4294967295, []) = reception at *
  refine ⟨congrArg Prod.fst hpush, ?_, ?_⟩
  · intro hsame
    have hframes' : frames' = reception.frames := (congrArg Prod.snd hpush).symm.trans hsame
    rw [hframes', hnow] at hnext
    exact absurd hnext (by decide)
  · exact released_lt_of_rejected (4294967294, []) hpush (by omega)

end Rexux.ExecServer
