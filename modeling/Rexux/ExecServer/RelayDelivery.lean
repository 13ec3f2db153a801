import Mathlib.Algebra.Order.BigOperators.Group.Finset
import Rexux.ExecServer.NoiseRelay
import Rexux.Foundation.FirstMissing

/-!
# The relay delivers in order, exactly once

Every layer of the receiver undoes one of the sender: the reorder buffer restores the
sequence, the Noise transport the records, and the decoder the messages.  Each has
its own invariant below, all of them indexed by how many ciphertexts have been
released so far.
-/

namespace Rexux.ExecServer

open Foundation List OrderedCiphertextFrames MessageDecoder NoiseVirtualStream NoiseWriter

/-- Everything before `nextSeq` has been released, and what has arrived from there on
is pending. -/
structure Buffers (sent : List ByteString) (arrived : Finset ℕ)
    (frames : OrderedCiphertextFrames) : Prop where
  fits : sent.length < 2 ^ 32
  arrived_lt : ∀ seq ∈ arrived, seq < sent.length
  next_le : frames.nextSeq ≤ sent.length
  released : ∀ seq < frames.nextSeq, seq ∈ arrived
  pending : ∀ seq, frames.pending.get? seq =
    if frames.nextSeq ≤ seq ∧ seq ∈ arrived then sent[seq]? else none
  pendingBytes : frames.pendingBytes =
    ∑ seq ∈ arrived.filter (frames.nextSeq ≤ ·), (sent.getD seq []).length

variable {sent : List ByteString} {arrived : Finset ℕ} {frames frames' : OrderedCiphertextFrames}
  {seq : ℕ} {payload : ByteString}

theorem buffers_empty (hfits : sent.length < 2 ^ 32) : Buffers sent ∅ .empty where
  fits := hfits
  arrived_lt := by simp
  next_le := Nat.zero_le _
  released := by simp [empty]
  pending := by simp [empty]
  pendingBytes := by simp [empty]

theorem advance_eq (h : frames.nextSeq + 1 < 2 ^ 32) :
    frames.advance = .ok { frames with nextSeq := frames.nextSeq + 1 } :=
  if_pos h

theorem filter_succ_le (arrived : Finset ℕ) (n : ℕ) :
    arrived.filter (n + 1 ≤ ·) = (arrived.filter (n ≤ ·)).erase n := by
  ext m
  simp only [Finset.mem_filter, Finset.mem_erase]
  constructor
  · rintro ⟨hmem, hle⟩
    exact ⟨by omega, hmem, by omega⟩
  · rintro ⟨hne, hmem, hle⟩
    exact ⟨hmem, by omega⟩

theorem Buffers.release (hbuffers : Buffers sent arrived frames)
    (hget : frames.pending.get? frames.nextSeq = some payload) :
    sent[frames.nextSeq]? = some payload ∧ Buffers sent arrived
        { nextSeq := frames.nextSeq + 1
          pending := frames.pending.erase frames.nextSeq
          pendingBytes := frames.pendingBytes - payload.length } := by
  rw [hbuffers.pending] at hget
  split_ifs at hget with harrived
  have hlt := hbuffers.arrived_lt _ harrived.2
  refine ⟨hget,
    { fits := hbuffers.fits
      arrived_lt := hbuffers.arrived_lt
      next_le := hlt
      released := ?_
      pending := ?_
      pendingBytes := ?_ }⟩
  · intro seq hseq
    rcases Nat.lt_succ_iff_lt_or_eq.mp hseq with hbefore | rfl
    · exact hbuffers.released seq hbefore
    · exact harrived.2
  · intro seq
    dsimp only
    rw [OrderedMap.get?_erase, hbuffers.pending]
    by_cases heq : seq = frames.nextSeq
    · rw [if_pos heq, if_neg (by omega)]
    · rw [if_neg heq]
      congr 1
      exact propext (and_congr_left fun _ => by omega)
  · have hmem : frames.nextSeq ∈ arrived.filter (frames.nextSeq ≤ ·) :=
      Finset.mem_filter.mpr ⟨harrived.2, le_rfl⟩
    have hlen : (sent.getD frames.nextSeq []).length = payload.length := by
      rw [getD_eq_getElem?_getD, hget, Option.getD_some]
    have hsum := Finset.sum_erase_add _ (fun seq => (sent.getD seq []).length) hmem
    rw [hbuffers.pendingBytes, filter_succ_le, ← hsum, hlen, Nat.add_sub_cancel]

theorem Buffers.not_mem_of_get? (hbuffers : Buffers sent arrived frames)
    (hget : frames.pending.get? frames.nextSeq = none) : frames.nextSeq ∉ arrived := by
  intro hmem
  rw [hbuffers.pending, if_pos ⟨le_rfl, hmem⟩,
    getElem?_eq_getElem (hbuffers.arrived_lt _ hmem)] at hget
  cases hget

theorem take_drop_succ {n m : ℕ} (hget : sent[n]? = some payload) (hlt : n < m) :
    (sent.take m).drop n = payload :: (sent.take m).drop (n + 1) := by
  have hget' : (sent.take m)[n]? = some payload := by
    rw [getElem?_take_of_lt hlt, hget]
  obtain ⟨hlength, rfl⟩ := List.getElem?_eq_some_iff.mp hget'
  exact drop_eq_getElem_cons hlength

variable {fuel : ℕ}

/-- The release loop hands out the longest run that has arrived. -/
theorem Buffers.releaseReady (hbuffers : Buffers sent arrived frames)
    (hfuel : frames.pending.size ≤ fuel) :
    ∃ frames', releaseReady fuel frames =
        .ok ((sent.take frames'.nextSeq).drop frames.nextSeq, frames') ∧
      Buffers sent arrived frames' ∧ frames'.nextSeq ∉ arrived ∧
      frames.nextSeq ≤ frames'.nextSeq := by
  induction fuel generalizing frames with
  | zero =>
    have hempty : frames.pending.entries = [] := eq_nil_of_length_eq_zero (Nat.le_zero.mp hfuel)
    refine ⟨frames, ?_, hbuffers, hbuffers.not_mem_of_get? ?_, le_rfl⟩
    · rw [releaseReady, drop_eq_nil_of_le (length_take_le _ _)]
    · rw [OrderedMap.get?, hempty]
      rfl
  | succ fuel ih =>
    unfold releaseReady
    cases hget : frames.pending.get? frames.nextSeq with
    | none =>
      refine ⟨frames, ?_, hbuffers, hbuffers.not_mem_of_get? hget, le_rfl⟩
      rw [drop_eq_nil_of_le (length_take_le _ _)]
    | some payload =>
      obtain ⟨hsent, hreleased⟩ := hbuffers.release hget
      have hfits := hbuffers.fits
      have hnext := hreleased.next_le
      dsimp only at hnext ⊢
      rw [advance_eq (by dsimp only; omega), ok_bind]
      have hsize : (frames.pending.erase frames.nextSeq).size ≤ fuel :=
        Nat.le_of_lt_succ ((OrderedMap.size_erase_lt hget).trans_le hfuel)
      obtain ⟨frames', hrun, hbuffers', hnot, hle⟩ := ih hreleased hsize
      dsimp only at hrun hle
      refine ⟨frames', ?_, hbuffers', hnot, by omega⟩
      rw [hrun, ok_bind, pure_eq_ok, take_drop_succ hsent (by omega)]

variable (sent arrived seq) in
/-- An early record that is within the window of what has arrived: not too far ahead
of the one that is missing, and with room among the bytes held back. -/
structure InWindow : Prop where
  distance : seq - firstMissing arrived ≤ maxReorderDistance
  bytes : ∑ held ∈ (insert seq arrived).filter (firstMissing arrived ≤ ·),
    (sent.getD held []).length ≤ maxPendingBytes

section

variable (hbuffers : Buffers sent arrived frames)
include hbuffers

theorem Buffers.insert_lt (hsent : sent[seq]? = some payload) :
    ∀ other ∈ insert seq arrived, other < sent.length := by
  rw [Finset.forall_mem_insert]
  exact ⟨(List.getElem?_eq_some_iff.mp hsent).1, hbuffers.arrived_lt⟩

theorem Buffers.hold (hsent : sent[seq]? = some payload)
    (hnew : seq ∉ arrived) (hearly : frames.nextSeq < seq) :
    Buffers sent (insert seq arrived)
      { frames with
        pending := frames.pending.insert seq payload
        pendingBytes := frames.pendingBytes + payload.length } where
  fits := hbuffers.fits
  arrived_lt := hbuffers.insert_lt hsent
  next_le := hbuffers.next_le
  released := fun other hother => Finset.mem_insert_of_mem (hbuffers.released other hother)
  pending := by
    intro other
    rw [OrderedMap.get?_insert, hbuffers.pending]
    by_cases heq : other = seq
    · subst heq
      rw [if_pos rfl, if_pos ⟨le_of_lt hearly, Finset.mem_insert_self _ _⟩, hsent]
    · rw [if_neg heq]
      congr 1
      exact propext (and_congr_right fun _ => by
        rw [Finset.mem_insert]
        exact ⟨.inr, fun h => h.resolve_left heq⟩)
  pendingBytes := by
    have hlen : (sent.getD seq []).length = payload.length := by
      rw [getD_eq_getElem?_getD, hsent, Option.getD_some]
    rw [Finset.filter_insert, if_pos (le_of_lt hearly), Finset.sum_insert (by simp [hnew]),
      hlen, hbuffers.pendingBytes, Nat.add_comm]

theorem Buffers.expect
    (hsent : sent[frames.nextSeq]? = some payload) (hnew : frames.nextSeq ∉ arrived) :
    Buffers sent (insert frames.nextSeq arrived) { frames with nextSeq := frames.nextSeq + 1 } where
  fits := hbuffers.fits
  arrived_lt := hbuffers.insert_lt hsent
  next_le := (List.getElem?_eq_some_iff.mp hsent).1
  released := by
    intro other hother
    rcases Nat.lt_succ_iff_lt_or_eq.mp hother with hbefore | rfl
    · exact Finset.mem_insert_of_mem (hbuffers.released other hbefore)
    · exact Finset.mem_insert_self _ _
  pending := by
    intro other
    dsimp only
    rw [hbuffers.pending]
    congr 1
    rw [Finset.mem_insert]
    refine propext ⟨?_, ?_⟩
    · rintro ⟨hle, hmem⟩
      refine ⟨lt_of_le_of_ne hle ?_, .inr hmem⟩
      rintro rfl
      exact hnew hmem
    · rintro ⟨hle, heq | hmem⟩
      · omega
      · exact ⟨by omega, hmem⟩
  pendingBytes := by
    rw [hbuffers.pendingBytes, filter_succ_le, Finset.filter_insert, if_pos le_rfl,
      Finset.erase_insert (by simp [hnew])]

/-- Whatever arrives within the window, the buffer releases the ciphertexts from where
it was up to the first that is still missing. -/
theorem Buffers.push (hwaiting : frames.nextSeq ∉ arrived) (hsent : sent[seq]? = some payload)
    (hwindow : seq ∉ arrived → firstMissing arrived < seq → InWindow sent arrived seq) :
    ∃ frames', frames.push seq payload =
        .ok ((sent.take frames'.nextSeq).drop frames.nextSeq, frames') ∧
      Buffers sent (insert seq arrived) frames' ∧ frames'.nextSeq ∉ insert seq arrived ∧
      frames.nextSeq ≤ frames'.nextSeq := by
  have hmissing := firstMissing_eq hbuffers.released hwaiting
  have hnothing : (sent.take frames.nextSeq).drop frames.nextSeq = [] :=
    drop_eq_nil_of_le (length_take_le _ _)
  unfold OrderedCiphertextFrames.push
  by_cases hknown : seq ∈ arrived
  · refine ⟨frames, ?_, ?_, ?_, le_rfl⟩
    · rw [if_pos, hnothing]
      rcases Nat.lt_or_ge seq frames.nextSeq with hbefore | hafter
      · exact .inl hbefore
      · right
        rw [hbuffers.pending, if_pos ⟨hafter, hknown⟩, hsent]
        rfl
    · rwa [Finset.insert_eq_of_mem hknown]
    · rwa [Finset.insert_eq_of_mem hknown]
  · have hge : frames.nextSeq ≤ seq := by
      by_contra hlt
      exact hknown (hbuffers.released seq (not_le.mp hlt))
    rw [if_neg (by
      rintro (hlt | hpending)
      · omega
      · rw [hbuffers.pending, if_neg (fun h => hknown h.2)] at hpending
        cases hpending)]
    rcases Nat.eq_or_lt_of_le hge with heq | hearly
    · subst heq
      have hexpect := hbuffers.expect hsent hwaiting
      have hnext := hexpect.next_le
      have hfits := hbuffers.fits
      dsimp only at hnext
      obtain ⟨frames', hrun, hbuffers', hnot, hle⟩ := hexpect.releaseReady le_rfl
      dsimp only at hrun hle
      refine ⟨frames', ?_, hbuffers', hnot, by omega⟩
      rw [if_neg (lt_irrefl _), advance_eq (by omega), ok_bind, hrun, ok_bind, pure_eq_ok,
        take_drop_succ hsent (by omega)]
    · have hin := hwindow hknown (by rwa [hmissing])
      have hhold := hbuffers.hold hsent hknown hearly
      have hbytes := hin.bytes
      rw [hmissing, ← hhold.pendingBytes] at hbytes
      have hdistance := hin.distance
      rw [hmissing] at hdistance
      refine ⟨_, ?_, hhold, ?_, le_rfl⟩
      · rw [if_pos hearly, if_neg (not_lt.mpr hdistance), if_neg (not_lt.mpr hbytes), hnothing]
      · rw [Finset.mem_insert, not_or]
        exact ⟨by dsimp only; omega, hwaiting⟩

end

/-! ## The decoder -/

/-- A message of a length that the relay accepts. -/
def IsRelayMessage (message : ByteString) : Prop :=
  0 < message.length ∧ message.length ≤ maxNoiseJsonrpcMessageLen

instance (message : ByteString) : Decidable (IsRelayMessage message) :=
  inferInstanceAs (Decidable (_ ∧ _))

/-- The message with its length before it. -/
def framed (message : ByteString) : ByteString := toBeBytes message.length ++ message

variable {message : ByteString}

theorem frameMessage_eq (h : IsRelayMessage message) :
    frameMessage message = .ok (framed message) :=
  if_neg (by
    rw [not_or]
    exact ⟨Nat.ne_of_gt h.1, not_lt.mpr h.2⟩)

theorem length_framed (message : ByteString) :
    (framed message).length = lengthPrefixBytes + message.length := by
  rw [framed, length_append, length_toBeBytes, lengthPrefixBytes]

/-- The buffer holds the beginning of the stream of these messages, and less than the
first of them. -/
structure Incomplete (buffered : ByteString) (messages : List ByteString) : Prop where
  isPrefix : buffered <+: messages.flatMap framed
  short : ∀ message later, messages = message :: later → buffered.length < (framed message).length

variable {buffered : ByteString} {messages : List ByteString}

theorem Incomplete.length_le
    (h : Incomplete buffered messages) (hvalid : ∀ message ∈ messages, IsRelayMessage message) :
    buffered.length ≤ lengthPrefixBytes + maxNoiseJsonrpcMessageLen := by
  cases messages with
  | nil =>
    rw [prefix_nil.mp h.isPrefix]
    exact Nat.zero_le _
  | cons message later =>
    have hshort := h.short message later rfl
    rw [length_framed] at hshort
    have hle := (hvalid message mem_cons_self).2
    omega

theorem drain_cons (hvalid : IsRelayMessage message) (fuel : ℕ) (rest : ByteString) :
    drain (fuel + 1) (toBeBytes message.length ++ rest) =
      if rest.length < message.length then .ok ([], toBeBytes message.length ++ rest)
      else do
        let later ← drain fuel (rest.drop message.length)
        return (rest.take message.length :: later.1, later.2) := by
  have hlength : message.length < 2 ^ 32 := by
    have hle := hvalid.2
    unfold maxNoiseJsonrpcMessageLen at hle
    omega
  simp only [toBeBytes, cons_append, nil_append]
  rw [drain, ofBeBytes_toBeBytes hlength]
  rw [if_neg (by
    rw [not_or]
    exact ⟨Nat.ne_of_gt hvalid.1, not_lt.mpr hvalid.2⟩)]
  congr 1
  refine propext ?_
  simp only [length_cons, lengthPrefixBytes]
  omega

theorem drain_short (h : buffered.length < lengthPrefixBytes) (fuel : ℕ) :
    drain fuel buffered = .ok ([], buffered) := by
  cases fuel with
  | zero => rfl
  | succ fuel =>
    match buffered, h with
    | [], _ => rfl
    | [_], _ => rfl
    | [_, _], _ => rfl
    | [_, _, _], _ => rfl

theorem drain_incomplete {later : List ByteString}
    (hvalid : IsRelayMessage message) (hbegins : buffered <+: (message :: later).flatMap framed)
    (hshort : buffered.length < (framed message).length) (fuel : ℕ) :
    drain fuel buffered = .ok ([], buffered) := by
  rcases Nat.lt_or_ge buffered.length lengthPrefixBytes with hlt | hge
  · exact drain_short hlt fuel
  · cases fuel with
    | zero => rfl
    | succ fuel =>
      have hhead : toBeBytes message.length <+: buffered := by
        refine prefix_of_prefix_length_le ?_ hbegins hge
        exact prefix_append _ _
      obtain ⟨rest, rfl⟩ := hhead
      rw [length_framed, length_append, length_toBeBytes, lengthPrefixBytes] at hshort
      rw [drain_cons hvalid, if_pos (by omega)]

/-- The decoder hands out the messages that are complete, and keeps a beginning of the next. -/
theorem drain_spec (hvalid : ∀ message ∈ messages, IsRelayMessage message)
    (hbegins : buffered <+: messages.flatMap framed) (hfuel : buffered.length ≤ fuel) :
    ∃ taken left, drain fuel buffered = .ok (messages.take taken, left) ∧
      buffered = (messages.take taken).flatMap framed ++ left ∧
      Incomplete left (messages.drop taken) := by
  induction messages generalizing buffered fuel with
  | nil =>
    have hnil := prefix_nil.mp hbegins
    subst hnil
    refine ⟨0, [], drain_short (by decide) fuel, rfl, hbegins, ?_⟩
    intro message later h
    cases h
  | cons message later ih =>
    obtain ⟨hmessage, hvalid⟩ := forall_mem_cons.mp hvalid
    rcases Nat.lt_or_ge buffered.length (framed message).length with hshort | hlong
    · refine ⟨0, buffered, drain_incomplete hmessage hbegins hshort fuel, rfl, hbegins, ?_⟩
      intro first rest h
      cases h
      exact hshort
    · have hframe : framed message <+: buffered := by
        refine prefix_of_prefix_length_le ?_ hbegins hlong
        exact prefix_append _ _
      obtain ⟨rest, rfl⟩ := hframe
      rw [flatMap_cons, prefix_append_right_inj] at hbegins
      rw [length_append, length_framed, lengthPrefixBytes] at hfuel
      obtain ⟨fuel, rfl⟩ : ∃ less, fuel = less + 1 := ⟨fuel - 1, by omega⟩
      obtain ⟨taken, left, hrun, hsplit, hincomplete⟩ :=
        ih hvalid hbegins (show rest.length ≤ fuel by omega)
      refine ⟨taken + 1, left, ?_, ?_, hincomplete⟩
      · rw [framed, append_assoc, drain_cons hmessage, if_neg (by
          rw [length_append]
          omega), drop_left, take_left, hrun]
        rfl
      · rw [take_succ_cons, flatMap_cons, append_assoc, ← hsplit]

/-- How far the decoder is: these messages are out, and the rest of what it has been
given is the beginning of the others. -/
structure Decoded (messages : List ByteString) (consumed : ByteString) (delivered : List ByteString)
    (decoder : MessageDecoder) : Prop where
  isPrefix : delivered <+: messages
  split : consumed = delivered.flatMap framed ++ decoder.buffered
  incomplete : Incomplete decoder.buffered (messages.drop delivered.length)

theorem decoded_start (messages : List ByteString) : Decoded messages [] [] ⟨[]⟩ where
  isPrefix := nil_prefix
  split := rfl
  incomplete :=
    { isPrefix := nil_prefix
      short := by
        intro message later _
        rw [length_framed, lengthPrefixBytes, length_nil]
        omega }

variable {consumed record : ByteString} {decoder : MessageDecoder} {delivered : List ByteString}

/-- A record more, and the decoder is still in step with the messages. -/
theorem Decoded.push (hvalid : ∀ message ∈ messages, IsRelayMessage message)
    (hdecoded : Decoded messages consumed delivered decoder)
    (hrecord : record.length ≤ noiseRecordPlaintextLen)
    (hbegins : consumed ++ record <+: messages.flatMap framed) :
    ∃ more decoder', decoder.push record = .ok (more, decoder') ∧
      Decoded messages (consumed ++ record) (delivered ++ more) decoder' := by
  obtain ⟨others, rfl⟩ := hdecoded.isPrefix
  rw [hdecoded.split, append_assoc, flatMap_append, prefix_append_right_inj] at hbegins
  have hothers : ∀ message ∈ others, IsRelayMessage message :=
    fun message hmessage => hvalid message (mem_append_right _ hmessage)
  obtain ⟨taken, left, hrun, hsplit, hleft⟩ := drain_spec hothers hbegins le_rfl
  refine ⟨others.take taken, ⟨left⟩, ?_, ?_, ?_, ?_⟩
  · unfold MessageDecoder.push
    rw [if_neg (not_lt.mpr hrecord)]
    dsimp only
    rw [hrun, ok_bind, if_neg]
    · rfl
    · refine not_lt.mpr (hleft.length_le fun message hmessage => hothers message ?_)
      exact mem_of_mem_drop hmessage
  · rw [prefix_append_right_inj]
    exact take_prefix _ _
  · rw [hdecoded.split, append_assoc, hsplit, flatMap_append, append_assoc]
  · rw [length_append, drop_append, drop_eq_nil_of_le (Nat.le_add_right _ _),
      Nat.add_sub_cancel_left]
    have hdrop : others.drop (others.take taken).length = others.drop taken := by
      rw [drop_eq_drop_iff, length_take]
      omega
    rwa [hdrop]

theorem Decoded.complete (hdecoded : Decoded messages (messages.flatMap framed) delivered decoder) :
    delivered = messages := by
  obtain ⟨others, rfl⟩ := hdecoded.isPrefix
  have hincomplete := hdecoded.incomplete
  rw [drop_left] at hincomplete
  have hsplit := hdecoded.split
  rw [flatMap_append, append_cancel_left_eq] at hsplit
  cases others with
  | nil => rw [append_nil]
  | cons message later =>
    have hshort := hincomplete.short message later rfl
    rw [← hsplit, flatMap_cons, length_append] at hshort
    omega

/-! ## The sender -/

variable {channel : NoiseChannel}

/-- The sender encrypts the records to the ciphertexts and is left as given. -/
inductive Encrypts (channel : NoiseChannel) :
    channel.Sender → List ByteString → List ByteString → channel.Sender → Prop
  | nil (sender : channel.Sender) : Encrypts channel sender [] [] sender
  | cons {sender sender' last : channel.Sender} {record ciphertext : ByteString}
      {records ciphertexts : List ByteString}
      (hencrypt : channel.encrypt sender record = some (ciphertext, sender'))
      (hrest : Encrypts channel sender' records ciphertexts last) :
      Encrypts channel sender (record :: records) (ciphertext :: ciphertexts) last

variable {records ciphertexts : List ByteString}

namespace Encrypts

variable {sender middle last : channel.Sender}

theorem length_eq (h : Encrypts channel sender records ciphertexts last) :
    records.length = ciphertexts.length := by
  induction h with
  | nil => rfl
  | cons _ _ ih => rw [length_cons, length_cons, ih]

theorem append (h : Encrypts channel sender records ciphertexts middle)
    {records' ciphertexts' : List ByteString}
    (h' : Encrypts channel middle records' ciphertexts' last) :
    Encrypts channel sender (records ++ records') (ciphertexts ++ ciphertexts') last := by
  induction h with
  | nil => exact h'
  | cons hencrypt _ ih => exact .cons hencrypt (ih h')

theorem split (h : Encrypts channel sender records ciphertexts last) (n : ℕ) :
    ∃ middle, Encrypts channel sender (records.take n) (ciphertexts.take n) middle ∧
      Encrypts channel middle (records.drop n) (ciphertexts.drop n) last := by
  induction h generalizing n with
  | nil sender =>
    refine ⟨sender, ?_, ?_⟩
    · rw [take_nil]
      exact .nil sender
    · rw [drop_nil]
      exact .nil sender
  | cons hencrypt hrest ih =>
    cases n with
    | zero => exact ⟨_, .nil _, .cons hencrypt hrest⟩
    | succ n =>
      obtain ⟨middle, hfirst, hsecond⟩ := ih n
      exact ⟨middle, .cons hencrypt hfirst, hsecond⟩

end Encrypts

/-- The frames on the wire are numbered in order and carry the first of the records;
all of them, if the writer has not stopped. -/
structure Wrote (writer : NoiseWriter channel) (records : List ByteString)
    (written : List RelayData × Option (NoiseWriter channel)) : Prop where
  fits : writer.nextSeq + written.1.length < 2 ^ 32
  numbered : ∀ index data, written.1[index]? = some data → data.seq = writer.nextSeq + index
  encrypted : ∃ sender,
    Encrypts channel writer.transport (records.take written.1.length)
      (written.1.map RelayData.payload) sender ∧
    ∀ writer', written.2 = some writer' →
      writer' = ⟨writer.nextSeq + written.1.length, sender⟩ ∧ written.1.length = records.length

namespace Wrote

variable {writer writer' : NoiseWriter channel} {records' : List ByteString}
  {written written' : List RelayData × Option (NoiseWriter channel)}

theorem stopped (hfits : writer.nextSeq < 2 ^ 32) (records : List ByteString) :
    Wrote writer records ([], none) where
  fits := hfits
  numbered := by simp
  encrypted := ⟨writer.transport, .nil _, fun _ h => by cases h⟩

section

variable (h : Wrote writer records written)
include h

theorem length_le : written.1.length ≤ records.length := by
  obtain ⟨sender, hencrypts, -⟩ := h.encrypted
  have hlength := hencrypts.length_eq
  rw [length_take, length_map] at hlength
  omega

theorem append_stopped (records' : List ByteString) :
    Wrote writer (records ++ records') (written.1, none) where
  fits := h.fits
  numbered := h.numbered
  encrypted := by
    obtain ⟨sender, hencrypts, -⟩ := h.encrypted
    refine ⟨sender, ?_, fun _ hsome => by cases hsome⟩
    rwa [take_append_of_le_length h.length_le]

theorem append (hgoes : written.2 = some writer') (h' : Wrote writer' records' written') :
    Wrote writer (records ++ records') (written.1 ++ written'.1, written'.2) := by
  obtain ⟨sender, hencrypts, hlast⟩ := h.encrypted
  obtain ⟨rfl, hall⟩ := hlast writer' hgoes
  obtain ⟨sender', hencrypts', hlast'⟩ := h'.encrypted
  have hfits := h'.fits
  dsimp only at hfits
  refine ⟨?_, ?_, sender', ?_, ?_⟩
  · rw [length_append]
    omega
  · intro index data hdata
    rcases Nat.lt_or_ge index written.1.length with hlt | hge
    · rw [getElem?_append_left hlt] at hdata
      exact h.numbered index data hdata
    · rw [getElem?_append_right hge] at hdata
      have hseq := h'.numbered _ data hdata
      dsimp only at hseq
      omega
  · rw [length_append, map_append, take_append,
      take_of_length_le (by omega), hall, Nat.add_sub_cancel_left]
    rw [hall, take_length] at hencrypts
    exact hencrypts.append hencrypts'
  · intro writer'' hgoes'
    obtain ⟨rfl, hall'⟩ := hlast' writer'' hgoes'
    rw [length_append, length_append]
    refine ⟨?_, by omega⟩
    rw [Nat.add_assoc]

end

end Wrote

/-- Every record is numbered and encrypted in its turn. -/
theorem wrote_writeRecords (writer : NoiseWriter channel) (hfits : writer.nextSeq < 2 ^ 32)
    (records : List ByteString) : Wrote writer records (writer.writeRecords records) := by
  induction records generalizing writer with
  | nil =>
    refine ⟨hfits, by simp [writeRecords], writer.transport, .nil _, ?_⟩
    intro writer' hgoes
    cases hgoes
    exact ⟨rfl, rfl⟩
  | cons record records ih =>
    unfold writeRecords takeNextSequence
    by_cases hnext : writer.nextSeq + 1 < 2 ^ 32
    · rw [if_pos hnext]
      cases hencrypt : channel.encrypt writer.transport record with
      | none => exact Wrote.stopped hfits _
      | some encrypted =>
        have hfirst : Wrote writer [record]
            ([⟨writer.nextSeq, encrypted.1⟩], some ⟨writer.nextSeq + 1, encrypted.2⟩) := by
          refine ⟨hnext, ?_, encrypted.2, .cons hencrypt (.nil _), ?_⟩
          · intro index data hdata
            cases index with
            | zero =>
              cases hdata
              rfl
            | succ index => cases hdata
          · intro writer' hgoes
            cases hgoes
            exact ⟨rfl, rfl⟩
        exact hfirst.append rfl (ih ⟨writer.nextSeq + 1, encrypted.2⟩ hnext)
    · rw [if_neg hnext]
      exact Wrote.stopped hfits _

/-- The records that the messages are cut into. -/
def recordsOf (messages : List ByteString) : List ByteString :=
  messages.flatMap fun message => chunks noiseRecordPlaintextLen (framed message)

/-- Messages are written as the records that they are cut into. -/
theorem wrote_writeMessages (writer : NoiseWriter channel) (hfits : writer.nextSeq < 2 ^ 32)
    (hvalid : ∀ message ∈ messages, IsRelayMessage message) :
    Wrote writer (recordsOf messages) (writer.writeMessages messages) := by
  induction messages generalizing writer with
  | nil => exact wrote_writeRecords writer hfits []
  | cons message messages ih =>
    rw [forall_mem_cons] at hvalid
    have hwrote := wrote_writeRecords writer hfits (chunks noiseRecordPlaintextLen (framed message))
    unfold writeMessages
    rw [frameMessage_eq hvalid.1]
    dsimp only
    cases hgoes : (writer.writeRecords (chunks noiseRecordPlaintextLen (framed message))).2 with
    | none => exact hwrote.append_stopped _
    | some writer' =>
      obtain ⟨sender, -, hlast⟩ := hwrote.encrypted
      have hnext := hwrote.fits
      refine hwrote.append hgoes (ih writer' ?_ hvalid.2)
      rw [(hlast writer' hgoes).1]
      exact hnext

section Goes

variable (hencrypts : ∀ sender plaintext, channel.encrypt sender plaintext ≠ none)
include hencrypts

theorem exists_writeRecords {writer : NoiseWriter channel}
    (hroom : writer.nextSeq + records.length < 2 ^ 32) :
    ∃ writer', (writer.writeRecords records).2 = some writer' ∧
      writer'.nextSeq = writer.nextSeq + records.length := by
  induction records generalizing writer with
  | nil => exact ⟨writer, rfl, rfl⟩
  | cons record records ih =>
    rw [length_cons] at hroom
    obtain ⟨encrypted, hencrypt⟩ :=
      Option.ne_none_iff_exists'.mp (hencrypts writer.transport record)
    have hnext : takeNextSequence writer.nextSeq = some (writer.nextSeq, writer.nextSeq + 1) :=
      if_pos (by omega)
    obtain ⟨writer', hgoes, hseq⟩ := @ih ⟨writer.nextSeq + 1, encrypted.2⟩ (by dsimp only; omega)
    refine ⟨writer', ?_, ?_⟩
    · rw [writeRecords, hnext]
      simp only [hencrypt]
      exact hgoes
    · rw [hseq, length_cons, Nat.add_comm records.length 1, ← Nat.add_assoc]

/-- A sender whose encryption does not fail and whose records can all be numbered does not
stop. -/
theorem exists_writeMessages {writer : NoiseWriter channel}
    (hvalid : ∀ message ∈ messages, IsRelayMessage message)
    (hroom : writer.nextSeq + (recordsOf messages).length < 2 ^ 32) :
    ∃ writer', (writer.writeMessages messages).2 = some writer' := by
  induction messages generalizing writer with
  | nil => exact ⟨writer, rfl⟩
  | cons message messages ih =>
    rw [forall_mem_cons] at hvalid
    rw [recordsOf, flatMap_cons, length_append] at hroom
    obtain ⟨middle, hgoes, hseq⟩ := exists_writeRecords hencrypts (Nat.lt_of_le_of_lt
      (Nat.add_le_add_left (Nat.le_add_right _ _) writer.nextSeq) hroom)
    obtain ⟨writer', hrest⟩ := ih hvalid.2 (by rw [hseq, Nat.add_assoc]; exact hroom)
    refine ⟨writer', ?_⟩
    rw [writeMessages, frameMessage_eq hvalid.1]
    simp only [hgoes]
    exact hrest

end Goes

theorem flatten_recordsOf (messages : List ByteString) :
    (recordsOf messages).flatten = messages.flatMap framed := by
  induction messages with
  | nil => rfl
  | cons message messages ih =>
    rw [recordsOf, flatMap_cons, flatten_append, flatten_chunks (by decide), flatMap_cons, ← ih]
    rfl

theorem length_le_of_mem_recordsOf (h : record ∈ recordsOf messages) :
    record.length ≤ noiseRecordPlaintextLen := by
  obtain ⟨message, -, hchunk⟩ := mem_flatMap.mp h
  exact length_le_of_mem_chunks hchunk

theorem harnessRecords_eq_chunksFrom {bytes : ByteString} {fuel offset : ℕ}
    (hlt : offset < bytes.length) (hfuel : bytes.length - offset ≤ fuel) :
    harnessRecords bytes fuel offset =
      chunksFrom noiseRecordPlaintextLen fuel (bytes.drop offset) := by
  induction fuel generalizing offset with
  | zero => omega
  | succ fuel ih =>
    have hpos : 0 < noiseRecordPlaintextLen := by decide
    have hcons := drop_eq_getElem_cons hlt
    rw [harnessRecords, ← take_eq_take_min, drop_take, Nat.add_sub_cancel_left, hcons, chunksFrom,
      ← hcons, drop_drop]
    split
    next hend =>
      have hle : bytes.length ≤ offset + noiseRecordPlaintextLen := by omega
      rw [drop_eq_nil_of_le hle]
      cases fuel <;> rfl
    next hmore => rw [ih (by omega) (by omega), Nat.min_eq_left (by omega)]

/-- The harness and the executor cut the same records. -/
theorem harnessRecords_eq_chunks (message : ByteString) :
    harnessRecords (framed message) (framed message).length 0 =
      chunks noiseRecordPlaintextLen (framed message) :=
  harnessRecords_eq_chunksFrom (by simp [framed]) (Nat.sub_le _ _)

/-! ## The receiver -/

/-- Frames that are released in order are decrypted and decoded to messages. -/
theorem receiveReleased_spec (stream : NoiseVirtualStream channel)
    (hvalid : ∀ message ∈ messages, IsRelayMessage message) {sender last : channel.Sender}
    (hencrypts : Encrypts channel sender records ciphertexts last)
    (hrecords : ∀ record ∈ records, record.length ≤ noiseRecordPlaintextLen)
    (hstep : channel.InStep sender stream.transport)
    (hdecoded : Decoded messages consumed delivered stream.inboundDecoder)
    (hbegins : consumed ++ records.flatten <+: messages.flatMap framed) :
    ∃ more stream', stream.receiveReleased ciphertexts = .ok (more, stream') ∧
      stream'.inboundCiphertexts = stream.inboundCiphertexts ∧
      channel.InStep last stream'.transport ∧
      Decoded messages (consumed ++ records.flatten) (delivered ++ more)
        stream'.inboundDecoder := by
  induction hencrypts generalizing stream consumed delivered with
  | nil sender =>
    refine ⟨[], stream, rfl, rfl, hstep, ?_⟩
    rwa [flatten_nil, append_nil, append_nil]
  | @cons sender sender' last record ciphertext records ciphertexts hencrypt _ ih =>
    rw [forall_mem_cons] at hrecords
    obtain ⟨transport, hdecrypt, hstep⟩ := channel.decrypt_encrypt _ _ _ _ _ hstep hencrypt
    rw [flatten_cons, ← append_assoc] at hbegins ⊢
    obtain ⟨first, decoder, hpush, hdecoded⟩ := hdecoded.push hvalid hrecords.1
        ((prefix_append _ _).trans hbegins)
    obtain ⟨more, stream', hrun, hsame, hlast, hdone⟩ :=
      ih { stream with transport := transport, inboundDecoder := decoder }
        hrecords.2 hstep hdecoded hbegins
    refine ⟨first ++ more, stream', ?_, hsame, hlast, ?_⟩
    · unfold receiveReleased
      rw [hdecrypt]
      dsimp only
      rw [hpush, ok_bind, hrun]
      rfl
    · rwa [← append_assoc]

/-- The stream has released the first `nextSeq` of the ciphertexts sent, and has
delivered what their records complete. -/
structure Receiving (channel : NoiseChannel) (messages sent : List ByteString) (arrived : Finset ℕ)
    (delivered : List ByteString) (stream : NoiseVirtualStream channel) : Prop where
  buffers : Buffers sent arrived stream.inboundCiphertexts
  waiting : stream.inboundCiphertexts.nextSeq ∉ arrived
  decoded : Decoded messages
    ((recordsOf messages).take stream.inboundCiphertexts.nextSeq).flatten delivered
    stream.inboundDecoder
  inStep : ∃ sender last, channel.InStep sender stream.transport ∧
    Encrypts channel sender
      (((recordsOf messages).take sent.length).drop stream.inboundCiphertexts.nextSeq)
      (sent.drop stream.inboundCiphertexts.nextSeq) last

variable {data : RelayData} {stream : NoiseVirtualStream channel}

/-- One frame keeps the stream in step with what was sent. -/
theorem Receiving.receiveData (hvalid : ∀ message ∈ messages, IsRelayMessage message)
    (hreceiving : Receiving channel messages sent arrived delivered stream)
    (hsent : sent[data.seq]? = some data.payload)
    (hwindow : data.seq ∉ arrived → firstMissing arrived < data.seq →
      InWindow sent arrived data.seq) :
    ∃ more stream', stream.receiveData data = .ok (more, stream') ∧
      Receiving channel messages sent (insert data.seq arrived) (delivered ++ more) stream' := by
  obtain ⟨frames', hpush, hbuffers, hwaiting, hle⟩ :=
    hreceiving.buffers.push hreceiving.waiting hsent hwindow
  obtain ⟨sender, last, hstep, hencrypts⟩ := hreceiving.inStep
  have hnext := hbuffers.next_le
  -- The records that are released now, and those that stay.
  obtain ⟨middle, hnow, hlater⟩ :=
    hencrypts.split (frames'.nextSeq - stream.inboundCiphertexts.nextSeq)
  rw [drop_drop, drop_drop, Nat.add_sub_cancel' hle] at hlater
  rw [← drop_take, ← drop_take, take_take, min_eq_left hnext] at hnow
  have hflatten : ((recordsOf messages).take stream.inboundCiphertexts.nextSeq).flatten ++
      (((recordsOf messages).take frames'.nextSeq).drop stream.inboundCiphertexts.nextSeq).flatten =
      ((recordsOf messages).take frames'.nextSeq).flatten := by
    rw [← flatten_append]
    conv_rhs => rw [← take_append_drop stream.inboundCiphertexts.nextSeq
      ((recordsOf messages).take frames'.nextSeq)]
    rw [take_take, min_eq_left hle]
  obtain ⟨more, stream', hrun, hframes, hlast, hdone⟩ :=
    receiveReleased_spec { stream with inboundCiphertexts := frames' } hvalid hnow
      (fun record hrecord => length_le_of_mem_recordsOf (mem_of_mem_take (mem_of_mem_drop hrecord)))
      hstep hreceiving.decoded (by
        rw [hflatten, ← flatten_recordsOf]
        apply IsPrefix.flatten
        exact take_prefix _ _)
  refine ⟨more, stream', ?_, ?_, ?_, ?_, ?_⟩
  · unfold NoiseVirtualStream.receiveData
    rw [hpush, ok_bind, hrun]
  · rwa [hframes]
  · rwa [hframes]
  · rw [hframes, ← hflatten]
    exact hdone
  · rw [hframes]
    exact ⟨middle, last, hlast, hlater⟩

/-- Every record is within the window when it arrives, or is there already. -/
def WithinWindow (sent : List ByteString) : Finset ℕ → List RelayData → Prop
  | _, [] => True
  | arrived, data :: arrivals =>
    (data.seq ∉ arrived → firstMissing arrived < data.seq → InWindow sent arrived data.seq) ∧
    WithinWindow sent (insert data.seq arrived) arrivals

variable {arrivals : List RelayData}

/-- So do all frames, in any order and with copies. -/
theorem Receiving.receiveAll (hvalid : ∀ message ∈ messages, IsRelayMessage message)
    (hreceiving : Receiving channel messages sent arrived delivered stream)
    (hsent : ∀ data ∈ arrivals, sent[data.seq]? = some data.payload)
    (hwindow : WithinWindow sent arrived arrivals) :
    ∃ more stream', stream.receiveAll arrivals = .ok (more, stream') ∧
      Receiving channel messages sent (arrived ∪ (arrivals.map RelayData.seq).toFinset)
        (delivered ++ more) stream' := by
  induction arrivals generalizing stream arrived delivered with
  | nil =>
    refine ⟨[], stream, rfl, ?_⟩
    rwa [append_nil, map_nil, toFinset_nil, Finset.union_empty]
  | cons data arrivals ih =>
    rw [forall_mem_cons] at hsent
    obtain ⟨first, middle, hfirst, hreceiving⟩ :=
      hreceiving.receiveData hvalid hsent.1 hwindow.1
    obtain ⟨more, stream', hrun, hdone⟩ := ih hreceiving hsent.2 hwindow.2
    refine ⟨first ++ more, stream', ?_, ?_⟩
    · rw [receiveAll, hfirst, ok_bind, hrun]
      rfl
    · rw [append_assoc, Finset.insert_union, ← Finset.union_insert] at hdone
      rwa [map_cons, toFinset_cons]

theorem getElem?_payload_of_mem {writer : NoiseWriter channel} (hstart : writer.nextSeq = 0)
    {written : List RelayData × Option (NoiseWriter channel)}
    (hwrote : Wrote writer records written) (hdata : data ∈ written.1) :
    (written.1.map RelayData.payload)[data.seq]? = some data.payload := by
  obtain ⟨index, hindex⟩ := mem_iff_getElem?.mp hdata
  have hseq := hwrote.numbered index data hindex
  rw [hstart, Nat.zero_add] at hseq
  rw [hseq, getElem?_map, hindex]
  rfl

/-- When every frame has arrived, every frame has been released. -/
theorem Receiving.nextSeq_eq_of_all {writer : NoiseWriter channel} (hstart : writer.nextSeq = 0)
    {written : List RelayData × Option (NoiseWriter channel)}
    (hwrote : Wrote writer records written)
    (hreceiving : Receiving channel messages (written.1.map RelayData.payload)
      (∅ ∪ (arrivals.map RelayData.seq).toFinset) delivered stream)
    (hall : ∀ data ∈ written.1, data ∈ arrivals) :
    stream.inboundCiphertexts.nextSeq = written.1.length := by
  have hle := hreceiving.buffers.next_le
  rw [length_map] at hle
  refine le_antisymm hle ?_
  by_contra hlt
  apply hreceiving.waiting
  have hget := getElem?_eq_getElem (not_le.mp hlt)
  have hseq := hwrote.numbered _ _ hget
  rw [hstart, Nat.zero_add] at hseq
  rw [Finset.empty_union, mem_toFinset, ← hseq]
  exact mem_map_of_mem (hall _ (mem_of_getElem? hget))

/-- Whatever way the network repeats the frames of some messages, and reorders them
within the window: the receiver puts out a prefix of the messages, and all of them
once every frame of a sender that did not stop has arrived.  It does not stop if encryption
does not fail and the sequence numbers suffice. -/
theorem relay_delivers_prefix (channel : NoiseChannel) {sender : channel.Sender}
    {receiver : channel.Receiver} (hstep : channel.InStep sender receiver)
    {messages : List ByteString} (hvalid : ∀ message ∈ messages, IsRelayMessage message)
    {frames : List RelayData} {outcome : Option (NoiseWriter channel)}
    (hwritten : writeMessages ⟨0, sender⟩ messages = (frames, outcome))
    {arrivals : List RelayData} (harrivals : ∀ data ∈ arrivals, data ∈ frames)
    (hwindow : WithinWindow (frames.map RelayData.payload) ∅ arrivals) :
    ((∀ sender plaintext, channel.encrypt sender plaintext ≠ none) →
        (recordsOf messages).length < 2 ^ 32 → outcome ≠ none) ∧
    ∃ delivered stream,
      (new receiver).receiveAll arrivals = .ok (delivered, stream) ∧
      delivered <+: messages ∧
      (outcome ≠ none → (∀ data ∈ frames, data ∈ arrivals) → delivered = messages) := by
  refine ⟨fun hencrypts hroom => ?_, ?_⟩
  · obtain ⟨writer', hgoes⟩ := @exists_writeMessages _ _ hencrypts ⟨0, sender⟩ hvalid
      (by rw [Nat.zero_add]; exact hroom)
    rw [hwritten] at hgoes
    exact Option.ne_none_iff_exists'.mpr ⟨writer', hgoes⟩
  have hwrote := wrote_writeMessages ⟨0, sender⟩ (Nat.two_pow_pos 32) hvalid
  rw [hwritten] at hwrote
  obtain ⟨last, hencrypts, hcomplete⟩ := hwrote.encrypted
  have hstart : Receiving channel messages (frames.map RelayData.payload) ∅ [] (.new receiver) := by
    refine ⟨buffers_empty ?_, Finset.notMem_empty _, decoded_start messages,
      sender, last, hstep, ?_⟩
    · have hfits := hwrote.fits
      rw [length_map]
      dsimp only at hfits
      omega
    · rw [length_map]
      exact hencrypts
  obtain ⟨delivered, stream, hrun, hreceiving⟩ := hstart.receiveAll hvalid
    (fun data hdata => getElem?_payload_of_mem rfl hwrote (harrivals data hdata)) hwindow
  refine ⟨delivered, stream, hrun, hreceiving.decoded.isPrefix, fun hgoes hall => ?_⟩
  obtain ⟨writer', houtcome⟩ := Option.ne_none_iff_exists'.mp hgoes
  have hlength := (hcomplete writer' houtcome).2
  have hnext := hreceiving.nextSeq_eq_of_all rfl hwrote hall
  have hdecoded := hreceiving.decoded
  rw [hnext, hlength, take_length, flatten_recordsOf] at hdecoded
  exact hdecoded.complete

/-! ### A few small records

A stream that is as short as the window, with records that fill it at most, may arrive
in any order. -/

/-- A short transmission always fits the window. -/
theorem withinWindow_of_small (hcount : sent.length ≤ maxReorderDistance)
    (hsize : ∀ payload ∈ sent, payload.length ≤ 16 * 1024)
    (hsent : ∀ data ∈ arrivals, data.seq < sent.length)
    (harrived : ∀ seq ∈ arrived, seq < sent.length) : WithinWindow sent arrived arrivals := by
  induction arrivals generalizing arrived with
  | nil => trivial
  | cons data arrivals ih =>
    obtain ⟨hdata, hsent⟩ := forall_mem_cons.mp hsent
    have hinsert : ∀ seq ∈ insert data.seq arrived, seq < sent.length :=
      Finset.forall_mem_insert .. |>.mpr ⟨hdata, harrived⟩
    refine ⟨fun _ _ => ⟨by omega, ?_⟩, ih hsent hinsert⟩
    calc
      ∑ held ∈ (insert data.seq arrived).filter (firstMissing arrived ≤ ·),
          (sent.getD held []).length
          ≤ ∑ held ∈ Finset.range sent.length, (sent.getD held []).length := by
        refine Finset.sum_le_sum_of_subset fun held hheld => ?_
        exact Finset.mem_range.mpr (hinsert held (Finset.mem_filter.mp hheld).1)
      _ ≤ (Finset.range sent.length).card • (16 * 1024) := by
        refine Finset.sum_le_card_nsmul _ _ _ fun held hheld => ?_
        rw [getD_eq_getElem?_getD, getElem?_eq_getElem (Finset.mem_range.mp hheld)]
        exact hsize _ (getElem_mem _)
      _ ≤ maxPendingBytes := by
        rw [Finset.card_range, nsmul_eq_mul, Nat.cast_id]
        unfold maxPendingBytes
        unfold maxReorderDistance at hcount
        omega

/-- A transport whose ciphertexts begin with a counter. -/
def countingChannel : NoiseChannel where
  Sender := ℕ
  Receiver := ℕ
  encrypt := fun nonce plaintext => some (UInt8.ofNat nonce :: plaintext, nonce + 1)
  decrypt := fun nonce ciphertext =>
    if ciphertext.head? = some (UInt8.ofNat nonce) then some (ciphertext.tail, nonce + 1)
    else none
  InStep := Eq
  decrypt_encrypt := by
    rintro sender _ plaintext ciphertext sender' rfl hencrypt
    cases hencrypt
    exact ⟨sender + 1, if_pos rfl, rfl⟩

def twoMessages : List ByteString := [[1, 2], [3]]

def firstFrame : RelayData := ⟨0, [0, 0, 0, 0, 2, 1, 2]⟩

def secondFrame : RelayData := ⟨1, [1, 0, 0, 0, 1, 3]⟩

/-- Both frames come twice, and the second one comes first. -/
theorem two_messages_delivered :
    ∃ (delivered : List ByteString) (stream : NoiseVirtualStream countingChannel),
      (new (0 : ℕ)).receiveAll
          [secondFrame, firstFrame, secondFrame, firstFrame] = .ok (delivered, stream) ∧
      delivered <+: twoMessages ∧
      (some (⟨2, (2 : ℕ)⟩ : NoiseWriter countingChannel) ≠ none →
        (∀ data ∈ [firstFrame, secondFrame],
          data ∈ [secondFrame, firstFrame, secondFrame, firstFrame]) →
        delivered = twoMessages) := by
  have hstep : countingChannel.InStep (0 : ℕ) (0 : ℕ) := rfl
  have hvalid : ∀ message ∈ twoMessages, IsRelayMessage message := by decide
  have hwritten : writeMessages (⟨0, (0 : ℕ)⟩ : NoiseWriter countingChannel) twoMessages =
      ([firstFrame, secondFrame], some ⟨2, (2 : ℕ)⟩) := rfl
  have hwindow : WithinWindow ([firstFrame, secondFrame].map RelayData.payload) ∅
      [secondFrame, firstFrame, secondFrame, firstFrame] :=
    withinWindow_of_small (by decide) (by decide) (by decide) (by simp)
  have hrelay := relay_delivers_prefix countingChannel hstep hvalid hwritten (by decide) hwindow
  exact hrelay.2

end Rexux.ExecServer
