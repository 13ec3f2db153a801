import Rexux.Foundation.Dict
import Rexux.RemoteControl.Protocol

/-!
# Segmented messages

A message that is too large for one websocket frame travels as numbered segments, each
a piece of its JSON text in base64.  The receiver keeps at most one unfinished message
for each client and decodes it when the last segment is in.

The base64 and JSON libraries are parameters.
-/

namespace Rexux.RemoteControl

open Foundation List Dict

/-! ## Limits and codecs -/

def remoteControlSegmentTargetBytes : ℕ := 100 * 1024

def remoteControlSegmentMaxBytes : ℕ := 150 * 1024

def remoteControlReassembledMaxBytes : ℕ := 100 * 1024 * 1024

def remoteControlSegmentCountMax : ℕ := 1024

def remoteControlSegmentAssemblyMaxCount : ℕ := 128

def utf8Len : Text → ℕ
  | [] => 0
  | char :: text => char.utf8Size + utf8Len text

/-- What the libraries are taken to do: decoding inverts encoding, the estimate is an
upper bound, and only nothing is encoded as nothing. -/
structure SegmentCodec where
  encode : ByteString → Text
  decode : Text → Option ByteString
  decodedLenEstimate : ℕ → ℕ
  fromSlice : ByteString → Option JSONRPCMessage
  decode_encode : ∀ bytes, decode (encode bytes) = some bytes
  length_le_estimate : ∀ text bytes, decode text = some bytes →
    bytes.length ≤ decodedLenEstimate (utf8Len text)
  encode_ne_nil : ∀ bytes, bytes ≠ [] → encode bytes ≠ []

/-! ## Reassembly -/

structure ClientSegmentMetadata where
  seqId : ℕ
  segmentCount : ℕ
  messageSizeBytes : ℕ
  deriving DecidableEq, Repr

/-- The chunks of one message so far. -/
structure ClientSegmentAssembly where
  streamId : StreamId
  metadata : ClientSegmentMetadata
  raw : ByteString
  nextSegmentId : ℕ
  lastChunkSeenAt : ℕ
  deriving DecidableEq, Repr

def ClientSegmentAssembly.new (streamId : StreamId) (metadata : ClientSegmentMetadata)
    (now : ℕ) : ClientSegmentAssembly where
  streamId := streamId
  metadata := metadata
  raw := []
  nextSegmentId := 0
  lastChunkSeenAt := now

structure ClientSegmentReassembler where
  assemblies : Dict ClientId ClientSegmentAssembly

open ClientSegmentReassembler

inductive ClientSegmentObservation
  | forward (envelope : ClientEnvelope)
  | pending
  | dropped
  deriving DecidableEq, Repr

inductive AssemblyUpdate
  | pending
  | ignore
  | drop
  | complete (message : JSONRPCMessage)

/-- The segment of an envelope. -/
structure ClientSegment where
  clientId : ClientId
  streamId : StreamId
  metadata : ClientSegmentMetadata
  segmentId : ℕ
  messageChunkBase64 : Text

namespace ClientSegmentAssembly

/-- Decode the next chunk behind what is there, into what the declared size leaves. -/
def append (codec : SegmentCodec) (assembly : ClientSegmentAssembly) (segment : ClientSegment)
    (now : ℕ) : AssemblyUpdate × ClientSegmentAssembly :=
  let chunkStart := assembly.raw.length
  let chunkEnd :=
    min segment.metadata.messageSizeBytes
      (chunkStart + codec.decodedLenEstimate (utf8Len segment.messageChunkBase64))
  -- A failed decoding leaves the buffer at this length; what it wrote there goes
  -- unread, as the assembly is removed.
  let resized :=
    { assembly with
      raw := assembly.raw ++ List.replicate (chunkEnd - chunkStart) 0
      lastChunkSeenAt := now }
  match codec.decode segment.messageChunkBase64 with
  | none => (.drop, resized)
  | some decoded =>
    -- The output slice is too small.
    if chunkEnd - chunkStart < decoded.length then (.drop, resized)
    else
      let grown :=
        { assembly with
          raw := assembly.raw ++ decoded
          nextSegmentId := assembly.nextSegmentId + 1
          lastChunkSeenAt := now }
      if grown.nextSegmentId < segment.metadata.segmentCount then (.pending, grown)
      else if grown.raw.length ≠ segment.metadata.messageSizeBytes then (.drop, grown)
      else
        match codec.fromSlice grown.raw with
        | none => (.drop, grown)
        | some message => (.complete message, grown)

/-- A chunk that is repeated is ignored, one out of order drops the message. -/
def update (codec : SegmentCodec) (assembly : ClientSegmentAssembly) (segment : ClientSegment)
    (now : ℕ) : AssemblyUpdate × ClientSegmentAssembly :=
  if segment.metadata.seqId < assembly.metadata.seqId then (.ignore, assembly)
  else if assembly.metadata ≠ segment.metadata then (.drop, assembly)
  else if segment.segmentId < assembly.nextSegmentId then (.pending, assembly)
  else if segment.segmentId ≠ assembly.nextSegmentId then (.drop, assembly)
  else assembly.append codec segment now

end ClientSegmentAssembly

namespace ClientSegmentReassembler

def empty : ClientSegmentReassembler := ⟨.empty⟩

variable (reassembler : ClientSegmentReassembler) (clientId : ClientId)

def removeAssembly (streamId : StreamId) : ClientSegmentReassembler :=
  if (reassembler.assemblies.get? clientId).any (·.streamId = streamId) then
    ⟨reassembler.assemblies.erase clientId⟩
  else reassembler

def invalidateStream (streamId : StreamId) : ClientSegmentReassembler :=
  reassembler.removeAssembly clientId streamId

def invalidateClient : ClientSegmentReassembler :=
  ⟨reassembler.assemblies.erase clientId⟩

def shouldIgnoreChunk (streamId : StreamId) (seqId segmentId : ℕ) : Bool :=
  (reassembler.assemblies.get? clientId).any fun assembly =>
    assembly.streamId = streamId &&
      (seqId < assembly.metadata.seqId ||
        (seqId = assembly.metadata.seqId && segmentId < assembly.nextSegmentId))

/-- The assembly whose last chunk is the oldest. -/
def longestWaiting : List (ClientId × ClientSegmentAssembly) →
    Option (ClientId × ClientSegmentAssembly)
  | [] => none
  | entry :: entries =>
    match longestWaiting entries with
    | none => some entry
    | some other =>
      if entry.2.lastChunkSeenAt ≤ other.2.lastChunkSeenAt then some entry else some other

/-- The loop takes out one assembly at each turn. -/
def evictAssembliesIfFull : ℕ → ClientSegmentReassembler → ClientSegmentReassembler
  | 0, reassembler => reassembler
  | fuel + 1, reassembler =>
    if remoteControlSegmentAssemblyMaxCount ≤ reassembler.assemblies.size then
      match longestWaiting reassembler.assemblies.entries with
      | none => reassembler
      | some entry => evictAssembliesIfFull fuel ⟨reassembler.assemblies.erase entry.1⟩
    else reassembler

def store (assembly : ClientSegmentAssembly) : ClientSegmentReassembler :=
  ⟨reassembler.assemblies.insert clientId assembly⟩

/-- The assembly a segment belongs to: a new one if the client has none, or has one on
another stream. -/
def prepare (segment : ClientSegment) (now : ℕ) : ClientSegmentReassembler :=
  let fresh := ClientSegmentAssembly.new segment.streamId segment.metadata now
  match reassembler.assemblies.get? segment.clientId with
  | some assembly =>
    if assembly.streamId ≠ segment.streamId then reassembler.store segment.clientId fresh
    else reassembler
  | none =>
    (evictAssembliesIfFull reassembler.assemblies.size reassembler).store segment.clientId fresh

def isInvalidSegment (segment : ClientSegment) : Bool :=
  segment.metadata.segmentCount = 0 ||
    remoteControlSegmentCountMax < segment.metadata.segmentCount ||
    segment.metadata.segmentCount ≤ segment.segmentId ||
    segment.metadata.messageSizeBytes = 0 ||
    remoteControlReassembledMaxBytes < segment.metadata.messageSizeBytes ||
    segment.messageChunkBase64 = []

/-- Store the updated assembly, or take it out if it is given up or complete. -/
def conclude (prepared : ClientSegmentReassembler) (envelope : ClientEnvelope)
    (segment : ClientSegment) (result : AssemblyUpdate × ClientSegmentAssembly) :
    ClientSegmentObservation × ClientSegmentReassembler :=
  let updated := prepared.store segment.clientId result.2
  match result.1 with
  | .pending => (.pending, updated)
  | .ignore => (.dropped, updated)
  | .drop => (.dropped, updated.removeAssembly segment.clientId segment.streamId)
  | .complete message =>
    (.forward { envelope with event := .clientMessage message },
      updated.removeAssembly segment.clientId segment.streamId)

/-- Check a chunk and add it to the assembly of its client. -/
def observeSegment (codec : SegmentCodec) (reassembler : ClientSegmentReassembler)
    (envelope : ClientEnvelope) (segment : ClientSegment) (now : ℕ) :
    ClientSegmentObservation × ClientSegmentReassembler :=
  if reassembler.shouldIgnoreChunk segment.clientId segment.streamId segment.metadata.seqId
      segment.segmentId then
    (.dropped, reassembler)
  else if isInvalidSegment segment then
    (.dropped, reassembler.removeAssembly segment.clientId segment.streamId)
  else
    let prepared := reassembler.prepare segment now
    match prepared.assemblies.get? segment.clientId with
    | none => (.dropped, prepared)
    | some assembly => prepared.conclude envelope segment (assembly.update codec segment now)

def segmentOf (envelope : ClientEnvelope) : Option ClientSegment :=
  match envelope.event, envelope.seqId, envelope.streamId with
  | .clientMessageChunk segmentId segmentCount messageSizeBytes chunk, some seqId,
      some streamId =>
      some ⟨envelope.clientId, streamId, ⟨seqId, segmentCount, messageSizeBytes⟩, segmentId, chunk⟩
  | _, _, _ => none

def isChunk (envelope : ClientEnvelope) : Bool :=
  match envelope.event with
  | .clientMessageChunk _ _ _ _ => true
  | _ => false

def observe (codec : SegmentCodec) (reassembler : ClientSegmentReassembler)
    (envelope : ClientEnvelope) (now : ℕ) : ClientSegmentObservation × ClientSegmentReassembler :=
  if !isChunk envelope then (.forward envelope, reassembler)
  else
    match segmentOf envelope with
    | none => (.dropped, reassembler)
    | some segment => reassembler.observeSegment codec envelope segment now

end ClientSegmentReassembler

/-! ## The websocket in front of it -/

structure WebsocketState where
  lastCompletedClientChunkSeqIdByStream : Dict (ClientId × Option StreamId) ℕ
  clientSegmentReassembler : ClientSegmentReassembler

namespace WebsocketState

def clientMessageKey (envelope : ClientEnvelope) : Option ((ClientId × Option StreamId) × ℕ) :=
  match envelope.event, envelope.seqId with
  | .clientMessageChunk _ _ _ _, some seqId => some ((envelope.clientId, envelope.streamId), seqId)
  | _, _ => none

variable (state : WebsocketState)

def isCompleted (envelope : ClientEnvelope) : Bool :=
  (clientMessageKey envelope).any fun key =>
    (state.lastCompletedClientChunkSeqIdByStream.get? key.1).any (key.2 ≤ ·)

def isIgnored (envelope : ClientEnvelope) : Bool :=
  (segmentOf envelope).any fun segment =>
    state.clientSegmentReassembler.shouldIgnoreChunk segment.clientId segment.streamId
      segment.metadata.seqId segment.segmentId

def setReassembler (reassembler : ClientSegmentReassembler) : WebsocketState :=
  { state with clientSegmentReassembler := reassembler }

/-- Repeated messages are dropped before they are observed. -/
def observeClientMessage (codec : SegmentCodec) (state : WebsocketState)
    (envelope : ClientEnvelope) (wireSizeBytes now : ℕ) :
    ClientSegmentObservation × WebsocketState :=
  if state.isCompleted envelope then (.dropped, state)
  else if state.isIgnored envelope then (.dropped, state)
  else if (clientMessageKey envelope).isSome && remoteControlSegmentMaxBytes < wireSizeBytes then
    match envelope.streamId with
    | none => (.dropped, state)
    | some streamId =>
      (.dropped, state.setReassembler
        (state.clientSegmentReassembler.invalidateStream envelope.clientId streamId))
  else
    let observed := state.clientSegmentReassembler.observe codec envelope now
    (observed.1, state.setReassembler observed.2)

def recordClientMessageDelivery (clientMessageKey : Option ((ClientId × Option StreamId) × ℕ)) :
    WebsocketState :=
  match clientMessageKey with
  | none => state
  | some (key, seqId) =>
    { state with
      lastCompletedClientChunkSeqIdByStream :=
        state.lastCompletedClientChunkSeqIdByStream.insert key seqId }

def invalidateClientMessageStream (clientId : ClientId) (streamId : StreamId) : WebsocketState :=
  { state with
    lastCompletedClientChunkSeqIdByStream :=
      state.lastCompletedClientChunkSeqIdByStream.erase (clientId, some streamId) }

def invalidateClientMessageClient (clientId : ClientId) : WebsocketState :=
  { state with
    lastCompletedClientChunkSeqIdByStream :=
      state.lastCompletedClientChunkSeqIdByStream.retain (·.1 ≠ clientId) }

end WebsocketState

/-! ## What the reassembler keeps -/

variable {reassembler : ClientSegmentReassembler} {observed : List ClientEnvelope}
  {streamId : StreamId} {clientId : ClientId}

section Invariant

variable {codec : SegmentCodec} {more : List ClientEnvelope} {metadata : ClientSegmentMetadata}

/-- The first `count` segments of one message are among the observed envelopes, and
`raw` is their decoded content in order. -/
inductive Assembled (codec : SegmentCodec) (observed : List ClientEnvelope)
    (clientId : ClientId) (streamId : StreamId) (metadata : ClientSegmentMetadata) :
    ℕ → ByteString → Prop
  | start : Assembled codec observed clientId streamId metadata 0 []
  | next {count : ℕ} {raw decoded : ByteString} {chunk : Text} {envelope : ClientEnvelope} :
      Assembled codec observed clientId streamId metadata count raw →
      envelope ∈ observed →
      segmentOf envelope = some ⟨clientId, streamId, metadata, count, chunk⟩ →
      codec.decode chunk = some decoded →
      Assembled codec observed clientId streamId metadata (count + 1) (raw ++ decoded)

theorem Assembled.mono (hsub : observed ⊆ more) {count : ℕ} {raw : ByteString}
    (h : Assembled codec observed clientId streamId metadata count raw) :
    Assembled codec more clientId streamId metadata count raw := by
  induction h with
  | start => exact .start
  | next _ hmem hsegment hdecode ih => exact .next ih (hsub hmem) hsegment hdecode

/-- The chunks of an assembly were observed, in order and of one message. -/
structure AssemblyInvariant (codec : SegmentCodec) (observed : List ClientEnvelope)
    (clientId : ClientId) (assembly : ClientSegmentAssembly) : Prop where
  assembled : Assembled codec observed clientId assembly.streamId assembly.metadata
    assembly.nextSegmentId assembly.raw
  raw_le : assembly.raw.length ≤ assembly.metadata.messageSizeBytes
  size_le : assembly.metadata.messageSizeBytes ≤ remoteControlReassembledMaxBytes

structure ReassemblerInvariant (codec : SegmentCodec) (observed : List ClientEnvelope)
    (reassembler : ClientSegmentReassembler) : Prop where
  size_le : reassembler.assemblies.size ≤ remoteControlSegmentAssemblyMaxCount
  assembly : ∀ clientId assembly, reassembler.assemblies.get? clientId = some assembly →
    AssemblyInvariant codec observed clientId assembly

theorem AssemblyInvariant.mono (hsub : observed ⊆ more) {assembly : ClientSegmentAssembly}
    (h : AssemblyInvariant codec observed clientId assembly) :
    AssemblyInvariant codec more clientId assembly :=
  ⟨h.assembled.mono hsub, h.raw_le, h.size_le⟩

theorem ReassemblerInvariant.mono (hsub : observed ⊆ more)
    (h : ReassemblerInvariant codec observed reassembler) :
    ReassemblerInvariant codec more reassembler :=
  ⟨h.size_le, fun clientId assembly hget => (h.assembly clientId assembly hget).mono hsub⟩

theorem ReassemblerInvariant.shrink {smaller : ClientSegmentReassembler}
    (h : ReassemblerInvariant codec observed reassembler)
    (hsize : smaller.assemblies.size ≤ reassembler.assemblies.size)
    (hget : ∀ clientId assembly, smaller.assemblies.get? clientId = some assembly →
      reassembler.assemblies.get? clientId = some assembly) :
    ReassemblerInvariant codec observed smaller :=
  ⟨hsize.trans h.size_le, fun clientId assembly hfound =>
    h.assembly clientId assembly (hget clientId assembly hfound)⟩

end Invariant

/-! ## One update of an assembly -/

namespace ClientSegmentAssembly

variable (codec : SegmentCodec) (assembly : ClientSegmentAssembly) (segment : ClientSegment)
  (now : ℕ)

def grow (decoded : ByteString) : ClientSegmentAssembly :=
  { assembly with
    raw := assembly.raw ++ decoded
    nextSegmentId := assembly.nextSegmentId + 1
    lastChunkSeenAt := now }

/-- What an update may come to: nothing changes, the assembly is given up, or it grows
by the segment it waits for. -/
inductive Updated : AssemblyUpdate × ClientSegmentAssembly → Prop
  | unchanged (update : AssemblyUpdate) (hupdate : ∀ message, update ≠ .complete message) :
      Updated (update, assembly)
  | givenUp (dropped : ClientSegmentAssembly)
      (hstream : dropped.streamId = assembly.streamId)
      (hraw : dropped.raw.length ≤ assembly.metadata.messageSizeBytes) :
      Updated (.drop, dropped)
  | grown (update : AssemblyUpdate) (decoded : ByteString)
      (hmetadata : assembly.metadata = segment.metadata)
      (hid : segment.segmentId = assembly.nextSegmentId)
      (hdecode : codec.decode segment.messageChunkBase64 = some decoded)
      (hraw : (assembly.raw ++ decoded).length ≤ assembly.metadata.messageSizeBytes)
      (hcomplete : ∀ message, update = .complete message →
        segment.metadata.segmentCount ≤ assembly.nextSegmentId + 1 ∧
          codec.fromSlice (assembly.raw ++ decoded) = some message) :
      Updated (update, assembly.grow now decoded)

variable {codec assembly segment now}

theorem append_updated (hmetadata : assembly.metadata = segment.metadata)
    (hid : segment.segmentId = assembly.nextSegmentId)
    (hle : assembly.raw.length ≤ assembly.metadata.messageSizeBytes) :
    Updated codec assembly segment now (assembly.append codec segment now) := by
  unfold append
  rw [hmetadata] at hle
  have hresized (room : ℕ) : (assembly.raw ++ List.replicate
        (min segment.metadata.messageSizeBytes (assembly.raw.length + room) -
          assembly.raw.length) 0).length ≤ assembly.metadata.messageSizeBytes := by
    rw [length_append, length_replicate, hmetadata]
    omega
  cases hdecode : codec.decode segment.messageChunkBase64 with
  | none => exact .givenUp _ rfl (hresized _)
  | some decoded =>
    dsimp only
    split
    · exact .givenUp _ rfl (hresized _)
    next hroom =>
      have hraw : (assembly.raw ++ decoded).length ≤ assembly.metadata.messageSizeBytes := by
        rw [length_append, hmetadata]
        omega
      split
      · exact .grown _ decoded hmetadata hid hdecode hraw (fun _ h => nomatch h)
      next hlast =>
        split
        · exact .grown _ decoded hmetadata hid hdecode hraw (fun _ h => nomatch h)
        · split
          · exact .grown _ decoded hmetadata hid hdecode hraw (fun _ h => nomatch h)
          next message hmessage =>
            refine .grown _ decoded hmetadata hid hdecode hraw ?_
            intro other hother
            cases hother
            exact ⟨Nat.le_of_not_lt hlast, hmessage⟩

section

variable (hle : assembly.raw.length ≤ assembly.metadata.messageSizeBytes)
include hle

theorem update_updated :
    Updated codec assembly segment now (assembly.update codec segment now) := by
  unfold update
  split
  · exact .unchanged _ (fun _ h => nomatch h)
  · split
    · exact .unchanged _ (fun _ h => nomatch h)
    next hmetadata =>
      split
      · exact .unchanged _ (fun _ h => nomatch h)
      · split
        · exact .unchanged _ (fun _ h => nomatch h)
        next hid => exact append_updated (not_not.mp hmetadata) (not_not.mp hid) hle

theorem length_raw_update_le :
    (assembly.update codec segment now).2.raw.length ≤ assembly.metadata.messageSizeBytes := by
  have h : Updated codec assembly segment now (assembly.update codec segment now) :=
    update_updated hle
  generalize assembly.update codec segment now = result at h
  cases h with
  | unchanged => exact hle
  | givenUp _ _ hraw => exact hraw
  | grown _ _ _ _ _ hraw => exact hraw

end

end ClientSegmentAssembly

/-! ## One observation -/

namespace ClientSegmentReassembler

variable {codec : SegmentCodec}
  {assembly : ClientSegmentAssembly} {segment : ClientSegment} {now : ℕ}

section

variable (h : ReassemblerInvariant codec observed reassembler)
include h

theorem invalidateClient_invariant :
    ReassemblerInvariant codec observed (reassembler.invalidateClient clientId) := by
  apply h.shrink
  · exact size_erase_le _ _
  · exact fun other assembly hget => get?_of_get?_erase hget

theorem removeAssembly_invariant :
    ReassemblerInvariant codec observed (reassembler.removeAssembly clientId streamId) := by
  unfold removeAssembly
  split
  · exact invalidateClient_invariant h
  · exact h

end

variable {entries : List (ClientId × ClientSegmentAssembly)}

theorem mem_of_longestWaiting {entry : ClientId × ClientSegmentAssembly}
    (h : longestWaiting entries = some entry) : entry ∈ entries := by
  induction entries generalizing entry with
  | nil => cases h
  | cons first entries ih =>
    rw [longestWaiting] at h
    cases hrest : longestWaiting entries with
    | none =>
      rw [hrest] at h
      cases h
      exact mem_cons_self
    | some other =>
      rw [hrest] at h
      dsimp only at h
      split at h
      · cases h
        exact mem_cons_self
      · cases h
        exact mem_cons_of_mem _ (ih hrest)

theorem eq_nil_of_longestWaiting (h : longestWaiting entries = none) : entries = [] := by
  cases entries with
  | nil => rfl
  | cons first entries =>
    rw [longestWaiting] at h
    split at h
    · cases h
    · split at h
      · cases h
      · cases h

variable {fuel : ℕ}

theorem get?_of_evict
    (h : (evictAssembliesIfFull fuel reassembler).assemblies.get? clientId = some assembly) :
    reassembler.assemblies.get? clientId = some assembly := by
  induction fuel generalizing reassembler with
  | zero => exact h
  | succ fuel ih =>
    rw [evictAssembliesIfFull] at h
    split at h
    · split at h
      · exact h
      next entry _ => exact get?_of_get?_erase (ih h)
    · exact h

/-- After eviction there is room for an assembly. -/
theorem size_evict_lt (hfuel : reassembler.assemblies.size ≤ fuel) :
    (evictAssembliesIfFull fuel reassembler).assemblies.size <
      remoteControlSegmentAssemblyMaxCount := by
  induction fuel generalizing reassembler with
  | zero =>
    rw [evictAssembliesIfFull, Nat.le_zero.mp hfuel]
    decide
  | succ fuel ih =>
    rw [evictAssembliesIfFull]
    split
    · split
      next hnone =>
        rw [size, eq_nil_of_longestWaiting hnone]
        decide
      next entry hsome =>
        have hget : reassembler.assemblies.get? entry.1 = some entry.2 :=
          get?_eq_some_iff.mpr (mem_of_longestWaiting hsome)
        have hlt := size_erase_lt hget
        apply ih
        dsimp only
        omega
    next hroom => exact Nat.lt_of_not_le hroom

variable (reassembler clientId assembly) in
@[simp] theorem get?_store_self :
    (reassembler.store clientId assembly).assemblies.get? clientId = some assembly := by
  rw [store, get?_insert, if_pos rfl]

section

variable (h : ReassemblerInvariant codec observed reassembler)
include h

theorem store_invariant (hassembly : AssemblyInvariant codec observed clientId assembly)
    (hroom : (reassembler.assemblies.erase clientId).size < remoteControlSegmentAssemblyMaxCount) :
    ReassemblerInvariant codec observed (reassembler.store clientId assembly) := by
  constructor
  · rw [store, size_insert]
    exact hroom
  · intro other found hget
    rw [store, get?_insert] at hget
    split at hget
    next heq =>
      cases hget
      rw [heq]
      exact hassembly
    · exact h.assembly other found hget

theorem prepare_invariant (hvalid : isInvalidSegment segment = false) :
    ReassemblerInvariant codec observed (reassembler.prepare segment now) := by
  have hfresh : AssemblyInvariant codec observed segment.clientId
      (.new segment.streamId segment.metadata now) := by
    refine ⟨.start, Nat.zero_le _, ?_⟩
    simp only [isInvalidSegment, Bool.or_eq_false_iff, decide_eq_false_iff_not] at hvalid
    exact Nat.le_of_not_lt hvalid.1.2
  unfold prepare
  cases hget : reassembler.assemblies.get? segment.clientId with
  | some assembly =>
    dsimp only
    split
    · apply store_invariant h hfresh
      exact (size_erase_lt hget).trans_le h.size_le
    · exact h
  | none =>
    have hlt : (evictAssembliesIfFull reassembler.assemblies.size reassembler).assemblies.size <
        remoteControlSegmentAssemblyMaxCount := size_evict_lt (Nat.le_refl _)
    have hevicted : ReassemblerInvariant codec observed
        (evictAssembliesIfFull reassembler.assemblies.size reassembler) :=
      ⟨Nat.le_of_lt hlt, fun other found hfound => h.assembly other found (get?_of_evict hfound)⟩
    exact store_invariant hevicted hfresh ((size_erase_le _ _).trans_lt hlt)

end

variable (reassembler segment now) in
theorem exists_get?_prepare :
    ∃ assembly, (reassembler.prepare segment now).assemblies.get? segment.clientId = some assembly ∧
      assembly.streamId = segment.streamId := by
  unfold prepare
  cases hget : reassembler.assemblies.get? segment.clientId with
  | some assembly =>
    dsimp only
    split
    · exact ⟨_, get?_store_self _ _ _, rfl⟩
    next hstream => exact ⟨assembly, hget, not_not.mp hstream⟩
  | none => exact ⟨_, get?_store_self _ _ _, rfl⟩

section

variable (h : ReassemblerInvariant codec observed reassembler)
include h

theorem remove_store_invariant (hget : (reassembler.assemblies.get? clientId).isSome)
    (hstream : assembly.streamId = streamId) :
    ReassemblerInvariant codec observed
      ((reassembler.store clientId assembly).removeAssembly clientId streamId) := by
  obtain ⟨old, hold⟩ := Option.isSome_iff_exists.mp hget
  have hsize : (reassembler.store clientId assembly).assemblies.size ≤
      reassembler.assemblies.size := by
    rw [store, size_insert]
    exact size_erase_lt hold
  unfold removeAssembly
  rw [get?_store_self, Option.any_some, if_pos (decide_eq_true hstream)]
  apply h.shrink
  · exact (size_erase_le _ _).trans hsize
  · intro other found hfound
    rw [get?_erase] at hfound
    split_ifs at hfound with hne
    rw [store, get?_insert, if_neg hne] at hfound
    exact hfound

variable {envelope : ClientEnvelope}

theorem conclude_invariant {result : AssemblyUpdate × ClientSegmentAssembly}
    (hget : reassembler.assemblies.get? segment.clientId = some assembly)
    (hstream : result.2.streamId = segment.streamId)
    (hkept : result.1 ≠ .drop → AssemblyInvariant codec observed segment.clientId result.2) :
    ReassemblerInvariant codec observed (reassembler.conclude envelope segment result).2 := by
  have hisSome := Option.isSome_iff_exists.mpr ⟨assembly, hget⟩
  have hroom := (size_erase_lt hget).trans_le h.size_le
  obtain ⟨update, updated⟩ := result
  cases update with
  | pending | ignore => exact store_invariant h (hkept (fun heq => nomatch heq)) hroom
  | drop | complete => exact remove_store_invariant h hisSome hstream

/-- A chunk keeps the invariant, and what it completes was observed. -/
theorem observeSegment_spec (hmem : envelope ∈ observed)
    (hsegment : segmentOf envelope = some segment) :
    ReassemblerInvariant codec observed
        (reassembler.observeSegment codec envelope segment now).2 ∧
      ∀ forwarded, (reassembler.observeSegment codec envelope segment now).1 = .forward forwarded →
        ∃ raw message, Assembled codec observed segment.clientId segment.streamId segment.metadata
            segment.metadata.segmentCount raw ∧
          codec.fromSlice raw = some message ∧
          forwarded = { envelope with event := .clientMessage message } := by
  unfold observeSegment
  split
  · exact ⟨h, fun _ hforward => nomatch hforward⟩
  · split
    · exact ⟨removeAssembly_invariant h, fun _ hforward => nomatch hforward⟩
    next hvalid =>
      rw [Bool.not_eq_true] at hvalid
      have hprepared : ReassemblerInvariant codec observed (reassembler.prepare segment now) :=
        prepare_invariant h hvalid
      obtain ⟨assembly, hget, hstream⟩ := exists_get?_prepare reassembler segment now
      have hassembly := hprepared.assembly _ _ hget
      simp only [hget]
      have hupdated : ClientSegmentAssembly.Updated codec assembly segment now
          (assembly.update codec segment now) :=
        ClientSegmentAssembly.update_updated hassembly.raw_le
      generalize assembly.update codec segment now = result at hupdated
      cases hupdated with
      | unchanged update hupdate =>
        refine ⟨conclude_invariant hprepared hget hstream fun _ => hassembly, ?_⟩
        cases update with
        | complete message => exact absurd rfl (hupdate message)
        | _ => exact fun _ hforward => nomatch hforward
      | givenUp dropped hdropped =>
        exact ⟨conclude_invariant hprepared hget (hdropped.trans hstream) (absurd rfl),
          fun _ hforward => nomatch hforward⟩
      | grown update decoded hmetadata hid hdecode hraw hcomplete =>
        have hgrown : Assembled codec observed segment.clientId segment.streamId
            segment.metadata (assembly.nextSegmentId + 1) (assembly.raw ++ decoded) := by
          have hassembled := hassembly.assembled
          rw [hstream, hmetadata] at hassembled
          apply hassembled.next hmem _ hdecode
          rw [hsegment, ← hid]
        constructor
        · refine conclude_invariant hprepared hget hstream fun _ => ⟨?_, hraw, hassembly.size_le⟩
          rw [← hstream, ← hmetadata] at hgrown
          exact hgrown
        cases update with
        | complete message =>
          obtain ⟨hcount, hmessage⟩ := hcomplete message rfl
          intro forwarded hforward
          cases hforward
          -- A valid segment id is below the count, so the count is reached exactly.
          have hlast : segment.metadata.segmentCount = assembly.nextSegmentId + 1 := by
            simp only [isInvalidSegment, Bool.or_eq_false_iff, decide_eq_false_iff_not] at hvalid
            omega
          refine ⟨assembly.raw ++ decoded, message, ?_, hmessage, rfl⟩
          rw [hlast]
          exact hgrown
        | _ => exact fun _ hforward => nomatch hforward

theorem observe_invariant (hmem : envelope ∈ observed) :
    ReassemblerInvariant codec observed (reassembler.observe codec envelope now).2 := by
  unfold observe
  split
  · exact h
  · cases hsegment : segmentOf envelope with
    | none => exact h
    | some segment => exact (observeSegment_spec h hmem hsegment).1

end

end ClientSegmentReassembler

inductive ReassemblerAction
  | observe (envelope : ClientEnvelope) (now : ℕ)
  | invalidateStream (clientId : ClientId) (streamId : StreamId)
  | invalidateClient (clientId : ClientId)

namespace ReassemblerAction

def perform (codec : SegmentCodec) (reassembler : ClientSegmentReassembler) :
    ReassemblerAction → ClientSegmentReassembler
  | .observe envelope now => (reassembler.observe codec envelope now).2
  | .invalidateStream clientId streamId => reassembler.invalidateStream clientId streamId
  | .invalidateClient clientId => reassembler.invalidateClient clientId

def envelope? : ReassemblerAction → Option ClientEnvelope
  | .observe envelope _ => some envelope
  | .invalidateStream _ _ => none
  | .invalidateClient _ => none

end ReassemblerAction

def ClientSegmentReassembler.run (codec : SegmentCodec) (actions : List ReassemblerAction) :
    ClientSegmentReassembler :=
  actions.foldl (ReassemblerAction.perform codec) .empty

def observedIn (actions : List ReassemblerAction) : List ClientEnvelope :=
  actions.filterMap ReassemblerAction.envelope?

/-- Every action keeps the invariant. -/
theorem perform_invariant {codec : SegmentCodec}
    (h : ReassemblerInvariant codec observed reassembler) {action : ReassemblerAction}
    (hmem : ∀ envelope, action.envelope? = some envelope → envelope ∈ observed) :
    ReassemblerInvariant codec observed (action.perform codec reassembler) := by
  cases action with
  | observe envelope now => exact observe_invariant h (hmem envelope rfl)
  | invalidateStream clientId streamId => exact removeAssembly_invariant h
  | invalidateClient clientId => exact invalidateClient_invariant h

/-- So does every run. -/
theorem run_invariant (codec : SegmentCodec) (actions : List ReassemblerAction) :
    ReassemblerInvariant codec (observedIn actions)
      (run codec actions) := by
  induction actions using List.reverseRecOn with
  | nil => exact ⟨Nat.zero_le _, fun _ _ hget => nomatch hget⟩
  | append_singleton actions action ih =>
    have hobserved : observedIn (actions ++ [action]) =
        observedIn actions ++ action.envelope?.toList := by
      cases h : action.envelope? with
      | none | some => simp [h, observedIn]
    rw [run, foldl_append, hobserved]
    apply perform_invariant (ih.mono (subset_append_left _ _))
    intro envelope henvelope
    rw [henvelope]
    exact mem_append_right _ (mem_singleton_self envelope)

/-! ## Runs of the websocket -/

inductive WebsocketAction
  | receive (envelope : ClientEnvelope) (wireSizeBytes now : ℕ)
  | delivered (clientMessageKey : Option ((ClientId × Option StreamId) × ℕ))
  | closeStream (clientId : ClientId) (streamId : StreamId)
  | closeClient (clientId : ClientId)

def WebsocketAction.envelope? : WebsocketAction → Option ClientEnvelope
  | .receive envelope _ _ => some envelope
  | .delivered _ => none
  | .closeStream _ _ => none
  | .closeClient _ => none

namespace WebsocketState

def empty : WebsocketState := ⟨.empty, .empty⟩

def perform (codec : SegmentCodec) (state : WebsocketState) : WebsocketAction → WebsocketState
  | .receive envelope wireSizeBytes now =>
    (state.observeClientMessage codec envelope wireSizeBytes now).2
  | .delivered clientMessageKey => state.recordClientMessageDelivery clientMessageKey
  | .closeStream clientId streamId =>
    (state.setReassembler
      (state.clientSegmentReassembler.invalidateStream clientId streamId)
      ).invalidateClientMessageStream clientId streamId
  | .closeClient clientId =>
    (state.setReassembler
      (state.clientSegmentReassembler.invalidateClient clientId)
      ).invalidateClientMessageClient clientId

def run (codec : SegmentCodec) (actions : List WebsocketAction) : WebsocketState :=
  actions.foldl (perform codec) .empty

def receivedIn (actions : List WebsocketAction) : List ClientEnvelope :=
  actions.filterMap WebsocketAction.envelope?

theorem exists_perform_eq (codec : SegmentCodec) (state : WebsocketState)
    (action : WebsocketAction) :
    ∃ own, observedIn own ⊆ action.envelope?.toList ∧
      (perform codec state action).clientSegmentReassembler =
        own.foldl (ReassemblerAction.perform codec) state.clientSegmentReassembler := by
  cases action with
  | receive envelope wireSizeBytes now =>
    rw [perform, observeClientMessage]
    split
    · exact ⟨[], nil_subset _, rfl⟩
    · split
      · exact ⟨[], nil_subset _, rfl⟩
      · split
        · split
          · exact ⟨[], nil_subset _, rfl⟩
          next streamId _ =>
            exact ⟨[.invalidateStream envelope.clientId streamId], nil_subset _, rfl⟩
        · exact ⟨[.observe envelope now], List.Subset.refl _, rfl⟩
  | delivered clientMessageKey =>
    refine ⟨[], nil_subset _, ?_⟩
    cases clientMessageKey with
    | none | some => rfl
  | closeStream clientId streamId =>
    exact ⟨[.invalidateStream clientId streamId], nil_subset _, rfl⟩
  | closeClient clientId => exact ⟨[.invalidateClient clientId], nil_subset _, rfl⟩

/-- The reassembler within the connection sees a run of its own actions. -/
theorem exists_run_eq (codec : SegmentCodec) (actions : List WebsocketAction) :
    ∃ own, observedIn own ⊆ receivedIn actions ∧
      (run codec actions).clientSegmentReassembler = ClientSegmentReassembler.run codec own := by
  induction actions using List.reverseRecOn with
  | nil => exact ⟨[], nil_subset _, rfl⟩
  | append_singleton actions action ih =>
    obtain ⟨own, hsub, hown⟩ := ih
    obtain ⟨more, hmore, hperform⟩ := exists_perform_eq codec (run codec actions) action
    refine ⟨own ++ more, ?_, ?_⟩
    · rw [observedIn, filterMap_append, receivedIn, filterMap_append]
      apply append_subset.mpr
      constructor
      · exact subset_append_of_subset_left _ hsub
      · intro envelope henvelope
        have hfound := hmore henvelope
        rw [Option.mem_toList] at hfound
        simp [hfound]
    · rw [run, foldl_append, ClientSegmentReassembler.run, foldl_append]
      change (perform codec (run codec actions) action).clientSegmentReassembler = _
      rw [hperform, hown]
      rfl

end WebsocketState

end Rexux.RemoteControl
