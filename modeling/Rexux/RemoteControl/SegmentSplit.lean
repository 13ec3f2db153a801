import Rexux.Path.Encoding
import Rexux.RemoteControl.Segments

/-!
# Splitting a message and putting it together again

The server cuts what is too large for one frame into segments of equal size, more and
smaller ones until each fits.  Segments cut in this way and observed in order give back
the message.
-/

namespace Rexux.RemoteControl

open Foundation List ClientSegmentReassembler ClientSegmentAssembly

/-! ## What the server sends -/

inductive RequestId
  | string (text : Text)
  | integer (number : ℤ)
  deriving DecidableEq, Repr

inductive OutgoingMessage
  | request (content : ByteString)
  | appServerNotification (content : ByteString)
  | response (id : RequestId) (result : ByteString)
  | error (id : RequestId) (code : ℤ) (message : Text)
  deriving DecidableEq, Repr

inductive PongStatus
  | active
  | unknown
  deriving DecidableEq, Repr

/-- What the server sends. -/
inductive ServerEvent
  | serverMessage (message : OutgoingMessage)
  | serverMessageChunk (segmentId segmentCount messageSizeBytes : ℕ) (messageChunkBase64 : Text)
  | ack
  | pong (status : PongStatus)
  deriving DecidableEq, Repr

structure ServerEnvelope where
  event : ServerEvent
  clientId : ClientId
  streamId : StreamId
  seqId : ℕ
  deriving DecidableEq, Repr

/-- How server values are written as JSON; a value that cannot be written gives the text
of the error. -/
structure WireFormat where
  serializedLen : ServerEnvelope → Except Text ℕ
  toVec : OutgoingMessage → Except Text ByteString

def internalErrorCode : ℤ := -32603

def responseSerializationError (requestId : RequestId) (err : Text) : OutgoingMessage :=
  .error requestId internalErrorCode ("failed to serialize response: ".toList ++ err)

section Splitter

variable (codec : SegmentCodec) (wire : WireFormat) (envelope : ServerEnvelope)

def chunkEnvelope (segmentId segmentCount messageSizeBytes : ℕ) (chunk : ByteString) :
    ServerEnvelope :=
  { envelope with
    event := .serverMessageChunk segmentId segmentCount messageSizeBytes (codec.encode chunk) }

def buildChunkEnvelope (segmentId segmentCount messageSizeBytes : ℕ) (chunk : ByteString) :
    Except Text ServerEnvelope :=
  if remoteControlSegmentCountMax < segmentCount then
    .error "remote-control segment count exceeds maximum".toList
  else .ok (chunkEnvelope codec envelope segmentId segmentCount messageSizeBytes chunk)

def serializedChunkLen (segmentId segmentCount messageSizeBytes : ℕ) (chunk : ByteString) :
    Except Text ℕ := do
  let built ← buildChunkEnvelope codec envelope segmentId segmentCount messageSizeBytes chunk
  wire.serializedLen built

def isWithinSegmentMax : Except Text ℕ → Bool
  | .ok size => size ≤ remoteControlSegmentMaxBytes
  | .error _ => false

def segmentsFit (raw : ByteString) (chunkSize segmentCount : ℕ) : Bool :=
  (chunks chunkSize raw).zipIdx.all fun entry =>
    isWithinSegmentMax
      (serializedChunkLen codec wire envelope entry.2 segmentCount raw.length entry.1)

/-- The chunks as envelopes. -/
def buildSegments (raw : ByteString) (chunkSize segmentCount : ℕ) :
    Except Text (List ServerEnvelope) :=
  (chunks chunkSize raw).zipIdx.mapM fun entry =>
    buildChunkEnvelope codec envelope entry.2 segmentCount raw.length entry.1

def chunkSizeFor (raw : ByteString) (segmentCount : ℕ) : ℕ :=
  max 1 (divCeil raw.length segmentCount)

def nextSegmentCount (raw : ByteString) (chunkSize : ℕ) : ℕ :=
  let next := divCeil raw.length chunkSize + 1
  if chunkSizeFor raw next = chunkSize then raw.length else next

/-- The loop runs at most once for each chunk size, see `splitLoop_returns`. -/
def splitLoop (raw : ByteString) : ℕ → ℕ → Except Text (List ServerEnvelope)
  | 0, _ => .ok []
  | fuel + 1, segmentCount =>
    let chunkSize := chunkSizeFor raw segmentCount
    if segmentsFit codec wire envelope raw chunkSize (divCeil raw.length chunkSize) then
      buildSegments codec envelope raw chunkSize (divCeil raw.length chunkSize)
    else if chunkSize = 1 then .ok []
    else splitLoop raw fuel (nextSegmentCount raw chunkSize)

/-- Look for a number of segments at which every segment fits. -/
def splitMessage (message : OutgoingMessage) : Except Text (List ServerEnvelope) := do
  let raw ← wire.toVec message
  if remoteControlReassembledMaxBytes < raw.length then return []
  let minimal ← serializedChunkLen codec wire envelope 0
    (min (max raw.length 1) remoteControlSegmentCountMax) raw.length (raw.take 1)
  if remoteControlSegmentMaxBytes < minimal then return []
  splitLoop codec wire envelope raw (raw.length + 1)
    (max 2 (divCeil raw.length remoteControlSegmentTargetBytes))

/-- An envelope that is small enough goes as it is. -/
def splitServerEnvelopeForTransport : Except Text (List ServerEnvelope) :=
  match envelope.event with
  | .serverMessage message =>
    match wire.serializedLen envelope with
    | .error err =>
      match message with
      | .response id _ =>
        .ok [{ envelope with event := .serverMessage (responseSerializationError id err) }]
      | _ => .error err
    | .ok size =>
      if size ≤ remoteControlSegmentMaxBytes then .ok [envelope]
      else splitMessage codec wire envelope message
  | _ => .ok [envelope]

end Splitter

/-! ## The loop comes to an end -/

variable {raw : ByteString} {chunkSize segmentCount : ℕ}

section Termination

variable {codec : SegmentCodec} {wire : WireFormat} {envelope : ServerEnvelope}

theorem chunkSizeFor_le {size : ℕ} (hcount : 0 < segmentCount) (hsize : 1 ≤ size)
    (hraw : raw.length ≤ size * segmentCount) : chunkSizeFor raw segmentCount ≤ size :=
  max_le hsize ((divCeil_le_iff hcount).mpr hraw)

theorem chunkSizeFor_next_lt (hsize : 1 < chunkSize) :
    chunkSizeFor raw (nextSegmentCount raw chunkSize) < chunkSize := by
  have hcover : raw.length ≤ divCeil raw.length chunkSize * chunkSize :=
    (divCeil_le_iff (Nat.zero_lt_of_lt hsize)).mp (Nat.le_refl _)
  have hle : chunkSizeFor raw (divCeil raw.length chunkSize + 1) ≤ chunkSize := by
    apply chunkSizeFor_le (Nat.succ_pos _) (Nat.le_of_lt hsize)
    rw [Nat.mul_succ, Nat.mul_comm]
    omega
  unfold nextSegmentCount
  dsimp only
  split
  · -- One byte in each segment.
    cases raw with
    | nil => exact hsize
    | cons byte raw =>
      apply Nat.lt_of_le_of_lt _ hsize
      apply chunkSizeFor_le (Nat.succ_pos _) (Nat.le_refl _)
      rw [Nat.one_mul]
      exact Nat.le_refl _
  next hne => exact Nat.lt_of_le_of_ne hle hne

inductive LoopReturns (codec : SegmentCodec) (wire : WireFormat) (envelope : ServerEnvelope)
    (raw : ByteString) : ℕ → Except Text (List ServerEnvelope) → Prop
  | fit {segmentCount chunkSize : ℕ} (hchunk : chunkSizeFor raw segmentCount = chunkSize)
      (hfit : segmentsFit codec wire envelope raw chunkSize (divCeil raw.length chunkSize)) :
      LoopReturns codec wire envelope raw segmentCount
        (buildSegments codec envelope raw chunkSize (divCeil raw.length chunkSize))
  | drop {segmentCount : ℕ} (hchunk : chunkSizeFor raw segmentCount = 1)
      (hfit : ¬ segmentsFit codec wire envelope raw 1 (divCeil raw.length 1)) :
      LoopReturns codec wire envelope raw segmentCount (.ok [])
  | again {segmentCount chunkSize : ℕ} {result : Except Text (List ServerEnvelope)}
      (hchunk : chunkSizeFor raw segmentCount = chunkSize) (hone : chunkSize ≠ 1)
      (hfit : ¬ segmentsFit codec wire envelope raw chunkSize (divCeil raw.length chunkSize))
      (hnext : LoopReturns codec wire envelope raw (nextSegmentCount raw chunkSize) result) :
      LoopReturns codec wire envelope raw segmentCount result

/-- The loop over segment counts ends, since the chunks get smaller. -/
theorem splitLoop_returns {fuel : ℕ} (hfuel : chunkSizeFor raw segmentCount ≤ fuel) :
    LoopReturns codec wire envelope raw segmentCount
      (splitLoop codec wire envelope raw fuel segmentCount) := by
  have hlower : 1 ≤ chunkSizeFor raw segmentCount := Nat.le_max_left 1 _
  induction fuel generalizing segmentCount with
  | zero => exact absurd (hlower.trans hfuel) (Nat.not_succ_le_zero 0)
  | succ fuel ih =>
    rw [splitLoop]
    split
    next hfit => exact .fit rfl hfit
    next hfit =>
      split
      next hone =>
        rw [hone] at hfit
        exact .drop hone hfit
      next hone =>
        have hlt : chunkSizeFor raw (nextSegmentCount raw (chunkSizeFor raw segmentCount)) <
            chunkSizeFor raw segmentCount := chunkSizeFor_next_lt (by omega)
        exact .again rfl hone hfit (ih (by omega) (Nat.le_max_left 1 _))

theorem splitLoop_length_returns (count : ℕ) :
    LoopReturns codec wire envelope raw (max 2 count)
      (splitLoop codec wire envelope raw (raw.length + 1) (max 2 count)) := by
  have hcount : 0 < max 2 count := by omega
  apply splitLoop_returns
  apply chunkSizeFor_le hcount (Nat.succ_pos _)
  exact (Nat.le_succ _).trans (Nat.le_mul_of_pos_right _ hcount)

end Termination

/-! ## What the splitter returns -/

variable {segments : List ServerEnvelope}

section Split

variable {codec : SegmentCodec} {wire : WireFormat} {envelope : ServerEnvelope}

/-- The segments of a text cut into chunks of one size. -/
structure IsSplit (codec : SegmentCodec) (envelope : ServerEnvelope) (raw : ByteString)
    (chunkSize : ℕ) (segments : List ServerEnvelope) : Prop where
  chunkSize_pos : 0 < chunkSize
  count_le : divCeil raw.length chunkSize ≤ remoteControlSegmentCountMax
  eq_map : segments = (chunks chunkSize raw).zipIdx.map fun entry =>
    chunkEnvelope codec envelope entry.2 (divCeil raw.length chunkSize) raw.length entry.1

/-- The segments that are built cut up the message. -/
theorem buildSegments_isSplit (hsize : 0 < chunkSize) (hne : segments ≠ [])
    (h : buildSegments codec envelope raw chunkSize (divCeil raw.length chunkSize) = .ok segments) :
    IsSplit codec envelope raw chunkSize segments := by
  by_cases hcount : remoteControlSegmentCountMax < divCeil raw.length chunkSize
  · -- The first segment could not be built, and there is one.
    exfalso
    unfold buildSegments buildChunkEnvelope at h
    simp only [if_pos hcount] at h
    cases hchunks : (chunks chunkSize raw).zipIdx with
    | nil =>
      rw [hchunks] at h
      cases h
      exact hne rfl
    | cons entry entries =>
      rw [hchunks] at h
      cases h
  · refine ⟨hsize, Nat.le_of_not_lt hcount, ?_⟩
    unfold buildSegments buildChunkEnvelope at h
    simp only [if_neg hcount] at h
    exact Except.ok.inj (h.symm.trans mapM_pure)

theorem LoopReturns.isSplit {result : Except Text (List ServerEnvelope)}
    (h : LoopReturns codec wire envelope raw segmentCount result) (hne : segments ≠ [])
    (hresult : result = .ok segments) :
    ∃ chunkSize, IsSplit codec envelope raw chunkSize segments ∧
      segmentsFit codec wire envelope raw chunkSize (divCeil raw.length chunkSize) := by
  induction h with
  | @fit segmentCount _ hchunk hfit =>
    have hsize : 1 ≤ chunkSizeFor raw segmentCount := Nat.le_max_left 1 _
    rw [hchunk] at hsize
    exact ⟨_, buildSegments_isSplit hsize hne hresult, hfit⟩
  | drop =>
    cases hresult
    exact absurd rfl hne
  | again _ _ _ _ ih => exact ih hresult

theorem splitMessage_isSplit {message : OutgoingMessage} (hraw : wire.toVec message = .ok raw)
    (hne : segments ≠ []) (h : splitMessage codec wire envelope message = .ok segments) :
    raw.length ≤ remoteControlReassembledMaxBytes ∧
      ∃ chunkSize, IsSplit codec envelope raw chunkSize segments ∧
        segmentsFit codec wire envelope raw chunkSize (divCeil raw.length chunkSize) := by
  rw [splitMessage, hraw] at h
  change (if remoteControlReassembledMaxBytes < raw.length then _ else _) = _ at h
  split at h
  · cases h
    exact absurd rfl hne
  next hle =>
    refine ⟨Nat.le_of_not_lt hle, ?_⟩
    cases hminimal : serializedChunkLen codec wire envelope 0
        (min (max raw.length 1) remoteControlSegmentCountMax) raw.length (raw.take 1) with
    | error err =>
      rw [hminimal] at h
      cases h
    | ok minimal =>
      rw [hminimal] at h
      change (if remoteControlSegmentMaxBytes < minimal then _ else _) = _ at h
      split at h
      · cases h
        exact absurd rfl hne
      · exact (splitLoop_length_returns _).isSplit hne h

/-- If the first number of segments fits, the message is cut into as many. -/
theorem splitMessage_of_fits {message : OutgoingMessage} {minimal : ℕ}
    (hraw : wire.toVec message = .ok raw) (hmax : raw.length ≤ remoteControlReassembledMaxBytes)
    (hminimal : serializedChunkLen codec wire envelope 0
      (min (max raw.length 1) remoteControlSegmentCountMax) raw.length (raw.take 1) = .ok minimal)
    (hsmall : minimal ≤ remoteControlSegmentMaxBytes)
    (hsize : chunkSizeFor raw (max 2 (divCeil raw.length remoteControlSegmentTargetBytes)) =
      chunkSize)
    (hfit : segmentsFit codec wire envelope raw chunkSize (divCeil raw.length chunkSize)) :
    splitMessage codec wire envelope message =
      buildSegments codec envelope raw chunkSize (divCeil raw.length chunkSize) := by
  rw [splitMessage, hraw]
  change (if remoteControlReassembledMaxBytes < raw.length then _ else _) = _
  rw [if_neg (Nat.not_lt_of_le hmax), hminimal]
  change (if remoteControlSegmentMaxBytes < minimal then _ else _) = _
  rw [if_neg (Nat.not_lt_of_le hsmall), splitLoop, hsize]
  exact if_pos hfit

def ServerEvent.segmentHeader : ServerEvent → Option (ℕ × ℕ × ℕ)
  | .serverMessageChunk segmentId segmentCount messageSizeBytes _ =>
    some (segmentId, segmentCount, messageSizeBytes)
  | _ => none

def ServerEvent.decodedChunk (codec : SegmentCodec) : ServerEvent → Option ByteString
  | .serverMessageChunk _ _ _ messageChunkBase64 => codec.decode messageChunkBase64
  | _ => none

section

variable (h : IsSplit codec envelope raw chunkSize segments)
include h

theorem IsSplit.length_eq : segments.length = divCeil raw.length chunkSize := by
  rw [h.eq_map, length_map, length_zipIdx, length_chunks h.chunkSize_pos]

/-- The segments are numbered, and all tell the same count and size. -/
theorem IsSplit.headers :
    segments.map (fun segment => segment.event.segmentHeader) =
      (List.range segments.length).map fun segmentId =>
        some (segmentId, segments.length, raw.length) := by
  rw [h.length_eq, h.eq_map, map_map, range_eq_range',
    ← length_chunks h.chunkSize_pos raw, ← zipIdx_map_snd, map_map]
  rfl

theorem IsSplit.decoded :
    segments.map (fun segment => segment.event.decodedChunk codec) =
      (chunks chunkSize raw).map some := by
  have hdecoded : ((fun segment : ServerEnvelope => segment.event.decodedChunk codec) ∘
      fun entry : ByteString × ℕ => chunkEnvelope codec envelope entry.2
        (divCeil raw.length chunkSize) raw.length entry.1) = some ∘ Prod.fst :=
    funext fun entry => codec.decode_encode entry.1
  rw [h.eq_map, map_map, hdecoded, ← map_map, zipIdx_map_fst]

theorem IsSplit.serializedLen_le {segment : ServerEnvelope}
    (hfit : segmentsFit codec wire envelope raw chunkSize (divCeil raw.length chunkSize))
    (hmem : segment ∈ segments) :
    ∃ bytes ≤ remoteControlSegmentMaxBytes, wire.serializedLen segment = .ok bytes := by
  rw [h.eq_map] at hmem
  obtain ⟨entry, hentry, rfl⟩ := mem_map.mp hmem
  have hwithin := all_eq_true.mp hfit entry hentry
  rw [serializedChunkLen, buildChunkEnvelope, if_neg (Nat.not_lt_of_le h.count_le)] at hwithin
  change isWithinSegmentMax (wire.serializedLen _) = true at hwithin
  cases hlen : wire.serializedLen (chunkEnvelope codec envelope entry.2
      (divCeil raw.length chunkSize) raw.length entry.1) with
  | error err =>
    rw [hlen] at hwithin
    cases hwithin
  | ok bytes =>
    rw [hlen] at hwithin
    exact ⟨bytes, of_decide_eq_true hwithin, rfl⟩

end

theorem splitServerEnvelopeForTransport_of_large {message : OutgoingMessage} {size : ℕ}
    (hevent : envelope.event = .serverMessage message)
    (hserialized : wire.serializedLen envelope = .ok size)
    (hlarge : remoteControlSegmentMaxBytes < size) :
    splitServerEnvelopeForTransport codec wire envelope =
      splitMessage codec wire envelope message := by
  rw [splitServerEnvelopeForTransport, hevent]
  simp only [hserialized]
  rw [if_neg (Nat.not_le_of_lt hlarge)]

/-- A message that fits is sent as it is.  Of any other the loop finds a split or drops it,
and a split is made of numbered segments that fit and hold the message between them. -/
theorem split_segments_sound {message : OutgoingMessage} {size : ℕ}
    (hevent : envelope.event = .serverMessage message)
    (hserialized : wire.serializedLen envelope = .ok size) :
    (∀ raw, wire.toVec message = .ok raw → LoopReturns codec wire envelope raw
        (max 2 (divCeil raw.length remoteControlSegmentTargetBytes))
        (splitLoop codec wire envelope raw (raw.length + 1)
          (max 2 (divCeil raw.length remoteControlSegmentTargetBytes)))) ∧
    (size ≤ remoteControlSegmentMaxBytes →
      splitServerEnvelopeForTransport codec wire envelope = .ok [envelope]) ∧
    ∀ segments, splitServerEnvelopeForTransport codec wire envelope = .ok segments →
      (∀ segment ∈ segments,
        ∃ bytes ≤ remoteControlSegmentMaxBytes, wire.serializedLen segment = .ok bytes) ∧
      (remoteControlSegmentMaxBytes < size → segments ≠ [] →
        ∃ (raw : ByteString) (parts : List ByteString), wire.toVec message = .ok raw ∧
          segments.length ≤ remoteControlSegmentCountMax ∧
          segments.map (fun segment => segment.event.segmentHeader) =
            (List.range segments.length).map (fun segmentId =>
              some (segmentId, segments.length, raw.length)) ∧
          segments.map (fun segment => segment.event.decodedChunk codec) = parts.map some ∧
          parts.flatten = raw) := by
  have hfits : size ≤ remoteControlSegmentMaxBytes →
      splitServerEnvelopeForTransport codec wire envelope = .ok [envelope] := by
    intro hle
    rw [splitServerEnvelopeForTransport, hevent]
    simp only [hserialized]
    rw [if_pos hle]
  refine ⟨fun raw _ => splitLoop_length_returns _, hfits, ?_⟩
  intro segments hsplit
  by_cases hle : size ≤ remoteControlSegmentMaxBytes
  · rw [hfits hle] at hsplit
    cases hsplit
    refine ⟨?_, fun hlt => absurd hlt (Nat.not_lt_of_le hle)⟩
    intro segment hmem
    rw [mem_singleton.mp hmem]
    exact ⟨size, hle, hserialized⟩
  · rw [splitServerEnvelopeForTransport_of_large hevent hserialized (Nat.lt_of_not_le hle)]
      at hsplit
    cases hraw : wire.toVec message with
    | error err =>
      rw [splitMessage, hraw] at hsplit
      cases hsplit
    | ok raw =>
      by_cases hne : segments = []
      · refine ⟨fun segment hmem => ?_, fun _ hnil => absurd hne hnil⟩
        rw [hne] at hmem
        cases hmem
      · obtain ⟨-, chunkSize, his, hfit⟩ := splitMessage_isSplit hraw hne hsplit
        refine ⟨fun segment hmem => his.serializedLen_le hfit hmem, fun _ _ => ?_⟩
        refine ⟨raw, chunks chunkSize raw, rfl, ?_, his.headers, his.decoded,
          flatten_chunks his.chunkSize_pos raw⟩
        rw [his.length_eq]
        exact his.count_le

end Split

/-! ## Observing the segments in order -/

variable {deliveries : List (ClientEnvelope × ℕ)} {reassembler : ClientSegmentReassembler}
  {message : JSONRPCMessage} {chunk : ByteString}

section Feed

/-- The envelopes that arrive one after the other. -/
def feed (codec : SegmentCodec) (reassembler : ClientSegmentReassembler) :
    List (ClientEnvelope × ℕ) → List ClientSegmentObservation × ClientSegmentReassembler
  | [] => ([], reassembler)
  | delivery :: deliveries =>
    let first := reassembler.observe codec delivery.1 delivery.2
    let rest := feed codec first.2 deliveries
    (first.1 :: rest.1, rest.2)

/-- The client's envelope for a segment: its own event for the same chunk. -/
structure CarriesSegment (segment : ServerEnvelope) (envelope : ClientEnvelope) : Prop where
  event : ∃ segmentId segmentCount messageSizeBytes chunk,
    segment.event = .serverMessageChunk segmentId segmentCount messageSizeBytes chunk ∧
      envelope.event = .clientMessageChunk segmentId segmentCount messageSizeBytes chunk
  clientId : envelope.clientId = segment.clientId
  streamId : envelope.streamId = some segment.streamId
  seqId : envelope.seqId = some segment.seqId

/-- Nothing unfinished of this client on this stream. -/
def IsIdle (reassembler : ClientSegmentReassembler) (clientId : ClientId)
    (streamId : StreamId) : Prop :=
  ∀ assembly, reassembler.assemblies.get? clientId = some assembly → assembly.streamId ≠ streamId

variable {codec : SegmentCodec} {clientId : ClientId}
  {streamId : StreamId} {metadata : ClientSegmentMetadata} {count : ℕ}

variable (reassembler clientId streamId metadata count) in
/-- The next segment finds an assembly that has the segments before it. -/
def Awaits (raw : ByteString) : Prop :=
  ∀ chunk now,
    reassembler.shouldIgnoreChunk clientId streamId metadata.seqId count = false ∧
      ∃ assembly,
        (reassembler.prepare ⟨clientId, streamId, metadata, count, chunk⟩ now).assemblies.get?
          clientId = some assembly ∧
        assembly.streamId = streamId ∧ assembly.metadata = metadata ∧
        assembly.nextSegmentId = count ∧ assembly.raw = raw

theorem awaits_of_isIdle (h : IsIdle reassembler clientId streamId) :
    Awaits reassembler clientId streamId metadata 0 [] := by
  intro chunk now
  unfold shouldIgnoreChunk prepare
  cases hget : reassembler.assemblies.get? clientId with
  | none => exact ⟨rfl, .new streamId metadata now, get?_store_self _ _ _, rfl, rfl, rfl, rfl⟩
  | some assembly =>
    have hstream := h assembly hget
    refine ⟨by simp [hstream], .new streamId metadata now, ?_, rfl, rfl, rfl, rfl⟩
    simp [hstream]

variable {assembly : ClientSegmentAssembly}

theorem awaits_of_get? (hget : reassembler.assemblies.get? clientId = some assembly) :
    Awaits reassembler clientId assembly.streamId assembly.metadata assembly.nextSegmentId
      assembly.raw := by
  intro chunk now
  refine ⟨?_, assembly, ?_, rfl, rfl, rfl, rfl⟩
  · simp [shouldIgnoreChunk, hget]
  · simp [prepare, hget]

variable {segment : ClientSegment}

theorem append_eq_of_decode {decoded : ByteString} {now : ℕ}
    (hdecode : codec.decode segment.messageChunkBase64 = some decoded)
    (hroom : (assembly.raw ++ decoded).length ≤ segment.metadata.messageSizeBytes) :
    assembly.append codec segment now =
      if assembly.nextSegmentId + 1 < segment.metadata.segmentCount then
        (.pending, assembly.grow now decoded)
      else if (assembly.raw ++ decoded).length ≠ segment.metadata.messageSizeBytes then
        (.drop, assembly.grow now decoded)
      else
        match codec.fromSlice (assembly.raw ++ decoded) with
        | none => (.drop, assembly.grow now decoded)
        | some message => (.complete message, assembly.grow now decoded) := by
  have hestimate := codec.length_le_estimate _ _ hdecode
  rw [length_append] at hroom
  unfold append
  rw [hdecode]
  dsimp only
  rw [if_neg (by omega)]
  rfl

variable {envelope : ClientEnvelope}

variable (hawaits : Awaits reassembler clientId streamId metadata count raw)
include hawaits

theorem observe_eq_conclude
    (hsegment : segmentOf envelope = some ⟨clientId, streamId, metadata, count, codec.encode chunk⟩)
    (hchunk : chunk ≠ []) (hcount : count < metadata.segmentCount)
    (hmax : metadata.segmentCount ≤ remoteControlSegmentCountMax)
    (hsize : metadata.messageSizeBytes ≤ remoteControlReassembledMaxBytes)
    (hroom : (raw ++ chunk).length ≤ metadata.messageSizeBytes) (now : ℕ) :
    ∃ (prepared : ClientSegmentReassembler) (assembly : ClientSegmentAssembly),
      reassembler.observe codec envelope now = prepared.conclude envelope
          ⟨clientId, streamId, metadata, count, codec.encode chunk⟩
          (assembly.append codec ⟨clientId, streamId, metadata, count, codec.encode chunk⟩ now) ∧
      assembly.streamId = streamId ∧ assembly.metadata = metadata ∧
      assembly.nextSegmentId = count ∧ assembly.raw = raw := by
  obtain ⟨hignore, assembly, hget, hstream, hmetadata, hnext, hraw⟩ :=
    hawaits (codec.encode chunk) now
  refine ⟨reassembler.prepare ⟨clientId, streamId, metadata, count, codec.encode chunk⟩ now,
    assembly, ?_, hstream, hmetadata, hnext, hraw⟩
  have hpos : 0 < chunk.length := length_pos_iff.mpr hchunk
  have hvalid : isInvalidSegment
      ⟨clientId, streamId, metadata, count, codec.encode chunk⟩ = false := by
    rw [length_append] at hroom
    simp only [isInvalidSegment, Bool.or_eq_false_iff, decide_eq_false_iff_not]
    exact ⟨⟨⟨⟨⟨by omega, by omega⟩, by omega⟩, by omega⟩, by omega⟩,
      codec.encode_ne_nil chunk hchunk⟩
  unfold observe
  have hchunk : isChunk envelope := by
    unfold segmentOf at hsegment
    split at hsegment
    next hevent _ _ => rw [isChunk, hevent]
    · cases hsegment
  rw [hchunk, hsegment]
  unfold observeSegment
  simp only [hignore, hvalid, hget]
  unfold update
  simp [hmetadata, hnext]

/-- Segments that arrive in order complete the message. -/
theorem feed_eq_of_awaits {rest : List ByteString}
    (hdeliveries : List.Forall₂
      (fun entry delivery => segmentOf delivery.1 =
        some ⟨clientId, streamId, metadata, entry.2, codec.encode entry.1⟩)
      (rest.zipIdx count) deliveries)
    (hne : rest ≠ []) (hchunks : ∀ chunk ∈ rest, chunk ≠ [])
    (hcount : count + rest.length = metadata.segmentCount)
    (hmax : metadata.segmentCount ≤ remoteControlSegmentCountMax)
    (hsize : metadata.messageSizeBytes ≤ remoteControlReassembledMaxBytes)
    (hraw : (raw ++ rest.flatten).length = metadata.messageSizeBytes)
    (hmessage : codec.fromSlice (raw ++ rest.flatten) = some message) :
    ∃ early last, deliveries = early ++ [last] ∧
      (feed codec reassembler deliveries).1 = List.replicate early.length .pending ++
        [.forward { last.1 with event := .clientMessage message }] := by
  induction rest generalizing reassembler count raw deliveries with
  | nil => exact absurd rfl hne
  | cons chunk rest ih =>
    cases hdeliveries with
    | @cons _ delivery _ deliveries hsegment hdeliveries =>
      rw [flatten_cons] at hraw hmessage
      rw [length_cons] at hcount
      have hroom : (raw ++ chunk).length ≤ metadata.messageSizeBytes := by
        rw [← hraw, ← append_assoc]
        exact (sublist_append_left (raw ++ chunk) rest.flatten).length_le
      obtain ⟨prepared, assembly, hobserve, hstream, hmetadata, hnext, hassembly⟩ :=
        observe_eq_conclude hawaits hsegment (hchunks chunk mem_cons_self) (by omega)
          hmax hsize hroom delivery.2
      rw [← append_assoc] at hraw hmessage
      rw [append_eq_of_decode (codec.decode_encode chunk) (hassembly ▸ hroom)] at hobserve
      cases rest with
      | nil =>
        cases hdeliveries
        refine ⟨[], delivery, rfl, ?_⟩
        rw [flatten_nil, append_nil] at hraw hmessage
        rw [length_nil] at hcount
        rw [if_neg (by rw [hnext]; dsimp only; omega), hassembly,
          if_neg (not_not.mpr hraw), hmessage] at hobserve
        rw [feed, hobserve]
        rfl
      | cons second rest =>
        rw [forall_mem_cons] at hchunks
        rw [length_cons] at hcount
        rw [if_pos (by rw [hnext]; dsimp only; omega)] at hobserve
        have hnextAwaits := awaits_of_get? (get?_store_self
          prepared clientId (assembly.grow delivery.2 chunk))
        simp only [grow, hstream, hmetadata, hnext, hassembly] at hnextAwaits
        obtain ⟨early, last, hsplit, hfeed⟩ := ih hnextAwaits hdeliveries (cons_ne_nil _ _)
            hchunks.2 (by rw [length_cons]; omega) hraw hmessage
        refine ⟨delivery :: early, last, by rw [hsplit]; rfl, ?_⟩
        rw [feed, hobserve]
        simp only [conclude]
        simp only [grow, hstream, hmetadata, hnext, hassembly]
        rw [hfeed]
        rfl

end Feed

section Main

variable {codec : SegmentCodec} {wire : WireFormat}

def ForwardsAssembled (codec : SegmentCodec) (observed : List ClientEnvelope)
    (envelope forwarded : ClientEnvelope) : Prop :=
  ∃ segment raw message,
    segmentOf envelope = some segment ∧
    Assembled codec observed segment.clientId segment.streamId segment.metadata
      segment.metadata.segmentCount raw ∧
    codec.fromSlice raw = some message ∧
    forwarded = { envelope with event := .clientMessage message }

variable {forwarded : ClientEnvelope}

theorem ForwardsAssembled.mono {observed more : List ClientEnvelope} {envelope : ClientEnvelope}
    (hsub : observed ⊆ more) (h : ForwardsAssembled codec observed envelope forwarded) :
    ForwardsAssembled codec more envelope forwarded := by
  obtain ⟨segment, raw, message, hsegment, hassembled, hmessage⟩ := h
  exact ⟨segment, raw, message, hsegment, hassembled.mono hsub, hmessage⟩

variable {now : ℕ}

/-- What is forwarded was put together of segments that were observed. -/
theorem observe_forwardsAssembled (actions : List ReassemblerAction) {envelope : ClientEnvelope}
    (hchunk : isChunk envelope)
    (hforward : ((run codec actions).observe codec envelope now).1 = .forward forwarded) :
    ForwardsAssembled codec (observedIn actions ++ [envelope]) envelope forwarded := by
  have hinvariant := (run_invariant codec actions).mono
    (subset_append_left (observedIn actions) [envelope])
  have hmem : envelope ∈ observedIn actions ++ [envelope] :=
    mem_append_right _ (mem_singleton_self envelope)
  rw [observe, hchunk] at hforward
  cases hsegment : segmentOf envelope with
  | none =>
    rw [hsegment] at hforward
    cases hforward
  | some segment =>
    rw [hsegment] at hforward
    obtain ⟨raw, message, hassembled, hmessage, heq⟩ :=
      (observeSegment_spec hinvariant hmem hsegment).2 forwarded hforward
    exact ⟨segment, raw, message, hsegment, hassembled, hmessage, heq⟩

theorem observeClientMessage_forwardsAssembled
    (actions : List WebsocketAction) {envelope : ClientEnvelope} {wireSizeBytes : ℕ}
    (hchunk : isChunk envelope)
    (hforward : ((WebsocketState.run codec actions).observeClientMessage codec envelope
      wireSizeBytes now).1 = .forward forwarded) :
    ForwardsAssembled codec (WebsocketState.receivedIn actions ++ [envelope]) envelope
      forwarded := by
  obtain ⟨own, hsub, hown⟩ := WebsocketState.exists_run_eq codec actions
  rw [WebsocketState.observeClientMessage] at hforward
  split at hforward
  · cases hforward
  · split at hforward
    · cases hforward
    · split at hforward
      · split at hforward
        · cases hforward
        · cases hforward
      · rw [hown] at hforward
        apply (observe_forwardsAssembled own hchunk hforward).mono
        exact append_subset.mpr ⟨subset_append_of_subset_left _ hsub, subset_append_right _ _⟩

theorem segmentOf_of_carriesSegment {envelope : ServerEnvelope} {delivered : ClientEnvelope}
    {segmentId messageSizeBytes : ℕ}
    (h : CarriesSegment
      (chunkEnvelope codec envelope segmentId segmentCount messageSizeBytes chunk) delivered) :
    segmentOf delivered =
      some ⟨envelope.clientId, envelope.streamId,
        ⟨envelope.seqId, segmentCount, messageSizeBytes⟩, segmentId, codec.encode chunk⟩ := by
  obtain ⟨_, _, _, _, hserver, hclient⟩ := h.event
  cases hserver
  rw [segmentOf, hclient, h.seqId, h.streamId, h.clientId]
  rfl

/-- The segments of a split text, observed in order by a reassembler that has nothing
unfinished there, give the text's message with the last of them. -/
theorem feed_split {envelope : ServerEnvelope}
    (hsplit : IsSplit codec envelope raw chunkSize segments)
    (hne : segments ≠ []) (hmax : raw.length ≤ remoteControlReassembledMaxBytes)
    (hmessage : codec.fromSlice raw = some message)
    (hidle : IsIdle reassembler envelope.clientId envelope.streamId)
    (hdeliveries : List.Forall₂ (fun segment delivery => CarriesSegment segment delivery.1)
      segments deliveries) :
    ∃ early last, deliveries = early ++ [last] ∧
      (feed codec reassembler deliveries).1 = List.replicate early.length .pending ++
        [.forward { last.1 with event := .clientMessage message }] := by
  rw [hsplit.eq_map, List.forall₂_map_left_iff] at hdeliveries
  have hflatten := flatten_chunks hsplit.chunkSize_pos raw
  have hawaits : Awaits reassembler envelope.clientId envelope.streamId
      ⟨envelope.seqId, divCeil raw.length chunkSize, raw.length⟩ 0 [] := awaits_of_isIdle hidle
  apply feed_eq_of_awaits hawaits
      (hdeliveries.imp fun _ _ hcarries => segmentOf_of_carriesSegment hcarries)
  · intro hnil
    rw [hsplit.eq_map, hnil] at hne
    exact hne rfl
  · exact fun _ hmem => ne_nil_of_mem_chunks hsplit.chunkSize_pos hmem
  · rw [Nat.zero_add, length_chunks hsplit.chunkSize_pos]
  · exact hsplit.count_le
  · exact hmax
  · rw [nil_append, hflatten]
  · rw [hflatten]
    exact hmessage

/-- No message is put together from parts of different ones, neither the buffers nor
their number grow past the limits, and what the splitter cuts arrives whole. -/
theorem reassembly_never_splices (codec : SegmentCodec) (wire : WireFormat) :
    (∀ actions envelope now forwarded,
      isChunk envelope = true →
      ((run codec actions).observe codec envelope now).1 = .forward forwarded →
      ForwardsAssembled codec (observedIn actions ++ [envelope]) envelope forwarded) ∧
    (∀ actions envelope wireSizeBytes now forwarded,
      isChunk envelope = true →
      ((WebsocketState.run codec actions).observeClientMessage
        codec envelope wireSizeBytes now).1 = .forward forwarded →
      ForwardsAssembled codec (WebsocketState.receivedIn actions ++ [envelope]) envelope
        forwarded) ∧
    (∀ actions,
      (run codec actions).assemblies.size ≤ remoteControlSegmentAssemblyMaxCount ∧
      ∀ clientId assembly,
        (run codec actions).assemblies.get? clientId = some assembly →
        assembly.metadata.messageSizeBytes ≤ remoteControlReassembledMaxBytes ∧
        assembly.raw.length ≤ assembly.metadata.messageSizeBytes ∧
        ∀ segment now, (assembly.update codec segment now).2.raw.length ≤
          assembly.metadata.messageSizeBytes) ∧
    (∀ envelope message size raw segments reassembler deliveries decoded,
      envelope.event = .serverMessage message →
      wire.serializedLen envelope = .ok size →
      remoteControlSegmentMaxBytes < size →
      wire.toVec message = .ok raw →
      splitServerEnvelopeForTransport codec wire envelope = .ok segments →
      segments ≠ [] →
      codec.fromSlice raw = some decoded →
      IsIdle reassembler envelope.clientId envelope.streamId →
      List.Forall₂ (fun segment (delivery : ClientEnvelope × ℕ) =>
        CarriesSegment segment delivery.1) segments deliveries →
      ∃ early last, deliveries = early ++ [last] ∧
        (feed codec reassembler deliveries).1 = List.replicate early.length .pending ++
          [.forward { last.1 with event := .clientMessage decoded }]) := by
  refine ⟨?_, ?_, ?_, ?_⟩
  · intro actions envelope now forwarded hchunk hforward
    exact observe_forwardsAssembled actions hchunk hforward
  · intro actions envelope wireSizeBytes now forwarded hchunk hforward
    exact observeClientMessage_forwardsAssembled actions hchunk hforward
  · intro actions
    have hinvariant := run_invariant codec actions
    refine ⟨hinvariant.size_le, ?_⟩
    intro clientId assembly hget
    have hassembly := hinvariant.assembly clientId assembly hget
    exact ⟨hassembly.size_le, hassembly.raw_le, fun _ _ => length_raw_update_le hassembly.raw_le⟩
  · intro envelope message size raw segments reassembler deliveries decoded hevent hserialized
      hlarge hraw hsplit hne hdecoded hidle hdeliveries
    rw [splitServerEnvelopeForTransport_of_large hevent hserialized hlarge] at hsplit
    obtain ⟨hmax, chunkSize, hisSplit, -⟩ := splitMessage_isSplit hraw hne hsplit
    exact feed_split hisSplit hne hmax hdecoded hidle hdeliveries

/-! ## A message of two segments -/

section Greeting

open Rexux.Path

theorem length_encodeBase64 (bytes : ByteString) :
    (encodeBase64 bytes).length = (bytes.length * 4 + 2) / 3 := by
  induction bytes using encodeBase64.induct with
  | case1 => rfl
  | case2 a | case3 a b => simp [encodeBase64]
  | case4 a b c rest ih =>
    simp only [encodeBase64, length_cons, ih]
    omega

theorem length_decodeSextets {values : List ℕ} {bytes : ByteString}
    (h : decodeSextets values = some bytes) : bytes.length ≤ (values.length + 3) / 4 * 3 := by
  induction values using decodeSextets.induct generalizing bytes with
  | case1 =>
    cases h
    exact Nat.zero_le _
  | case2 => cases h
  | case3 a b hzero | case5 a b c hzero =>
    rw [decodeSextets, if_pos hzero] at h
    cases h
    simp
  | case4 a b hzero | case6 a b c hzero =>
    rw [decodeSextets, if_neg hzero] at h
    cases h
  | case7 a b c d rest ih =>
    rw [decodeSextets, Option.map_eq_some_iff] at h
    obtain ⟨decoded, hdecoded, rfl⟩ := h
    have hrest := ih hdecoded
    simp only [length_cons]
    omega

theorem length_mapM_base64Value {text : Text} {values : List ℕ}
    (h : text.mapM base64Value = some values) : values.length = text.length := by
  induction text generalizing values with
  | nil =>
    cases h
    rfl
  | cons char text ih =>
    simp only [mapM_cons, Option.bind_eq_bind, Option.bind_eq_some_iff] at h
    obtain ⟨value, -, rest, hrest, hvalues⟩ := h
    cases hvalues
    rw [length_cons, length_cons, ih hrest]

theorem length_le_utf8Len (text : Text) : text.length ≤ utf8Len text := by
  induction text with
  | nil => exact Nat.zero_le _
  | cons char text ih =>
    have hchar := char.utf8Size_pos
    rw [length_cons, utf8Len]
    omega

theorem length_le_of_decodeBase64 {text : Text} {bytes : ByteString}
    (h : decodeBase64 text = some bytes) : bytes.length ≤ (utf8Len text + 3) / 4 * 3 := by
  rw [decodeBase64, Option.bind_eq_some_iff] at h
  obtain ⟨values, hvalues, hbytes⟩ := h
  have hbound := length_decodeSextets hbytes
  have hlength := length_mapM_base64Value hvalues
  have htext := length_le_utf8Len text
  omega

theorem encodeBase64_ne_nil {bytes : ByteString} (h : bytes ≠ []) : encodeBase64 bytes ≠ [] := by
  intro hnil
  have hlength := length_encodeBase64 bytes
  have hpos := length_pos_iff.mpr h
  rw [hnil, length_nil] at hlength
  omega

/-- Base64 in the alphabet of paths, without padding. -/
def base64Codec : SegmentCodec where
  encode := encodeBase64
  decode := decodeBase64
  decodedLenEstimate len := (len + 3) / 4 * 3
  fromSlice bytes := some (.notification bytes)
  decode_encode := decodeBase64_encodeBase64
  length_le_estimate _ _ h := length_le_of_decodeBase64 h
  encode_ne_nil _ h := encodeBase64_ne_nil h

def OutgoingMessage.content : OutgoingMessage → ByteString
  | .request content | .appServerNotification content | .response _ content => content
  | .error _ _ message => utf8Bytes message

/-- Two hundred bytes around the content. -/
def plainWire : WireFormat where
  serializedLen envelope :=
    match envelope.event with
    | .serverMessage message => .ok (message.content.length + 200)
    | .serverMessageChunk _ _ _ chunk => .ok (chunk.length + 200)
    | _ => .ok 200
  toVec message := .ok message.content

def greeting (half : ByteString) : ServerEnvelope where
  event := .serverMessage (.appServerNotification (half ++ half))
  clientId := "client-1".toList
  streamId := "stream-1".toList
  seqId := 7

def greetingSegment (half : ByteString) (segmentId : ℕ) : ServerEnvelope :=
  chunkEnvelope base64Codec (greeting half) segmentId 2 204800 half

def greetingDelivery (half : ByteString) (segmentId : ℕ) : ClientEnvelope × ℕ :=
  (⟨.clientMessageChunk segmentId 2 204800 (encodeBase64 half), "client-1".toList,
    some "stream-1".toList, some 7, none⟩, segmentId)

theorem serializedLen_greeting (half : ByteString) :
    plainWire.serializedLen (greeting half) = .ok ((half ++ half).length + 200) := rfl

theorem toVec_greeting (half : ByteString) :
    plainWire.toVec (.appServerNotification (half ++ half)) = .ok (half ++ half) := rfl

section Split

variable {half : ByteString} (hhalf : half.length = 102400)
include hhalf

theorem length_greeting : (half ++ half).length = 204800 := by
  rw [length_append, hhalf]

theorem chunks_greeting : chunks 102400 (half ++ half) = [half, half] := by
  have htake : (half ++ half).take 102400 = half := by rw [← hhalf, take_left]
  have hdrop : (half ++ half).drop 102400 = half := by rw [← hhalf, drop_left]
  have hstep : ∀ fuel, ∀ items : ByteString, items ≠ [] → chunksFrom 102400 (fuel + 1) items =
      items.take 102400 :: chunksFrom 102400 fuel (items.drop 102400) := by
    intro fuel items hitems
    obtain ⟨item, rest, rfl⟩ := exists_cons_of_ne_nil hitems
    rfl
  have hne : half ≠ [] := ne_nil_of_length_pos (by omega)
  obtain ⟨fuel, hfuel⟩ : ∃ fuel, (half ++ half).length = fuel + 1 + 1 :=
    ⟨204798, length_greeting hhalf⟩
  rw [chunks, hfuel, hstep _ _ (append_ne_nil_of_left_ne_nil hne _), htake, hdrop,
    hstep _ _ hne, take_of_length_le hhalf.le, drop_of_length_le hhalf.le]
  cases fuel with
  | zero | succ => rfl

theorem serializedChunkLen_greeting (segmentId : ℕ) :
    serializedChunkLen base64Codec plainWire (greeting half) segmentId 2 204800 half =
      .ok ((102400 * 4 + 2) / 3 + 200) := by
  rw [← hhalf, ← length_encodeBase64]
  rfl

theorem serializedChunkLen_first_byte :
    serializedChunkLen base64Codec plainWire (greeting half) 0
      (min (max (half ++ half).length 1) remoteControlSegmentCountMax) (half ++ half).length
        ((half ++ half).take 1) = .ok 202 := by
  have hpos : 0 < (half ++ half).length := by
    rw [length_greeting hhalf]
    decide
  obtain ⟨byte, rest, hcons⟩ := exists_cons_of_ne_nil (ne_nil_of_length_pos hpos)
  rw [length_greeting hhalf, hcons]
  rfl

theorem segmentsFit_greeting :
    segmentsFit base64Codec plainWire (greeting half) (half ++ half) 102400 2 := by
  rw [segmentsFit, chunks_greeting hhalf, length_greeting hhalf]
  simp [isWithinSegmentMax, serializedChunkLen_greeting hhalf, remoteControlSegmentMaxBytes]

theorem buildSegments_greeting :
    buildSegments base64Codec (greeting half) (half ++ half) 102400 2 =
      .ok [greetingSegment half 0, greetingSegment half 1] := by
  rw [buildSegments, chunks_greeting hhalf, length_greeting hhalf]
  rfl

theorem isLarge_greeting : remoteControlSegmentMaxBytes < (half ++ half).length + 200 := by
  rw [length_greeting hhalf]
  decide

theorem split_greeting : splitServerEnvelopeForTransport base64Codec plainWire (greeting half) =
    .ok [greetingSegment half 0, greetingSegment half 1] := by
  have hcount : divCeil (half ++ half).length 102400 = 2 := by
    rw [length_greeting hhalf]
    rfl
  have hsize : chunkSizeFor (half ++ half)
      (max 2 (divCeil (half ++ half).length remoteControlSegmentTargetBytes)) = 102400 := by
    rw [chunkSizeFor, length_greeting hhalf]
    rfl
  have hmax : (half ++ half).length ≤ remoteControlReassembledMaxBytes := by
    rw [length_greeting hhalf]
    decide
  have hfit := segmentsFit_greeting hhalf
  rw [← hcount] at hfit
  rw [splitServerEnvelopeForTransport_of_large rfl (serializedLen_greeting half)
      (isLarge_greeting hhalf),
    splitMessage_of_fits (toVec_greeting half) hmax (serializedChunkLen_first_byte hhalf)
      (by decide) hsize hfit, hcount, buildSegments_greeting hhalf]

end Split

theorem carriesSegment_greeting (half : ByteString) (segmentId : ℕ) :
    CarriesSegment (greetingSegment half segmentId) (greetingDelivery half segmentId).1 :=
  ⟨⟨_, _, _, _, rfl, rfl⟩, rfl, rfl, rfl⟩

def longHalf : ByteString := List.replicate 102400 104

theorem length_longHalf : longHalf.length = 102400 := length_replicate

/-- A message of two full segments. -/
theorem greeting_segments_rejoin :
    ∃ parts : List ByteString,
      [greetingSegment longHalf 0, greetingSegment longHalf 1].map
          (fun segment => segment.event.decodedChunk base64Codec) = parts.map some ∧
      parts.flatten = longHalf ++ longHalf := by
  have hsound := (split_segments_sound rfl (serializedLen_greeting longHalf)).2.2 _
    (split_greeting length_longHalf)
  obtain ⟨raw, parts, hraw, -, -, hparts, hflatten⟩ :=
    hsound.2 (isLarge_greeting length_longHalf) (cons_ne_nil _ _)
  rw [toVec_greeting] at hraw
  cases hraw
  exact ⟨parts, hparts, hflatten⟩

theorem greeting_arrives_whole :
    splitServerEnvelopeForTransport base64Codec plainWire (greeting longHalf) =
        .ok [greetingSegment longHalf 0, greetingSegment longHalf 1] ∧
      ∃ early last,
        [greetingDelivery longHalf 0, greetingDelivery longHalf 1] = early ++ [last] ∧
        (feed base64Codec .empty [greetingDelivery longHalf 0, greetingDelivery longHalf 1]).1 =
          List.replicate early.length .pending ++
            [.forward { last.1 with
              event := .clientMessage (.notification (longHalf ++ longHalf)) }] := by
  have hsplit := split_greeting length_longHalf
  refine ⟨hsplit, ?_⟩
  apply (reassembly_never_splices base64Codec plainWire).2.2.2 (greeting longHalf) _ _ _ _ .empty
    _ _ rfl (serializedLen_greeting longHalf) (isLarge_greeting length_longHalf)
    (toVec_greeting longHalf) hsplit (cons_ne_nil _ _) rfl
  · intro assembly hget
    cases hget
  · exact .cons (carriesSegment_greeting longHalf 0)
      (.cons (carriesSegment_greeting longHalf 1) .nil)

end Greeting

end Main

end Rexux.RemoteControl
