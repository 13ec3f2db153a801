import Rexux.Foundation.ByteStream
import Rexux.Foundation.OrderedMap
import Rexux.Foundation.Outcome

/-!
# The Noise relay

Messages between an executor and its harness travel through a relay that neither of
them trusts.  The sender puts a length before each message, cuts the result into
records, encrypts each record under the next nonce of its Noise transport and numbers
it.  The nonces are implicit, so the receiver has to decrypt the records in exactly
the order they were encrypted: it holds back what arrives early and drops what
arrives twice, and cuts the decrypted stream into messages again.

The Noise transport itself is a parameter.
-/

namespace Rexux.ExecServer

open Foundation

inductive RelayError
  | exceedsReorderWindow
  | pendingBufferFull
  | sequenceExhausted
  | messageTooLong
  | recordTooLong
  | invalidMessageLength
  | reassemblyBufferFull
  | decryptionFailed
  deriving DecidableEq, Repr

def RelayError.message : RelayError → String
  | exceedsReorderWindow => "Noise relay ciphertext exceeds reorder window"
  | pendingBufferFull => "Noise relay pending ciphertext buffer is full"
  | sequenceExhausted => "Noise relay sequence number exhausted"
  | messageTooLong => "Noise relay JSON-RPC message exceeds maximum length"
  | recordTooLong => "Noise relay plaintext record exceeds maximum length"
  | invalidMessageLength => "Noise relay JSON-RPC message has invalid length"
  | reassemblyBufferFull => "Noise relay JSON-RPC reassembly buffer exceeds maximum length"
  | decryptionFailed => "Noise relay decryption failed"

/-- A frame of the relay: a sequence number and a ciphertext. -/
structure RelayData where
  seq : ℕ
  payload : ByteString
  deriving DecidableEq, Repr

def maxReorderDistance : ℕ := 64

def maxPendingBytes : ℕ := 1024 * 1024

/-- The next number to release, and the frames that came early. -/
structure OrderedCiphertextFrames where
  nextSeq : ℕ
  pending : OrderedMap ByteString
  pendingBytes : ℕ

namespace OrderedCiphertextFrames

def empty : OrderedCiphertextFrames := ⟨0, .empty, 0⟩

/-- Sequence numbers are 32 bits wide and never wrap. -/
def advance (frames : OrderedCiphertextFrames) : Except RelayError OrderedCiphertextFrames :=
  if frames.nextSeq + 1 < 2 ^ 32 then .ok { frames with nextSeq := frames.nextSeq + 1 }
  else .error .sequenceExhausted

/-- Release the frames that are next, as long as there are any. -/
def releaseReady : ℕ → OrderedCiphertextFrames →
    Except RelayError (List ByteString × OrderedCiphertextFrames)
  | 0, frames => .ok ([], frames)
  | fuel + 1, frames =>
    match frames.pending.get? frames.nextSeq with
    | none => .ok ([], frames)
    | some payload => do
        let frames ← advance
          { frames with
            pending := frames.pending.erase frames.nextSeq
            pendingBytes := frames.pendingBytes - payload.length }
        let rest ← releaseReady fuel frames
        return (payload :: rest.1, rest.2)

/-- Take a frame: release it with what follows, keep it, drop a copy, or refuse it. -/
def push (frames : OrderedCiphertextFrames) (seq : ℕ) (payload : ByteString) :
    Except RelayError (List ByteString × OrderedCiphertextFrames) :=
  -- The first ciphertext of a sequence number is kept, later copies are duplicates.
  if seq < frames.nextSeq ∨ (frames.pending.get? seq).isSome then .ok ([], frames)
  else if frames.nextSeq < seq then
    if maxReorderDistance < seq - frames.nextSeq then .error .exceedsReorderWindow
    else if maxPendingBytes < frames.pendingBytes + payload.length then
      .error .pendingBufferFull
    else
      .ok ([],
        { frames with
          pending := frames.pending.insert seq payload
          pendingBytes := frames.pendingBytes + payload.length })
  else do
    let frames ← frames.advance
    let rest ← releaseReady frames.pending.size frames
    return (payload :: rest.1, rest.2)

end OrderedCiphertextFrames

def lengthPrefixBytes : ℕ := 4

def maxNoiseJsonrpcMessageLen : ℕ := 64 * 1024 * 1024

def noiseRecordPlaintextLen : ℕ := 60 * 1024

/-- A message with its length before it. -/
def frameMessage (message : ByteString) : Except RelayError ByteString :=
  if message.length = 0 ∨ maxNoiseJsonrpcMessageLen < message.length then
    .error .messageTooLong
  else .ok (toBeBytes message.length ++ message)

/-- The bytes that are not yet a whole message. -/
structure MessageDecoder where
  buffered : ByteString

namespace MessageDecoder

/-- Cut whole messages off the front. -/
def drain : ℕ → ByteString → Except RelayError (List ByteString × ByteString)
  | 0, buffered => .ok ([], buffered)
  | fuel + 1, b0 :: b1 :: b2 :: b3 :: rest =>
    let messageLen := ofBeBytes b0 b1 b2 b3
    if messageLen = 0 ∨ maxNoiseJsonrpcMessageLen < messageLen then
      .error .invalidMessageLength
    else if (b0 :: b1 :: b2 :: b3 :: rest).length < lengthPrefixBytes + messageLen then
      .ok ([], b0 :: b1 :: b2 :: b3 :: rest)
    else do
      let later ← drain fuel (rest.drop messageLen)
      return (rest.take messageLen :: later.1, later.2)
  | _ + 1, buffered => .ok ([], buffered)

/-- Take a record and give out the messages that are whole now. -/
def push (decoder : MessageDecoder) (plaintextRecord : ByteString) :
    Except RelayError (List ByteString × MessageDecoder) :=
  if noiseRecordPlaintextLen < plaintextRecord.length then .error .recordTooLong
  else do
    let buffered := decoder.buffered ++ plaintextRecord
    let drained ← drain buffered.length buffered
    if lengthPrefixBytes + maxNoiseJsonrpcMessageLen < drained.2.length then
      .error .reassemblyBufferFull
    else return (drained.1, ⟨drained.2⟩)

end MessageDecoder

/-- The two ends of a Noise transport.  Its assumption is that a receiver who has
decrypted everything the sender has encrypted, in order, decrypts the next record to
what was encrypted, and can go on. -/
structure NoiseChannel where
  Sender : Type
  Receiver : Type
  encrypt : Sender → ByteString → Option (ByteString × Sender)
  decrypt : Receiver → ByteString → Option (ByteString × Receiver)
  InStep : Sender → Receiver → Prop
  decrypt_encrypt : ∀ sender receiver plaintext ciphertext sender',
    InStep sender receiver → encrypt sender plaintext = some (ciphertext, sender') →
      ∃ receiver', decrypt receiver ciphertext = some (plaintext, receiver') ∧
        InStep sender' receiver'

variable {channel : NoiseChannel}

/-- The sender: its next number and its end of the transport. -/
structure NoiseWriter (channel : NoiseChannel) where
  nextSeq : ℕ
  transport : channel.Sender

/-- The next number; the largest one is never taken. -/
def takeNextSequence (nextSeq : ℕ) : Option (ℕ × ℕ) :=
  if nextSeq + 1 < 2 ^ 32 then some (nextSeq, nextSeq + 1) else none

/-- Encrypt and number the records, up to the first failure. -/
def NoiseWriter.writeRecords :
    NoiseWriter channel → List ByteString → List RelayData × Option (NoiseWriter channel)
  | writer, [] => ([], some writer)
  | writer, record :: records =>
    match takeNextSequence writer.nextSeq with
    | none => ([], none)
    | some (seq, nextSeq) =>
      match channel.encrypt writer.transport record with
      | none => ([], none)
      | some (ciphertext, transport) =>
        let rest := writeRecords ⟨nextSeq, transport⟩ records
        (⟨seq, ciphertext⟩ :: rest.1, rest.2)

/-- The frames of some messages; without a writer it has stopped. -/
def NoiseWriter.writeMessages :
    NoiseWriter channel → List ByteString → List RelayData × Option (NoiseWriter channel)
  | writer, [] => ([], some writer)
  | writer, message :: messages =>
    match frameMessage message with
    | .error _ => ([], none)
    | .ok framed =>
      let written := writer.writeRecords (chunks noiseRecordPlaintextLen framed)
      match written.2 with
      | none => (written.1, none)
      | some writer =>
        let rest := writer.writeMessages messages
        (written.1 ++ rest.1, rest.2)

/-- The harness keeps an offset into the framed message instead, and yields to its
other work between two records. -/
def harnessRecords (framed : ByteString) : ℕ → ℕ → List ByteString
  | 0, _ => []
  | fuel + 1, offset =>
    let nextOffset := min (offset + noiseRecordPlaintextLen) framed.length
    (framed.take nextOffset).drop offset ::
      if nextOffset = framed.length then [] else harnessRecords framed fuel nextOffset

/-- The receiver: its end of the transport, the window and the decoder. -/
structure NoiseVirtualStream (channel : NoiseChannel) where
  transport : channel.Receiver
  inboundCiphertexts : OrderedCiphertextFrames
  inboundDecoder : MessageDecoder

namespace NoiseVirtualStream

def new (transport : channel.Receiver) : NoiseVirtualStream channel where
  transport := transport
  inboundCiphertexts := .empty
  inboundDecoder := ⟨[]⟩

/-- Decrypt what the window has released and decode it. -/
def receiveReleased : NoiseVirtualStream channel → List ByteString →
    Except RelayError (List ByteString × NoiseVirtualStream channel)
  | stream, [] => .ok ([], stream)
  | stream, ciphertext :: ciphertexts =>
    match channel.decrypt stream.transport ciphertext with
    | none => .error .decryptionFailed
    | some (plaintext, transport) => do
        let decoded ← stream.inboundDecoder.push plaintext
        let rest ← receiveReleased
          { stream with transport := transport, inboundDecoder := decoded.2 } ciphertexts
        return (decoded.1 ++ rest.1, rest.2)

/-- One frame from the relay. -/
def receiveData (stream : NoiseVirtualStream channel) (data : RelayData) :
    Except RelayError (List ByteString × NoiseVirtualStream channel) := do
  let released ← stream.inboundCiphertexts.push data.seq data.payload
  receiveReleased { stream with inboundCiphertexts := released.2 } released.1

/-- All arrivals, up to the first that is refused. -/
def receiveAll : NoiseVirtualStream channel → List RelayData →
    Except RelayError (List ByteString × NoiseVirtualStream channel)
  | stream, [] => .ok ([], stream)
  | stream, data :: arrivals => do
      let received ← stream.receiveData data
      let rest ← receiveAll received.2 arrivals
      return (received.1 ++ rest.1, rest.2)

end NoiseVirtualStream

end Rexux.ExecServer
