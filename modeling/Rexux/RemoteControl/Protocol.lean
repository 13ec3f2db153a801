import Rexux.Foundation.ByteStream
import Rexux.Foundation.Text

/-!
# Remote-control envelopes

What clients of an app server send through the remote-control websocket.  Of a
JSON-RPC message only the method of a request is ever looked at on the way; the rest
of its content stays as it is.
-/

namespace Rexux.RemoteControl

open Foundation

abbrev ClientId := Text

abbrev StreamId := Text

abbrev ConnectionId := ℕ

/-- Messages, with the method of requests and the content as bytes. -/
inductive JSONRPCMessage
  | request (method : Text) (content : ByteString)
  | notification (content : ByteString)
  | response (content : ByteString)
  | error (content : ByteString)
  deriving DecidableEq, Repr

inductive ClientEvent
  | clientMessage (message : JSONRPCMessage)
  | clientMessageChunk (segmentId segmentCount messageSizeBytes : ℕ) (messageChunkBase64 : Text)
  | ack (segmentId : Option ℕ)
  | ping
  | clientClosed
  deriving DecidableEq, Repr

/-- A message, a chunk or another event of a client. -/
structure ClientEnvelope where
  event : ClientEvent
  clientId : ClientId
  streamId : Option StreamId
  seqId : Option ℕ
  cursor : Option Text
  deriving DecidableEq, Repr

def remoteControlMessageStartsConnection : JSONRPCMessage → Bool
  | .request method _ => method = "initialize".toList
  | .notification _ => false
  | .response _ => false
  | .error _ => false

def ClientEnvelope.isInitialize (envelope : ClientEnvelope) : Bool :=
  match envelope.event with
  | .clientMessage message => remoteControlMessageStartsConnection message
  | _ => false

end Rexux.RemoteControl
