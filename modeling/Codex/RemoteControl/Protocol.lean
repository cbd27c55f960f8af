import Codex.Lib.Base64
import Codex.Lib.JsonText

/-!
# Remote-control envelopes

`app-server-transport/src/transport/remote_control/protocol.rs`: the envelopes that travel over the
remote-control socket, and the text of a server envelope. Strings are their UTF-8 bytes. `base64`
and the strings of `serde_json` are instances.
-/

namespace Codex.RemoteControl

open Codex.JsonText

abbrev Bytes := List UInt8

inductive ErrorKind where
  | invalidData
  | wouldBlock
  | other
  deriving DecidableEq, Repr

/-- `std::io::Error`: its kind and text. -/
structure IoError where
  kind : ErrorKind
  message : String
  deriving DecidableEq, Repr

structure ClientId where
  text : Bytes
  deriving DecidableEq, Repr

structure StreamId where
  text : Bytes
  deriving DecidableEq, Repr

inductive PongStatus where
  | active
  | unknown
  deriving DecidableEq, Repr

/-- `ServerEvent` (`protocol.rs:168`). -/
inductive ServerEvent (Message : Type) where
  | serverMessage (message : Message)
  | serverMessageChunk (segmentId segmentCount messageSizeBytes : Nat) (messageChunkBase64 : Bytes)
  | pong (status : PongStatus)
  deriving DecidableEq, Repr

/-- `ServerEvent::segment_id` (`protocol.rs:184`). -/
def ServerEvent.segmentId {Message : Type} : ServerEvent Message → Option Nat
  | serverMessageChunk segmentId _ _ _ => some segmentId
  | serverMessage _ => none
  | pong _ => none

/-- `ServerEnvelope` (`protocol.rs:194`). -/
structure ServerEnvelope (Message : Type) where
  event : ServerEvent Message
  clientId : ClientId
  streamId : StreamId
  seqId : UInt64
  deriving DecidableEq, Repr

section Json

variable [StringWriter]

/-- The members that an event contributes to its envelope, its tag first. -/
def ServerEvent.members {Message : Type} (serialize : Message → Bytes) :
    ServerEvent Message → Bytes
  | serverMessage message => ascii "\"type\":\"server_message\",\"message\":" ++ serialize message
  | serverMessageChunk segmentId segmentCount messageSizeBytes messageChunkBase64 =>
      ascii "\"type\":\"server_message_chunk\",\"segment_id\":" ++ decimal segmentId ++
        ascii ",\"segment_count\":" ++ decimal segmentCount ++
        ascii ",\"message_size_bytes\":" ++ decimal messageSizeBytes ++
        ascii ",\"message_chunk_base64\":" ++ string messageChunkBase64
  | pong .active => ascii "\"type\":\"pong\",\"status\":\"active\""
  | pong .unknown => ascii "\"type\":\"pong\",\"status\":\"unknown\""

/-- The members of the routing fields. -/
def ServerEnvelope.routing {Message : Type} (envelope : ServerEnvelope Message) : Bytes :=
  ascii ",\"client_id\":" ++ string envelope.clientId.text ++
    ascii ",\"stream_id\":" ++ string envelope.streamId.text ++
    ascii ",\"seq_id\":" ++ decimal envelope.seqId.toNat

/-- The JSON text of an envelope. -/
def ServerEnvelope.json {Message : Type} (serialize : Message → Bytes)
    (envelope : ServerEnvelope Message) : Bytes :=
  123 :: (envelope.event.members serialize ++ envelope.routing ++ [125])

end Json

/-- `ClientEvent` (`protocol.rs:119`). -/
inductive ClientEvent (Message : Type) where
  | clientMessage (message : Message)
  | clientMessageChunk (segmentId segmentCount messageSizeBytes : Nat) (messageChunkBase64 : Bytes)
  | ack (segmentId : Option Nat)
  | ping
  | clientClosed
  deriving DecidableEq, Repr

/-- `ClientEnvelope` (`protocol.rs:144`). -/
structure ClientEnvelope (Message : Type) where
  event : ClientEvent Message
  clientId : ClientId
  streamId : Option StreamId
  seqId : Option UInt64
  cursor : Option Bytes
  deriving DecidableEq, Repr

end Codex.RemoteControl
