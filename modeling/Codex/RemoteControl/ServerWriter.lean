import Codex.RemoteControl.Reassembly

/-!
# The server writer

`ServerWriterQueue` and `BoundedOutboundBuffer` of
`app-server-transport/src/transport/remote_control/websocket.rs`: the frames that wait for the
socket, and those that wait for an acknowledgement.

An `enqueue` holds the queue while it encodes, and the acknowledgements, cancellations and capacity
checks of the other tasks come in between. It is therefore two steps, its start and its end.
-/

namespace Codex.RemoteControl

open Codex.Machine JsonText

/-- `transport::CHANNEL_CAPACITY` (`transport/mod.rs:25`). -/
def CHANNEL_CAPACITY : Nat := 128

def MAX_TRANSPORT_STREAM_IDENTITIES : Nat := 4096

/-- A `CancellationToken`, by its identity. -/
abbrev CancellationToken := Nat

/-- `QueuedServerEnvelope` (`mod.rs:112`). The sender of the write receipt is its identity. -/
structure QueuedServerEnvelope (Message : Type) where
  event : ServerEvent Message
  clientId : ClientId
  streamId : StreamId
  writeCompleteTx : Option Nat
  deliveryFailure : Option CancellationToken
  segmentFits : ∀ segmentId, event.segmentId = some segmentId → segmentId ≤ USIZE_MAX

/-- `ScheduledServerFrame` (`websocket.rs:118`). -/
structure ScheduledServerFrame where
  payload : Bytes
  completion : Option Nat
  deliveryFailure : Option CancellationToken
  deriving DecidableEq, Repr

/-- `BufferedServerEnvelope` (`websocket.rs:93`). -/
structure BufferedServerEnvelope where
  clientId : ClientId
  streamId : StreamId
  seqId : UInt64
  segmentId : Option Nat
  payload : Bytes
  deliveryFailure : Option CancellationToken
  deriving DecidableEq, Repr

/-- `BufferedServerEnvelope::from_payload` (`websocket.rs:105`). -/
def BufferedServerEnvelope.fromPayload (encoded : EncodedServerPayload)
    (deliveryFailure : Option CancellationToken) : BufferedServerEnvelope where
  clientId := encoded.clientId
  streamId := encoded.streamId
  seqId := encoded.seqId
  segmentId := encoded.segmentId
  payload := encoded.payload
  deliveryFailure := deliveryFailure

def BufferedServerEnvelope.key (envelope : BufferedServerEnvelope) : StreamKey :=
  (envelope.clientId, envelope.streamId)

/-- `delivery_failure.as_ref().is_some_and(CancellationToken::is_cancelled)`. -/
def isCancelled (cancelled : CancellationToken → Bool)
    (deliveryFailure : Option CancellationToken) : Bool :=
  deliveryFailure.any cancelled

/-- `ServerWriterQueue` (`websocket.rs:130`). -/
structure ServerWriterQueue where
  streams : AList (fun _ : StreamKey => List ScheduledServerFrame) := ∅
  ready : List StreamKey := []

namespace ServerWriterQueue

/-- `push` (`websocket.rs:138`). -/
def push (key : StreamKey) (frame : ScheduledServerFrame) (queue : ServerWriterQueue) :
    ServerWriterQueue :=
  let stream := (queue.streams.lookup key).getD []
  { ready := if stream.isEmpty then queue.ready ++ [key] else queue.ready
    streams := queue.streams.insert key (stream ++ [frame]) }

/-- `pop` (`websocket.rs:145`). -/
def pop (queue : ServerWriterQueue) : Option ScheduledServerFrame × ServerWriterQueue :=
  match queue.ready with
  | [] => (none, queue)
  | key :: ready =>
      match queue.streams.lookup key with
      | none => (none, { queue with ready })
      | some stream =>
          (stream.head?,
            if stream.tail.isEmpty then { streams := queue.streams.erase key, ready }
            else { streams := queue.streams.insert key stream.tail, ready := ready ++ [key] })

end ServerWriterQueue

/-- `BoundedOutboundBuffer` (`websocket.rs:250`). -/
structure BoundedOutboundBuffer where
  bufferByStream : AList (fun _ : StreamKey => List BufferedServerEnvelope) := ∅
  used : Nat := 0
  fairnessOverdraft : Option (StreamKey × UInt64) := none

namespace BoundedOutboundBuffer

/-- The frames of a stream that a capacity check keeps. -/
def uncancelled (cancelled : CancellationToken → Bool) (_ : StreamKey)
    (frames : List BufferedServerEnvelope) : Option (List BufferedServerEnvelope) :=
  let frames := frames.filter (fun frame => !isCancelled cancelled frame.deliveryFailure)
  if frames.isEmpty then none else some frames

/-- The number of frames of a stream that a capacity check removes. -/
def cancelledCount (cancelled : CancellationToken → Bool)
    (frames : List BufferedServerEnvelope) : Nat :=
  (frames.filter (fun frame => isCancelled cancelled frame.deliveryFailure)).length

/-- The overdraft is over: there is room again, or its message was acknowledged or pruned. -/
def overdraftOver (buffer : BoundedOutboundBuffer) : Bool :=
  decide (buffer.used < CHANNEL_CAPACITY) ||
    buffer.fairnessOverdraft.any (fun overdraft =>
      !(buffer.bufferByStream.lookup overdraft.1).any (fun frames =>
        frames.any (fun frame => frame.seqId == overdraft.2)))

/-- The overdraft is forgotten when it is over (`websocket.rs:280`). -/
def settleOverdraft (buffer : BoundedOutboundBuffer) : BoundedOutboundBuffer :=
  if buffer.overdraftOver then { buffer with fairnessOverdraft := none } else buffer

/-- `has_capacity` (`websocket.rs:269`). -/
def hasCapacity (cancelled : CancellationToken → Bool) (buffer : BoundedOutboundBuffer) :
    Bool × BoundedOutboundBuffer :=
  let removed := total (cancelledCount cancelled) buffer.bufferByStream
  let buffer := settleOverdraft { buffer with
    bufferByStream := retainMut (uncancelled cancelled) buffer.bufferByStream
    used := if removed ≠ 0 then countSub buffer.used removed else buffer.used }
  (decide (buffer.used < CHANNEL_CAPACITY) || buffer.fairnessOverdraft.isNone, buffer)

/-- `insert_encoded` (`websocket.rs:290`). -/
def insertEncoded (envelope : BufferedServerEnvelope) (buffer : BoundedOutboundBuffer) :
    BoundedOutboundBuffer :=
  { buffer with
    bufferByStream := buffer.bufferByStream.insert envelope.key
      ((buffer.bufferByStream.lookup envelope.key).getD [] ++ [envelope])
    used := buffer.used + 1 }

/-- The comparison of a frame with an acknowledgement cursor. -/
def atOrBelow (seqId : UInt64) (segmentId : Nat) (envelope : BufferedServerEnvelope) : Bool :=
  decide (envelope.seqId < seqId) ||
    (envelope.seqId == seqId && decide (envelope.segmentId.getD 0 ≤ segmentId))

/-- `ack` (`websocket.rs:301`). -/
def ack (key : StreamKey) (ackedSeqId : UInt64) (ackedSegmentId : Option Nat)
    (buffer : BoundedOutboundBuffer) : Bool × BoundedOutboundBuffer :=
  match buffer.bufferByStream.lookup key with
  | none => (false, buffer)
  | some frames =>
      let kept := frames.dropWhile (atOrBelow ackedSeqId (ackedSegmentId.getD USIZE_MAX))
      let removed := frames.length - kept.length
      (decide (removed ≠ 0), { buffer with
        bufferByStream := if kept.isEmpty then buffer.bufferByStream.erase key
          else buffer.bufferByStream.insert key kept
        used := if removed ≠ 0 then countSub buffer.used removed else buffer.used })

end BoundedOutboundBuffer

variable {Message : Type} [StringWriter] [Base64.Engine]

/-- The queue of the writer, what it uses of `WebsocketState`, the tokens that are cancelled, and
    the envelope that is being encoded with the sequence id it would take. -/
structure WriterState (Message : Type) where
  queue : ServerWriterQueue := {}
  nextSeqIdByStream : AList (fun _ : StreamKey => UInt64) := ∅
  outboundBuffer : BoundedOutboundBuffer := {}
  cancelled : CancellationToken → Bool := fun _ => false
  encoding : Option (QueuedServerEnvelope Message × UInt64) := none

/-- What happens at the writer. The encoding task itself can fail, and a shutdown or a failed ping
    ends an `enqueue` before its encoding does. -/
inductive WriterEvent (Message : Type) where
  | enqueue (queued : QueuedServerEnvelope Message)
  | encoded (failure : Option IoError)
  | abandon (failure : Option IoError)
  | pop
  | ack (key : StreamKey) (seqId : UInt64) (segmentId : Option Nat)
  | cancel (token : CancellationToken)
  | hasCapacity

/-- What a step returns. A published envelope comes with its frames, and a popped frame with the
    stream at the head of the ready list. -/
inductive WriterOutput where
  | encoding
  | published (key : StreamKey) (seqId : UInt64) (scheduled : List ScheduledServerFrame)
      (buffered : List BufferedServerEnvelope)
  | unpublished (failure : Option IoError)
  | popped (key : StreamKey) (frame : ScheduledServerFrame)
  | empty
  | acked (advanced : Bool)
  | cancelled
  | capacity (available : Bool)
  | blocked

def QueuedServerEnvelope.key (queued : QueuedServerEnvelope Message) : StreamKey :=
  (queued.clientId, queued.streamId)

/-- `u64::saturating_add(1)`. -/
def saturatingSucc (seqId : UInt64) : UInt64 := UInt64.ofNat (min (seqId.toNat + 1) (2 ^ 64 - 1))

namespace WriterState

def nextSeqId (state : WriterState Message) (key : StreamKey) : UInt64 :=
  (state.nextSeqIdByStream.lookup key).getD 1

/-- The start of `enqueue`, up to the encoding (`websocket.rs:163`). -/
def startEnqueue (queued : QueuedServerEnvelope Message) (state : WriterState Message) :
    WriterOutput × WriterState Message :=
  if isCancelled state.cancelled queued.deliveryFailure then (.unpublished none, state)
  else if MAX_TRANSPORT_STREAM_IDENTITIES ≤ state.nextSeqIdByStream.entries.length ∧
      queued.key ∉ state.nextSeqIdByStream then
    (.unpublished (some ⟨.wouldBlock,
      "remote control stream identity capacity reached; retiring transport generation"⟩), state)
  else (.encoding, { state with encoding := some (queued, state.nextSeqId queued.key) })

/-- The frames of a published envelope in the queue: the last one has the write receipt. -/
def scheduled (queued : QueuedServerEnvelope Message) (encoded : List EncodedServerPayload) :
    List ScheduledServerFrame :=
  encoded.zipIdx.map (fun entry =>
    { payload := entry.1.payload
      completion := if entry.2 + 1 = encoded.length then queued.writeCompleteTx else none
      deliveryFailure := queued.deliveryFailure })

/-- The frames of a published envelope in the buffer. -/
def buffered (queued : QueuedServerEnvelope Message) (encoded : List EncodedServerPayload) :
    List BufferedServerEnvelope :=
  encoded.map (fun payload => .fromPayload payload queued.deliveryFailure)

/-- The publication of an encoded envelope (`websocket.rs:214`). Its frames go to the queue and to
    the buffer, which know nothing of each other. -/
def publish (queued : QueuedServerEnvelope Message) (seqId : UInt64)
    (encoded : List EncodedServerPayload) (state : WriterState Message) : WriterState Message :=
  let outboundBuffer :=
    if CHANNEL_CAPACITY ≤ state.outboundBuffer.used then
      { state.outboundBuffer with fairnessOverdraft := some (queued.key, seqId) }
    else state.outboundBuffer
  { state with
    queue := (scheduled queued encoded).foldl (fun queue frame => queue.push queued.key frame)
      state.queue
    outboundBuffer := (buffered queued encoded).foldl (fun buffer envelope =>
      buffer.insertEncoded envelope) outboundBuffer
    nextSeqIdByStream := state.nextSeqIdByStream.insert queued.key (saturatingSucc seqId) }

/-- The end of `enqueue`, from the result of the encoding on (`websocket.rs:199`). -/
def finishEnqueue (queued : QueuedServerEnvelope Message) (seqId : UInt64)
    (result : Except IoError (List EncodedServerPayload)) (state : WriterState Message) :
    WriterOutput × WriterState Message :=
  match result with
  | .error _ =>
      (.unpublished none, match queued.deliveryFailure with
        | none => state
        | some token => { state with cancelled := Function.update state.cancelled token true })
  | .ok encoded =>
      if isCancelled state.cancelled queued.deliveryFailure then (.unpublished none, state)
      else (.published queued.key seqId (scheduled queued encoded) (buffered queued encoded),
        state.publish queued seqId encoded)

/-- The envelope that is encoded. -/
def envelope (queued : QueuedServerEnvelope Message) (seqId : UInt64) : ServerEnvelope Message where
  event := queued.event
  clientId := queued.clientId
  streamId := queued.streamId
  seqId := seqId

/-- The result of the encoding task, which can itself fail. -/
def encodingResult (serde : SerdeJson Message) (queued : QueuedServerEnvelope Message)
    (seqId : UInt64) : Option IoError → Except IoError (List EncodedServerPayload)
  | some failure => .error failure
  | none => encodeServerPayloadsForTransport serde (envelope queued seqId)

/-- One step. The borrow of the queue keeps `enqueue` and `pop` out of each other. -/
def step (serde : SerdeJson Message) (event : WriterEvent Message) (state : WriterState Message) :
    WriterOutput × WriterState Message :=
  match event, state.encoding with
  | .enqueue queued, none => state.startEnqueue queued
  | .enqueue _, some _ => (.blocked, state)
  | .encoded failure, some (queued, seqId) =>
      finishEnqueue queued seqId (encodingResult serde queued seqId failure)
        { state with encoding := none }
  | .encoded _, none => (.blocked, state)
  | .abandon failure, some _ => (.unpublished failure, { state with encoding := none })
  | .abandon _, none => (.blocked, state)
  | .pop, none =>
      (match state.queue.ready.head?, state.queue.pop.1 with
        | some key, some frame => .popped key frame
        | _, _ => .empty,
        { state with queue := state.queue.pop.2 })
  | .pop, some _ => (.blocked, state)
  | .ack key seqId segmentId, _ =>
      (.acked (state.outboundBuffer.ack key seqId segmentId).1,
        { state with outboundBuffer := (state.outboundBuffer.ack key seqId segmentId).2 })
  | .cancel token, _ =>
      (.cancelled, { state with cancelled := Function.update state.cancelled token true })
  | .hasCapacity, _ =>
      (.capacity (state.outboundBuffer.hasCapacity state.cancelled).1,
        { state with outboundBuffer := (state.outboundBuffer.hasCapacity state.cancelled).2 })

end WriterState

/-- A step of a run: the state before it, what happened, and what it returned. -/
structure WriterStep (Message : Type) where
  before : WriterState Message
  event : WriterEvent Message
  output : WriterOutput

/-- The steps of a run and the state after it. -/
def runWriter (serde : SerdeJson Message) :
    List (WriterEvent Message) → WriterState Message → List (WriterStep Message) × WriterState Message
  | [], state => ([], state)
  | event :: events, state =>
      let (output, next) := state.step serde event
      let (steps, final) := runWriter serde events next
      (⟨state, event, output⟩ :: steps, final)

end Codex.RemoteControl
