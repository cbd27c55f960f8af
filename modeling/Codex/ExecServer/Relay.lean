import Codex.ExecServer.NoiseRelay.MessageFraming
import Codex.Lib.Text
import Codex.Lib.Utf8

/-!
# The multiplexed executor relay

`exec-server/src/relay.rs`, the loop of `run_multiplexed_environment`. One websocket carries
the virtual streams of many harness connections. A handshake frame starts a registry check;
only its success turns the pending handshake into a stream. Frames, completed checks and
close notifications arrive in any order and reuse the peer's stream ids.

One turn of the loop is one event together with the answers of the code outside the loop:
the clock, the outgoing queue, the Noise library and the inbound queue of a stream. The
validation counter is a `u64` in the source and a `Nat` here: it grows by one for each
admitted handshake and does not reach `2 ^ 64` on one connection.
-/

namespace Codex.ExecServer.Relay

open Codex.Machine Codex.Run Codex.ExecServer.OrderedCiphertext Codex.ExecServer.MessageFraming

def RELAY_MESSAGE_FRAME_VERSION : UInt32 := 1

def MAX_ACTIVE_NOISE_RELAY_STREAMS : Nat := 128

def MAX_FAILED_NOISE_HANDSHAKES : Nat := 8

def MAX_HARNESS_KEY_AUTHORIZATION_BYTES : Nat := 4096

def MAX_PENDING_HANDSHAKE_VALIDATIONS : Nat := 32

/-- `RendezvousDisconnectReason` (`relay.rs:51`). -/
inductive RendezvousDisconnectReason where
  | peerClose
  | readError
  | writeError
  | pongTimeout
  | handshakeBudgetExhausted
  | localShutdown
  deriving DecidableEq, Repr

/-! ## Frames -/

inductive RelayFrameBodyKind where
  | data
  | ack
  | resume
  | reset
  | heartbeat
  | handshake
  deriving DecidableEq, Repr

structure RelayData where
  seq : UInt32
  segmentIndex : UInt32
  segmentCount : UInt32
  payload : Bytes
  deriving DecidableEq, Repr

/-- `relay_message_frame::Body`; the contents of ack, resume and heartbeat bodies are not read
    by the executor. -/
inductive Body where
  | data (data : RelayData)
  | ackFrame
  | resume
  | reset (reason : Text)
  | heartbeat
  | handshake (payload : Bytes)
  deriving DecidableEq, Repr

/-- `RelayMessageFrame` without its acknowledgement fields, which the executor does not read. -/
structure RelayMessageFrame where
  version : UInt32
  streamId : Text
  body : Option Body
  deriving DecidableEq, Repr

/-- `RelayMessageFrame::validate` (`relay.rs:135`). -/
def validate (frame : RelayMessageFrame) : Except ExecServerError RelayFrameBodyKind :=
  if frame.version ≠ RELAY_MESSAGE_FRAME_VERSION then
    .error (.protocol ("unsupported relay message frame version " ++ toString frame.version))
  else if Text.trim frame.streamId = [] then
    .error (.protocol "relay message frame is missing stream_id")
  else
    match frame.body with
    | some (.data data) =>
        if data.segmentIndex ≠ 0 ∨ data.segmentCount ≠ 1 ∨ data.payload = [] then
          .error (.protocol "relay data message frame is missing required fields")
        else
          .ok .data
    | some .ackFrame => .ok .ack
    | some .resume => .ok .resume
    | some (.reset reason) =>
        if reason = [] then
          .error (.protocol "relay reset message frame is missing reason")
        else
          .ok .reset
    | some .heartbeat => .ok .heartbeat
    | some (.handshake payload) =>
        if payload = [] then
          .error (.protocol "relay handshake message frame is missing payload")
        else
          .ok .handshake
    | none => .error (.protocol "relay message frame is missing body")

def intoData (frame : RelayMessageFrame) : Except ExecServerError RelayData :=
  match validate frame with
  | .error error => .error error
  | .ok kind =>
      if kind ≠ .data then
        .error (.protocol "expected relay data message frame")
      else
        match frame.body with
        | some (.data data) => .ok data
        | _ => .error (.protocol "expected relay data message frame")

def intoHandshakePayload (frame : RelayMessageFrame) : Except ExecServerError Bytes :=
  match validate frame with
  | .error error => .error error
  | .ok kind =>
      if kind ≠ .handshake then
        .error (.protocol "expected relay handshake message frame")
      else
        match frame.body with
        | some (.handshake payload) => .ok payload
        | _ => .error (.protocol "expected relay handshake message frame")

/-! ## The state of the loop -/

variable {Handshake Transport Message : Type}

/-- The read half of an authenticated stream (`executor_stream.rs:46`). Its transport is
    cleared only when the value is dropped, that is when it leaves the map. -/
structure NoiseVirtualStream (Transport : Type) where
  transport : Transport
  inboundCiphertexts : OrderedCiphertextFrames := {}
  inboundDecoder : JsonRpcMessageDecoder := {}
  instanceId : Nat

structure PendingHandshake (Handshake : Type) where
  validationId : Nat
  handshake : Handshake

/-- The variables of the loop. A validation task is known by the ids it will report. -/
structure LoopState (Handshake Transport : Type) where
  streams : AList (fun _ : Text => NoiseVirtualStream Transport) := ∅
  pendingHandshakes : AList (fun _ : Text => PendingHandshake Handshake) := ∅
  validationTasks : List (Text × Nat) := []
  failedHandshakes : Nat := 0
  nextValidationId : Nat := 0
  disconnectReason : Option RendezvousDisconnectReason := none

/-- The answers of the code outside the loop during one turn. `readRequest` and `complete`
    are `PendingResponderHandshake::read_request` (with the prologue of the stream id, and the
    decrypted payload beside the handshake) and `complete`; `queueRoom` is the free capacity of
    the receiving stream's inbound queue, 0 when it is closed. -/
structure Outside (Handshake Transport : Type) where
  now : Nat
  tryReserveOwned : Bool
  readRequest : Text → Bytes → Except String (Handshake × Bytes)
  complete : Handshake → Except String (Transport × Bytes)
  decrypt : Transport → Bytes → Except String (Bytes × Transport)
  queueRoom : Nat

/-- What one turn can wait for. A validation result names the task that produced it. -/
inductive Event where
  | frame (frame : RelayMessageFrame)
  | closed (streamId : Text) (instanceId : Nat)
  | validated (streamId : Text) (validationId : Nat) (authorized : Bool)
  | validationTaskFailed (streamId : Text) (validationId : Nat)
  | ignored
  | ended (reason : RendezvousDisconnectReason)

structure Turn (Handshake Transport : Type) where
  outside : Outside Handshake Transport
  event : Event

/-- Why a handshake attempt is charged to the connection. A handshake that was admitted is
    named by its validation id. -/
inductive Failure where
  | unreadable
  | authorizationRejected
  | canceled (validationId : Nat)
  | unauthorized (validationId : Nat)
  | incomplete (validationId : Nat)
  deriving DecidableEq, Repr

/-- What a turn does to the outside: the frames it queues, the messages it delivers, and the
    failures it charges. -/
inductive Effect (Message : Type) where
  | reset (streamId : Text)
  | reply (streamId : Text) (response : Bytes)
  | deliver (streamId : Text) (message : Message)
  | failed (failure : Failure)

/-- `failed_handshake_budget_exhausted` (`relay.rs:922`) with the `break` of its callers. -/
def charge (relay : LoopState Handshake Transport) (failure : Failure) :
    List (Effect Message) × LoopState Handshake Transport :=
  let failedHandshakes := relay.failedHandshakes + 1
  ([.failed failure],
    { relay with
      failedHandshakes
      disconnectReason :=
        if MAX_FAILED_NOISE_HANDSHAKES ≤ failedHandshakes then some .handshakeBudgetExhausted
        else relay.disconnectReason })

/-- `send_reset` followed by a charge. -/
def resetAndCharge (relay : LoopState Handshake Transport) (streamId : Text) (failure : Failure) :
    List (Effect Message) × LoopState Handshake Transport :=
  let (effects, relay) := charge relay failure
  (.reset streamId :: effects, relay)

/-! ## Inbound data -/

/-- The delivery loop of `receive_data` for the messages of one record: `try_send` fails when
    the queue has no room left. -/
def sendMessages : List Message → Nat → List Message × Except ExecServerError Nat
  | [], room => ([], .ok room)
  | _ :: _, 0 =>
      ([], .error (.protocol "Noise virtual stream inbound queue is full or closed"))
  | message :: messages, room + 1 =>
      let (sent, rest) := sendMessages messages room
      (message :: sent, rest)

/-- The `for ciphertext` loop of `receive_data`: decrypt, decode and deliver each released
    record. Messages delivered before an error stay delivered. -/
def receiveRecords (serde : Serde Message)
    (decrypt : Transport → Bytes → Except String (Bytes × Transport)) :
    List Payload → Nat → NoiseVirtualStream Transport →
    List Message × Except ExecServerError (NoiseVirtualStream Transport)
  | [], _, stream => ([], .ok stream)
  | ciphertext :: ciphertexts, room, stream =>
      match decrypt stream.transport ciphertext with
      | .error error => ([], .error (.protocol ("Noise relay decryption failed: " ++ error)))
      | .ok (plaintext, transport) =>
          match pushWithLimit serde stream.inboundDecoder plaintext USIZE_MAX with
          | .error error => ([], .error error)
          | .ok (messages, inboundDecoder) =>
              match sendMessages messages room with
              | (sent, .error error) => (sent, .error error)
              | (sent, .ok room) =>
                  let (rest, result) := receiveRecords serde decrypt ciphertexts room
                    { stream with transport, inboundDecoder }
                  (sent ++ rest, result)

/-- `NoiseVirtualStream::receive_data` (`executor_stream.rs:86`). -/
def receiveData (serde : Serde Message) (outside : Outside Handshake Transport)
    (stream : NoiseVirtualStream Transport) (data : RelayData) :
    List Message × Except ExecServerError (NoiseVirtualStream Transport) :=
  match OrderedCiphertext.push stream.inboundCiphertexts
      { seq := data.seq, payload := data.payload, now := outside.now } with
  | .error error => ([], .error error)
  | .ok (ready, inboundCiphertexts) =>
      receiveRecords serde outside.decrypt ready outside.queueRoom
        { stream with inboundCiphertexts }

/-! ## One turn of the loop -/

def gapExpired (now : Nat) (stream : NoiseVirtualStream Transport) : Bool :=
  match stream.inboundCiphertexts.gapDeadline with
  | some deadline => deadline ≤ now
  | none => false

/-- The ids that the head of the loop collects. -/
def expired (now : Nat) (relay : LoopState Handshake Transport) : List Text :=
  (relay.streams.entries.filter (fun entry => gapExpired now entry.2)).map (fun entry => entry.1)

/-- The head of the loop: remove the streams whose sequence gap timed out. -/
def expire (now : Nat) (relay : LoopState Handshake Transport) : LoopState Handshake Transport :=
  { relay with
    streams := (expired now relay).foldl (fun streams id => streams.erase id) relay.streams }

/-- A close notification removes only the instance that sent it. -/
def onClosed (relay : LoopState Handshake Transport) (streamId : Text) (instanceId : Nat) :
    LoopState Handshake Transport :=
  match relay.streams.lookup streamId with
  | some stream =>
      if stream.instanceId = instanceId then
        { relay with streams := relay.streams.erase streamId }
      else relay
  | none => relay

/-- A validation task finished with a result (`relay.rs:607`). -/
def onValidated (outside : Outside Handshake Transport) (relay : LoopState Handshake Transport)
    (streamId : Text) (validationId : Nat) (authorized : Bool) :
    List (Effect Message) × LoopState Handshake Transport :=
  match relay.pendingHandshakes.lookup streamId with
  | none => ([], relay)
  | some pending =>
      if pending.validationId ≠ validationId then ([], relay)
      else
        let relay := { relay with pendingHandshakes := relay.pendingHandshakes.erase streamId }
        if !authorized then
          resetAndCharge relay streamId (.unauthorized validationId)
        else if MAX_ACTIVE_NOISE_RELAY_STREAMS ≤ relay.streams.entries.length then
          ([.reset streamId], relay)
        else
          -- This is the only point where the responder exposes a JSON-RPC stream.
          match outside.complete pending.handshake with
          | .error _ => resetAndCharge relay streamId (.incomplete validationId)
          | .ok (transport, response) =>
              ([.reply streamId response],
                { relay with
                  streams := relay.streams.insert streamId
                    { transport, instanceId := validationId } })

/-- A validation task failed to run: every pending handshake is dropped, none is charged. -/
def onValidationTaskFailed (relay : LoopState Handshake Transport) :
    List (Effect Message) × LoopState Handshake Transport :=
  (relay.pendingHandshakes.keys.map .reset, { relay with pendingHandshakes := ∅ })

/-- The `authorization` of a handshake request: UTF-8 and not too long. -/
def authorizationAccepted (payload : Bytes) : Bool :=
  match Utf8.fromUtf8 payload with
  | .ok () => payload.length ≤ MAX_HARNESS_KEY_AUTHORIZATION_BYTES
  | .error _ => false

/-- A valid handshake frame (`relay.rs:747`). -/
def onHandshake (outside : Outside Handshake Transport) (relay : LoopState Handshake Transport)
    (frame : RelayMessageFrame) : List (Effect Message) × LoopState Handshake Transport :=
  let streamId := frame.streamId
  if streamId ∈ relay.streams then ([.reset streamId], relay)
  else
    match relay.pendingHandshakes.lookup streamId with
    | some pending =>
        -- Removing pending state makes the in-flight validation result stale.
        resetAndCharge { relay with pendingHandshakes := relay.pendingHandshakes.erase streamId }
          streamId (.canceled pending.validationId)
    | none =>
        if MAX_ACTIVE_NOISE_RELAY_STREAMS ≤ relay.streams.entries.length then
          ([.reset streamId], relay)
        else if MAX_PENDING_HANDSHAKE_VALIDATIONS ≤ relay.validationTasks.length then
          ([.reset streamId], relay)
        else if !outside.tryReserveOwned then ([.reset streamId], relay)
        else
          match intoHandshakePayload frame with
          | .error _ => ([.reset streamId], relay)
          | .ok request =>
              match outside.readRequest streamId request with
              | .error _ => resetAndCharge relay streamId .unreadable
              | .ok (handshake, payload) =>
                  if !authorizationAccepted payload then
                    resetAndCharge relay streamId .authorizationRejected
                  else
                    let validationId := relay.nextValidationId
                    ([],
                      { relay with
                        nextValidationId := validationId + 1
                        pendingHandshakes := relay.pendingHandshakes.insert streamId
                          { validationId, handshake }
                        validationTasks := relay.validationTasks ++ [(streamId, validationId)] })

/-- A valid data frame (`relay.rs:868`). -/
def onData (serde : Serde Message) (outside : Outside Handshake Transport)
    (relay : LoopState Handshake Transport) (frame : RelayMessageFrame) :
    List (Effect Message) × LoopState Handshake Transport :=
  let streamId := frame.streamId
  match relay.streams.lookup streamId with
  | none =>
      match relay.pendingHandshakes.lookup streamId with
      | none => ([.reset streamId], relay)
      | some pending =>
          resetAndCharge { relay with pendingHandshakes := relay.pendingHandshakes.erase streamId }
            streamId (.canceled pending.validationId)
  | some stream =>
      match intoData frame with
      | .error _ =>
          ([.reset streamId], { relay with streams := relay.streams.erase streamId })
      | .ok data =>
          match receiveData serde outside stream data with
          | (messages, .error _) =>
              (messages.map (.deliver streamId) ++ [.reset streamId],
                { relay with streams := relay.streams.erase streamId })
          | (messages, .ok stream) =>
              (messages.map (.deliver streamId),
                { relay with streams := relay.streams.insert streamId stream })

/-- A valid reset frame (`relay.rs:899`). The connection may end before the stream is
    removed. -/
def onReset (relay : LoopState Handshake Transport) (streamId : Text) :
    List (Effect Message) × LoopState Handshake Transport :=
  let (effects, relay) :=
    match relay.pendingHandshakes.lookup streamId with
    | none => ([], relay)
    | some pending =>
        charge { relay with pendingHandshakes := relay.pendingHandshakes.erase streamId }
          (.canceled pending.validationId)
  if relay.disconnectReason = none then
    (effects, { relay with streams := relay.streams.erase streamId })
  else (effects, relay)

def onFrame (serde : Serde Message) (outside : Outside Handshake Transport)
    (relay : LoopState Handshake Transport) (frame : RelayMessageFrame) :
    List (Effect Message) × LoopState Handshake Transport :=
  match validate frame with
  | .error _ => ([], relay)
  | .ok .handshake => onHandshake outside relay frame
  | .ok .data => onData serde outside relay frame
  | .ok .reset => onReset relay frame.streamId
  | .ok _ => ([], relay)

/-- The body of the loop after its head. -/
def onEvent (serde : Serde Message) (outside : Outside Handshake Transport)
    (relay : LoopState Handshake Transport) :
    Event → List (Effect Message) × LoopState Handshake Transport
  | .frame frame => onFrame serde outside relay frame
  | .closed streamId instanceId => ([], onClosed relay streamId instanceId)
  | .validated streamId validationId authorized =>
      onValidated outside
        { relay with validationTasks := relay.validationTasks.erase (streamId, validationId) }
        streamId validationId authorized
  | .validationTaskFailed streamId validationId =>
      onValidationTaskFailed
        { relay with validationTasks := relay.validationTasks.erase (streamId, validationId) }
  | .ignored => ([], relay)
  | .ended reason => ([], { relay with disconnectReason := some reason })

/-- One turn of the loop. -/
def runTurn (serde : Serde Message) (relay : LoopState Handshake Transport)
    (turn : Turn Handshake Transport) : List (Effect Message) × LoopState Handshake Transport :=
  let (effects, next) := onEvent serde turn.outside (expire turn.outside.now relay) turn.event
  ((expired turn.outside.now relay).map .reset ++ effects, next)

/-- A validation result comes from a running task, and only the loop itself ends the
    connection for its handshake budget. -/
def Enabled (relay : LoopState Handshake Transport) : Event → Prop
  | .validated streamId validationId _ => (streamId, validationId) ∈ relay.validationTasks
  | .validationTaskFailed streamId validationId =>
      (streamId, validationId) ∈ relay.validationTasks
  | .ended reason => reason ≠ .handshakeBudgetExhausted
  | _ => True

/-- The loop takes a turn while it has no reason to disconnect. -/
def Step (serde : Serde Message) (relay : LoopState Handshake Transport)
    (turn : Turn Handshake Transport) (effects : List (Effect Message))
    (next : LoopState Handshake Transport) : Prop :=
  relay.disconnectReason = none ∧ Enabled relay turn.event ∧
    runTurn serde relay turn = (effects, next)

/-! ## What one turn can change -/

/-- The instance that is active under a stream id. -/
def activeInstance (relay : LoopState Handshake Transport) (id : Text) : Option Nat :=
  (relay.streams.lookup id).map NoiseVirtualStream.instanceId

/-- The validation that a stream id is waiting for. -/
def pendingValidation (relay : LoopState Handshake Transport) (id : Text) : Option Nat :=
  (relay.pendingHandshakes.lookup id).map PendingHandshake.validationId

def failures (effects : List (Effect Message)) : List Failure :=
  effects.filterMap (fun effect =>
    match effect with
    | .failed failure => some failure
    | _ => none)

def Failure.validationId : Failure → Option Nat
  | .canceled validationId => some validationId
  | .unauthorized validationId => some validationId
  | .incomplete validationId => some validationId
  | _ => none

/-- A change that adds no stream, no pending handshake and no task, and that takes the task
    of no handshake that stays pending. -/
structure Shrinks (relay next : LoopState Handshake Transport) : Prop where
  active : ∀ id v, activeInstance next id = some v → activeInstance relay id = some v
  pending : ∀ id v, pendingValidation next id = some v → pendingValidation relay id = some v
  tasks : next.validationTasks.Sublist relay.validationTasks
  kept : ∀ id v, pendingValidation next id = some v → (id, v) ∈ relay.validationTasks →
    (id, v) ∈ next.validationTasks
  count : next.streams.entries.length ≤ relay.streams.entries.length
  nextId : next.nextValidationId = relay.nextValidationId

theorem Shrinks.refl (relay : LoopState Handshake Transport) : Shrinks relay relay :=
  ⟨fun _ _ found => found, fun _ _ found => found, List.Sublist.refl _, fun _ _ _ task => task,
    le_rfl, rfl⟩

theorem Shrinks.trans {a b c : LoopState Handshake Transport} (first : Shrinks a b)
    (second : Shrinks b c) : Shrinks a c where
  active id v found := first.active id v (second.active id v found)
  pending id v found := first.pending id v (second.pending id v found)
  tasks := second.tasks.trans first.tasks
  kept id v found task := second.kept id v found (first.kept id v (second.pending id v found) task)
  count := second.count.trans first.count
  nextId := second.nextId.trans first.nextId

/-- What a turn charges: nothing, or one failure, which if it names a validation ends that
    pending handshake. -/
inductive Charges (relay next : LoopState Handshake Transport) : List Failure → Prop
  | nothing (failed : next.failedHandshakes = relay.failedHandshakes)
      (reason : next.disconnectReason ≠ some .handshakeBudgetExhausted) : Charges relay next []
  | one (failure : Failure) (failed : next.failedHandshakes = relay.failedHandshakes + 1)
      (reason : next.disconnectReason =
        if MAX_FAILED_NOISE_HANDSHAKES ≤ relay.failedHandshakes + 1 then
          some .handshakeBudgetExhausted else none)
      (ends : ∀ v, failure.validationId = some v →
        ∃ id, pendingValidation relay id = some v ∧ pendingValidation next id = none) :
      Charges relay next [failure]

/-- What a turn does to the streams and the pending handshakes. -/
inductive Change (relay next : LoopState Handshake Transport) : Event → Prop
  | quiet {event : Event} (shrinks : Shrinks relay next) : Change relay next event
  | admitted {frame : RelayMessageFrame} (handshake : Handshake)
      (valid : validate frame = .ok .handshake)
      (inactive : activeInstance relay frame.streamId = none)
      (absent : pendingValidation relay frame.streamId = none)
      (room : relay.validationTasks.length < MAX_PENDING_HANDSHAKE_VALIDATIONS)
      (result : next = { relay with
        nextValidationId := relay.nextValidationId + 1
        pendingHandshakes := relay.pendingHandshakes.insert frame.streamId
          ⟨relay.nextValidationId, handshake⟩
        validationTasks := relay.validationTasks ++ [(frame.streamId, relay.nextValidationId)] }) :
      Change relay next (.frame frame)
  | activated {id : Text} {v : Nat} (stream : NoiseVirtualStream Transport)
      (instance_eq : stream.instanceId = v)
      (current : pendingValidation relay id = some v)
      (room : relay.streams.entries.length < MAX_ACTIVE_NOISE_RELAY_STREAMS)
      (result : next = { relay with
        pendingHandshakes := relay.pendingHandshakes.erase id
        streams := relay.streams.insert id stream
        validationTasks := relay.validationTasks.erase (id, v) }) :
      Change relay next (.validated id v true)

/-- A valid data, reset or handshake frame for a stream id cancels what is pending for it. -/
def Cancels (id : Text) : Event → Prop
  | .frame frame => frame.streamId = id ∧
      (validate frame = .ok .data ∨ validate frame = .ok .reset ∨ validate frame = .ok .handshake)
  | _ => False

theorem failures_append (first second : List (Effect Message)) :
    failures (first ++ second) = failures first ++ failures second :=
  List.filterMap_append

theorem failures_resets (ids : List Text) :
    failures (ids.map (Effect.reset : Text → Effect Message)) = [] := by
  simp [failures]

theorem failures_deliveries (id : Text) (messages : List Message) :
    failures (messages.map (Effect.deliver id)) = [] := by
  simp [failures]

theorem length_erase_le (streams : AList (fun _ : Text => NoiseVirtualStream Transport))
    (id : Text) : (streams.erase id).entries.length ≤ streams.entries.length :=
  List.Sublist.length_le (List.kerase_sublist id streams.entries)

/-- Dropping one stream shrinks the state. -/
theorem shrinks_eraseStream (relay : LoopState Handshake Transport) (id : Text) :
    Shrinks relay { relay with streams := relay.streams.erase id } where
  active other v found := by
    simp only [activeInstance, lookup_erase_eq] at found
    split at found
    · cases found
    · exact found
  pending _ _ found := found
  tasks := List.Sublist.refl _
  kept _ _ _ task := task
  count := length_erase_le _ _
  nextId := rfl

/-- Dropping one pending handshake shrinks the state. -/
theorem shrinks_erasePending (relay : LoopState Handshake Transport) (id : Text) :
    Shrinks relay { relay with pendingHandshakes := relay.pendingHandshakes.erase id } where
  active _ _ found := found
  pending other v found := by
    simp only [pendingValidation, lookup_erase_eq] at found
    split at found
    · cases found
    · exact found
  tasks := List.Sublist.refl _
  kept _ _ _ task := task
  count := le_rfl
  nextId := rfl

theorem pendingValidation_erase (relay : LoopState Handshake Transport) (id : Text) :
    pendingValidation { relay with pendingHandshakes := relay.pendingHandshakes.erase id } id =
      none := by
  simp [pendingValidation]

/-- No stream id is both active and pending. -/
def Disjoint (relay : LoopState Handshake Transport) : Prop :=
  ∀ id, activeInstance relay id = none ∨ pendingValidation relay id = none

/-- All that the invariants need of one event. -/
structure Outcome (relay next : LoopState Handshake Transport) (effects : List (Effect Message))
    (event : Event) : Prop where
  charges : Charges relay next (failures effects)
  change : Change relay next event
  cancels : ∀ id v, pendingValidation relay id = some v → Cancels id event →
    pendingValidation next id = none

variable {relay next : LoopState Handshake Transport} {effects : List (Effect Message)}
   {event : Event} {frame : RelayMessageFrame} {serde : Serde Message}
   {stream received : NoiseVirtualStream Transport} {id : Text} {v : Nat}
   {turn : Turn Handshake Transport} {turns : List (Turn Handshake Transport)}

/-- An event that charges nothing and only shrinks the state. -/
theorem Outcome.ofShrinks (free : failures effects = []) (shrinks : Shrinks relay next)
    (failed : next.failedHandshakes = relay.failedHandshakes)
    (reason : next.disconnectReason ≠ some .handshakeBudgetExhausted)
    (cancels : ∀ id v, pendingValidation relay id = some v → Cancels id event →
      pendingValidation next id = none) : Outcome relay next effects event :=
  ⟨by rw [free]; exact .nothing failed reason, .quiet shrinks, cancels⟩

/-- A charged failure. `before` is the state without the pending handshake that failed. -/
theorem Outcome.ofCharge {relay before : LoopState Handshake Transport}
    {effects : List (Effect Message)} {event : Event} {failure : Failure}
    (only : failures effects = [failure]) (running : before.disconnectReason = none)
    (shrinks : Shrinks relay before) (failed : before.failedHandshakes = relay.failedHandshakes)
    (ends : ∀ v, failure.validationId = some v →
      ∃ id, pendingValidation relay id = some v ∧ pendingValidation before id = none)
    (cancels : ∀ id v, pendingValidation relay id = some v → Cancels id event →
      pendingValidation before id = none) :
    Outcome relay (charge before failure : List (Effect Message) × _).2 effects event := by
  refine ⟨?_, .quiet ?_, cancels⟩
  · rw [only]
    refine .one failure ?_ ?_ ends
    · simp [charge, failed]
    · simp [charge, failed, running]
  · exact shrinks.trans ⟨fun _ _ found => found, fun _ _ found => found, List.Sublist.refl _,
      fun _ _ _ task => task, le_rfl, rfl⟩

theorem onHandshake_outcome (outside : Outside Handshake Transport)
    (running : relay.disconnectReason = none) (disjoint : Disjoint relay)
    (valid : validate frame = .ok .handshake)
    (ran : onHandshake outside relay frame = (effects, next)) :
    Outcome relay next effects (.frame frame) := by
  have reason : relay.disconnectReason ≠ some .handshakeBudgetExhausted := by simp [running]
  -- a frame that is answered with a reset alone
  have refused : pendingValidation relay frame.streamId = none →
      Outcome relay relay ([.reset frame.streamId] : List (Effect Message)) (.frame frame) := by
    intro absent
    refine .ofShrinks rfl (.refl relay) rfl reason ?_
    rintro id v waiting ⟨rfl, -⟩
    rw [absent] at waiting
    cases waiting
  unfold onHandshake at ran
  simp only at ran
  split at ran
  · next active =>
    cases ran
    apply refused
    refine (disjoint frame.streamId).resolve_left ?_
    rw [activeInstance, Option.map_eq_none_iff, AList.lookup_eq_none]
    exact fun absent => absent active
  next inactive =>
  split at ran
  · next pending found =>
    cases ran
    refine .ofCharge rfl running (shrinks_erasePending relay frame.streamId) rfl ?_ ?_
    · intro v named
      cases named
      exact ⟨frame.streamId, by simp [pendingValidation, found], pendingValidation_erase _ _⟩
    · rintro id v - ⟨rfl, -⟩
      exact pendingValidation_erase _ _
  next found =>
  have absent : pendingValidation relay frame.streamId = none := by
    simp [pendingValidation, found]
  -- a malformed request is charged, with nothing pending to end
  have charged : ∀ failure, Failure.validationId failure = none →
      Outcome relay (charge relay failure : List (Effect Message) × _).2
        ([.reset frame.streamId, .failed failure] : List (Effect Message)) (.frame frame) := by
    intro failure unnamed
    refine .ofCharge rfl running (.refl relay) rfl ?_ (refused absent).cancels
    intro v named
    rw [unnamed] at named
    cases named
  split at ran
  · cases ran; exact refused absent
  split at ran
  · cases ran; exact refused absent
  next room =>
  split at ran
  · cases ran; exact refused absent
  split at ran
  · cases ran; exact refused absent
  split at ran
  · cases ran; exact charged .unreadable rfl
  next handshake payload _ =>
  split at ran
  · cases ran; exact charged .authorizationRejected rfl
  cases ran
  refine ⟨.nothing rfl reason, .admitted handshake valid ?_ absent (Nat.lt_of_not_le room) rfl,
    ?_⟩
  · rw [activeInstance, Option.map_eq_none_iff]
    exact AList.lookup_eq_none.mpr inactive
  · rintro id v waiting ⟨rfl, -⟩
    rw [absent] at waiting
    cases waiting

theorem receiveRecords_instanceId {decrypt : Transport → Bytes → Except String (Bytes × Transport)}
    {ciphertexts : List Payload} {room : Nat} {messages : List Message}
    (ran : receiveRecords serde decrypt ciphertexts room stream = (messages, .ok received)) :
    received.instanceId = stream.instanceId := by
  induction ciphertexts generalizing room stream messages with
  | nil =>
    cases ran
    rfl
  | cons ciphertext ciphertexts ih =>
    simp only [receiveRecords] at ran
    split at ran
    · cases ran
    split at ran
    · cases ran
    · split at ran
      · cases ran
      · simp only [Prod.mk.injEq] at ran
        exact (ih (Prod.ext rfl ran.2)).trans rfl

/-- Receiving data does not change which instance a stream is. -/
theorem receiveData_instanceId {outside : Outside Handshake Transport} {data : RelayData}
    {messages : List Message}
    (ran : receiveData serde outside stream data = (messages, .ok received)) :
    received.instanceId = stream.instanceId := by
  unfold receiveData at ran
  split at ran
  · cases ran
  · exact (receiveRecords_instanceId ran).trans rfl

/-- Storing the stream back under its id, as the same instance, shrinks nothing. -/
theorem shrinks_storeStream (found : relay.streams.lookup id = some stream)
    (same : received.instanceId = stream.instanceId) :
    Shrinks relay { relay with streams := relay.streams.insert id received } where
  active other v active := by
    simp only [activeInstance, lookup_insert_eq] at active ⊢
    split at active
    · next equal =>
      rw [equal, found]
      simpa [same] using active
    · exact active
  pending _ _ found := found
  tasks := List.Sublist.refl _
  kept _ _ _ task := task
  count := by
    have shorter := length_erase found
    show (relay.streams.insert id received).entries.length ≤ _
    rw [AList.entries_insert]
    exact le_of_eq shorter.symm
  nextId := rfl

theorem onData_outcome (serde : Serde Message) (outside : Outside Handshake Transport)
    (running : relay.disconnectReason = none) (disjoint : Disjoint relay)
    (ran : onData serde outside relay frame = (effects, next)) :
    Outcome relay next effects (.frame frame) := by
  have reason : relay.disconnectReason ≠ some .handshakeBudgetExhausted := by simp [running]
  unfold onData at ran
  simp only at ran
  split at ran
  · split at ran
    · next absent =>
      cases ran
      refine .ofShrinks rfl (.refl relay) rfl reason ?_
      rintro id v waiting ⟨rfl, -⟩
      simp [pendingValidation, absent] at waiting
    next pending found =>
    cases ran
    refine .ofCharge rfl running (shrinks_erasePending relay frame.streamId) rfl ?_ ?_
    · intro v named
      cases named
      exact ⟨frame.streamId, by simp [pendingValidation, found], pendingValidation_erase _ _⟩
    · rintro id v - ⟨rfl, -⟩
      exact pendingValidation_erase _ _
  · next stream found =>
    have absent : pendingValidation relay frame.streamId = none := by
      refine (disjoint frame.streamId).resolve_left ?_
      simp [activeInstance, found]
    have cancels : ∀ id v, pendingValidation relay id = some v → Cancels id (.frame frame) →
        pendingValidation relay id = none := by
      rintro id v - ⟨rfl, -⟩
      exact absent
    split at ran
    · cases ran
      exact .ofShrinks rfl (shrinks_eraseStream relay frame.streamId) rfl reason cancels
    split at ran
    · cases ran
      refine .ofShrinks ?_ (shrinks_eraseStream relay frame.streamId) rfl reason cancels
      rw [failures_append, failures_deliveries]
      rfl
    · next messages received receivedOk =>
      cases ran
      exact .ofShrinks (failures_deliveries _ _)
        (shrinks_storeStream found (receiveData_instanceId receivedOk)) rfl reason cancels

theorem onReset_outcome (running : relay.disconnectReason = none)
    (ran : onReset relay frame.streamId = (effects, next)) :
    Outcome relay next effects (.frame frame) := by
  have reason : relay.disconnectReason ≠ some .handshakeBudgetExhausted := by simp [running]
  unfold onReset at ran
  cases found : relay.pendingHandshakes.lookup frame.streamId with
  | none =>
    simp only [found] at ran
    rw [if_pos running] at ran
    cases ran
    refine .ofShrinks rfl (shrinks_eraseStream relay frame.streamId) rfl reason ?_
    rintro id v waiting ⟨rfl, -⟩
    simp [pendingValidation, found] at waiting
  | some pending =>
    have shrinks := shrinks_erasePending relay frame.streamId
    have ends : ∀ v, (Failure.canceled pending.validationId).validationId = some v →
        ∃ id, pendingValidation relay id = some v ∧ pendingValidation
          { relay with pendingHandshakes := relay.pendingHandshakes.erase frame.streamId } id =
            none := by
      intro v named
      cases named
      exact ⟨frame.streamId, by simp [pendingValidation, found], pendingValidation_erase _ _⟩
    have cancels : ∀ id v, pendingValidation relay id = some v → Cancels id (.frame frame) →
        pendingValidation
          { relay with pendingHandshakes := relay.pendingHandshakes.erase frame.streamId } id =
            none := by
      rintro id v - ⟨rfl, -⟩
      exact pendingValidation_erase _ _
    simp only [found] at ran
    split at ran
    · -- the stream is removed as well, which no other part of the outcome sees
      cases ran
      have shrinksBoth := shrinks.trans (shrinks_eraseStream _ frame.streamId)
      exact @Outcome.ofCharge _ _ _ relay
        { relay with
          pendingHandshakes := relay.pendingHandshakes.erase frame.streamId
          streams := relay.streams.erase frame.streamId }
        _ _ _ rfl running shrinksBoth rfl ends cancels
    · cases ran
      exact .ofCharge rfl running shrinks rfl ends cancels

theorem onFrame_outcome (serde : Serde Message) (outside : Outside Handshake Transport)
    (running : relay.disconnectReason = none) (disjoint : Disjoint relay)
    (ran : onFrame serde outside relay frame = (effects, next)) :
    Outcome relay next effects (.frame frame) := by
  unfold onFrame at ran
  split at ran
  · next error invalid =>
    cases ran
    refine .ofShrinks rfl (.refl relay) rfl (by simp [running]) ?_
    rintro id v - ⟨-, valid | valid | valid⟩ <;> rw [invalid] at valid <;> cases valid
  · next valid => exact onHandshake_outcome outside running disjoint valid ran
  · exact onData_outcome serde outside running disjoint ran
  · exact onReset_outcome running ran
  next kind notHandshake notData notReset valid =>
  cases ran
  refine .ofShrinks rfl (.refl relay) rfl (by simp [running]) ?_
  rintro id v - ⟨-, kinds⟩
  simp only [valid, Except.ok.injEq] at kinds
  rcases kinds with rfl | rfl | rfl
  · exact (notData rfl).elim
  · exact (notReset rfl).elim
  · exact (notHandshake rfl).elim

/-- A task that no pending handshake waits for can be dropped. -/
theorem shrinks_eraseTask (stale : pendingValidation relay id ≠ some v) :
    Shrinks relay { relay with validationTasks := relay.validationTasks.erase (id, v) } where
  active _ _ found := found
  pending _ _ found := found
  tasks := List.erase_sublist
  kept other w waiting task := by
    refine (List.mem_erase_of_ne ?_).mpr task
    rintro ⟨rfl, rfl⟩
    exact stale waiting
  count := le_rfl
  nextId := rfl

theorem onValidated_outcome (outside : Outside Handshake Transport) {authorized : Bool}
    (running : relay.disconnectReason = none) (ran : onValidated outside
      { relay with validationTasks := relay.validationTasks.erase (id, v) } id v authorized =
        (effects, next)) :
    Outcome relay next effects (.validated id v authorized) := by
  have reason : relay.disconnectReason ≠ some .handshakeBudgetExhausted := by simp [running]
  have noCancel : ∀ {state : LoopState Handshake Transport} other w,
      pendingValidation relay other = some w → Cancels other (.validated id v authorized) →
      pendingValidation state other = none := fun _ _ _ impossible => impossible.elim
  unfold onValidated at ran
  simp only at ran
  split at ran
  · next absent =>
    cases ran
    exact .ofShrinks rfl (shrinks_eraseTask (by simp [pendingValidation, absent])) rfl reason noCancel
  next pending found =>
  split at ran
  · next stale =>
    cases ran
    exact .ofShrinks rfl (shrinks_eraseTask (by simpa [pendingValidation, found] using stale)) rfl
      reason noCancel
  next current =>
  obtain rfl : pending.validationId = v := not_not.mp current
  have waiting : pendingValidation relay id = some pending.validationId := by
    simp [pendingValidation, found]
  -- dropping the handshake first makes its task one that nothing waits for
  have ended : pendingValidation { relay with
      pendingHandshakes := relay.pendingHandshakes.erase id } id ≠
        some pending.validationId := by
    rw [pendingValidation_erase]
    simp
  have shrinks := (shrinks_erasePending relay id).trans (shrinks_eraseTask ended)
  have charged : ∀ failure, Failure.validationId failure = some pending.validationId →
      ∀ w, failure.validationId = some w → ∃ other, pendingValidation relay other = some w ∧
        pendingValidation { relay with
          pendingHandshakes := relay.pendingHandshakes.erase id } other = none := by
    intro failure named w named'
    rw [named] at named'
    cases named'
    exact ⟨id, waiting, pendingValidation_erase _ _⟩
  split at ran
  · cases ran
    exact .ofCharge rfl running shrinks rfl (charged _ rfl) noCancel
  next accepted =>
  split at ran
  · cases ran
    exact .ofShrinks rfl shrinks rfl reason noCancel
  next room =>
  split at ran
  · cases ran
    exact .ofCharge rfl running shrinks rfl (charged _ rfl) noCancel
  · next transport response _ =>
    cases ran
    obtain rfl : authorized = true := by simpa using accepted
    exact ⟨.nothing rfl reason, .activated _ rfl waiting (Nat.lt_of_not_le room) rfl,
      noCancel⟩

theorem onEvent_outcome (serde : Serde Message) (outside : Outside Handshake Transport)
    (running : relay.disconnectReason = none) (enabled : Enabled relay event)
    (disjoint : Disjoint relay) (ran : onEvent serde outside relay event = (effects, next)) :
    Outcome relay next effects event := by
  have reason : relay.disconnectReason ≠ some .handshakeBudgetExhausted := by simp [running]
  cases event with
  | frame frame => exact onFrame_outcome serde outside running disjoint ran
  | validated id v authorized => exact onValidated_outcome outside running ran
  | closed id instanceId =>
    simp only [onEvent, Prod.mk.injEq] at ran
    obtain ⟨rfl, rfl⟩ := ran
    unfold onClosed
    split
    · split
      · exact .ofShrinks rfl (shrinks_eraseStream relay id) rfl reason fun _ _ _ h => h.elim
      · exact .ofShrinks rfl (.refl relay) rfl reason fun _ _ _ h => h.elim
    · exact .ofShrinks rfl (.refl relay) rfl reason fun _ _ _ h => h.elim
  | validationTaskFailed id v =>
    simp only [onEvent, onValidationTaskFailed, Prod.mk.injEq] at ran
    obtain ⟨rfl, rfl⟩ := ran
    refine .ofShrinks (failures_resets _) ?_ rfl reason fun _ _ _ h => h.elim
    exact ⟨fun _ _ found => found, fun _ _ found => by simp [pendingValidation] at found,
      List.erase_sublist, fun _ _ found => by simp [pendingValidation] at found, le_rfl, rfl⟩
  | ignored =>
    cases ran
    exact .ofShrinks rfl (.refl relay) rfl reason fun _ _ _ h => h.elim
  | ended reason' =>
    cases ran
    refine .ofShrinks rfl ?_ rfl (by simpa [Enabled] using enabled) fun _ _ _ h => h.elim
    exact ⟨fun _ _ found => found, fun _ _ found => found, List.Sublist.refl _,
      fun _ _ _ task => task, le_rfl, rfl⟩

theorem lookup_foldl_erase (ids : List Text)
    (streams : AList (fun _ : Text => NoiseVirtualStream Transport)) (id : Text) :
    (ids.foldl (fun streams id => streams.erase id) streams).lookup id =
      if id ∈ ids then none else streams.lookup id := by
  induction ids generalizing streams with
  | nil => simp
  | cons head ids ih =>
    rw [List.foldl_cons, ih, lookup_erase_eq]
    by_cases same : id = head
    · simp [same]
    · simp [same]

/-- The head of the loop removes exactly the streams whose gap timed out. -/
theorem expire_lookup (now : Nat) (relay : LoopState Handshake Transport) (id : Text) :
    (expire now relay).streams.lookup id =
      (relay.streams.lookup id).filter (fun stream => !gapExpired now stream) := by
  have timedOut : id ∈ expired now relay ↔
      ∃ stream, relay.streams.lookup id = some stream ∧ gapExpired now stream = true := by
    simp only [expired, List.mem_map, List.mem_filter]
    constructor
    · rintro ⟨⟨other, stream⟩, ⟨member, late⟩, rfl⟩
      exact ⟨stream, AList.mem_lookup_iff.mpr member, late⟩
    · rintro ⟨stream, found, late⟩
      exact ⟨⟨id, stream⟩, ⟨AList.mem_lookup_iff.mp found, late⟩, rfl⟩
  show (List.foldl _ relay.streams _).lookup id = _
  rw [lookup_foldl_erase]
  split
  · next late =>
    obtain ⟨stream, found, late⟩ := timedOut.mp late
    simp [found, Option.filter, late]
  next alive =>
  cases found : relay.streams.lookup id with
  | none => rfl
  | some stream =>
    have notLate : gapExpired now stream = false := by
      rw [Bool.eq_false_iff]
      exact fun late => alive (timedOut.mpr ⟨stream, found, late⟩)
    simp [Option.filter, notLate]

theorem length_foldl_erase_le (ids : List Text)
    (streams : AList (fun _ : Text => NoiseVirtualStream Transport)) :
    (ids.foldl (fun streams id => streams.erase id) streams).entries.length ≤
      streams.entries.length := by
  induction ids generalizing streams with
  | nil => exact le_rfl
  | cons id ids ih => exact (ih (streams.erase id)).trans (length_erase_le streams id)

theorem expire_shrinks (now : Nat) (relay : LoopState Handshake Transport) :
    Shrinks relay (expire now relay) where
  active id v found := by
    rw [activeInstance, expire_lookup, Option.map_eq_some_iff] at found
    obtain ⟨stream, kept, rfl⟩ := found
    rw [activeInstance, (Option.filter_eq_some_iff.mp kept).1]
    rfl
  pending _ _ found := found
  tasks := List.Sublist.refl _
  kept _ _ _ task := task
  count := length_foldl_erase_le _ _
  nextId := rfl

/-- A turn of the loop through the state after its head. -/
theorem Step.outcome (step : Step serde relay turn effects next) (disjoint : Disjoint relay) :
    ∃ emitted : List (Effect Message), failures effects = failures emitted ∧
      Outcome (expire turn.outside.now relay) next emitted
        turn.event := by
  obtain ⟨running, enabled, ran⟩ := step
  simp only [runTurn, Prod.mk.injEq] at ran
  obtain ⟨rfl, rfl⟩ := ran
  have shrinks := expire_shrinks turn.outside.now relay
  refine ⟨(onEvent serde turn.outside (expire turn.outside.now relay) turn.event).1, ?_,
    onEvent_outcome serde turn.outside running ?_ ?_ rfl⟩
  · rw [failures_append, failures_resets, List.nil_append]
  · cases event : turn.event <;> simp only [event] at enabled <;> exact enabled
  intro id
  rcases disjoint id with inactive | absent
  · left
    cases found : activeInstance (expire turn.outside.now relay) id with
    | none => rfl
    | some v =>
      rw [shrinks.active id v found] at inactive
      cases inactive
  · exact .inr absent

/-! ## Invariants of the state -/

/-- What holds of the loop's variables between two turns. -/
structure LoopInvariant (relay : LoopState Handshake Transport) : Prop where
  disjoint : Disjoint relay
  streamsLimit : relay.streams.entries.length ≤ MAX_ACTIVE_NOISE_RELAY_STREAMS
  tasksLimit : relay.validationTasks.length ≤ MAX_PENDING_HANDSHAKE_VALIDATIONS
  tasksDistinct : (relay.validationTasks.map Prod.snd).Nodup
  tasksBelow : ∀ v ∈ relay.validationTasks.map Prod.snd, v < relay.nextValidationId
  pendingTask : ∀ id v, pendingValidation relay id = some v → (id, v) ∈ relay.validationTasks
  activeBelow : ∀ id v, activeInstance relay id = some v →
    v < relay.nextValidationId ∧ v ∉ relay.validationTasks.map Prod.snd

theorem LoopInvariant.initial : LoopInvariant ({} : LoopState Handshake Transport) :=
  ⟨fun _ => .inl rfl, Nat.zero_le _, Nat.zero_le _, List.nodup_nil, by simp,
    by simp [pendingValidation], by simp [activeInstance]⟩

theorem LoopInvariant.shrinks (inv : LoopInvariant relay)
    (shrinks : Shrinks relay next) : LoopInvariant next where
  disjoint := by
    intro id
    cases active : activeInstance next id with
    | none => exact .inl rfl
    | some v =>
      right
      have inactive := (inv.disjoint id).resolve_left (by simp [shrinks.active id v active])
      cases waiting : pendingValidation next id with
      | none => rfl
      | some w =>
        rw [shrinks.pending id w waiting] at inactive
        cases inactive
  streamsLimit := shrinks.count.trans inv.streamsLimit
  tasksLimit := shrinks.tasks.length_le.trans inv.tasksLimit
  tasksDistinct := inv.tasksDistinct.sublist (shrinks.tasks.map _)
  tasksBelow v member := by
    rw [shrinks.nextId]
    exact inv.tasksBelow v ((shrinks.tasks.map _).mem member)
  pendingTask id v waiting :=
    shrinks.kept id v waiting (inv.pendingTask id v (shrinks.pending id v waiting))
  activeBelow id v active := by
    obtain ⟨below, fresh⟩ := inv.activeBelow id v (shrinks.active id v active)
    rw [shrinks.nextId]
    exact ⟨below, fun member => fresh ((shrinks.tasks.map _).mem member)⟩

theorem LoopInvariant.admitted {relay : LoopState Handshake Transport} {id : Text}
    (inv : LoopInvariant relay) (handshake : Handshake)
    (inactive : activeInstance relay id = none)
    (room : relay.validationTasks.length < MAX_PENDING_HANDSHAKE_VALIDATIONS) :
    LoopInvariant { relay with
      nextValidationId := relay.nextValidationId + 1
      pendingHandshakes := relay.pendingHandshakes.insert id ⟨relay.nextValidationId, handshake⟩
      validationTasks := relay.validationTasks ++ [(id, relay.nextValidationId)] } where
  disjoint := by
    intro other
    by_cases same : other = id
    · exact .inl (same ▸ inactive)
    · rcases inv.disjoint other with inactive | absent
      · exact .inl inactive
      · right
        simpa only [pendingValidation, lookup_insert_eq, if_neg same] using absent
  streamsLimit := inv.streamsLimit
  tasksLimit := by
    rw [List.length_append]
    exact room
  tasksDistinct := by
    rw [List.map_append, List.nodup_append]
    refine ⟨inv.tasksDistinct, List.nodup_singleton _, ?_⟩
    intro v member w added
    obtain rfl : w = relay.nextValidationId := by simpa using added
    exact Nat.ne_of_lt (inv.tasksBelow v member)
  tasksBelow := by
    intro v member
    rw [List.map_append, List.mem_append] at member
    rcases member with member | added
    · exact Nat.lt_succ_of_lt (inv.tasksBelow v member)
    · obtain rfl : v = relay.nextValidationId := by simpa using added
      exact Nat.lt_succ_self _
  pendingTask := by
    intro other v waiting
    simp only [pendingValidation, lookup_insert_eq] at waiting
    split at waiting
    · next same =>
      cases waiting
      simp [same]
    · exact List.mem_append_left _ (inv.pendingTask other v waiting)
  activeBelow := by
    intro other v active
    obtain ⟨below, fresh⟩ := inv.activeBelow other v active
    refine ⟨Nat.lt_succ_of_lt below, ?_⟩
    rw [List.map_append, List.mem_append, not_or]
    refine ⟨fresh, ?_⟩
    simpa using Nat.ne_of_lt below

/-- With its task gone, a validation id is the id of no other task. -/
theorem LoopInvariant.task_unique (inv : LoopInvariant relay)
    (task : (id, v) ∈ relay.validationTasks) :
    v ∉ (relay.validationTasks.erase (id, v)).map Prod.snd := by
  have perm := (List.perm_cons_erase task).map Prod.snd
  exact (List.nodup_cons.mp (perm.nodup_iff.mp inv.tasksDistinct)).1

theorem LoopInvariant.activated {relay : LoopState Handshake Transport} {id : Text}
    (inv : LoopInvariant relay) (stream : NoiseVirtualStream Transport)
    (current : pendingValidation relay id = some stream.instanceId)
    (room : relay.streams.entries.length < MAX_ACTIVE_NOISE_RELAY_STREAMS) :
    LoopInvariant { relay with
      pendingHandshakes := relay.pendingHandshakes.erase id
      streams := relay.streams.insert id stream
      validationTasks := relay.validationTasks.erase (id, stream.instanceId) } where
  disjoint := by
    intro other
    by_cases same : other = id
    · right
      rw [same]
      exact pendingValidation_erase relay id
    · rcases inv.disjoint other with inactive | absent
      · left
        simpa only [activeInstance, lookup_insert_eq, if_neg same] using inactive
      · right
        simpa only [pendingValidation, lookup_erase_eq, if_neg same] using absent
  streamsLimit := by
    have inactive := (inv.disjoint id).resolve_right (by simp [current])
    rw [activeInstance, Option.map_eq_none_iff] at inactive
    show (relay.streams.insert id stream).entries.length ≤ _
    rw [AList.entries_insert_of_notMem (AList.lookup_eq_none.mp inactive)]
    exact room
  tasksLimit := List.erase_sublist.length_le.trans inv.tasksLimit
  tasksDistinct := inv.tasksDistinct.sublist (List.erase_sublist.map _)
  tasksBelow v member := inv.tasksBelow v ((List.erase_sublist.map _).mem member)
  pendingTask := by
    intro other v waiting
    simp only [pendingValidation, lookup_erase_eq] at waiting
    split at waiting
    · cases waiting
    · next different =>
      refine (List.mem_erase_of_ne ?_).mpr (inv.pendingTask other v waiting)
      exact fun same => different (Prod.mk.inj same).1
  activeBelow := by
    intro other v active
    simp only [activeInstance, lookup_insert_eq] at active
    split at active
    · cases active
      have task := inv.pendingTask id _ current
      exact ⟨inv.tasksBelow _ (List.mem_map_of_mem task), inv.task_unique task⟩
    · obtain ⟨below, fresh⟩ := inv.activeBelow other v active
      exact ⟨below, fun member => fresh ((List.erase_sublist.map _).mem member)⟩

theorem LoopInvariant.change (inv : LoopInvariant relay)
    (change : Change relay next event) : LoopInvariant next := by
  cases change with
  | quiet shrinks => exact inv.shrinks shrinks
  | admitted handshake _ inactive _ room result =>
    rw [result]
    exact inv.admitted handshake inactive room
  | activated stream instance_eq current room result =>
    subst instance_eq
    rw [result]
    exact inv.activated stream current room

/-- A turn keeps the invariant. -/
theorem LoopInvariant.step (inv : LoopInvariant relay) (step : Step serde relay turn effects next) :
    LoopInvariant next := by
  obtain ⟨_, _, outcome⟩ := step.outcome inv.disjoint
  exact (inv.shrinks (expire_shrinks _ _)).change outcome.change

/-! ## Histories -/

/-- The state after these turns. -/
def stateAfter (serde : Serde Message) (turns : List (Turn Handshake Transport)) :
    LoopState Handshake Transport :=
  turns.foldl (fun relay turn => (runTurn serde relay turn).2) {}

/-- The validation `v` of the stream id began with a handshake frame in this history, and no
    data, reset or handshake frame for the id came after it. -/
def PendingSince (serde : Serde Message) (turns : List (Turn Handshake Transport)) (id : Text)
    (v : Nat) : Prop :=
  ∃ before admission after frame, turns = before ++ admission :: after ∧
    admission.event = .frame frame ∧ frame.streamId = id ∧ validate frame = .ok .handshake ∧
    (stateAfter serde before).nextValidationId = v ∧
    pendingValidation (stateAfter serde (before ++ [admission])) id = some v ∧
    ∀ turn ∈ after, ¬ Cancels id turn.event

/-- The validation ids that were charged. -/
def charged (effects : List (Effect Message)) : List Nat :=
  (failures effects).filterMap Failure.validationId

/-- What holds of a history and the state it leads to. -/
structure HistoryInvariant (serde : Serde Message) (turns : List (Turn Handshake Transport))
    (effects : List (Effect Message)) (relay : LoopState Handshake Transport) : Prop where
  loop : LoopInvariant relay
  state : relay = stateAfter serde turns
  since : ∀ id v, pendingValidation relay id = some v → PendingSince serde turns id v
  everActive : ∀ before, before <+: turns → ∀ id v,
    activeInstance (stateAfter serde before) id = some v →
    v < relay.nextValidationId ∧ v ∉ relay.validationTasks.map Prod.snd
  failed : relay.failedHandshakes = (failures effects).length
  budget : relay.disconnectReason = some .handshakeBudgetExhausted ↔
    MAX_FAILED_NOISE_HANDSHAKES ≤ relay.failedHandshakes
  chargedOnce : (charged effects).Nodup
  chargedGone : ∀ v ∈ charged effects, v < relay.nextValidationId ∧
    ∀ id, pendingValidation relay id ≠ some v

/-- Validation ids are handed out in order: what is new after a change carries the next one. -/
structure Advances (relay next : LoopState Handshake Transport) : Prop where
  nextId : relay.nextValidationId ≤ next.nextValidationId
  tasks : ∀ v ∈ next.validationTasks.map Prod.snd,
    v ∈ relay.validationTasks.map Prod.snd ∨ relay.nextValidationId ≤ v
  pending : ∀ id v, pendingValidation next id = some v →
    pendingValidation relay id = some v ∨ relay.nextValidationId ≤ v

theorem Shrinks.advances (shrinks : Shrinks relay next) : Advances relay next where
  nextId := le_of_eq shrinks.nextId.symm
  tasks _ member := .inl ((shrinks.tasks.map _).mem member)
  pending id v waiting := .inl (shrinks.pending id v waiting)

theorem Change.advances (change : Change relay next event) : Advances relay next := by
  cases change with
  | quiet shrinks => exact shrinks.advances
  | admitted handshake _ _ _ _ result =>
    subst result
    refine ⟨Nat.le_succ _, ?_, ?_⟩
    · intro v member
      rw [List.map_append, List.mem_append] at member
      rcases member with member | added
      · exact .inl member
      · obtain rfl : v = relay.nextValidationId := by simpa using added
        exact .inr le_rfl
    intro id v waiting
    simp only [pendingValidation, lookup_insert_eq] at waiting
    split at waiting
    · cases waiting
      exact .inr le_rfl
    · exact .inl waiting
  | activated stream _ _ _ result =>
    subst result
    refine ⟨le_rfl, fun v member => .inl ((List.erase_sublist.map _).mem member), ?_⟩
    intro id v waiting
    exact .inl ((shrinks_erasePending relay _).pending id v waiting)

/-- The last turn of a run as one step of `stateAfter`. -/
theorem stateAfter_snoc (serde : Serde Message) (turns : List (Turn Handshake Transport))
    (turn : Turn Handshake Transport) :
    stateAfter serde (turns ++ [turn]) = (runTurn serde (stateAfter serde turns) turn).2 := by
  simp [stateAfter, List.foldl_append]

theorem Step.state (step : Step serde relay turn effects next)
    (state : relay = stateAfter serde turns) : next = stateAfter serde (turns ++ [turn]) := by
  rw [stateAfter_snoc, ← state, step.2.2]

/-- A later turn that does not cancel the handshake keeps its history. -/
theorem PendingSince.snoc (since : PendingSince serde turns id v)
    (keeps : ¬ Cancels id turn.event) : PendingSince serde (turns ++ [turn]) id v := by
  obtain ⟨before, admission, after, frame, rfl, event, sameId, valid, fresh, waiting, quiet⟩ := since
  refine ⟨before, admission, after ++ [turn], frame, by simp, event, sameId, valid, fresh, waiting,
    ?_⟩
  intro other member
  rcases List.mem_append.mp member with member | last
  · exact quiet other member
  · obtain rfl := List.mem_singleton.mp last
    exact keeps

/-- The handshakes pending after a turn were pending before it and not cancelled by it, or
    were admitted by it. -/
theorem HistoryInvariant.since_step {emitted : List (Effect Message)}
    (inv : HistoryInvariant serde turns effects relay) (step : Step serde relay turn emitted next)
    (waiting : pendingValidation next id = some v) :
    PendingSince serde (turns ++ [turn]) id v := by
  obtain ⟨_, -, outcome⟩ := step.outcome inv.loop.disjoint
  have earlier : pendingValidation relay id = some v → PendingSince serde (turns ++ [turn]) id v := by
    intro before
    refine (inv.since id v before).snoc ?_
    intro cancels
    rw [outcome.cancels id v before cancels] at waiting
    cases waiting
  have change := outcome.change
  generalize isEvent : turn.event = event at change
  cases change with
  | quiet shrinks => exact earlier (shrinks.pending id v waiting)
  | activated stream _ _ _ result =>
    rw [result] at waiting
    exact earlier ((shrinks_erasePending relay _).pending id v waiting)
  | @admitted frame handshake valid inactive absent room result =>
    by_cases sameId : id = frame.streamId
    · have fresh : v = relay.nextValidationId := by
        rw [result, pendingValidation, lookup_insert_eq, if_pos sameId] at waiting
        exact (Option.some.inj waiting).symm
      refine ⟨turns, turn, [], frame, rfl, isEvent, sameId.symm, valid, ?_, ?_, by simp⟩
      · rw [← inv.state, fresh]
      · rw [← step.state inv.state]
        exact waiting
    · apply earlier
      rw [result, pendingValidation, lookup_insert_eq, if_neg sameId] at waiting
      exact waiting

/-- Two stream ids do not wait for the same validation. -/
theorem LoopInvariant.pending_unique {other : Text} (inv : LoopInvariant relay)
    (first : pendingValidation relay id = some v)
    (second : pendingValidation relay other = some v) : id = other := by
  have tasks := List.inj_on_of_nodup_map inv.tasksDistinct (inv.pendingTask id v first)
    (inv.pendingTask other v second) rfl
  exact (Prod.mk.inj tasks).1

/-- What a turn charges extends the charged history by at most one failure, of a handshake
    that was not charged before. -/
theorem HistoryInvariant.charges {added : List Failure}
    (inv : HistoryInvariant serde turns effects relay) (running : relay.disconnectReason = none)
    (advances : Advances relay next) (charges : Charges relay next added) :
    next.failedHandshakes = (failures effects ++ added).length ∧
    (next.disconnectReason = some .handshakeBudgetExhausted ↔
      MAX_FAILED_NOISE_HANDSHAKES ≤ next.failedHandshakes) ∧
    ((failures effects ++ added).filterMap Failure.validationId).Nodup ∧
    ∀ v ∈ (failures effects ++ added).filterMap Failure.validationId,
      v < next.nextValidationId ∧ ∀ id, pendingValidation next id ≠ some v := by
  -- a charged validation does not become pending again
  have settled : ∀ v ∈ charged effects,
      v < next.nextValidationId ∧ ∀ id, pendingValidation next id ≠ some v := by
    intro v member
    obtain ⟨below, absent⟩ := inv.chargedGone v member
    refine ⟨lt_of_lt_of_le below advances.nextId, fun id waiting => ?_⟩
    rcases advances.pending id v waiting with old | new
    · exact absent id old
    · exact absurd below (Nat.not_lt.mpr new)
  have open' : ¬ MAX_FAILED_NOISE_HANDSHAKES ≤ relay.failedHandshakes := by
    rw [← inv.budget, running]
    simp
  cases charges with
  | nothing failed reason =>
    rw [List.append_nil, failed]
    refine ⟨inv.failed, ?_, inv.chargedOnce, settled⟩
    exact iff_of_false reason open'
  | one failure failed reason ends =>
    refine ⟨by rw [failed, inv.failed, List.length_append]; rfl, ?_, ?_⟩
    · rw [reason, failed]
      split
      · next full => simp [full]
      · next free => simp [free]
    rw [List.filterMap_append]
    cases named : failure.validationId with
    | none =>
      simp only [List.filterMap_cons, named, List.filterMap_nil, List.append_nil]
      exact ⟨inv.chargedOnce, settled⟩
    | some v =>
      obtain ⟨id, waiting, ended⟩ := ends v named
      simp only [List.filterMap_cons, named, List.filterMap_nil]
      have below := inv.loop.tasksBelow v
        (List.mem_map_of_mem (inv.loop.pendingTask id v waiting))
      refine ⟨?_, ?_⟩
      · rw [List.nodup_append]
        refine ⟨inv.chargedOnce, List.nodup_singleton v, ?_⟩
        intro w member x last same
        obtain rfl := List.mem_singleton.mp last
        exact (inv.chargedGone w member).2 id (same ▸ waiting)
      intro w member
      rcases List.mem_append.mp member with member | last
      · exact settled w member
      obtain rfl := List.mem_singleton.mp last
      refine ⟨lt_of_lt_of_le below advances.nextId, fun other again => ?_⟩
      rcases advances.pending other w again with old | new
      · rw [inv.loop.pending_unique old waiting, ended] at again
        cases again
      · exact absurd below (Nat.not_lt.mpr new)

theorem Step.advances (step : Step serde relay turn effects next) (disjoint : Disjoint relay) :
    Advances relay next := by
  obtain ⟨_, -, outcome⟩ := step.outcome disjoint
  have advances := outcome.change.advances
  exact ⟨advances.nextId, advances.tasks, advances.pending⟩

theorem Step.charges (step : Step serde relay turn effects next) (disjoint : Disjoint relay) :
    Charges relay next (failures effects) := by
  obtain ⟨shown, same, outcome⟩ := step.outcome disjoint
  rw [same]
  have charges := outcome.charges
  generalize failures shown = added at charges ⊢
  cases charges with
  | nothing failed reason => exact .nothing failed reason
  | one failure failed reason ends => exact .one failure failed reason ends

/-- Every turn keeps the history invariant. -/
theorem HistoryInvariant.snoc {emitted : List (Effect Message)}
    (inv : HistoryInvariant serde turns effects relay) (step : Step serde relay turn emitted next) :
    HistoryInvariant serde (turns ++ [turn]) (effects ++ emitted) next := by
  have loop := inv.loop.step step
  have advances := step.advances inv.loop.disjoint
  obtain ⟨failed, budget, chargedOnce, chargedGone⟩ :=
    inv.charges step.1 advances (step.charges inv.loop.disjoint)
  rw [← failures_append] at failed chargedOnce chargedGone
  refine ⟨loop, step.state inv.state, fun id v => inv.since_step step, ?_, failed, budget,
    chargedOnce, chargedGone⟩
  intro before isPrefix id v found
  rcases List.prefix_concat_iff.mp isPrefix with rfl | earlier
  · rw [← step.state inv.state] at found
    exact loop.activeBelow id v found
  · obtain ⟨below, absent⟩ := inv.everActive before earlier id v found
    refine ⟨lt_of_lt_of_le below advances.nextId, fun member => ?_⟩
    rcases advances.tasks v member with old | new
    · exact absent old
    · exact absurd below (Nat.not_lt.mpr new)

theorem HistoryInvariant.initial (serde : Serde Message) :
    HistoryInvariant serde ([] : List (Turn Handshake Transport)) [] {} where
  loop := .initial
  state := rfl
  since := by simp [pendingValidation]
  everActive := by
    intro before isPrefix id v found
    obtain rfl := List.prefix_nil.mp isPrefix
    simp [stateAfter, activeInstance] at found
  failed := rfl
  budget := iff_of_false (by simp) (by simp [MAX_FAILED_NOISE_HANDSHAKES])
  chargedOnce := List.nodup_nil
  chargedGone := by simp [charged, failures]

theorem historyInvariant_of_trace (run : Trace (Step serde) {} turns effects relay) :
    HistoryInvariant serde turns effects relay :=
  Trace.invariant (.initial serde) (fun _ _ _ _ _ _ inv step => inv.snoc step) run

/-! ## Handshake safety -/

/-- A stream instance that was not active becomes active. -/
def Activates (relay next : LoopState Handshake Transport) (id : Text) (v : Nat) : Prop :=
  activeInstance next id = some v ∧ activeInstance relay id ≠ some v

theorem Step.activates (step : Step serde relay turn effects next) (disjoint : Disjoint relay)
    (activates : Activates relay next id v) :
    turn.event = .validated id v true ∧ pendingValidation relay id = some v := by
  obtain ⟨active, inactive⟩ := activates
  obtain ⟨_, -, outcome⟩ := step.outcome disjoint
  have shrinks := expire_shrinks turn.outside.now relay
  have change := outcome.change
  generalize turn.event = event at change
  cases change with
  | quiet quiet => exact absurd (shrinks.active id v (quiet.active id v active)) inactive
  | admitted _ _ _ _ _ result =>
    rw [result] at active
    exact absurd (shrinks.active id v active) inactive
  | @activated other w stream instance_eq current _ result =>
    subst instance_eq
    rw [result, activeInstance, lookup_insert_eq] at active
    split at active
    · next same =>
      cases active
      rw [same]
      exact ⟨rfl, current⟩
    · exact absurd (shrinks.active id v active) inactive

/-- A close notification leaves every stream alone but the instance it names. -/
theorem Step.closed {other : Text} (step : Step serde relay turn effects next)
    (event : turn.event = .closed id v) (found : relay.streams.lookup other = some stream)
    (alive : gapExpired turn.outside.now stream = false)
    (different : other ≠ id ∨ stream.instanceId ≠ v) : next.streams.lookup other = some stream := by
  obtain ⟨-, -, ran⟩ := step
  have kept : (expire turn.outside.now relay).streams.lookup other = some stream := by
    rw [expire_lookup, found]
    simp [Option.filter, alive]
  simp only [runTurn, event, onEvent, Prod.mk.injEq] at ran
  obtain ⟨-, rfl⟩ := ran
  unfold onClosed
  split
  · next current found' =>
    split
    · next same =>
      have notId : other ≠ id := by
        rcases different with notId | notInstance
        · exact notId
        · rintro rfl
          rw [kept] at found'
          cases found'
          exact absurd same notInstance
      show ((expire turn.outside.now relay).streams.erase id).lookup other = _
      rw [lookup_erase_eq, if_neg notId]
      exact kept
    · exact kept
  · exact kept

/-- Every run of the loop, whatever the order of frames, validation results and close
    notifications. A stream becomes active only by the result of its own validation, while
    that is the one pending for its id since its handshake frame; ids are not active and
    pending at once; the two limits hold; a close notification of another instance removes
    nothing; and every failure is charged once, up to the budget that ends the connection. -/
theorem handshake_safety {serde : Serde Message} {turns : List (Turn Handshake Transport)}
    {effects : List (Effect Message)} {relay : LoopState Handshake Transport}
    (run : Trace (Step serde) {} turns effects relay) :
    (∀ turn emitted next id v, Step serde relay turn emitted next → Activates relay next id v →
      turn.event = .validated id v true ∧ pendingValidation relay id = some v ∧
      PendingSince serde turns id v ∧
      ∀ before, before <+: turns → ∀ other, activeInstance (stateAfter serde before) other ≠ some v) ∧
    (∀ id, id ∉ relay.streams ∨ id ∉ relay.pendingHandshakes) ∧
    relay.streams.entries.length ≤ MAX_ACTIVE_NOISE_RELAY_STREAMS ∧
    relay.validationTasks.length ≤ MAX_PENDING_HANDSHAKE_VALIDATIONS ∧
    (∀ turn emitted next id v other stream, Step serde relay turn emitted next →
      turn.event = .closed id v → relay.streams.lookup other = some stream →
      gapExpired turn.outside.now stream = false → (other ≠ id ∨ stream.instanceId ≠ v) →
      next.streams.lookup other = some stream) ∧
    relay.failedHandshakes = (failures effects).length ∧ (charged effects).Nodup ∧
    (∀ turn emitted next, Step serde relay turn emitted next → (failures emitted).length ≤ 1) ∧
    (relay.disconnectReason = some .handshakeBudgetExhausted ↔
      MAX_FAILED_NOISE_HANDSHAKES ≤ (failures effects).length) ∧
    (MAX_FAILED_NOISE_HANDSHAKES ≤ (failures effects).length →
      ∀ turn emitted next, ¬ Step serde relay turn emitted next) := by
  have inv := historyInvariant_of_trace run
  refine ⟨?_, ?_, inv.loop.streamsLimit, inv.loop.tasksLimit, ?_, inv.failed, inv.chargedOnce, ?_,
    ?_, ?_⟩
  · intro turn emitted next id v step activates
    obtain ⟨event, current⟩ := step.activates inv.loop.disjoint activates
    refine ⟨event, current, inv.since id v current, ?_⟩
    intro before isPrefix other active
    have task := inv.loop.pendingTask id v current
    exact (inv.everActive before isPrefix other v active).2 (List.mem_map_of_mem task)
  · intro id
    rcases inv.loop.disjoint id with inactive | absent
    · left
      rw [activeInstance, Option.map_eq_none_iff] at inactive
      exact AList.lookup_eq_none.mp inactive
    · right
      rw [pendingValidation, Option.map_eq_none_iff] at absent
      exact AList.lookup_eq_none.mp absent
  · intro turn emitted next id v other stream step event found alive different
    exact step.closed event found alive different
  · intro turn emitted next step
    have charges := step.charges inv.loop.disjoint
    generalize failures emitted = added at charges ⊢
    cases charges with
    | nothing => exact Nat.zero_le _
    | one => exact le_rfl
  · rw [← inv.failed]
    exact inv.budget
  · intro full turn emitted next step
    rw [← inv.failed, ← inv.budget, step.1] at full
    cases full

/-- An outside that accepts everything, one second after the start. -/
def permissive : Outside Unit Unit where
  now := 1000
  tryReserveOwned := true
  readRequest := fun _ _ => .ok ((), [0x74, 0x6f, 0x6b, 0x65, 0x6e])
  complete := fun _ => .ok ((), [0x01])
  decrypt := fun _ ciphertext => .ok (ciphertext, ())
  queueRoom := 128

/-- The handshake frame of the stream `s`. -/
def handshakeTurn : Turn Unit Unit :=
  ⟨permissive, .frame ⟨1, ['s'], some (.handshake [0x02])⟩⟩

/-- One handshake and the success of its validation. -/
theorem handshake_safety_first_stream :
    ∃ effects relay, Trace (Step notificationSerde) {} [handshakeTurn] effects relay ∧
      ∃ emitted next,
        Step notificationSerde relay ⟨permissive, .validated ['s'] 0 true⟩ emitted next ∧
        activeInstance next ['s'] = some 0 ∧ PendingSince notificationSerde [handshakeTurn] ['s'] 0 := by
  have run : Trace (Step notificationSerde) {} [handshakeTurn] []
      (stateAfter notificationSerde [handshakeTurn]) :=
    .snoc handshakeTurn [] _ .nil ⟨rfl, trivial, rfl⟩
  have step : Step notificationSerde (stateAfter notificationSerde [handshakeTurn])
      ⟨permissive, .validated ['s'] 0 true⟩ [.reply ['s'] [0x01]] _ :=
    ⟨rfl, List.mem_singleton.mpr rfl, rfl⟩
  refine ⟨_, _, run, _, _, step, rfl, ?_⟩
  exact ((handshake_safety run).1 _ _ _ ['s'] 0 step ⟨rfl, by decide⟩).2.2.1

end Codex.ExecServer.Relay
