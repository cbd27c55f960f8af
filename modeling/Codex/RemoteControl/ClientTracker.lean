import Codex.RemoteControl.ServerWriter

/-!
# The remote-control client tracker

`app-server-transport/src/transport/remote_control/client_tracker.rs`: the clients of the
remote-control socket, one connection for each (client, stream), and the transport events that the
tracker sends. Close events are sent by tasks of their own, which run while the tracker waits and
between its calls. What the transport does with a send, where a worker is aborted and which tasks
run meanwhile are choices of a call. The outbound side of a connection is left out, as is the
shutdown of the transport, with which a run ends.
-/

namespace Codex.RemoteControl

open Codex.Machine

/-- `remote_control_message_starts_connection`, the check that a message is a request, and the
    length of `serde_json::to_vec`. -/
structure MessageHost (Message : Type) where
  startsConnection : Message → Bool
  isRequest : Message → Bool
  serializedLen : Message → Option Nat

abbrev ConnectionId := Nat

/-- The key of a tracked client. -/
abbrev ClientKey := ClientId × StreamId

variable {Message : Type} [DecidableEq Message]

/-- A client message on its connection, with the sequence id of its envelope. -/
structure Delivery (Message : Type) where
  connectionId : ConnectionId
  key : ClientKey
  seqId : Option UInt64
  message : Message
  deriving DecidableEq, Repr

/-- `TransportEvent` (`transport/mod.rs`). An opened connection is noted with the client that its
    writer belongs to. -/
inductive TransportEvent (Message : Type) where
  | connectionOpened (connectionId : ConnectionId) (key : ClientKey)
  | incomingMessage (delivery : Delivery Message)
  | connectionClosed (connectionId : ConnectionId)
  deriving DecidableEq, Repr

def TransportEvent.connectionId : TransportEvent Message → ConnectionId
  | connectionOpened connectionId _ => connectionId
  | incomingMessage delivery => delivery.connectionId
  | connectionClosed connectionId => connectionId

/-- `ClientState` (`client_tracker.rs:34`) without its outbound side. -/
structure ClientState (Message : Type) where
  connectionId : ConnectionId
  lastActivityAt : Nat
  lastInboundSeqId : Option UInt64
  admittedInitializes : List (UInt64 × Message × Nat)
  deriving DecidableEq, Repr

/-- How a call or a task ended: `Ok`, `Stopped`, or not at all. -/
inductive Outcome where
  | ok
  | stopped
  | suspended
  deriving DecidableEq, Repr

/-- A task of `spawn_connection_closed`, with its result once it has one. -/
structure CleanupTask where
  connectionId : ConnectionId
  delivered : Option Bool
  deriving DecidableEq, Repr

/-- `ClientTracker` (`client_tracker.rs:46`) and the transport channel: the events in it, whether
    its receiver is gone, the overload errors that writers took in place of a message, and the
    connection ids given out. The last cleanup is first. -/
structure TrackerWorld (Message : Type) where
  clients : AList (fun _ : ClientKey => ClientState Message)
  legacyStreamIds : ClientId → Option StreamId
  cleanup : List CleanupTask
  events : List (TransportEvent Message)
  overloads : List (Delivery Message)
  receiverDropped : Bool
  nextConnectionId : ConnectionId

/-- What happens besides the tracker: a cleanup task runs, the receiver is dropped, another
    transport opens a connection. -/
inductive Move where
  | runCleanup (index : Nat)
  | dropReceiver
  | takeConnectionId
  deriving DecidableEq, Repr

/-- How a timed send ends. -/
inductive Sending where
  | sent
  | timedOut
  | aborted
  deriving DecidableEq, Repr

/-- How `enqueue_incoming_message` ends: the channel takes the message, the writer takes an
    overload error, neither does, or the worker is aborted. -/
inductive Forwarding where
  | forwarded
  | overloaded
  | refused
  | aborted
  deriving DecidableEq, Repr

/-- What the environment contributes to a call of `handle_message`. -/
structure Choices where
  cleanupMoves : List Move
  closeMoves : List Move
  openMoves : List Move
  opening : Sending
  forwarding : Forwarding
  newRandom : StreamId
  now : Nat
  deriving DecidableEq, Repr

def MAX_CLIENTS : Nat := 4096

def MAX_RETAINED_IDENTITIES : Nat := 4096

def REMOTE_CONTROL_CLIENT_IDLE_TIMEOUT : Nat := 10 * 60 * 10 ^ 9

namespace TrackerWorld

/-- `ClientTracker::new`. -/
def new : TrackerWorld Message where
  clients := ∅
  legacyStreamIds := fun _ => none
  cleanup := []
  events := []
  overloads := []
  receiverDropped := false
  nextConnectionId := 0

/-- Run the task at an index: it delivers its close, or finds the receiver gone. -/
def runCleanup (world : TrackerWorld Message) (index : Nat) : TrackerWorld Message :=
  match world.cleanup[index]? with
  | some ⟨connectionId, none⟩ =>
      if world.receiverDropped then
        { world with cleanup := world.cleanup.set index ⟨connectionId, some false⟩ }
      else
        { world with
          cleanup := world.cleanup.set index ⟨connectionId, some true⟩
          events := world.events ++ [.connectionClosed connectionId] }
  | _ => world

def move (world : TrackerWorld Message) : Move → TrackerWorld Message
  | .runCleanup index => world.runCleanup index
  | .dropReceiver => { world with receiverDropped := true }
  | .takeConnectionId => { world with nextConnectionId := world.nextConnectionId + 1 }

def moves (world : TrackerWorld Message) (all : List Move) : TrackerWorld Message :=
  all.foldl move world

/-- `send_transport_event` (`client_tracker.rs:444`). -/
def sendTransportEvent (world : TrackerWorld Message) (event : TransportEvent Message)
    (sending : Sending) : TrackerWorld Message × Outcome :=
  match sending with
  | .aborted => (world, .suspended)
  | .timedOut => (world, .stopped)
  | .sent =>
      if world.receiverDropped then (world, .stopped)
      else ({ world with events := world.events ++ [event] }, .ok)

/-- `forward_message` (`client_tracker.rs:431`). -/
def forwardMessage (host : MessageHost Message) (world : TrackerWorld Message)
    (delivery : Delivery Message) (forwarding : Forwarding) : TrackerWorld Message × Outcome :=
  match forwarding with
  | .forwarded =>
      if world.receiverDropped then (world, .stopped)
      else ({ world with events := world.events ++ [.incomingMessage delivery] }, .ok)
  | .overloaded =>
      if host.isRequest delivery.message then
        ({ world with overloads := world.overloads ++ [delivery] }, .ok)
      else (world, .stopped)
  | .refused => (world, .stopped)
  | .aborted => (world, .suspended)

/-- `spawn_connection_closed` (`client_tracker.rs:484`), kept as a cleanup. -/
def spawnConnectionClosed (world : TrackerWorld Message) (connectionId : ConnectionId) :
    TrackerWorld Message :=
  { world with cleanup := ⟨connectionId, none⟩ :: world.cleanup }

/-- Take the finished tasks off the end of `cleanup`, until one failed, one is not finished or
    none is left. -/
def popFinished : List CleanupTask → List CleanupTask × Option Outcome
  | [] => ([], some .ok)
  | ⟨connectionId, none⟩ :: rest => (⟨connectionId, none⟩ :: rest, none)
  | ⟨_, some true⟩ :: rest => popFinished rest
  | ⟨_, some false⟩ :: rest => (rest, some .stopped)

/-- `wait_for_cleanup` (`client_tracker.rs:117`), while the moves are made. A worker that is
    aborted before the last task is finished leaves the tasks with the tracker. -/
def waitForCleanup (world : TrackerWorld Message) : List Move → TrackerWorld Message × Outcome
  | [] =>
      match popFinished world.cleanup with
      | (cleanup, some outcome) => ({ world with cleanup := cleanup }, outcome)
      | (cleanup, none) => ({ world with cleanup := cleanup }, .suspended)
  | next :: rest =>
      match popFinished world.cleanup with
      | (cleanup, some outcome) => ({ world with cleanup := cleanup }, outcome)
      | (cleanup, none) => waitForCleanup ({ world with cleanup := cleanup }.move next) rest

/-- `remove_client` (`client_tracker.rs:419`), of a client that is tracked. -/
def removeClient (world : TrackerWorld Message) (key : ClientKey) : TrackerWorld Message :=
  { world with
    clients := world.clients.erase key
    legacyStreamIds :=
      if world.legacyStreamIds key.1 = some key.2 then
        Function.update world.legacyStreamIds key.1 none
      else world.legacyStreamIds }

/-- `close_client` (`client_tracker.rs:406`). -/
def closeClient (world : TrackerWorld Message) (key : ClientKey) (waiting : List Move) :
    TrackerWorld Message × Outcome :=
  match world.clients.lookup key with
  | none => (world, .ok)
  | some client =>
      ((world.removeClient key).spawnConnectionClosed client.connectionId).waitForCleanup waiting

/-- `retire_clients` (`client_tracker.rs:107`). -/
def retireClients (world : TrackerWorld Message) : TrackerWorld Message :=
  { world with
    clients := ∅
    legacyStreamIds := fun _ => none
    cleanup := (world.clients.entries.map fun entry => ⟨entry.2.connectionId, none⟩) ++
      world.cleanup }

/-- `close_all_clients` (`client_tracker.rs:99`). -/
def closeAllClients (world : TrackerWorld Message) (waiting : List Move) : TrackerWorld Message :=
  (world.retireClients.waitForCleanup waiting).1

/-- Change the state of a tracked client. -/
def modifyClient (world : TrackerWorld Message) (key : ClientKey)
    (change : ClientState Message → ClientState Message) : TrackerWorld Message :=
  match world.clients.lookup key with
  | none => world
  | some client => { world with clients := world.clients.insert key (change client) }

/-- `record_inbound_message_delivery` (`client_tracker.rs:471`). -/
def recordInboundMessageDelivery (world : TrackerWorld Message) (key : ClientKey)
    (seqId : Option UInt64) : TrackerWorld Message :=
  match seqId with
  | none => world
  | some seqId => world.modifyClient key fun client => { client with lastInboundSeqId := some seqId }

/-- `last_activity_at = Instant::now()`. -/
def touch (world : TrackerWorld Message) (key : ClientKey) (now : Nat) : TrackerWorld Message :=
  world.modifyClient key fun client => { client with lastActivityAt := now }

/-- `record_ack_activity` (`client_tracker.rs:396`). -/
def recordAckActivity (world : TrackerWorld Message) (key : ClientKey) (activityAt : Nat) :
    TrackerWorld Message :=
  world.modifyClient key fun client =>
    { client with lastActivityAt := max client.lastActivityAt activityAt }

/-- `expired_client_keys` (`client_tracker.rs:385`). -/
def expiredClientKeys (world : TrackerWorld Message) (now : Nat) : List ClientKey :=
  (world.clients.entries.filter fun entry =>
    decide (REMOTE_CONTROL_CLIENT_IDLE_TIMEOUT ≤ now - entry.2.lastActivityAt)).map Sigma.fst

section Host

variable (host : MessageHost Message)

/-- What `handle_message` makes of an initialize: nothing for an admitted replay, an error beyond
    the capacity, and else the size to admit it with. -/
inductive Admission where
  | replay
  | refused
  | fresh (size : Option Nat)
  deriving DecidableEq, Repr

/-- The identities that a client has admitted. -/
def admittedInitializes (world : TrackerWorld Message) (key : ClientKey) :
    List (UInt64 × Message × Nat) :=
  ((world.clients.lookup key).map ClientState.admittedInitializes).getD []

/-- The admission of an initialize (`client_tracker.rs:187`). -/
def admission (world : TrackerWorld Message) (key : ClientKey) (seqId : Option UInt64)
    (message : Message) : Admission :=
  match seqId with
  | none => .fresh none
  | some seqId =>
      let prior := world.admittedInitializes key
      if prior.any fun admitted => admitted.1 = seqId && admitted.2.1 = message then .replay
      else
        match host.serializedLen message with
        | none => .refused
        | some size =>
            let retainedBytes := total (fun client : ClientState Message =>
              (client.admittedInitializes.map fun admitted => admitted.2.2).sum) world.clients
            let retainedIdentities := total (fun client : ClientState Message =>
              client.admittedInitializes.length) world.clients
            if CHANNEL_CAPACITY ≤ prior.length ∨ MAX_RETAINED_IDENTITIES ≤ retainedIdentities ∨
                REMOTE_CONTROL_REASSEMBLED_MAX_BYTES - retainedBytes < size then .refused
            else .fresh (some size)

/-- The client of a connection that is opened (`client_tracker.rs:270`). -/
def insertClient (world : TrackerWorld Message) (key : ClientKey) (connectionId : ConnectionId)
    (now : Nat) (admitted : List (UInt64 × Message × Nat)) (isLegacyStreamId : Bool) :
    TrackerWorld Message :=
  { world with
    clients := world.clients.insert key ⟨connectionId, now, none, admitted⟩
    legacyStreamIds :=
      if isLegacyStreamId then Function.update world.legacyStreamIds key.1 (some key.2)
      else world.legacyStreamIds }

/-- What an initialize that was forwarded adds to the admitted identities. -/
def admittedOf (delivery : Delivery Message) (size : Option Nat) : List (UInt64 × Message × Nat) :=
  match delivery.seqId, size with
  | some seqId, some size => [(seqId, delivery.message, size)]
  | _, _ => []

/-- Forward the initialize of a connection that was opened, and admit it
    (`client_tracker.rs:283`). -/
def forwardInitialize (world : TrackerWorld Message) (choices : Choices)
    (delivery : Delivery Message) (size : Option Nat) (isLegacyStreamId : Bool) :
    TrackerWorld Message × Outcome :=
  match world.forwardMessage host delivery choices.forwarding with
  | (world, .ok) =>
      let world := world.modifyClient delivery.key fun client =>
        { client with
          admittedInitializes := client.admittedInitializes ++ admittedOf delivery size }
      (if isLegacyStreamId then world
        else world.recordInboundMessageDelivery delivery.key delivery.seqId, .ok)
  | (world, .stopped) =>
      ((world.removeClient delivery.key).spawnConnectionClosed delivery.connectionId, .stopped)
  | suspended => suspended

/-- Open the connection of an initialize (`client_tracker.rs:244`). -/
def openConnection (world : TrackerWorld Message) (choices : Choices) (key : ClientKey)
    (seqId : Option UInt64) (message : Message) (size : Option Nat) (isLegacyStreamId : Bool)
    (admitted : List (UInt64 × Message × Nat)) : TrackerWorld Message × Outcome :=
  if MAX_CLIENTS ≤ world.clients.entries.length then (world, .stopped)
  else
    let connectionId := world.nextConnectionId
    match ((world.move .takeConnectionId).moves choices.openMoves).sendTransportEvent
        (.connectionOpened connectionId key) choices.opening with
    | (world, .ok) =>
        (world.insertClient key connectionId choices.now admitted
          isLegacyStreamId).forwardInitialize host choices ⟨connectionId, key, seqId, message⟩ size
            isLegacyStreamId
    | stopped => stopped

/-- Replace the connection of a client: take the identities that it has admitted, close it, and
    open the new one (`client_tracker.rs:225`). -/
def replaceConnection (world : TrackerWorld Message) (choices : Choices) (key : ClientKey)
    (seqId : Option UInt64) (message : Message) (size : Option Nat) (isLegacyStreamId : Bool) :
    TrackerWorld Message × Outcome :=
  match world.closeClient key choices.closeMoves with
  | (closed, .ok) =>
      closed.openConnection host choices key seqId message size isLegacyStreamId
        (world.admittedInitializes key)
  | stopped => stopped

/-- The initialize branch of `handle_message`. When the client of the key is closed, no client is
    left under the key, so that its message is not forwarded on an old connection. -/
def handleInitialize (world : TrackerWorld Message) (choices : Choices) (key : ClientKey)
    (seqId : Option UInt64) (message : Message) (isLegacyStreamId : Bool) :
    TrackerWorld Message × Outcome :=
  match world.admission host key seqId message with
  | .replay => (world, .ok)
  | .refused => (world, .stopped)
  | .fresh size => world.replaceConnection host choices key seqId message size isLegacyStreamId

/-- A message is not newer than the last one that was delivered (`client_tracker.rs:213`). -/
def isDuplicate (client : ClientState Message) (seqId : Option UInt64) : Bool :=
  match seqId, client.lastInboundSeqId with
  | some seqId, some lastSeqId => decide (seqId ≤ lastSeqId)
  | _, _ => false

/-- The branch of `handle_message` for any other message. -/
def handleClientMessage (world : TrackerWorld Message) (choices : Choices) (key : ClientKey)
    (seqId : Option UInt64) (message : Message) : TrackerWorld Message × Outcome :=
  match world.clients.lookup key with
  | none => (world, .ok)
  | some client =>
      if isDuplicate client seqId then (world, .ok)
      else
        match (world.touch key choices.now).forwardMessage host
            ⟨client.connectionId, key, seqId, message⟩ choices.forwarding with
        | (world, .ok) => (world.recordInboundMessageDelivery key seqId, .ok)
        | stopped => stopped

/-- The stream that an envelope is about (`client_tracker.rs:158`). -/
def resolveStreamId (world : TrackerWorld Message) (choices : Choices)
    (envelope : ClientEnvelope Message) : StreamId :=
  envelope.streamId.getD ((world.legacyStreamIds envelope.clientId).getD
    (match envelope.event with
      | .clientMessage message =>
          if host.startsConnection message then choices.newRandom else ⟨[]⟩
      | .ping => choices.newRandom
      | _ => ⟨[]⟩))

/-- The events of `handle_message`, once the stream is known (`client_tracker.rs:183`). -/
def handleEvent (world : TrackerWorld Message) (choices : Choices) (key : ClientKey)
    (envelope : ClientEnvelope Message) : TrackerWorld Message × Outcome :=
  match envelope.event with
  | .clientMessage message =>
      if host.startsConnection message then
        world.handleInitialize host choices key envelope.seqId message envelope.streamId.isNone
      else world.handleClientMessage host choices key envelope.seqId message
  | .clientMessageChunk _ _ _ _ | .ack _ => (world, .ok)
  | .ping => (world.touch key choices.now, .ok)
  | .clientClosed => world.closeClient key choices.closeMoves

/-- `handle_message` (`client_tracker.rs:143`). -/
def handleMessage (world : TrackerWorld Message) (choices : Choices)
    (envelope : ClientEnvelope Message) : TrackerWorld Message × Outcome :=
  match world.waitForCleanup choices.cleanupMoves with
  | (world, .ok) =>
      let streamId := world.resolveStreamId host choices envelope
      if streamId.text = [] then (world, .ok)
      else world.handleEvent host choices (envelope.clientId, streamId) envelope
  | stopped => stopped

/-- A round of the ingress worker, what else is done to the tracker, and what happens besides. -/
inductive Step (Message : Type) where
  | handle (choices : Choices) (envelope : ClientEnvelope Message)
  | writerEnded (key : ClientKey) (connectionId : ConnectionId) (waiting : List Move)
  | sweep (activity : List (ClientKey × Nat)) (now : Nat) (keys : List ClientKey)
      (waiting : List (List Move))
  | retire
  | closeAll (waiting : List Move)
  | background (move : Move)

/-- Close expired clients, in the order of the hash map, until a close fails. -/
def closeClients (world : TrackerWorld Message) :
    List ClientKey → List (List Move) → TrackerWorld Message
  | [], _ => world
  | key :: rest, waiting =>
      match world.closeClient key (waiting.headD []) with
      | (world, .ok) => closeClients world rest waiting.tail
      | (world, _) => world

/-- The idle sweep of `run_client_ingress` (`websocket.rs:404`), which closes the expired clients
    in some order. -/
def sweep (world : TrackerWorld Message) (activity : List (ClientKey × Nat)) (now : Nat)
    (keys : List ClientKey) (waiting : List (List Move)) : TrackerWorld Message :=
  let world := activity.foldl (fun world entry => world.recordAckActivity entry.1 entry.2) world
  if keys.isPerm (world.expiredClientKeys now) then world.closeClients keys waiting else world

/-- `bookkeep_join_set` (`client_tracker.rs:76`) and the close after it (`websocket.rs:393`): only
    the client whose own writer ended is closed. -/
def writerEnded (world : TrackerWorld Message) (key : ClientKey) (connectionId : ConnectionId)
    (waiting : List Move) : TrackerWorld Message :=
  if (world.clients.lookup key).any fun client => client.connectionId = connectionId then
    (world.closeClient key waiting).1
  else world

def step (world : TrackerWorld Message) : Step Message → TrackerWorld Message
  | .handle choices envelope => (world.handleMessage host choices envelope).1
  | .writerEnded key connectionId waiting => world.writerEnded key connectionId waiting
  | .sweep activity now keys waiting => world.sweep activity now keys waiting
  | .retire => world.retireClients
  | .closeAll waiting => world.closeAllClients waiting
  | .background move => world.move move

def run (world : TrackerWorld Message) (steps : List (Step Message)) : TrackerWorld Message :=
  steps.foldl (step host) world

end Host

end TrackerWorld

end Codex.RemoteControl
