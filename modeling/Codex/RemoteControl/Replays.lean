import Codex.RemoteControl.Generations

/-!
# Replayed initializes

The identities that a client of the tracker has admitted (`client_tracker.rs:42`) are kept until
its stream is closed, so that an initialize that was accepted is not forwarded again. They are
handed from one connection of the stream to the next, and are lost when the next one is cut short.
-/

namespace Codex.RemoteControl

open Codex.Machine

variable {Message : Type} [DecidableEq Message]

namespace TrackerWorld

/-- A delivery for a client with a sequence id and a message. -/
def isCopy (key : ClientKey) (seqId : UInt64) (message : Message) (delivery : Delivery Message) :
    Bool :=
  delivery.key = key && delivery.seqId = some seqId && delivery.message = message

def isCopyEvent (key : ClientKey) (seqId : UInt64) (message : Message) :
    TransportEvent Message → Bool
  | .incomingMessage delivery => isCopy key seqId message delivery
  | _ => false

/-- How often a message was forwarded, or answered with an overload error in its place. -/
def copies (world : TrackerWorld Message) (key : ClientKey) (seqId : UInt64) (message : Message) :
    Nat :=
  world.events.countP (isCopyEvent key seqId message) +
    world.overloads.countP (isCopy key seqId message)

/-- An initialize is among the identities that its client has admitted. -/
def Held (world : TrackerWorld Message) (key : ClientKey) (seqId : UInt64) (message : Message) :
    Prop :=
  ∃ size, (seqId, message, size) ∈ world.admittedInitializes key

/-- A replacement hands the identities over: the close of the old connection and the open of the new
    one get through, and the message does too, or the worker is aborted while it is sent. -/
def HandsOver (host : MessageHost Message) (world : TrackerWorld Message) (choices : Choices)
    (key : ClientKey) (message : Message) : Prop :=
  (world.closeClient key choices.closeMoves).2 = .ok ∧
    (world.closeClient key choices.closeMoves).1.clients.entries.length < MAX_CLIENTS ∧
    choices.opening = .sent ∧
    (((world.closeClient key choices.closeMoves).1.move .takeConnectionId).moves
      choices.openMoves).receiverDropped = false ∧
    (choices.forwarding = .forwarded ∨ choices.forwarding = .aborted ∨
      (choices.forwarding = .overloaded ∧ host.isRequest message = true))

/-- An event takes the identities of a stream away: the stream is closed, or an initialize replaces
    its connection without handing them over. -/
def EventLoses (host : MessageHost Message) (world : TrackerWorld Message) (choices : Choices)
    (key : ClientKey) (seqId : Option UInt64) : ClientEvent Message → Prop
  | .clientClosed => True
  | .clientMessage message =>
      host.startsConnection message = true ∧
        (∃ size, world.admission host key seqId message = .fresh size) ∧
          ¬ HandsOver host world choices key message
  | _ => False

/-- A sweep gets to a client: the closes in front of its own get through. -/
def Reaches (key : ClientKey) : TrackerWorld Message → List ClientKey → List (List Move) → Prop
  | _, [], _ => False
  | world, first :: rest, waiting =>
      first = key ∨ ((world.closeClient first (waiting.headD [])).2 = .ok ∧
        Reaches key (world.closeClient first (waiting.headD [])).1 rest waiting.tail)

/-- A step takes the identities of a stream away: an event does that is not held up by the cleanup,
    its writer ends, a sweep gets to it, or all clients are retired. -/
def Loses (host : MessageHost Message) (world : TrackerWorld Message) (key : ClientKey) :
    Step Message → Prop
  | .handle choices envelope =>
      let waited := world.waitForCleanup choices.cleanupMoves
      waited.2 = .ok ∧ (envelope.clientId, waited.1.resolveStreamId host choices envelope) = key ∧
        EventLoses host waited.1 choices key envelope.seqId envelope.event
  | .writerEnded ended connectionId _ =>
      ended = key ∧
        (world.clients.lookup ended).any fun client => client.connectionId = connectionId
  | .sweep activity now keys waiting =>
      let active := activity.foldl (fun active entry => active.recordAckActivity entry.1 entry.2)
        world
      keys.isPerm (active.expiredClientKeys now) ∧ Reaches key active keys waiting
  | .retire | .closeAll _ => True
  | .background _ => False

/-- A call that neither forwards a message again nor changes what its client has admitted. -/
structure Kept (world after : TrackerWorld Message) (key : ClientKey) (seqId : UInt64)
    (message : Message) : Prop where
  admitted : after.admittedInitializes key = world.admittedInitializes key
  copies : after.copies key seqId message = world.copies key seqId message

section Kept

variable {host : MessageHost Message} {world middle after : TrackerWorld Message}
  {key other : ClientKey} {seqId : UInt64} {message : Message}

theorem Kept.refl (world : TrackerWorld Message) (key : ClientKey) (seqId : UInt64)
    (message : Message) : Kept world world key seqId message :=
  ⟨rfl, rfl⟩

theorem Kept.trans (first : Kept world middle key seqId message)
    (second : Kept middle after key seqId message) : Kept world after key seqId message :=
  ⟨second.admitted.trans first.admitted, second.copies.trans first.copies⟩

theorem Besides.copies (besides : Besides world after) (key : ClientKey) (seqId : UInt64)
    (message : Message) : after.copies key seqId message = world.copies key seqId message := by
  obtain ⟨closes, events⟩ := besides.events
  have none : (closes.map TransportEvent.connectionClosed).countP
      (isCopyEvent key seqId message) = 0 := by
    refine List.countP_eq_zero.mpr ?_
    intro event member
    obtain ⟨connectionId, _, rfl⟩ := List.mem_map.mp member
    simp [isCopyEvent]
  simp only [TrackerWorld.copies, events, besides.overloads, List.countP_append, none,
    Nat.add_zero]

theorem Besides.kept (besides : Besides world after) (key : ClientKey) (seqId : UInt64)
    (message : Message) : Kept world after key seqId message :=
  ⟨by simp only [admittedInitializes, besides.clients], besides.copies key seqId message⟩

theorem closeClient_copies (world : TrackerWorld Message) (closed : ClientKey)
    (waiting : List Move) (key : ClientKey) (seqId : UInt64) (message : Message) :
    (world.closeClient closed waiting).1.copies key seqId message =
      world.copies key seqId message := by
  unfold closeClient
  split
  · rfl
  · exact (besides_waitForCleanup _ waiting).copies key seqId message

omit [DecidableEq Message] in
theorem admitted_erase (ne : key ≠ other) :
    (world.removeClient other).admittedInitializes key = world.admittedInitializes key := by
  simp only [admittedInitializes, removeClient, AList.lookup_erase_ne ne]

theorem closeClient_kept (ne : key ≠ other) (waiting : List Move) :
    Kept world (world.closeClient other waiting).1 key seqId message := by
  refine ⟨?_, closeClient_copies world other waiting key seqId message⟩
  unfold closeClient
  split
  · rfl
  next client found =>
    have besides := besides_waitForCleanup
      ((world.removeClient other).spawnConnectionClosed client.connectionId) waiting
    rw [(besides.kept key seqId message).admitted]
    exact admitted_erase ne

theorem closeClients_copies (world : TrackerWorld Message) (keys : List ClientKey)
    (waiting : List (List Move)) (key : ClientKey) (seqId : UInt64) (message : Message) :
    (world.closeClients keys waiting).copies key seqId message =
      world.copies key seqId message := by
  induction keys generalizing world waiting with
  | nil => rfl
  | cons first rest ih =>
    have closed := closeClient_copies world first (waiting.headD []) key seqId message
    unfold closeClients
    split
    next after found =>
      rw [found] at closed
      exact (ih after waiting.tail).trans closed
    next after outcome _ found =>
      rw [found] at closed
      exact closed

theorem closeClients_kept (keys : List ClientKey) (waiting : List (List Move))
    (misses : ¬ Reaches key world keys waiting) :
    Kept world (world.closeClients keys waiting) key seqId message := by
  induction keys generalizing world waiting with
  | nil => exact .refl world key seqId message
  | cons first rest ih =>
    rw [Reaches, not_or] at misses
    obtain ⟨ne, missesRest⟩ := misses
    have closed : Kept world (world.closeClient first (waiting.headD [])).1 key seqId message :=
      closeClient_kept (Ne.symm ne) _
    unfold closeClients
    split
    next after found =>
      rw [found] at closed missesRest
      exact closed.trans (ih waiting.tail fun reaches => missesRest ⟨rfl, reaches⟩)
    next after outcome _ found =>
      rw [found] at closed
      exact closed

/-- A change of a client that keeps what it has admitted, or is about another one. -/
theorem modifyClient_kept {change : ClientState Message → ClientState Message}
    (keeps : key = other → ∀ client, (change client).admittedInitializes =
      client.admittedInitializes) :
    Kept world (world.modifyClient other change) key seqId message := by
  unfold modifyClient
  split
  · exact .refl world key seqId message
  next client found =>
    refine ⟨?_, rfl⟩
    simp only [admittedInitializes, lookup_insert_eq]
    split
    next same =>
      rw [same, found]
      simp [keeps same]
    · rfl

theorem record_kept (numbered : Option UInt64) :
    Kept world (world.recordInboundMessageDelivery other numbered) key seqId message := by
  unfold recordInboundMessageDelivery
  split
  · exact .refl world key seqId message
  · exact modifyClient_kept fun _ _ => rfl

/-- What a message that is sent adds to the copies. -/
theorem forwardMessage_copies (host : MessageHost Message) (world : TrackerWorld Message)
    (delivery : Delivery Message) (forwarding : Forwarding) (key : ClientKey) (seqId : UInt64)
    (message : Message) :
    (world.forwardMessage host delivery forwarding).1.clients = world.clients ∧
      (((world.forwardMessage host delivery forwarding).2 = .ok ∧
        (world.forwardMessage host delivery forwarding).1.copies key seqId message =
          world.copies key seqId message + (isCopy key seqId message delivery).toNat) ∨
      ((world.forwardMessage host delivery forwarding).2 ≠ .ok ∧
        (world.forwardMessage host delivery forwarding).1 = world)) := by
  rcases forwardMessage_cases host world delivery forwarding with
    ⟨arrived, answered, one, forwarded⟩ | ⟨failed, same⟩
  · rw [forwarded]
    refine ⟨rfl, .inl ⟨rfl, ?_⟩⟩
    have arrivals : (arrived.map TransportEvent.incomingMessage).countP
        (isCopyEvent key seqId message) = arrived.countP (isCopy key seqId message) := by
      rw [List.countP_map]
      rfl
    have both := congrArg (List.countP (isCopy key seqId message)) one
    rw [List.countP_append, List.countP_singleton] at both
    have single : (isCopy key seqId message delivery).toNat =
        if isCopy key seqId message delivery = true then 1 else 0 := by
      cases isCopy key seqId message delivery with
      | true => rfl
      | false => rfl
    simp only [copies, List.countP_append, arrivals, single]
    omega
  · rw [same]
    exact ⟨rfl, .inr ⟨failed, rfl⟩⟩

theorem forwardMessage_kept {delivery : Delivery Message}
    (different : isCopy key seqId message delivery = false) (forwarding : Forwarding) :
    Kept world (world.forwardMessage host delivery forwarding).1 key seqId message := by
  obtain ⟨clients, outcome⟩ := forwardMessage_copies host world delivery forwarding key seqId message
  refine ⟨by simp only [admittedInitializes, clients], ?_⟩
  rcases outcome with ⟨_, counted⟩ | ⟨_, same⟩
  · simpa [different] using counted
  · rw [same]

end Kept

section Replacing

variable {host : MessageHost Message} {world : TrackerWorld Message} {key other : ClientKey}
  {seqId : UInt64} {message : Message}

/-- The count that an initialize adds to the copies. -/
def added (seqId : UInt64) (message : Message) (numbered : Option UInt64) (arrived : Message) :
    Nat :=
  if numbered = some seqId ∧ arrived = message then 1 else 0

theorem isCopy_toNat (connectionId : ConnectionId) (numbered : Option UInt64) (arrived : Message) :
    (isCopy key seqId message ⟨connectionId, key, numbered, arrived⟩).toNat =
      added seqId message numbered arrived := by
  by_cases same : numbered = some seqId ∧ arrived = message
  · simp [isCopy, added, same]
  · rw [added, if_neg same]
    simp only [isCopy, Bool.toNat_eq_zero, Bool.and_eq_false_iff, decide_eq_false_iff_not,
      not_true_eq_false, false_or]
    exact not_and_or.mp same

theorem isCopy_of_ne (ne : key ≠ other) (connectionId : ConnectionId)
    (numbered : Option UInt64) (arrived : Message) :
    isCopy key seqId message ⟨connectionId, other, numbered, arrived⟩ = false := by
  simp [isCopy, ne.symm]

/-- How an initialize ends that takes over admitted identities: it was sent and is added to them,
    or it was not sent. -/
def Ends (result : TrackerWorld Message × Outcome) (delivery : Delivery Message)
    (size : Option Nat) (admitted : List (UInt64 × Message × Nat)) (before : Nat)
    (seqId : UInt64) (message : Message) : Prop :=
  (result.2 = .ok ∧
    result.1.admittedInitializes delivery.key = admitted ++ admittedOf delivery size ∧
    result.1.copies delivery.key seqId message =
      before + added seqId message delivery.seqId delivery.message) ∨
  (result.2 ≠ .ok ∧ result.1.copies delivery.key seqId message = before)

theorem forwardInitialize_ends (world : TrackerWorld Message) (choices : Choices)
    {connectionId : ConnectionId} {numbered : Option UInt64} {arrived : Message}
    {client : ClientState Message} (found : world.clients.lookup key = some client)
    (size : Option Nat) (isLegacyStreamId : Bool) :
    Ends (world.forwardInitialize host choices ⟨connectionId, key, numbered, arrived⟩ size
      isLegacyStreamId) ⟨connectionId, key, numbered, arrived⟩ size client.admittedInitializes
        (world.copies key seqId message) seqId message := by
  obtain ⟨clients, outcome⟩ := forwardMessage_copies host world
    ⟨connectionId, key, numbered, arrived⟩ choices.forwarding key seqId message
  rw [isCopy_toNat] at outcome
  unfold forwardInitialize
  split
  next sent forwarded =>
    rw [forwarded] at clients outcome
    obtain ⟨_, counted⟩ := outcome.resolve_right fun failed => failed.1 rfl
    left
    have foundAfter : sent.clients.lookup key = some client := clients ▸ found
    have changed := lookup_modifyClient foundAfter fun client => { client with
      admittedInitializes := client.admittedInitializes ++
        admittedOf (⟨connectionId, key, numbered, arrived⟩ : Delivery Message) size }
    have admitted : (sent.modifyClient key fun client => { client with
        admittedInitializes := client.admittedInitializes ++
          admittedOf (⟨connectionId, key, numbered, arrived⟩ : Delivery Message)
            size }).admittedInitializes key = client.admittedInitializes ++
              admittedOf (⟨connectionId, key, numbered, arrived⟩ : Delivery Message) size := by
      simp only [admittedInitializes, changed, Option.map_some, Option.getD_some]
    have sameCopies : (sent.modifyClient key fun client => { client with
        admittedInitializes := client.admittedInitializes ++
          admittedOf (⟨connectionId, key, numbered, arrived⟩ : Delivery Message)
            size }).copies key seqId message = sent.copies key seqId message := by
      rw [modifyClient_of_lookup foundAfter]
      rfl
    simp only
    split
    · exact ⟨trivial, admitted, sameCopies.trans counted⟩
    · have kept : ∀ world : TrackerWorld Message,
          Kept world (world.recordInboundMessageDelivery key numbered) key seqId message :=
        fun _ => record_kept numbered
      exact ⟨trivial, (kept _).admitted.trans admitted,
        ((kept _).copies.trans sameCopies).trans counted⟩
  next sent stopped =>
    rw [stopped] at outcome
    obtain ⟨_, same⟩ := outcome.resolve_left fun sent => by simp at sent
    simp only at same
    exact .inr ⟨by simp, by rw [same]; rfl⟩
  next neither suspended =>
    rcases outcome with ⟨ok, _⟩ | ⟨failed, same⟩
    · exact (neither _ (Prod.ext rfl ok)).elim
    · exact .inr ⟨failed, by rw [same]⟩

omit [DecidableEq Message] in
theorem forwardInitialize_ok {world : TrackerWorld Message} {choices : Choices}
    {delivery : Delivery Message}
    (sent : (world.forwardMessage host delivery choices.forwarding).2 = .ok) (size : Option Nat)
    (isLegacyStreamId : Bool) :
    (world.forwardInitialize host choices delivery size isLegacyStreamId).2 = .ok := by
  unfold forwardInitialize
  split
  · rfl
  next after stopped =>
    rw [stopped] at sent
    cases sent
  next neither _ => exact (neither _ (Prod.ext rfl sent)).elim

theorem openConnection_ends (world : TrackerWorld Message) (choices : Choices)
    (numbered : Option UInt64) (arrived : Message) (size : Option Nat) (isLegacyStreamId : Bool)
    (admitted : List (UInt64 × Message × Nat)) :
    Ends (world.openConnection host choices key numbered arrived size isLegacyStreamId admitted)
      ⟨world.nextConnectionId, key, numbered, arrived⟩ size admitted
        (world.copies key seqId message) seqId message := by
  have besides := (besides_move world .takeConnectionId).trans
    (besides_moves _ choices.openMoves)
  have quiet := besides.copies key seqId message
  unfold openConnection
  split
  · exact .inr ⟨by simp, rfl⟩
  simp only
  generalize (world.move .takeConnectionId).moves choices.openMoves = moved at *
  rcases sendTransportEvent_cases moved (.connectionOpened world.nextConnectionId key)
    choices.opening with ⟨_, _, opened⟩ | ⟨failed, same⟩
  · rw [opened]
    have counted : (({ moved with events := moved.events ++
        [.connectionOpened world.nextConnectionId key] } : TrackerWorld Message).insertClient key
          world.nextConnectionId choices.now admitted isLegacyStreamId).copies key seqId message =
        world.copies key seqId message := by
      rw [← quiet]
      simp [copies, insertClient, List.countP_append, isCopyEvent]
    rw [← counted]
    have ends : ∀ opened : TrackerWorld Message, Ends ((opened.insertClient key
        world.nextConnectionId choices.now admitted isLegacyStreamId).forwardInitialize host choices
          ⟨world.nextConnectionId, key, numbered, arrived⟩ size isLegacyStreamId)
        ⟨world.nextConnectionId, key, numbered, arrived⟩ size admitted
          ((opened.insertClient key world.nextConnectionId choices.now admitted
            isLegacyStreamId).copies key seqId message) seqId message :=
      fun opened => forwardInitialize_ends (opened.insertClient key world.nextConnectionId
        choices.now admitted isLegacyStreamId) choices (AList.lookup_insert opened.clients) size
          isLegacyStreamId
    exact ends _
  · split
    next after ok => exact absurd (congrArg Prod.snd ok) failed
    · exact .inr ⟨failed, by rw [same]; exact quiet⟩

theorem replaceConnection_ends (world : TrackerWorld Message) (choices : Choices)
    (numbered : Option UInt64) (arrived : Message) (size : Option Nat)
    (isLegacyStreamId : Bool) : ∃ connectionId,
    Ends (world.replaceConnection host choices key numbered arrived size isLegacyStreamId)
      ⟨connectionId, key, numbered, arrived⟩ size (world.admittedInitializes key)
        (world.copies key seqId message) seqId message := by
  have sameCopies := closeClient_copies world key choices.closeMoves key seqId message
  unfold replaceConnection
  split
  next closed ok =>
    rw [ok] at sameCopies
    refine ⟨closed.nextConnectionId, ?_⟩
    rw [← sameCopies]
    exact openConnection_ends closed choices numbered arrived size isLegacyStreamId _
  next failed =>
    exact ⟨0, .inr ⟨fun ok => failed _ (Prod.ext rfl ok), sameCopies⟩⟩

omit [DecidableEq Message] in
/-- A replacement that hands the identities over ends well or keeps them. -/
theorem replaceConnection_keeps {world : TrackerWorld Message} {choices : Choices}
    {arrived : Message} (handsOver : HandsOver host world choices key arrived)
    (numbered : Option UInt64) (size : Option Nat) (isLegacyStreamId : Bool) :
    (world.replaceConnection host choices key numbered arrived size isLegacyStreamId).2 = .ok ∨
      (world.replaceConnection host choices key numbered arrived size
        isLegacyStreamId).1.admittedInitializes key = world.admittedInitializes key := by
  obtain ⟨closes, room, opens, receiver, forwards⟩ := handsOver
  unfold replaceConnection
  split
  next closed ended =>
    rw [ended] at room receiver
    simp only at room receiver
    unfold openConnection
    rw [if_neg (Nat.not_le.mpr room)]
    simp only
    generalize (closed.move .takeConnectionId).moves choices.openMoves = moved at receiver ⊢
    have sent : moved.sendTransportEvent (.connectionOpened closed.nextConnectionId key)
        choices.opening = ({ moved with
          events := moved.events ++ [.connectionOpened closed.nextConnectionId key] }, .ok) := by
      simp [sendTransportEvent, opens, receiver]
    rw [sent]
    rcases forwards with forwarded | aborted | ⟨overloaded, request⟩
    · left
      apply forwardInitialize_ok
      simp [forwardMessage, forwarded, insertClient, receiver]
    · right
      simp [forwardInitialize, forwardMessage, aborted, insertClient, admittedInitializes]
    · left
      apply forwardInitialize_ok
      simp [forwardMessage, overloaded, request]
  next failed => exact (failed _ (Prod.ext rfl closes)).elim

theorem forwardInitialize_kept (ne : key ≠ other) (choices : Choices)
    {connectionId : ConnectionId} (numbered : Option UInt64) (arrived : Message)
    (size : Option Nat) (isLegacyStreamId : Bool) :
    Kept world (world.forwardInitialize host choices ⟨connectionId, other, numbered, arrived⟩ size
      isLegacyStreamId).1 key seqId message := by
  have sent : Kept world (world.forwardMessage host ⟨connectionId, other, numbered, arrived⟩
      choices.forwarding).1 key seqId message :=
    forwardMessage_kept (isCopy_of_ne ne connectionId numbered arrived) _
  unfold forwardInitialize
  split
  next after forwarded =>
    rw [forwarded] at sent
    have changed : ∀ change, Kept world (after.modifyClient other change) key seqId message :=
      fun change => sent.trans (modifyClient_kept fun same => absurd same ne)
    simp only
    split
    · exact changed _
    · exact (changed _).trans (record_kept numbered)
  next after stopped =>
    rw [stopped] at sent
    exact sent.trans ⟨admitted_erase ne, rfl⟩
  next => exact sent

theorem replaceConnection_kept (ne : key ≠ other) (choices : Choices) (numbered : Option UInt64)
    (arrived : Message) (size : Option Nat) (isLegacyStreamId : Bool) :
    Kept world (world.replaceConnection host choices other numbered arrived size
      isLegacyStreamId).1 key seqId message := by
  have closed : Kept world (world.closeClient other choices.closeMoves).1 key seqId message :=
    closeClient_kept ne _
  unfold replaceConnection
  split
  next after ended =>
    rw [ended] at closed
    apply closed.trans
    have besides := ((besides_move after .takeConnectionId).trans
      (besides_moves _ choices.openMoves)).kept key seqId message
    unfold openConnection
    split
    · exact .refl after key seqId message
    simp only
    generalize (after.move .takeConnectionId).moves choices.openMoves = moved at *
    rcases sendTransportEvent_cases moved (.connectionOpened after.nextConnectionId other)
      choices.opening with ⟨_, _, opened⟩ | ⟨failed, same⟩
    · rw [opened]
      refine (besides.trans ?_).trans (forwardInitialize_kept ne choices _ _ size _)
      refine ⟨?_, ?_⟩
      · simp only [admittedInitializes, insertClient, AList.lookup_insert_ne ne]
      · simp [copies, insertClient, List.countP_append, isCopyEvent]
    · split
      next ok => exact absurd (congrArg Prod.snd ok) failed
      · rw [same]
        exact besides
  · exact closed

end Replacing

section Steps

variable {host : MessageHost Message} {world : TrackerWorld Message} {key : ClientKey}
  {seqId : UInt64} {message : Message}

/-- What a step does to an initialize: nothing, and it stays admitted if it was; or it is
    forwarded, and admitted from then on. -/
def Admits (world after : TrackerWorld Message) (key : ClientKey) (seqId : UInt64)
    (message : Message) : Prop :=
  (after.copies key seqId message = world.copies key seqId message ∧
    (world.Held key seqId message → after.Held key seqId message)) ∨
  (after.copies key seqId message = world.copies key seqId message + 1 ∧
    ¬ world.Held key seqId message ∧ after.Held key seqId message)

theorem Kept.admits {after : TrackerWorld Message} (kept : Kept world after key seqId message) :
    Admits world after key seqId message := by
  refine .inl ⟨kept.copies, ?_⟩
  rintro ⟨size, member⟩
  exact ⟨size, kept.admitted ▸ member⟩

theorem Kept.admits_after {middle after : TrackerWorld Message}
    (kept : Kept world middle key seqId message) (admits : Admits middle after key seqId message) :
    Admits world after key seqId message := by
  have same : middle.Held key seqId message ↔ world.Held key seqId message := by
    rw [Held, Held, kept.admitted]
  simpa only [Admits, kept.copies, same] using admits

/-- An identity that was admitted is a replay. -/
theorem Held.replay (held : world.Held key seqId message) :
    world.admission host key (some seqId) message = .replay := by
  obtain ⟨size, member⟩ := held
  have known : (world.admittedInitializes key).any
      (fun admitted => admitted.1 = seqId && admitted.2.1 = message) = true :=
    List.any_eq_true.mpr ⟨_, member, by simp⟩
  simp only [admission, known, if_true]

theorem admission_size {numbered : Option UInt64} {size : Option Nat}
    (fresh : world.admission host key numbered message = .fresh size)
    (some_ : numbered = some seqId) : ∃ bytes, size = some bytes := by
  subst some_
  simp only [admission] at fresh
  split at fresh
  · cases fresh
  · split at fresh
    · cases fresh
    · split at fresh
      · cases fresh
      · exact ⟨_, (Admission.fresh.inj fresh).symm⟩

/-- An initialize that hands the identities of its stream over keeps them, and admits its own. -/
theorem handleInitialize_admits (choices : Choices) (numbered : Option UInt64) (arrived : Message)
    (isLegacyStreamId : Bool)
    (kept : world.Held key seqId message → (∃ size, world.admission host key numbered arrived =
      .fresh size) → HandsOver host world choices key arrived) :
    Admits world (world.handleInitialize host choices key numbered arrived isLegacyStreamId).1 key
      seqId message := by
  unfold handleInitialize
  split
  · exact (Kept.refl world key seqId message).admits
  · exact (Kept.refl world key seqId message).admits
  next size fresh =>
    obtain ⟨connectionId, ends⟩ := @replaceConnection_ends _ _ host key seqId message world choices
      numbered arrived size isLegacyStreamId
    rcases ends with ⟨_, admitted, counted⟩ | ⟨failed, counted⟩
    · simp only at admitted counted
      by_cases same : numbered = some seqId ∧ arrived = message
      · obtain ⟨numberedSame, rfl⟩ := same
        obtain ⟨bytes, rfl⟩ := admission_size fresh numberedSame
        refine .inr ⟨?_, ?_, bytes, ?_⟩
        · rw [counted, added, if_pos ⟨numberedSame, rfl⟩]
        · intro held
          rw [numberedSame, held.replay] at fresh
          cases fresh
        · rw [admitted, numberedSame]
          simp [admittedOf]
      · refine .inl ⟨?_, ?_⟩
        · rw [counted, added, if_neg same, Nat.add_zero]
        · rintro ⟨bytes, member⟩
          exact ⟨bytes, admitted ▸ List.mem_append_left _ member⟩
    · refine .inl ⟨counted, ?_⟩
      intro held
      rcases replaceConnection_keeps (kept held ⟨size, fresh⟩) numbered size isLegacyStreamId with
        ok | same
      · exact absurd ok failed
      · obtain ⟨bytes, member⟩ := held
        exact ⟨bytes, same ▸ member⟩

theorem handleClientMessage_kept (choices : Choices) (other : ClientKey)
    (numbered : Option UInt64) {arrived : Message}
    (different : key = other → arrived ≠ message) :
    Kept world (world.handleClientMessage host choices other numbered arrived).1 key seqId
      message := by
  unfold handleClientMessage
  split
  · exact .refl world key seqId message
  next client found =>
    split
    · exact .refl world key seqId message
    have touched : Kept world (world.touch other choices.now) key seqId message :=
      modifyClient_kept fun _ _ => rfl
    have noCopy : isCopy key seqId message ⟨client.connectionId, other, numbered, arrived⟩ =
        false := by
      simp only [isCopy, Bool.and_eq_false_iff, decide_eq_false_iff_not]
      by_cases same : key = other
      · exact .inr (different same)
      · exact .inl (.inl fun equal => same equal.symm)
    have sent := touched.trans (@forwardMessage_kept _ _ host _ _ _ _ _ noCopy
      choices.forwarding)
    split
    next after forwarded =>
      rw [forwarded] at sent
      exact sent.trans (record_kept numbered)
    · exact sent

theorem handleEvent_admits (starts : host.startsConnection message = true) (choices : Choices)
    (other : ClientKey) (envelope : ClientEnvelope Message)
    (kept : world.Held key seqId message →
      ¬ (other = key ∧ EventLoses host world choices key envelope.seqId envelope.event)) :
    Admits world (world.handleEvent host choices other envelope).1 key seqId message := by
  unfold handleEvent
  split
  next arrived event =>
    rw [event] at kept
    split
    next starting =>
      by_cases same : key = other
      · subst same
        apply handleInitialize_admits
        intro held fresh
        by_contra cut
        exact kept held ⟨rfl, starting, fresh, cut⟩
      · unfold handleInitialize
        split
        · exact (Kept.refl world key seqId message).admits
        · exact (Kept.refl world key seqId message).admits
        · exact (replaceConnection_kept same choices _ _ _ _).admits
    next ordinary =>
      refine (handleClientMessage_kept choices other _ ?_).admits
      rintro _ rfl
      exact ordinary starts
  · exact (Kept.refl world key seqId message).admits
  · exact (Kept.refl world key seqId message).admits
  · exact (modifyClient_kept fun _ _ => rfl : Kept world (world.touch other choices.now) key seqId
      message).admits
  next event =>
    rw [event] at kept
    by_cases same : key = other
    · refine .inl ⟨closeClient_copies world other _ key seqId message, ?_⟩
      intro held
      exact absurd ⟨same.symm, trivial⟩ (kept held)
    · exact (closeClient_kept same _).admits

theorem handleMessage_admits (starts : host.startsConnection message = true) (choices : Choices)
    (envelope : ClientEnvelope Message)
    (kept : world.Held key seqId message → ¬ Loses host world key (.handle choices envelope)) :
    Admits world (world.handleMessage host choices envelope).1 key seqId message := by
  have waited := (besides_waitForCleanup world choices.cleanupMoves).kept key seqId message
  unfold handleMessage
  split
  next after ok =>
    rw [Loses, ok] at kept
    rw [ok] at waited
    have held : after.Held key seqId message → world.Held key seqId message := by
      rintro ⟨size, member⟩
      exact ⟨size, waited.admitted ▸ member⟩
    apply waited.admits_after
    simp only
    split
    · exact (Kept.refl after key seqId message).admits
    · exact handleEvent_admits starts choices _ envelope fun heldAfter loses =>
        kept (held heldAfter) ⟨rfl, loses⟩
  · exact waited.admits

theorem sweep_admits (activity : List (ClientKey × Nat)) (now : Nat) (keys : List ClientKey)
    (waiting : List (List Move))
    (kept : world.Held key seqId message →
      ¬ Loses host world key (.sweep activity now keys waiting)) :
    Admits world (world.sweep activity now keys waiting) key seqId message := by
  have active : Kept world (activity.foldl (fun world entry =>
      world.recordAckActivity entry.1 entry.2) world) key seqId message := by
    clear kept
    induction activity generalizing world with
    | nil => exact .refl world key seqId message
    | cons entry rest ih =>
      have first : Kept world (world.recordAckActivity entry.1 entry.2) key seqId message :=
        modifyClient_kept fun _ _ => rfl
      exact first.trans ih
  unfold sweep
  simp only
  split
  next expired =>
    refine .inl ⟨(closeClients_copies _ keys waiting key seqId message).trans active.copies, ?_⟩
    intro held
    have misses := fun reaches => kept held ⟨expired, reaches⟩
    obtain ⟨size, member⟩ := held
    exact ⟨size, (active.trans (closeClients_kept keys waiting misses)).admitted ▸ member⟩
  · exact active.admits

/-- A step that does not take the identities of a stream away keeps them, and forwards an
    initialize only when it was not admitted. -/
theorem step_admits (starts : host.startsConnection message = true) (next : Step Message)
    (kept : world.Held key seqId message → ¬ Loses host world key next) :
    Admits world (world.step host next) key seqId message := by
  cases next with
  | handle choices envelope => exact handleMessage_admits starts choices envelope kept
  | writerEnded ended connectionId waiting =>
    change Admits world (world.writerEnded ended connectionId waiting) key seqId message
    unfold writerEnded
    split
    next current =>
      by_cases same : key = ended
      · refine .inl ⟨closeClient_copies world ended _ key seqId message, ?_⟩
        intro held
        exact absurd ⟨same.symm, current⟩ (kept held)
      · exact (closeClient_kept same waiting).admits
    · exact (Kept.refl world key seqId message).admits
  | sweep activity now keys waiting => exact sweep_admits activity now keys waiting kept
  | retire =>
    refine .inl ⟨rfl, ?_⟩
    intro held
    exact absurd trivial (kept held)
  | closeAll waiting =>
    refine .inl ⟨(besides_waitForCleanup _ waiting).copies key seqId message, ?_⟩
    intro held
    exact absurd trivial (kept held)
  | background move => exact ((besides_move world move).kept key seqId message).admits

/-- While no step takes the identities of its stream away, an initialize is forwarded once. -/
theorem run_copies (starts : host.startsConnection message = true)
    (once : world.copies key seqId message ≤ 1)
    (held : world.copies key seqId message = 1 → world.Held key seqId message)
    (steps : List (Step Message))
    (kept : ∀ front step back, steps = front ++ step :: back →
      (world.run host front).Held key seqId message →
        ¬ Loses host (world.run host front) key step) :
    (world.run host steps).copies key seqId message ≤ 1 := by
  induction steps generalizing world with
  | nil => exact once
  | cons next rest ih =>
    have later : ∀ front step back, rest = front ++ step :: back →
        ((world.step host next).run host front).Held key seqId message →
          ¬ Loses host ((world.step host next).run host front) key step := by
      intro front step back split
      exact kept (next :: front) step back (by rw [split]; rfl)
    have admits : Admits world (world.step host next) key seqId message :=
      step_admits starts next (kept [] next rest rfl)
    rcases admits with ⟨same, still⟩ | ⟨more, absent, admitted⟩
    · exact ih (same ▸ once) (fun one => still (held (same ▸ one))) later
    · have none : world.copies key seqId message = 0 := by
        by_contra some_
        exact absent (held (by omega))
      exact ih (by omega) (fun _ => admitted) later

end Steps

/-- What the tracker promises about the transport events of a run. -/
structure Orderly (host : MessageHost Message) (world : TrackerWorld Message) : Prop where
  generations : ∀ connectionId, Generation connectionId (eventsOf connectionId world.events)
  reopened : Reopened world.events
  distinct : ∀ key other client state, world.clients.lookup key = some client →
    world.clients.lookup other = some state → state.connectionId = client.connectionId → other = key
  legacyTracked : ∀ clientId streamId, world.legacyStreamIds clientId = some streamId →
    (world.clients.lookup (clientId, streamId)).isSome
  increasing : ∀ connectionId, (sequenceIds host connectionId world.events).Pairwise (· < ·)
  delivered : ∀ key client seqId, world.clients.lookup key = some client →
    client.lastInboundSeqId = some seqId → ∃ delivery : Delivery Message,
      delivery.connectionId = client.connectionId ∧ delivery.seqId = some seqId ∧
        (.incomingMessage delivery ∈ world.events ∨ delivery ∈ world.overloads)

omit [DecidableEq Message] in
theorem Inv.orderly {host : MessageHost Message} {world : TrackerWorld Message}
    (inv : Inv host world) : Orderly host world where
  generations := inv.generation
  reopened := inv.reopened
  distinct := fun _ _ _ _ found otherFound same => inv.connection_inj found otherFound same
  legacyTracked := fun _ _ named => inv.legacy named
  increasing := inv.sorted
  delivered := fun _ _ _ found numbered => inv.recorded found numbered

/-- Every run is orderly, and an initialize is forwarded once as long as no step takes its identity
    away from its stream while it is admitted. -/
theorem clients_orderly (host : MessageHost Message) (steps : List (Step Message)) :
    Orderly host (run host new steps) ∧
      ∀ key seqId message, host.startsConnection message = true →
        (∀ front step back, steps = front ++ step :: back →
          (run host new front).Held key seqId message → ¬ Loses host (run host new front) key step) →
        (run host new steps).copies key seqId message ≤ 1 := by
  refine ⟨((Inv.new host).run steps).orderly, ?_⟩
  intro key seqId message starts kept
  have unsent : (new : TrackerWorld Message).copies key seqId message = 0 := rfl
  exact run_copies starts (by omega) (fun sent => by omega) steps kept

/-- Every message is an initialize. -/
def initializes : MessageHost Nat where
  startsConnection := fun _ => true
  isRequest := fun _ => true
  serializedLen := fun _ => some 1

def someClient : ClientKey := (⟨[1]⟩, ⟨[2]⟩)

/-- The round of an initialize of the client. -/
def initializeRound (seqId : UInt64) (message : Nat) (opening : Sending) : Step Nat :=
  .handle ⟨[], [.runCleanup 0], [], opening, .forwarded, ⟨[3]⟩, 0⟩
    { event := .clientMessage message, clientId := someClient.1, streamId := some someClient.2,
      seqId := some seqId, cursor := none }

/-- An initialize that is repeated right away is not forwarded again. -/
theorem clients_orderly_repeated :
    (run initializes new [initializeRound 1 0 .sent, initializeRound 1 0 .sent]).copies someClient
      1 0 ≤ 1 := by
  refine (clients_orderly initializes _).2 someClient 1 0 rfl ?_
  intro front step back split held loses
  rcases front with _ | ⟨first, front⟩
  · obtain ⟨size, member⟩ := held
    cases member
  obtain ⟨rfl, later⟩ := List.cons.inj split
  rcases front with _ | ⟨second, front⟩
  · obtain ⟨rfl, _⟩ := List.cons.inj later
    obtain ⟨_, _, _, ⟨size, fresh⟩, _⟩ := loses
    have replay : admission initializes ((run initializes new
        [initializeRound 1 0 .sent]).waitForCleanup []).1 someClient (some 1) 0 = .replay := by
      decide
    rw [replay] at fresh
    cases fresh
  · simp at later

/-- A replacement whose connection is not opened takes the admitted identities with it: the
    initialize that was accepted first is forwarded again. -/
theorem failed_replacement_forgets : (run initializes new [initializeRound 1 0 .sent,
    initializeRound 2 1 .timedOut, initializeRound 1 0 .sent]).copies someClient 1 0 = 2 := by
  decide

end TrackerWorld

end Codex.RemoteControl
