import Codex.RemoteControl.ClientTracker

/-!
# Connection generations of remote clients

Over every run of the client tracker: what the events of one connection id look like, when a
client gets its next connection, and which messages are forwarded on a connection.
-/

namespace Codex.RemoteControl

open Codex.Machine

variable {Message : Type}

/-! ## Events of a connection -/

/-- The events of one connection id, in order. -/
def eventsOf (connectionId : ConnectionId) (events : List (TransportEvent Message)) :
    List (TransportEvent Message) :=
  events.filter fun event => event.connectionId = connectionId

/-- The events of an open connection: it was opened for its client, and then only messages of
    that client came. -/
def Open (connectionId : ConnectionId) (key : ClientKey)
    (events : List (TransportEvent Message)) : Prop :=
  ∃ deliveries : List (Delivery Message),
    (∀ delivery ∈ deliveries, delivery.connectionId = connectionId ∧ delivery.key = key) ∧
      events = .connectionOpened connectionId key :: deliveries.map .incomingMessage

/-- The events of a connection id: none, those of an open connection, or these and a close. -/
def Generation (connectionId : ConnectionId) (events : List (TransportEvent Message)) : Prop :=
  events = [] ∨ ∃ key, Open connectionId key events ∨
    ∃ front, Open connectionId key front ∧ events = front ++ [.connectionClosed connectionId]

/-- A connection for a client is opened after the closes of all its earlier ones. -/
def Reopened (events : List (TransportEvent Message)) : Prop :=
  ∀ front connectionId key back,
    events = front ++ .connectionOpened connectionId key :: back →
      ∀ earlier, .connectionOpened earlier key ∈ front → .connectionClosed earlier ∈ front

/-- The sequence id of a message that is no initialize, on one connection. -/
def sequenceOf (host : MessageHost Message) (connectionId : ConnectionId) :
    TransportEvent Message → Option UInt64
  | .incomingMessage delivery =>
      if delivery.connectionId = connectionId ∧ host.startsConnection delivery.message = false then
        delivery.seqId
      else none
  | _ => none

/-- The sequence ids of the messages of a connection that are no initializes, in order. -/
def sequenceIds (host : MessageHost Message) (connectionId : ConnectionId)
    (events : List (TransportEvent Message)) : List UInt64 :=
  events.filterMap (sequenceOf host connectionId)

/-! ## Lists of events -/

section Events

variable {connectionId other : ConnectionId} {key : ClientKey}
  {events : List (TransportEvent Message)} {event : TransportEvent Message}

theorem eventsOf_append_self (same : event.connectionId = connectionId) :
    eventsOf connectionId (events ++ [event]) = eventsOf connectionId events ++ [event] := by
  simp [eventsOf, List.filter_append, same]

theorem eventsOf_append_of_ne (ne : event.connectionId ≠ connectionId) :
    eventsOf connectionId (events ++ [event]) = eventsOf connectionId events := by
  simp [eventsOf, List.filter_append, ne]

/-- An open connection was opened for its client and for no other. -/
theorem Open.mem_iff (open_ : Open connectionId key (eventsOf connectionId events))
    {otherKey : ClientKey} : .connectionOpened connectionId otherKey ∈ events ↔ otherKey = key := by
  obtain ⟨deliveries, _, same⟩ := open_
  have kept : TransportEvent.connectionOpened connectionId otherKey ∈ events ↔
      TransportEvent.connectionOpened connectionId otherKey ∈ eventsOf connectionId events := by
    simp [eventsOf, TransportEvent.connectionId]
  rw [kept, same]
  simp

theorem Reopened.append (reopened : Reopened events)
    (allowed : ∀ connectionId key, event = .connectionOpened connectionId key →
      ∀ earlier, .connectionOpened earlier key ∈ events → .connectionClosed earlier ∈ events) :
    Reopened (events ++ [event]) := by
  intro front connectionId key back split earlier opened
  rcases List.eq_nil_or_concat back with rfl | ⟨init, last, rfl⟩
  · obtain ⟨rfl, same⟩ := List.append_inj' split rfl
    exact allowed connectionId key (List.singleton_inj.mp same) earlier opened
  · rw [List.concat_eq_append, ← List.cons_append, ← List.append_assoc] at split
    obtain ⟨same, _⟩ := List.append_inj' split rfl
    exact reopened front connectionId key init same earlier opened

end Events

/-- The connection of a task that has not run. -/
def CleanupTask.running (task : CleanupTask) : Option ConnectionId :=
  match task.delivered with
  | none => some task.connectionId
  | some _ => none

namespace TrackerWorld

/-- The connections that are not closed: those of the clients and those with a close to come. -/
def owners (world : TrackerWorld Message) : List ConnectionId :=
  world.clients.entries.map (fun entry => entry.2.connectionId) ++
    world.cleanup.filterMap CleanupTask.running

/-- What holds of the tracker in every run. -/
structure Inv (host : MessageHost Message) (world : TrackerWorld Message) : Prop where
  legacy : ∀ {clientId streamId}, world.legacyStreamIds clientId = some streamId →
    (world.clients.lookup (clientId, streamId)).isSome
  nodup : world.owners.Nodup
  ownerOpen : ∀ {connectionId}, connectionId ∈ world.owners →
    ∃ key, Open connectionId key (eventsOf connectionId world.events)
  clientOpen : ∀ {key client}, world.clients.lookup key = some client →
    Open client.connectionId key (eventsOf client.connectionId world.events)
  generation : ∀ connectionId, Generation connectionId (eventsOf connectionId world.events)
  fresh : ∀ {event}, event ∈ world.events → event.connectionId < world.nextConnectionId
  unclosed : ∀ {connectionId key}, .connectionOpened connectionId key ∈ world.events →
    .connectionClosed connectionId ∈ world.events ∨ connectionId ∈ world.owners ∨
      world.receiverDropped = true
  reopened : Reopened world.events
  sorted : ∀ connectionId, (sequenceIds host connectionId world.events).Pairwise (· < ·)
  last : ∀ {key client}, world.clients.lookup key = some client →
    ∀ seqId ∈ sequenceIds host client.connectionId world.events,
      ∃ last, client.lastInboundSeqId = some last ∧ seqId ≤ last
  recorded : ∀ {key client seqId}, world.clients.lookup key = some client →
    client.lastInboundSeqId = some seqId → ∃ delivery : Delivery Message,
      delivery.connectionId = client.connectionId ∧ delivery.seqId = some seqId ∧
        (.incomingMessage delivery ∈ world.events ∨ delivery ∈ world.overloads)

/-! ## What happens besides the tracker -/

section Moves

variable {host : MessageHost Message} {world : TrackerWorld Message}

variable {cleanup : List CleanupTask}

/-- A change of the cleanups that keeps the tasks that have not run. -/
theorem Inv.withCleanup (inv : Inv host world) (same : cleanup.filterMap CleanupTask.running =
      world.cleanup.filterMap CleanupTask.running) :
    Inv host { world with cleanup := cleanup } := by
  have owners : ({ world with cleanup := cleanup } : TrackerWorld Message).owners =
      world.owners := by
    simp only [TrackerWorld.owners, same]
  refine ⟨inv.legacy, by rw [owners]; exact inv.nodup, ?_, inv.clientOpen, inv.generation,
    inv.fresh, ?_, inv.reopened, inv.sorted, inv.last, inv.recorded⟩
  · rw [owners]
    exact inv.ownerOpen
  · rw [owners]
    exact inv.unclosed

theorem Inv.dropReceiver (inv : Inv host world) :
    Inv host { world with receiverDropped := true } :=
  ⟨inv.legacy, inv.nodup, inv.ownerOpen, inv.clientOpen, inv.generation, inv.fresh,
    fun _ => .inr (.inr rfl), inv.reopened, inv.sorted, inv.last, inv.recorded⟩

theorem Inv.takeConnectionId (inv : Inv host world) :
    Inv host { world with nextConnectionId := world.nextConnectionId + 1 } :=
  ⟨inv.legacy, inv.nodup, inv.ownerOpen, inv.clientOpen, inv.generation,
    fun member => Nat.lt_succ_of_lt (inv.fresh member), inv.unclosed, inv.reopened, inv.sorted,
    inv.last, inv.recorded⟩

/-- A running task is taken off the owners when it gets a result. -/
theorem filterMap_running_set {index : Nat} {connectionId : ConnectionId}
    (found : cleanup[index]? = some ⟨connectionId, none⟩) (delivered : Bool) :
    (cleanup.filterMap CleanupTask.running).Perm (connectionId ::
      (cleanup.set index ⟨connectionId, some delivered⟩).filterMap CleanupTask.running) := by
  induction cleanup generalizing index with
  | nil => simp at found
  | cons task rest ih =>
    cases index with
    | zero =>
      simp only [List.getElem?_cons_zero, Option.some_inj] at found
      subst found
      simp [CleanupTask.running, List.filterMap_cons]
    | succ index =>
      simp only [List.getElem?_cons_succ] at found
      have inner := ih found
      cases running : CleanupTask.running task with
      | none => simpa [running] using inner
      | some own =>
        simp only [List.set_cons_succ, List.filterMap_cons, running]
        exact (inner.cons own).trans (List.Perm.swap _ _ _)

theorem owners_set (world : TrackerWorld Message) {index : Nat} {connectionId : ConnectionId}
    (found : world.cleanup[index]? = some ⟨connectionId, none⟩) (delivered : Bool)
    (events : List (TransportEvent Message)) :
    world.owners.Perm (connectionId :: ({ world with
      cleanup := world.cleanup.set index ⟨connectionId, some delivered⟩
      events := events } : TrackerWorld Message).owners) := by
  simp only [owners]
  exact ((filterMap_running_set found delivered).append_left _).trans List.perm_middle

theorem sequenceIds_append (host : MessageHost Message) (connectionId : ConnectionId)
    (events : List (TransportEvent Message)) {event : TransportEvent Message}
    (unnumbered : sequenceOf host connectionId event = none) :
    sequenceIds host connectionId (events ++ [event]) = sequenceIds host connectionId events := by
  simp [sequenceIds, List.filterMap_append, unnumbered]

theorem mem_owners_of_lookup {key : ClientKey} {client : ClientState Message}
    (found : world.clients.lookup key = some client) : client.connectionId ∈ world.owners := by
  rw [owners, List.mem_append]
  left
  exact List.mem_map.mpr ⟨⟨key, client⟩, AList.mem_lookup_iff.mp found, rfl⟩

theorem Inv.runCleanup (inv : Inv host world) (index : Nat) :
    Inv host (world.runCleanup index) := by
  unfold TrackerWorld.runCleanup
  split
  next connectionId found =>
    split
    next dropped =>
      have perm := owners_set world found false world.events
      have nodup := perm.nodup_iff.mp inv.nodup
      refine ⟨inv.legacy, (List.nodup_cons.mp nodup).2, ?_, inv.clientOpen, inv.generation,
        inv.fresh, fun _ => .inr (.inr dropped), inv.reopened, inv.sorted, inv.last,
        inv.recorded⟩
      intro other member
      exact inv.ownerOpen (perm.mem_iff.mpr (List.mem_cons_of_mem _ member))
    next =>
      have perm := owners_set world found true
        (world.events ++ [.connectionClosed connectionId])
      have nodup := perm.nodup_iff.mp inv.nodup
      obtain ⟨notOwner, nodup⟩ := List.nodup_cons.mp nodup
      obtain ⟨key, opened⟩ := inv.ownerOpen (perm.mem_iff.mpr List.mem_cons_self)
      have elsewhere : ∀ {other}, other ≠ connectionId →
          eventsOf other (world.events ++ [.connectionClosed connectionId]) =
            eventsOf other world.events := fun ne => eventsOf_append_of_ne ne.symm
      have clientElsewhere : ∀ {key client}, world.clients.lookup key = some client →
          client.connectionId ≠ connectionId := by
        rintro key client located rfl
        apply notOwner
        rw [owners, List.mem_append]
        exact .inl (List.mem_map.mpr ⟨⟨key, client⟩, AList.mem_lookup_iff.mp located, rfl⟩)
      have unnumbered : ∀ other, sequenceIds host other
          (world.events ++ [.connectionClosed connectionId]) =
            sequenceIds host other world.events := fun other => sequenceIds_append host other _ rfl
      refine ⟨inv.legacy, nodup, ?_, ?_, ?_, ?_, ?_, ?_, ?_, ?_, ?_⟩
      · intro other member
        have ne : other ≠ connectionId := fun same => notOwner (same ▸ member)
        simp only [elsewhere ne]
        exact inv.ownerOpen (perm.mem_iff.mpr (List.mem_cons_of_mem _ member))
      · intro key client located
        simp only [elsewhere (clientElsewhere located)]
        exact inv.clientOpen located
      · intro other
        by_cases same : other = connectionId
        · subst same
          exact .inr ⟨key, .inr ⟨_, opened, eventsOf_append_self rfl⟩⟩
        · simp only [elsewhere same]
          exact inv.generation other
      · intro event member
        rcases List.mem_append.mp member with old | new
        · exact inv.fresh old
        · rw [List.mem_singleton] at new
          subst new
          have known := inv.fresh (opened.mem_iff.mpr rfl)
          exact known
      · intro other otherKey member
        simp only [List.mem_append, List.mem_singleton, reduceCtorEq, or_false] at member
        rcases inv.unclosed member with closed | owner | dropped
        · exact .inl (List.mem_append_left _ closed)
        · rcases List.mem_cons.mp (perm.mem_iff.mp owner) with rfl | still
          · exact .inl (by simp)
          · exact .inr (.inl still)
        · exact .inr (.inr dropped)
      · exact inv.reopened.append (by simp)
      · intro other
        simp only [unnumbered]
        exact inv.sorted other
      · intro key client located
        simp only [unnumbered]
        exact inv.last located
      · intro key client seqId located numbered
        obtain ⟨delivery, sameConnection, sameSeq, place⟩ := inv.recorded located numbered
        exact ⟨delivery, sameConnection, sameSeq, place.imp_left (List.mem_append_left _)⟩
  · exact inv

theorem Inv.move (inv : Inv host world) (next : Move) : Inv host (world.move next) := by
  cases next with
  | runCleanup index => exact inv.runCleanup index
  | dropReceiver => exact inv.dropReceiver
  | takeConnectionId => exact inv.takeConnectionId

theorem Inv.moves (inv : Inv host world) (all : List Move) : Inv host (world.moves all) := by
  induction all generalizing world with
  | nil => exact inv
  | cons next rest ih => exact ih (inv.move next)

theorem popFinished_running (cleanup : List CleanupTask) :
    (popFinished cleanup).1.filterMap CleanupTask.running =
      cleanup.filterMap CleanupTask.running := by
  fun_induction popFinished cleanup with
  | case1 => rfl
  | case2 => rfl
  | case3 connectionId rest ih => simpa [List.filterMap_cons, CleanupTask.running] using ih
  | case4 => simp [List.filterMap_cons, CleanupTask.running]

theorem popFinished_ok {rest : List CleanupTask}
    (finished : popFinished cleanup = (rest, some .ok)) : rest = [] := by
  fun_induction popFinished cleanup with
  | case1 => simpa using finished.symm
  | case2 => simp at finished
  | case3 connectionId others ih => exact ih finished
  | case4 => simp at finished

theorem Inv.waitForCleanup (inv : Inv host world) (waiting : List Move) :
    Inv host (world.waitForCleanup waiting).1 := by
  induction waiting generalizing world with
  | nil =>
    have popped := inv.withCleanup (popFinished_running world.cleanup)
    unfold TrackerWorld.waitForCleanup
    split
    next cleanup outcome found => simpa only [found] using popped
    next cleanup found => simpa only [found] using popped
  | cons next rest ih =>
    have popped := inv.withCleanup (popFinished_running world.cleanup)
    unfold TrackerWorld.waitForCleanup
    split
    next cleanup outcome found => simpa only [found] using popped
    next cleanup found =>
      rw [found] at popped
      exact ih (popped.move next)

/-- What happens besides the tracker leaves its clients alone and only sends closes. -/
structure Besides (world after : TrackerWorld Message) : Prop where
  clients : after.clients = world.clients
  legacy : after.legacyStreamIds = world.legacyStreamIds
  overloads : after.overloads = world.overloads
  events : ∃ closes : List ConnectionId,
    after.events = world.events ++ closes.map .connectionClosed

theorem Besides.refl (world : TrackerWorld Message) : Besides world world :=
  ⟨rfl, rfl, rfl, [], by simp⟩

theorem Besides.trans {middle after : TrackerWorld Message} (first : Besides world middle)
    (second : Besides middle after) : Besides world after := by
  obtain ⟨closes, firstEvents⟩ := first.events
  obtain ⟨more, secondEvents⟩ := second.events
  refine ⟨second.clients.trans first.clients, second.legacy.trans first.legacy,
    second.overloads.trans first.overloads, closes ++ more, ?_⟩
  rw [secondEvents, firstEvents, List.map_append, List.append_assoc]

theorem besides_move (world : TrackerWorld Message) (next : Move) :
    Besides world (world.move next) := by
  cases next with
  | runCleanup index =>
    change Besides world (world.runCleanup index)
    unfold TrackerWorld.runCleanup
    split
    next connectionId found =>
      split
      · exact ⟨rfl, rfl, rfl, [], by simp⟩
      · exact ⟨rfl, rfl, rfl, [connectionId], rfl⟩
    · exact .refl world
  | dropReceiver | takeConnectionId => exact ⟨rfl, rfl, rfl, [], (List.append_nil _).symm⟩

theorem besides_moves (world : TrackerWorld Message) (all : List Move) :
    Besides world (world.moves all) := by
  induction all generalizing world with
  | nil => exact .refl world
  | cons next rest ih => exact (besides_move world next).trans (ih _)

theorem besides_waitForCleanup (world : TrackerWorld Message) (waiting : List Move) :
    Besides world (world.waitForCleanup waiting).1 := by
  have popped : ∀ (world : TrackerWorld Message) cleanup,
      Besides world { world with cleanup := cleanup } :=
    fun _ _ => ⟨rfl, rfl, rfl, [], by simp⟩
  induction waiting generalizing world with
  | nil =>
    unfold TrackerWorld.waitForCleanup
    split
    · exact popped world _
    · exact popped world _
  | cons next rest ih =>
    unfold TrackerWorld.waitForCleanup
    split
    · exact popped world _
    · exact ((popped world _).trans (besides_move _ next)).trans (ih _)

/-- A wait that ends well leaves no cleanup. -/
theorem waitForCleanup_ok {waiting : List Move} {after : TrackerWorld Message}
    (waited : world.waitForCleanup waiting = (after, .ok)) : after.cleanup = [] := by
  induction waiting generalizing world with
  | nil =>
    unfold TrackerWorld.waitForCleanup at waited
    split at waited
    next cleanup outcome found =>
      rw [Prod.mk.injEq] at waited
      obtain ⟨rfl, rfl⟩ := waited
      exact popFinished_ok found
    · simp at waited
  | cons next rest ih =>
    unfold TrackerWorld.waitForCleanup at waited
    split at waited
    next cleanup outcome found =>
      rw [Prod.mk.injEq] at waited
      obtain ⟨rfl, rfl⟩ := waited
      exact popFinished_ok found
    · exact ih waited

/-- Connection ids are only taken, never given back. -/
theorem nextConnectionId_moves (world : TrackerWorld Message) (all : List Move) :
    world.nextConnectionId ≤ (world.moves all).nextConnectionId := by
  induction all generalizing world with
  | nil => exact Nat.le_refl _
  | cons next rest ih =>
    refine Nat.le_trans ?_ (ih (world.move next))
    cases next with
    | runCleanup index =>
      change world.nextConnectionId ≤ (world.runCleanup index).nextConnectionId
      unfold TrackerWorld.runCleanup
      split
      · split
        · exact Nat.le_refl _
        · exact Nat.le_refl _
      · exact Nat.le_refl _
    | dropReceiver => exact Nat.le_refl _
    | takeConnectionId => exact Nat.le_succ _

/-- Without cleanups nothing is sent besides the tracker. -/
theorem moves_of_cleanup_nil (none : world.cleanup = []) (all : List Move) :
    (world.moves all).cleanup = [] ∧ (world.moves all).events = world.events := by
  induction all generalizing world with
  | nil => exact ⟨none, rfl⟩
  | cons next rest ih =>
    have quiet : (world.move next).cleanup = [] ∧ (world.move next).events = world.events := by
      cases next with
      | runCleanup index => simp [TrackerWorld.move, TrackerWorld.runCleanup, none]
      | dropReceiver => exact ⟨none, rfl⟩
      | takeConnectionId => exact ⟨none, rfl⟩
    obtain ⟨cleanup, events⟩ := ih quiet.1
    exact ⟨cleanup, events.trans quiet.2⟩

end Moves

/-! ## Closing clients -/

section Close

variable {host : MessageHost Message} {world : TrackerWorld Message}

/-- Fewer clients, with the same connections still to be closed. -/
theorem Inv.shrink (inv : Inv host world) {clients : AList fun _ : ClientKey => ClientState Message}
    {legacyStreamIds : ClientId → Option StreamId} {cleanup : List CleanupTask}
    (legacy : ∀ {clientId streamId}, legacyStreamIds clientId = some streamId →
      (clients.lookup (clientId, streamId)).isSome)
    (perm : ({ world with clients := clients, cleanup := cleanup } :
      TrackerWorld Message).owners.Perm world.owners)
    (sub : ∀ {key client}, clients.lookup key = some client →
      world.clients.lookup key = some client) :
    Inv host { world with
      clients := clients
      legacyStreamIds := legacyStreamIds
      cleanup := cleanup } where
  legacy := legacy
  nodup := perm.nodup_iff.mpr inv.nodup
  ownerOpen := fun member => inv.ownerOpen (perm.mem_iff.mp member)
  clientOpen := fun located => inv.clientOpen (sub located)
  generation := inv.generation
  fresh := inv.fresh
  unclosed := fun opened => (inv.unclosed opened).imp_right (Or.imp_left perm.mem_iff.mpr)
  reopened := inv.reopened
  sorted := inv.sorted
  last := fun located => inv.last (sub located)
  recorded := fun located => inv.recorded (sub located)

/-- One client is removed and its close is under way. -/
theorem Inv.retireClient (inv : Inv host world) {key : ClientKey} {client : ClientState Message}
    (found : world.clients.lookup key = some client) :
    Inv host ((world.removeClient key).spawnConnectionClosed client.connectionId) := by
  refine inv.shrink ?_ ?_ ?_
  · intro clientId streamId named
    have ne : (clientId, streamId) ≠ key := by
      rintro rfl
      simp only [removeClient] at named
      split at named
      · simp at named
      next other => exact other named
    change ((world.clients.erase key).lookup (clientId, streamId)).isSome
    rw [AList.lookup_erase_ne ne]
    apply inv.legacy
    simp only [removeClient] at named
    split at named
    next same =>
      by_cases sameClient : clientId = key.1
      · simp [sameClient] at named
      · rwa [Function.update_of_ne sameClient] at named
    · exact named
  · have split := ((entries_perm_erase found).map fun entry => entry.2.connectionId).symm
    simp only [owners, removeClient, List.filterMap_cons, CleanupTask.running]
    exact List.perm_middle.trans (split.append_right _)
  · intro other state located
    simp only [removeClient, lookup_erase_eq] at located
    split at located
    · cases located
    · exact located

theorem Inv.closeClient (inv : Inv host world) (key : ClientKey) (waiting : List Move) :
    Inv host (world.closeClient key waiting).1 := by
  unfold TrackerWorld.closeClient
  split
  · exact inv
  next client found => exact (inv.retireClient found).waitForCleanup waiting

theorem Inv.retireClients (inv : Inv host world) : Inv host world.retireClients := by
  refine inv.shrink ?_ ?_ ?_
  · intro clientId streamId named
    cases named
  · have running : ∀ entries : List (Sigma fun _ : ClientKey => ClientState Message),
        (entries.map fun entry => (⟨entry.2.connectionId, none⟩ : CleanupTask)).filterMap
          CleanupTask.running = entries.map fun entry => entry.2.connectionId := by
      intro entries
      induction entries with
      | nil => rfl
      | cons entry rest ih =>
        rw [List.map_cons, List.map_cons, List.filterMap_cons, ih]
        rfl
    simp only [owners, List.filterMap_append, running]
    exact List.Perm.refl _
  · intro key client located
    simp at located

theorem Inv.closeClients (inv : Inv host world) (keys : List ClientKey)
    (waiting : List (List Move)) : Inv host (world.closeClients keys waiting) := by
  induction keys generalizing world waiting with
  | nil => exact inv
  | cons key rest ih =>
    have closed := inv.closeClient key (waiting.headD [])
    unfold TrackerWorld.closeClients
    split
    next after found =>
      rw [found] at closed
      exact ih closed waiting.tail
    next after outcome _ found =>
      rw [found] at closed
      exact closed

/-- A close that ends well leaves no cleanup and no client under its key. -/
theorem closeClient_ok {key : ClientKey} {waiting : List Move} {after : TrackerWorld Message}
    (closed : world.closeClient key waiting = (after, .ok)) (none : world.cleanup = []) :
    after.cleanup = [] ∧ after.clients = world.clients.erase key := by
  unfold TrackerWorld.closeClient at closed
  split at closed
  next absent =>
    rw [Prod.mk.injEq] at closed
    obtain ⟨rfl, _⟩ := closed
    exact ⟨none, (erase_of_absent absent).symm⟩
  next client found =>
    refine ⟨waitForCleanup_ok closed, ?_⟩
    have besides := besides_waitForCleanup
      ((world.removeClient key).spawnConnectionClosed client.connectionId) waiting
    rw [closed] at besides
    exact besides.clients

end Close

/-! ## Messages -/

section Deliver

variable {host : MessageHost Message} {world : TrackerWorld Message} {key : ClientKey}
  {client : ClientState Message}

theorem owners_insert (found : world.clients.lookup key = some client)
    {changed : ClientState Message} (same : changed.connectionId = client.connectionId)
    (events : List (TransportEvent Message)) (overloads : List (Delivery Message)) :
    ({ world with
      clients := world.clients.insert key changed
      events := events
      overloads := overloads } : TrackerWorld Message).owners.Perm world.owners := by
  have split := ((entries_perm_erase found).map fun entry => entry.2.connectionId).symm
  simp only [owners]
  apply List.Perm.append_right
  rw [AList.entries_insert, List.map_cons, same]
  exact split

theorem Inv.connection_inj (inv : Inv host world) {other : ClientKey}
    {state : ClientState Message} (found : world.clients.lookup key = some client)
    (otherFound : world.clients.lookup other = some state)
    (same : state.connectionId = client.connectionId) : other = key := by
  have mine := inv.clientOpen found
  have theirs := inv.clientOpen otherFound
  rw [same] at theirs
  exact mine.mem_iff.mp (theirs.mem_iff.mpr rfl)

theorem eventsOf_append_map (connectionId : ConnectionId) (events : List (TransportEvent Message))
    (arrived : List (Delivery Message)) :
    eventsOf connectionId (events ++ arrived.map .incomingMessage) =
      eventsOf connectionId events ++
        (arrived.filter fun delivery => delivery.connectionId = connectionId).map
          .incomingMessage := by
  simp only [eventsOf, List.filter_append, List.filter_map]
  rfl

/-- Messages arrive on the connection of a client, or are answered for it, and the state of the
    client changes. -/
theorem Inv.deliver (inv : Inv host world) (found : world.clients.lookup key = some client)
    {changed : ClientState Message} (same : changed.connectionId = client.connectionId)
    (arrived answered : List (Delivery Message))
    (about : ∀ delivery ∈ arrived, delivery.connectionId = client.connectionId ∧
      delivery.key = key)
    (sorted : (sequenceIds host client.connectionId
      (world.events ++ arrived.map .incomingMessage)).Pairwise (· < ·))
    (last : ∀ seqId ∈ sequenceIds host client.connectionId
      (world.events ++ arrived.map .incomingMessage),
        ∃ last, changed.lastInboundSeqId = some last ∧ seqId ≤ last)
    (recorded : ∀ seqId, changed.lastInboundSeqId = some seqId →
      client.lastInboundSeqId = some seqId ∨ ∃ delivery ∈ arrived ++ answered,
        delivery.connectionId = client.connectionId ∧ delivery.seqId = some seqId) :
    Inv host { world with
      clients := world.clients.insert key changed
      events := world.events ++ arrived.map .incomingMessage
      overloads := world.overloads ++ answered } := by
  have perm := owners_insert found same (world.events ++ arrived.map .incomingMessage)
    (world.overloads ++ answered)
  have elsewhere : ∀ {connectionId}, connectionId ≠ client.connectionId →
      eventsOf connectionId (world.events ++ arrived.map .incomingMessage) =
        eventsOf connectionId world.events := by
    intro connectionId ne
    rw [eventsOf_append_map, List.filter_eq_nil_iff.mpr, List.map_nil, List.append_nil]
    intro delivery member
    rw [(about delivery member).1]
    simpa using Ne.symm ne
  have here : Open client.connectionId key
      (eventsOf client.connectionId (world.events ++ arrived.map .incomingMessage)) := by
    obtain ⟨deliveries, mine, events⟩ := inv.clientOpen found
    refine ⟨deliveries ++ arrived, ?_, ?_⟩
    · intro delivery member
      exact (List.mem_append.mp member).elim (mine delivery) (about delivery)
    · rw [eventsOf_append_map, events, List.filter_eq_self.mpr, List.map_append]
      · rfl
      · intro delivery member
        simpa using (about delivery member).1
  have numbers : ∀ {connectionId}, connectionId ≠ client.connectionId →
      sequenceIds host connectionId (world.events ++ arrived.map .incomingMessage) =
        sequenceIds host connectionId world.events := by
    intro connectionId ne
    have none : (arrived.map TransportEvent.incomingMessage).filterMap
        (sequenceOf host connectionId) = [] := by
      refine List.filterMap_eq_nil_iff.mpr ?_
      intro event member
      obtain ⟨delivery, arrivedMember, rfl⟩ := List.mem_map.mp member
      rw [sequenceOf, if_neg]
      rw [(about delivery arrivedMember).1]
      exact fun both => ne both.1.symm
    rw [sequenceIds, List.filterMap_append, none, List.append_nil]
    rfl
  have states : ∀ {other state}, (world.clients.insert key changed).lookup other = some state →
      (other = key ∧ state = changed) ∨
        (other ≠ key ∧ world.clients.lookup other = some state ∧
          state.connectionId ≠ client.connectionId) := by
    intro other state located
    rw [lookup_insert_eq] at located
    split at located
    next atKey => exact .inl ⟨atKey, (Option.some_inj.mp located).symm⟩
    next ne =>
      refine .inr ⟨ne, located, ?_⟩
      intro sameId
      exact ne (inv.connection_inj found located sameId)
  refine ⟨?_, perm.nodup_iff.mpr inv.nodup, ?_, ?_, ?_, ?_, ?_, ?_, ?_, ?_, ?_⟩
  · intro clientId streamId named
    rw [lookup_insert_eq]
    split
    · rfl
    · exact inv.legacy named
  · intro connectionId member
    by_cases mine : connectionId = client.connectionId
    · rw [mine]
      exact ⟨key, here⟩
    · simp only [elsewhere mine]
      exact inv.ownerOpen (perm.mem_iff.mp member)
  · intro other state located
    rcases states located with ⟨rfl, rfl⟩ | ⟨_, old, ne⟩
    · rw [same]
      exact here
    · simp only [elsewhere ne]
      exact inv.clientOpen old
  · intro connectionId
    by_cases mine : connectionId = client.connectionId
    · rw [mine]
      exact .inr ⟨key, .inl here⟩
    · simp only [elsewhere mine]
      exact inv.generation connectionId
  · intro event member
    rcases List.mem_append.mp member with old | new
    · exact inv.fresh old
    · obtain ⟨delivery, arrivedMember, rfl⟩ := List.mem_map.mp new
      have known := inv.fresh ((inv.clientOpen found).mem_iff.mpr rfl)
      rw [TransportEvent.connectionId, (about delivery arrivedMember).1]
      exact known
  · intro connectionId otherKey member
    simp only [List.mem_append, List.mem_map, reduceCtorEq, and_false, exists_false,
      or_false] at member
    rcases inv.unclosed member with closed | owner | dropped
    · exact .inl (List.mem_append_left _ closed)
    · exact .inr (.inl (perm.mem_iff.mpr owner))
    · exact .inr (.inr dropped)
  · have grown : ∀ (events : List (TransportEvent Message)), Reopened events →
        ∀ arrived : List (Delivery Message),
          Reopened (events ++ arrived.map .incomingMessage) := by
      intro events reopened arrived
      induction arrived using List.reverseRecOn with
      | nil => simpa using reopened
      | append_singleton front delivery ih =>
        rw [List.map_append, ← List.append_assoc]
        exact ih.append (by simp)
    exact grown _ inv.reopened arrived
  · intro connectionId
    by_cases mine : connectionId = client.connectionId
    · rw [mine]
      exact sorted
    · simp only [numbers mine]
      exact inv.sorted connectionId
  · intro other state located
    rcases states located with ⟨rfl, rfl⟩ | ⟨_, old, ne⟩
    · rw [same]
      exact last
    · simp only [numbers ne]
      exact inv.last old
  intro other state seqId located numbered
  have place : ∀ {delivery : Delivery Message}, delivery ∈ arrived ++ answered →
      .incomingMessage delivery ∈ world.events ++ arrived.map .incomingMessage ∨
        delivery ∈ world.overloads ++ answered := by
    intro delivery member
    rcases List.mem_append.mp member with arrivedMember | answeredMember
    · exact .inl (List.mem_append_right _ (List.mem_map_of_mem arrivedMember))
    · exact .inr (List.mem_append_right _ answeredMember)
  have older : ∀ {key client}, world.clients.lookup key = some client →
      client.lastInboundSeqId = some seqId → ∃ delivery : Delivery Message,
        delivery.connectionId = client.connectionId ∧ delivery.seqId = some seqId ∧
          (.incomingMessage delivery ∈ world.events ++ arrived.map .incomingMessage ∨
            delivery ∈ world.overloads ++ answered) := by
    intro key client located numbered
    obtain ⟨delivery, sameConnection, sameSeq, place⟩ := inv.recorded located numbered
    exact ⟨delivery, sameConnection, sameSeq,
      place.imp (List.mem_append_left _) (List.mem_append_left _)⟩
  rcases states located with ⟨rfl, rfl⟩ | ⟨_, old, _⟩
  · rw [same]
    rcases recorded seqId numbered with before | ⟨delivery, member, sameConnection, sameSeq⟩
    · exact older found before
    · exact ⟨delivery, sameConnection, sameSeq, place member⟩
  · exact older old numbered

/-- A change of a client that keeps its connection and its last sequence id. -/
theorem Inv.modifyClient (inv : Inv host world) (key : ClientKey)
    {change : ClientState Message → ClientState Message}
    (same : ∀ client, (change client).connectionId = client.connectionId ∧
      (change client).lastInboundSeqId = client.lastInboundSeqId) :
    Inv host (world.modifyClient key change) := by
  unfold TrackerWorld.modifyClient
  split
  · exact inv
  next client found =>
    have delivered := inv.deliver found (same client).1 [] [] (by simp)
      (by simpa using inv.sorted client.connectionId)
      (by simpa [(same client).2] using inv.last found)
      (fun seqId numbered => .inl ((same client).2 ▸ numbered))
    simpa using delivered

theorem modifyClient_of_lookup (found : world.clients.lookup key = some client)
    (change : ClientState Message → ClientState Message) :
    world.modifyClient key change =
      { world with clients := world.clients.insert key (change client) } := by
  rw [modifyClient, found]

theorem lookup_modifyClient (found : world.clients.lookup key = some client)
    (change : ClientState Message → ClientState Message) :
    (world.modifyClient key change).clients.lookup key = some (change client) := by
  rw [modifyClient_of_lookup found]
  exact AList.lookup_insert _

/-- A client is changed after messages went out. -/
theorem modifyClient_delivered (found : world.clients.lookup key = some client)
    (change : ClientState Message → ClientState Message)
    (events : List (TransportEvent Message)) (overloads : List (Delivery Message)) :
    ({ world with events := events, overloads := overloads } :
      TrackerWorld Message).modifyClient key change =
      { world with
        clients := world.clients.insert key (change client)
        events := events
        overloads := overloads } := by
  rw [modifyClient, found]

theorem pairwise_of_length_le_one {numbers : List UInt64} (few : numbers.length ≤ 1) :
    numbers.Pairwise (· < ·) := by
  rcases numbers with _ | ⟨number, rest⟩
  · exact List.Pairwise.nil
  · obtain rfl : rest = [] := List.eq_nil_of_length_eq_zero (by simpa using few)
    exact List.pairwise_singleton _ _

/-- A message that is forwarded went into the channel or was answered; else nothing happened. -/
theorem forwardMessage_cases (host : MessageHost Message) (world : TrackerWorld Message)
    (delivery : Delivery Message) (forwarding : Forwarding) :
    (∃ arrived answered : List (Delivery Message), arrived ++ answered = [delivery] ∧
      world.forwardMessage host delivery forwarding = ({ world with
        events := world.events ++ arrived.map .incomingMessage
        overloads := world.overloads ++ answered }, .ok)) ∨
    ((world.forwardMessage host delivery forwarding).2 ≠ .ok ∧
      (world.forwardMessage host delivery forwarding).1 = world) := by
  cases forwarding with
  | forwarded =>
    simp only [forwardMessage]
    split
    · exact .inr ⟨by simp, rfl⟩
    · exact .inl ⟨[delivery], [], rfl, by simp⟩
  | overloaded =>
    simp only [forwardMessage]
    split
    · exact .inl ⟨[], [delivery], rfl, by simp⟩
    · exact .inr ⟨by simp, rfl⟩
  | refused => exact .inr ⟨by simp [forwardMessage], rfl⟩
  | aborted => exact .inr ⟨by simp [forwardMessage], rfl⟩

/-- A message that is no duplicate comes after all that were forwarded on its connection. -/
theorem Inv.before (inv : Inv host world) (found : world.clients.lookup key = some client)
    {seqId : UInt64} (newer : isDuplicate client (some seqId) = false) :
    ∀ earlier ∈ sequenceIds host client.connectionId world.events, earlier < seqId := by
  intro earlier member
  obtain ⟨last, lastSeqId, bound⟩ := inv.last found earlier member
  simp only [isDuplicate, lastSeqId, decide_eq_false_iff_not, UInt64.not_le] at newer
  exact UInt64.lt_of_le_of_lt bound newer

end Deliver

/-! ## Opening a connection -/

section Opening

variable {host : MessageHost Message} {world : TrackerWorld Message} {key : ClientKey}

variable {connectionId : ConnectionId}

theorem sequenceIds_of_eventsOf_nil {events : List (TransportEvent Message)}
    (unused : eventsOf connectionId events = []) :
    sequenceIds host connectionId events = [] := by
  refine List.filterMap_eq_nil_iff.mpr ?_
  intro event member
  have other := List.filter_eq_nil_iff.mp unused event member
  cases event with
  | connectionOpened opened otherKey => rfl
  | connectionClosed closed => rfl
  | incomingMessage delivery =>
    rw [sequenceOf, if_neg]
    intro both
    exact other (decide_eq_true both.1)

theorem Inv.unused (inv : Inv host world)
    (new : world.nextConnectionId ≤ connectionId) : eventsOf connectionId world.events = [] := by
  refine List.filter_eq_nil_iff.mpr ?_
  intro event member same
  have older := inv.fresh member
  rw [of_decide_eq_true same] at older
  exact absurd older (Nat.not_lt.mpr new)

/-- An event that is sent goes into the channel; else nothing happened. -/
theorem sendTransportEvent_cases (world : TrackerWorld Message) (event : TransportEvent Message)
    (sending : Sending) :
    (sending = .sent ∧ world.receiverDropped = false ∧
      world.sendTransportEvent event sending =
        ({ world with events := world.events ++ [event] }, .ok)) ∨
    ((world.sendTransportEvent event sending).2 ≠ .ok ∧
      (world.sendTransportEvent event sending).1 = world) := by
  cases sending with
  | aborted => exact .inr ⟨by simp [sendTransportEvent], rfl⟩
  | timedOut => exact .inr ⟨by simp [sendTransportEvent], rfl⟩
  | sent =>
    cases receiver : world.receiverDropped with
    | true => exact .inr (by simp [sendTransportEvent, receiver])
    | false => exact .inl (by simp [sendTransportEvent, receiver])

/-- A connection that was not used is opened for a client that is not tracked, when no close is to
    come. -/
theorem Inv.insertClient (inv : Inv host world) (absent : world.clients.lookup key = none)
    (quiet : world.cleanup = []) (receiver : world.receiverDropped = false)
    (unused : eventsOf connectionId world.events = [])
    (taken : connectionId < world.nextConnectionId) (now : Nat)
    (admitted : List (UInt64 × Message × Nat)) (isLegacyStreamId : Bool) :
    Inv host (({ world with
      events := world.events ++ [.connectionOpened connectionId key] } :
        TrackerWorld Message).insertClient key connectionId now admitted isLegacyStreamId) := by
  have elsewhere : ∀ {other}, other ≠ connectionId →
      eventsOf other (world.events ++ [.connectionOpened connectionId key]) =
        eventsOf other world.events := fun ne => eventsOf_append_of_ne ne.symm
  have appended : eventsOf connectionId (world.events ++ [.connectionOpened connectionId key]) =
      [.connectionOpened connectionId key] := by
    rw [eventsOf, List.filter_append]
    change eventsOf connectionId world.events ++ _ = _
    rw [unused]
    simp [TransportEvent.connectionId]
  have here : Open connectionId key
      (eventsOf connectionId (world.events ++ [.connectionOpened connectionId key])) :=
    ⟨[], by simp, appended⟩
  have notOwner : connectionId ∉ world.owners := by
    intro owner
    obtain ⟨otherKey, deliveries, _, events⟩ := inv.ownerOpen owner
    rw [unused] at events
    cases events
  have owners : (({ world with
      events := world.events ++ [.connectionOpened connectionId key] } :
        TrackerWorld Message).insertClient key connectionId now admitted isLegacyStreamId).owners =
      connectionId :: world.owners := by
    have erased : List.kerase key world.clients.entries = world.clients.entries :=
      congrArg AList.entries (erase_of_absent absent)
    simp only [TrackerWorld.owners, TrackerWorld.insertClient, AList.entries_insert, List.map_cons,
      List.cons_append, erased]
  have states : ∀ {other : ClientKey} {state}, (world.clients.insert key
      (⟨connectionId, now, none, admitted⟩ : ClientState Message)).lookup other = some state →
      (other = key ∧ state = ⟨connectionId, now, none, admitted⟩) ∨
        (world.clients.lookup other = some state ∧ state.connectionId ≠ connectionId) := by
    intro other state located
    rw [lookup_insert_eq] at located
    split at located
    next atKey => exact .inl ⟨atKey, (Option.some_inj.mp located).symm⟩
    next ne =>
      refine .inr ⟨located, ?_⟩
      intro sameId
      exact notOwner (sameId ▸ mem_owners_of_lookup located)
  have unnumbered : ∀ other, sequenceIds host other
      (world.events ++ [.connectionOpened connectionId key]) =
        sequenceIds host other world.events := fun other => sequenceIds_append host other _ rfl
  refine ⟨?_, ?_, ?_, ?_, ?_, ?_, ?_, ?_, ?_, ?_, ?_⟩
  · intro clientId streamId named
    change ((world.clients.insert key _).lookup (clientId, streamId)).isSome
    rw [lookup_insert_eq]
    split
    · rfl
    next ne =>
      apply inv.legacy
      simp only [TrackerWorld.insertClient] at named
      split at named
      · by_cases sameClient : clientId = key.1
        · subst sameClient
          simp only [Function.update_self, Option.some_inj] at named
          exact absurd (by rw [← named]) ne
        · rwa [Function.update_of_ne sameClient] at named
      · exact named
  · rw [owners]
    exact List.nodup_cons.mpr ⟨notOwner, inv.nodup⟩
  · intro other member
    rw [owners] at member
    rcases List.mem_cons.mp member with rfl | old
    · exact ⟨key, here⟩
    · have ne : other ≠ connectionId := fun same => notOwner (same ▸ old)
      obtain ⟨otherKey, open_⟩ := inv.ownerOpen old
      exact ⟨otherKey, by rw [← elsewhere ne] at open_; exact open_⟩
  · intro other state located
    rcases states located with ⟨rfl, rfl⟩ | ⟨old, ne⟩
    · exact here
    · have open_ := inv.clientOpen old
      rw [← elsewhere ne] at open_
      exact open_
  · intro other
    by_cases same : other = connectionId
    · subst same
      exact .inr ⟨key, .inl here⟩
    · have known := inv.generation other
      rw [← elsewhere same] at known
      exact known
  · intro event member
    rcases List.mem_append.mp member with old | new
    · exact inv.fresh old
    · rw [List.mem_singleton] at new
      subst new
      exact taken
  · intro other otherKey member
    rw [owners]
    rcases List.mem_append.mp member with old | new
    · rcases inv.unclosed old with closed | owner | dropped
      · exact .inl (List.mem_append_left _ closed)
      · exact .inr (.inl (List.mem_cons_of_mem _ owner))
      · exact .inr (.inr dropped)
    · rw [List.mem_singleton, TransportEvent.connectionOpened.injEq] at new
      obtain ⟨rfl, rfl⟩ := new
      exact .inr (.inl List.mem_cons_self)
  · apply inv.reopened.append
    rintro opened openedKey same earlier member
    rw [TransportEvent.connectionOpened.injEq] at same
    obtain ⟨rfl, rfl⟩ := same
    rcases inv.unclosed member with closed | owner | dropped
    · exact closed
    · -- the only connections that are not closed belong to clients, and the key has none
      rw [TrackerWorld.owners, quiet, List.filterMap_nil, List.append_nil] at owner
      obtain ⟨entry, entryMember, rfl⟩ := List.mem_map.mp owner
      have located := AList.mem_lookup_iff.mpr entryMember
      have sameKey := (inv.clientOpen located).mem_iff.mp member
      rw [← sameKey] at located
      rw [absent] at located
      cases located
    · rw [receiver] at dropped
      cases dropped
  · intro other
    have known := inv.sorted other
    rw [← unnumbered] at known
    exact known
  · intro other state located
    rcases states located with ⟨rfl, rfl⟩ | ⟨old, _⟩
    · intro seqId member
      change seqId ∈ sequenceIds host connectionId
        (world.events ++ [.connectionOpened connectionId _]) at member
      rw [unnumbered, sequenceIds_of_eventsOf_nil unused] at member
      cases member
    · have known := inv.last old
      rw [← unnumbered] at known
      exact known
  · intro other state seqId located numbered
    rcases states located with ⟨rfl, rfl⟩ | ⟨old, _⟩
    · cases numbered
    · obtain ⟨delivery, sameConnection, sameSeq, place⟩ := inv.recorded old numbered
      exact ⟨delivery, sameConnection, sameSeq, place.imp_left (List.mem_append_left _)⟩

/-- The initialize of a connection that was just opened. -/
theorem Inv.forwardInitialize (inv : Inv host world) (choices : Choices)
    {delivery : Delivery Message} {client : ClientState Message}
    (found : world.clients.lookup delivery.key = some client)
    (own : client.connectionId = delivery.connectionId)
    (first : sequenceIds host client.connectionId world.events = [])
    (starts : host.startsConnection delivery.message = true) (size : Option Nat)
    (isLegacyStreamId : Bool) :
    Inv host (world.forwardInitialize host choices delivery size isLegacyStreamId).1 := by
  unfold TrackerWorld.forwardInitialize
  rcases forwardMessage_cases host world delivery choices.forwarding with
    ⟨arrived, answered, one, forwarded⟩ | ⟨failed, same⟩
  · rw [forwarded]
    have about : ∀ other ∈ arrived ++ answered, other = delivery := by
      rw [one]
      simp
    have unnumbered : sequenceIds host client.connectionId
        (world.events ++ arrived.map .incomingMessage) = [] := by
      rw [sequenceIds, List.filterMap_append]
      change sequenceIds host client.connectionId world.events ++ _ = []
      rw [first, List.nil_append]
      refine List.filterMap_eq_nil_iff.mpr ?_
      intro event member
      obtain ⟨other, otherMember, rfl⟩ := List.mem_map.mp member
      rw [about other (List.mem_append_left _ otherMember), sequenceOf, if_neg]
      simp [starts]
    have arrivedAbout : ∀ other ∈ arrived, other.connectionId = client.connectionId ∧
        other.key = delivery.key := by
      intro other member
      rw [about other (List.mem_append_left _ member)]
      exact ⟨own.symm, rfl⟩
    have changed : ∀ state : ClientState Message, state.connectionId = client.connectionId →
        (∀ seqId, state.lastInboundSeqId = some seqId →
          client.lastInboundSeqId = some seqId ∨ delivery.seqId = some seqId) →
        Inv host { world with
          clients := world.clients.insert delivery.key state
          events := world.events ++ arrived.map .incomingMessage
          overloads := world.overloads ++ answered } := by
      intro state sameId numbered
      refine inv.deliver found sameId arrived answered arrivedAbout ?_ ?_ ?_
      · rw [unnumbered]
        exact List.Pairwise.nil
      · rw [unnumbered]
        simp
      · intro seqId last
        rcases numbered seqId last with before | now
        · exact .inl before
        · exact .inr ⟨delivery, one ▸ List.mem_singleton_self _, own.symm, now⟩
    simp only
    rw [modifyClient_delivered found]
    split
    · exact changed _ rfl fun seqId numbered => .inl numbered
    unfold TrackerWorld.recordInboundMessageDelivery
    split
    · exact changed _ rfl fun seqId numbered => .inl numbered
    next seqId numbered =>
      rw [modifyClient_of_lookup (AList.lookup_insert _), AList.insert_insert]
      refine changed _ rfl fun other last => .inr ?_
      rw [numbered]
      exact last
  · split
    next after ok => exact absurd (congrArg Prod.snd ok) failed
    next after stopped =>
      rw [stopped] at same
      simp only at same
      rw [same, ← own]
      exact inv.retireClient found
    · rw [same]
      exact inv

theorem Inv.openConnection (inv : Inv host world) (choices : Choices)
    (absent : world.clients.lookup key = none) (quiet : world.cleanup = [])
    {seqId : Option UInt64} {message : Message} (starts : host.startsConnection message = true)
    (size : Option Nat) (isLegacyStreamId : Bool) (admitted : List (UInt64 × Message × Nat)) :
    Inv host (world.openConnection host choices key seqId message size isLegacyStreamId
      admitted).1 := by
  have taken : Inv host ((world.move .takeConnectionId).moves choices.openMoves) :=
    (inv.move _).moves _
  have besides := (besides_move world .takeConnectionId).trans
    (besides_moves _ choices.openMoves)
  obtain ⟨stillQuiet, sameEvents⟩ := moves_of_cleanup_nil
    (show (world.move .takeConnectionId).cleanup = [] from quiet) choices.openMoves
  have later : world.nextConnectionId <
      ((world.move .takeConnectionId).moves choices.openMoves).nextConnectionId :=
    Nat.lt_of_lt_of_le (Nat.lt_succ_self _)
      (nextConnectionId_moves (world.move .takeConnectionId) choices.openMoves)
  unfold TrackerWorld.openConnection
  split
  · exact inv
  simp only
  generalize (world.move .takeConnectionId).moves choices.openMoves = moved at *
  rcases sendTransportEvent_cases moved (.connectionOpened world.nextConnectionId key)
    choices.opening with ⟨_, receiver, sent⟩ | ⟨failed, same⟩
  · rw [sent]
    have unused : eventsOf world.nextConnectionId moved.events = [] := by
      rw [sameEvents]
      exact inv.unused (Nat.le_refl _)
    have opened := taken.insertClient (besides.clients ▸ absent) stillQuiet receiver unused later
      choices.now admitted isLegacyStreamId
    refine opened.forwardInitialize choices (AList.lookup_insert _) rfl ?_ starts size
      isLegacyStreamId
    exact (sequenceIds_append host world.nextConnectionId moved.events rfl).trans
      (sequenceIds_of_eventsOf_nil unused)
  · split
    next after ok => exact absurd (congrArg Prod.snd ok) failed
    · rw [same]
      exact taken

end Opening

/-! ## The handlers -/

section Handlers

variable {host : MessageHost Message} {world : TrackerWorld Message} {key : ClientKey}

variable {seqId : Option UInt64} {message : Message}

theorem Inv.replaceConnection (inv : Inv host world) (quiet : world.cleanup = [])
    (choices : Choices) (key : ClientKey) (starts : host.startsConnection message = true)
    (size : Option Nat) (isLegacyStreamId : Bool) :
    Inv host (world.replaceConnection host choices key seqId message size isLegacyStreamId).1 := by
  have closed := inv.closeClient key choices.closeMoves
  unfold TrackerWorld.replaceConnection
  split
  next after ended =>
    rw [ended] at closed
    obtain ⟨stillQuiet, erased⟩ := closeClient_ok ended quiet
    refine closed.openConnection choices ?_ stillQuiet starts size isLegacyStreamId _
    rw [erased, AList.lookup_erase]
  · exact closed

theorem Inv.handleInitialize [DecidableEq Message] (inv : Inv host world)
    (quiet : world.cleanup = []) (choices : Choices) (key : ClientKey)
    (starts : host.startsConnection message = true) (isLegacyStreamId : Bool) :
    Inv host (world.handleInitialize host choices key seqId message isLegacyStreamId).1 := by
  unfold TrackerWorld.handleInitialize
  split
  · exact inv
  · exact inv
  · exact inv.replaceConnection quiet choices key starts _ _

theorem Inv.handleClientMessage (inv : Inv host world) (choices : Choices) (key : ClientKey)
    (other : host.startsConnection message = false) :
    Inv host (world.handleClientMessage host choices key seqId message).1 := by
  unfold TrackerWorld.handleClientMessage
  split
  · exact inv
  next client found =>
    split
    · exact inv
    next newer =>
      have touched : Inv host (world.touch key choices.now) :=
        inv.modifyClient key fun _ => ⟨rfl, rfl⟩
      rcases forwardMessage_cases host (world.touch key choices.now)
        ⟨client.connectionId, key, seqId, message⟩ choices.forwarding with
        ⟨arrived, answered, one, forwarded⟩ | ⟨failed, same⟩
      · rw [forwarded]
        simp only
        rw [touch, modifyClient_of_lookup found]
        have about : ∀ delivery ∈ arrived ++ answered,
            delivery = ⟨client.connectionId, key, seqId, message⟩ := by
          rw [one]
          simp
        have arrivedAbout : ∀ delivery ∈ arrived,
            delivery.connectionId = client.connectionId ∧ delivery.key = key := by
          intro delivery member
          rw [about delivery (List.mem_append_left _ member)]
          exact ⟨rfl, rfl⟩
        have numbers : ∀ number ∈ (arrived.map TransportEvent.incomingMessage).filterMap
            (sequenceOf host client.connectionId), seqId = some number := by
          intro number member
          obtain ⟨event, eventMember, numbered⟩ := List.mem_filterMap.mp member
          obtain ⟨delivery, deliveryMember, rfl⟩ := List.mem_map.mp eventMember
          rw [about delivery (List.mem_append_left _ deliveryMember)] at numbered
          simpa [sequenceOf, other] using numbered
        have split_ : sequenceIds host client.connectionId
            (world.events ++ arrived.map .incomingMessage) =
              sequenceIds host client.connectionId world.events ++
                (arrived.map TransportEvent.incomingMessage).filterMap
                  (sequenceOf host client.connectionId) := by
          rw [sequenceIds, List.filterMap_append]
          rfl
        unfold TrackerWorld.recordInboundMessageDelivery
        cases seqId with
        | none =>
          have none : (arrived.map TransportEvent.incomingMessage).filterMap
              (sequenceOf host client.connectionId) = [] := by
            refine List.eq_nil_iff_forall_not_mem.mpr ?_
            intro number member
            cases numbers number member
          rw [none, List.append_nil] at split_
          simp only
          refine inv.deliver found ?_ arrived answered arrivedAbout ?_ ?_ ?_
          · rfl
          · rw [split_]
            exact inv.sorted _
          · rw [split_]
            exact inv.last found
          · exact fun number last => .inl last
        | some seqId =>
          have before := inv.before found (Bool.eq_false_of_not_eq_true newer)
          simp only
          rw [modifyClient_of_lookup (AList.lookup_insert _), AList.insert_insert]
          refine inv.deliver found ?_ arrived answered arrivedAbout ?_ ?_ ?_
          · rfl
          · rw [split_]
            refine List.pairwise_append.mpr ⟨inv.sorted _, ?_, ?_⟩
            · have short : arrived.length ≤ 1 := by
                have total := congrArg List.length one
                simp only [List.length_append, List.length_singleton] at total
                omega
              have few : ((arrived.map TransportEvent.incomingMessage).filterMap
                  (sequenceOf host client.connectionId)).length ≤ 1 :=
                Nat.le_trans (List.length_filterMap_le _ _) (by rwa [List.length_map])
              exact pairwise_of_length_le_one few
            · intro earlier member number last
              obtain rfl := Option.some_inj.mp (numbers number last)
              exact before earlier member
          · intro number member
            refine ⟨seqId, rfl, ?_⟩
            rw [split_] at member
            rcases List.mem_append.mp member with old | new
            · exact UInt64.le_of_lt (before number old)
            · rw [Option.some_inj.mp (numbers number new)]
              exact UInt64.le_refl _
          · intro number last
            refine .inr ⟨_, one ▸ List.mem_singleton_self _, rfl, ?_⟩
            exact last
      · split
        next after ok => exact absurd (congrArg Prod.snd ok) failed
        · rw [same]
          exact touched

theorem Inv.handleMessage [DecidableEq Message] (inv : Inv host world) (choices : Choices)
    (envelope : ClientEnvelope Message) :
    Inv host (world.handleMessage host choices envelope).1 := by
  have waited := inv.waitForCleanup choices.cleanupMoves
  unfold TrackerWorld.handleMessage
  split
  next after ok =>
    rw [ok] at waited
    have quiet := waitForCleanup_ok ok
    simp only
    split
    · exact waited
    unfold TrackerWorld.handleEvent
    split
    next message event =>
      split
      next starts => exact waited.handleInitialize quiet choices _ starts _
      next other =>
        exact waited.handleClientMessage choices _ (Bool.eq_false_of_not_eq_true other)
    · exact waited
    · exact waited
    · exact waited.modifyClient _ fun _ => ⟨rfl, rfl⟩
    · exact waited.closeClient _ _
  · exact waited

theorem Inv.step [DecidableEq Message] (inv : Inv host world) (next : Step Message) :
    Inv host (world.step host next) := by
  cases next with
  | handle choices envelope => exact inv.handleMessage choices envelope
  | writerEnded key connectionId waiting =>
    change Inv host (world.writerEnded key connectionId waiting)
    unfold TrackerWorld.writerEnded
    split
    · exact inv.closeClient key waiting
    · exact inv
  | sweep activity now keys waiting =>
    have active : Inv host (activity.foldl (fun world entry =>
        world.recordAckActivity entry.1 entry.2) world) := by
      induction activity generalizing world with
      | nil => exact inv
      | cons entry rest ih => exact ih (inv.modifyClient entry.1 fun _ => ⟨rfl, rfl⟩)
    change Inv host (world.sweep activity now keys waiting)
    unfold TrackerWorld.sweep
    simp only
    split
    · exact active.closeClients keys waiting
    · exact active
  | retire => exact inv.retireClients
  | closeAll waiting => exact inv.retireClients.waitForCleanup waiting
  | background move => exact inv.move move

theorem Inv.new (host : MessageHost Message) :
    Inv host (TrackerWorld.new : TrackerWorld Message) where
  legacy := by simp [TrackerWorld.new]
  nodup := List.nodup_nil
  ownerOpen := by simp [owners, TrackerWorld.new]
  clientOpen := by simp [TrackerWorld.new]
  generation := fun _ => .inl rfl
  fresh := by simp [TrackerWorld.new]
  unclosed := by simp [TrackerWorld.new]
  reopened := by
    intro front connectionId key back split
    simp [TrackerWorld.new] at split
  sorted := fun _ => List.Pairwise.nil
  last := by simp [TrackerWorld.new]
  recorded := by simp [TrackerWorld.new]

theorem Inv.run [DecidableEq Message] (inv : Inv host world) (steps : List (Step Message)) :
    Inv host (world.run host steps) := by
  induction steps generalizing world with
  | nil => exact inv
  | cons next rest ih => exact ih (inv.step next)

end Handlers

end TrackerWorld

end Codex.RemoteControl
