import Mathlib

/-!
# The session registry

`exec-server/src/server/session_registry.rs`: sessions are created by an attach, left by a detach
that starts an expiry timer, resumed by another attach, and removed by a shutdown, by their timer
or by a resume that finds them expired. The map lock is held over several critical sections of
the attachment lock, so a step here is one critical section of the attachment lock with the map
operations around it, and a resume keeps the map lock between its steps. Time is in nanoseconds.
-/

namespace Codex.ExecServer.Sessions

@[irreducible] def DETACHED_SESSION_TTL : Nat := 30 * 10 ^ 9

/-- A version 4 UUID. -/
structure ConnectionId where
  uuid : BitVec 128
  deriving DecidableEq, Repr

/-- `RpcNotificationSender`, by the connection's queue that it writes to. -/
structure RpcNotificationSender where
  queue : Nat
  deriving DecidableEq, Repr

/-- A cancellation token. -/
abbrev Token := Nat

/-- `AttachmentState` (`session_registry.rs:30`). -/
structure AttachmentState where
  currentConnectionId : Option ConnectionId
  detachedConnectionId : Option ConnectionId
  detachedExpiresAt : Option Nat
  expiryCancelled : Option Token
  deriving DecidableEq, Repr

/-- `SessionEntry` (`session_registry.rs:24`), with the notification sender of its process
    handler. -/
structure SessionEntry where
  notifications : Option RpcNotificationSender
  attachment : AttachmentState
  deriving DecidableEq, Repr

namespace SessionEntry

/-- `SessionEntry::new` (`session_registry.rs:160`). -/
def new (notifications : RpcNotificationSender) (connectionId : ConnectionId) : SessionEntry :=
  ⟨some notifications, ⟨some connectionId, none, none, none⟩⟩

/-- `set_notification_sender` of the process handler. -/
def setNotificationSender (entry : SessionEntry) (notifications : Option RpcNotificationSender) :
    SessionEntry :=
  { entry with notifications := notifications }

/-- `SessionEntry::attach` (`session_registry.rs:174`); the token it takes is cancelled by the
    caller. -/
def attach (entry : SessionEntry) (connectionId : ConnectionId) : SessionEntry :=
  { entry with attachment := ⟨some connectionId, none, none, none⟩ }

/-- `SessionEntry::detach` (`session_registry.rs:185`) with a new token. -/
def detach (entry : SessionEntry) (connectionId : ConnectionId) (now : Nat) (token : Token) :
    Option SessionEntry :=
  if entry.attachment.currentConnectionId ≠ some connectionId then none
  else some ⟨none, ⟨none, some connectionId, some (now + DETACHED_SESSION_TTL), some token⟩⟩

/-- `cancel_expiry` (`session_registry.rs:203`), likewise. -/
def cancelExpiry (entry : SessionEntry) : SessionEntry :=
  { entry with attachment := { entry.attachment with expiryCancelled := none } }

def hasActiveConnection (entry : SessionEntry) : Bool :=
  entry.attachment.currentConnectionId.isSome

/-- `is_expired` (`session_registry.rs:226`). -/
def isExpired (entry : SessionEntry) (now : Nat) : Bool :=
  entry.attachment.detachedExpiresAt.any fun deadline => deadline ≤ now

/-- `is_detached_connection_expired` (`session_registry.rs:234`). -/
def isDetachedConnectionExpired (entry : SessionEntry) (connectionId : ConnectionId)
    (now : Nat) : Bool :=
  entry.attachment.currentConnectionId.isNone &&
    entry.attachment.detachedConnectionId = some connectionId &&
    entry.attachment.detachedExpiresAt.any fun deadline => deadline ≤ now

end SessionEntry

/-! ## The registry and its parties -/

/-- Where an expiry task stands. -/
inductive TimerPhase where
  /-- in the `select!` -/
  | sleeping
  /-- waiting for the map in `expire_if_detached` -/
  | claiming
  | finished
  deriving DecidableEq, Repr

/-- The task that a detach spawns (`session_registry.rs:275`). -/
structure Timer where
  sessionId : String
  connectionId : ConnectionId
  expiryCancelled : Token
  startedAt : Nat
  phase : TimerPhase
  deriving DecidableEq, Repr

/-- A resume that holds the map lock. -/
structure Resume where
  sessionId : String
  connectionId : ConnectionId
  notifications : RpcNotificationSender
  /-- its own sender is installed, and `attach` comes next -/
  installed : Bool
  deriving DecidableEq, Repr

/-- A removed session whose processes are still to be shut down; `cancels` when `cancel_expiry`
    comes first. -/
structure Cleanup where
  sessionId : String
  cancels : Bool
  deriving DecidableEq, Repr

/-- Why a session was removed. -/
inductive Cause where
  | shutdown
  | resume
  | timer (connectionId : ConnectionId) (startedAt : Nat)
  deriving DecidableEq, Repr

/-- The history of attachments and removals. -/
inductive Event where
  | attached (sessionId : String) (connectionId : ConnectionId)
      (notifications : RpcNotificationSender)
  | detached (sessionId : String) (connectionId : ConnectionId) (at_ : Nat)
  | removed (sessionId : String) (cause : Cause) (at_ : Nat)
  deriving DecidableEq, Repr

/-- `SessionRegistry` with its sessions, removed ones included as handles keep them, the parties
    at work, and the history. -/
structure Registry where
  now : Nat
  sessions : List String
  entries : String → Option SessionEntry
  usedConnections : List ConnectionId
  resuming : Option Resume
  timers : List Timer
  cancelled : List Token
  nextToken : Token
  cleanups : List Cleanup
  shutdowns : List String
  history : List Event

namespace Registry

def empty : Registry := ⟨0, [], fun _ => none, [], none, [], [], 0, [], [], []⟩

def setEntry (registry : Registry) (sessionId : String) (entry : SessionEntry) : Registry :=
  { registry with entries := Function.update registry.entries sessionId (some entry) }

/-- `CancellationToken::cancel` of a token that was taken. -/
def cancel (registry : Registry) (token : Option Token) : Registry :=
  { registry with cancelled := token.toList ++ registry.cancelled }

/-- A session leaves the map. -/
def remove (registry : Registry) (sessionId : String) (cause : Cause) (cancels : Bool) :
    Registry :=
  { registry with
    sessions := registry.sessions.erase sessionId
    cleanups := registry.cleanups ++ [⟨sessionId, cancels⟩]
    history := registry.history ++ [.removed sessionId cause registry.now] }

/-- `attach` without a session to resume (`session_registry.rs:100`). The ids are version 4
    UUIDs, which are new. -/
def attachNew (registry : Registry) (sessionId : String) (connectionId : ConnectionId)
    (notifications : RpcNotificationSender) : Registry :=
  if registry.resuming.isSome || (registry.entries sessionId).isSome ||
      connectionId ∈ registry.usedConnections then registry
  else
    { registry.setEntry sessionId (SessionEntry.new notifications connectionId) with
      sessions := sessionId :: registry.sessions
      usedConnections := connectionId :: registry.usedConnections
      history := registry.history ++ [.attached sessionId connectionId notifications] }

/-- The first part of a resume under the map lock: the lookup and `is_expired`
    (`session_registry.rs:80`). -/
def resume (registry : Registry) (sessionId : String) (connectionId : ConnectionId)
    (notifications : RpcNotificationSender) : Registry :=
  if registry.resuming.isSome || connectionId ∈ registry.usedConnections then registry
  else
    let drawn := { registry with usedConnections := connectionId :: registry.usedConnections }
    if sessionId ∈ registry.sessions then
      (registry.entries sessionId).elim drawn fun entry =>
        if entry.isExpired registry.now then drawn.remove sessionId .resume true
        else { drawn with resuming := some ⟨sessionId, connectionId, notifications, false⟩ }
    else drawn

/-- `has_active_connection` and `set_notification_sender` (`session_registry.rs:88`): a session
    in use is an error, which releases the map. -/
def resumeCheck (registry : Registry) (resume : Resume) : Registry :=
  (registry.entries resume.sessionId).elim registry fun entry =>
    if entry.hasActiveConnection then { registry with resuming := none }
    else
      { registry.setEntry resume.sessionId
          (entry.setNotificationSender (some resume.notifications)) with
        resuming := some { resume with installed := true } }

/-- `entry.attach`, after which the map is released (`session_registry.rs:94`). -/
def resumeAttach (registry : Registry) (resume : Resume) : Registry :=
  (registry.entries resume.sessionId).elim registry fun entry =>
    { (registry.setEntry resume.sessionId (entry.attach resume.connectionId)).cancel
        entry.attachment.expiryCancelled with
      resuming := none
      history := registry.history ++
        [.attached resume.sessionId resume.connectionId resume.notifications] }

/-- `SessionHandle::detach` (`session_registry.rs:267`). -/
def detach (registry : Registry) (sessionId : String) (connectionId : ConnectionId) : Registry :=
  ((registry.entries sessionId).bind fun entry =>
    entry.detach connectionId registry.now registry.nextToken).elim registry fun entry =>
      { registry.setEntry sessionId entry with
        timers := registry.timers ++
          [⟨sessionId, connectionId, registry.nextToken, registry.now, .sleeping⟩]
        nextToken := registry.nextToken + 1
        history := registry.history ++ [.detached sessionId connectionId registry.now] }

/-- The `select!` of an expiry task: a cancelled token wins (`session_registry.rs:276`). -/
def timerWake (registry : Registry) (timer : Timer) : TimerPhase :=
  if timer.expiryCancelled ∈ registry.cancelled then .finished
  else if timer.startedAt + DETACHED_SESSION_TTL ≤ registry.now then .claiming
  else .sleeping

/-- `expire_if_detached` under the map lock (`session_registry.rs:132`). -/
def expireIfDetached (registry : Registry) (sessionId : String) (connectionId : ConnectionId)
    (startedAt : Nat) : Registry :=
  if sessionId ∈ registry.sessions &&
      (registry.entries sessionId).any fun entry =>
        entry.isDetachedConnectionExpired connectionId registry.now then
    registry.remove sessionId (.timer connectionId startedAt) false
  else registry

/-- An expiry task takes its next step. -/
def advanceTimer (registry : Registry) (index : Nat) (timer : Timer) : Registry :=
  match timer.phase with
  | .sleeping =>
      { registry with
        timers := registry.timers.set index { timer with phase := registry.timerWake timer } }
  | .claiming =>
      if registry.resuming.isSome then registry
      else
        { registry with
          timers := registry.timers.set index { timer with phase := .finished }
        }.expireIfDetached timer.sessionId timer.connectionId timer.startedAt
  | .finished => registry

/-- `shutdown` takes the whole map (`session_registry.rs:123`). -/
def shutdown (registry : Registry) : Registry :=
  if registry.resuming.isSome then registry
  else registry.sessions.foldl (fun registry sessionId =>
    registry.remove sessionId .shutdown true) registry

/-- A removed session's owner cancels its expiry, then shuts its processes down. -/
def advanceCleanup (registry : Registry) (index : Nat) (cleanup : Cleanup) : Registry :=
  if cleanup.cancels then
    (registry.entries cleanup.sessionId).elim registry fun entry =>
      { (registry.setEntry cleanup.sessionId entry.cancelExpiry).cancel
          entry.attachment.expiryCancelled with
        cleanups := registry.cleanups.set index { cleanup with cancels := false } }
  else
    { registry with
      cleanups := registry.cleanups.eraseIdx index
      shutdowns := cleanup.sessionId :: registry.shutdowns }

/-- The party that holds the map takes its next step. -/
def advanceResume (registry : Registry) (resume : Resume) : Registry :=
  if resume.installed then registry.resumeAttach resume else registry.resumeCheck resume

end Registry

inductive Step where
  | tick (elapsed : Nat)
  | attachNew (sessionId : String) (connectionId : ConnectionId)
      (notifications : RpcNotificationSender)
  | resume (sessionId : String) (connectionId : ConnectionId)
      (notifications : RpcNotificationSender)
  | advanceResume
  | detach (sessionId : String) (connectionId : ConnectionId)
  | advanceTimer (index : Nat)
  | shutdown
  | advanceCleanup (index : Nat)

namespace Registry

def step (registry : Registry) : Step → Registry
  | .tick elapsed => { registry with now := registry.now + elapsed }
  | .attachNew sessionId connectionId notifications =>
      registry.attachNew sessionId connectionId notifications
  | .resume sessionId connectionId notifications =>
      registry.resume sessionId connectionId notifications
  | .advanceResume => registry.resuming.elim registry registry.advanceResume
  | .detach sessionId connectionId => registry.detach sessionId connectionId
  | .advanceTimer index =>
      (registry.timers[index]?).elim registry (registry.advanceTimer index)
  | .shutdown => registry.shutdown
  | .advanceCleanup index =>
      (registry.cleanups[index]?).elim registry (registry.advanceCleanup index)

def run (steps : List Step) : Registry := steps.foldl step empty

end Registry

/-! ## Histories -/

namespace Event

def sessionId : Event → String
  | attached sessionId _ _ => sessionId
  | detached sessionId _ _ => sessionId
  | removed sessionId _ _ => sessionId

def connectionId : Event → Option ConnectionId
  | attached _ connectionId _ => some connectionId
  | detached _ connectionId _ => some connectionId
  | removed _ _ _ => none

/-- An attach or a detach of the session. -/
def concerns (sessionId : String) : Event → Bool
  | attached other _ _ => other = sessionId
  | detached other _ _ => other = sessionId
  | removed _ _ _ => false

/-- The session that the event removed. -/
def removedId : Event → Option String
  | removed sessionId _ _ => some sessionId
  | attached _ _ _ => none
  | detached _ _ _ => none

end Event

/-- The latest attach or detach of a session. -/
def latest (sessionId : String) (history : List Event) : Option Event :=
  (history.filter (Event.concerns sessionId)).getLast?

/-- The sessions that were removed, in order. -/
def removedIds (history : List Event) : List String := history.filterMap Event.removedId

/-- Whether an event may follow what happened before. An attach is by a new connection, to a
    session that is neither attached nor removed; a detach is by the connection that holds the
    session; and a session is removed once, by a shutdown or after the full time to live since
    its latest detach, with no attach in between. A timer that removes is that of this detach. -/
def Allowed (front : List Event) : Event → Prop
  | .attached sessionId connectionId _ =>
      (∀ event ∈ front, event.connectionId ≠ some connectionId) ∧
        sessionId ∉ removedIds front ∧
        ∀ holder notifications, latest sessionId front ≠
          some (.attached sessionId holder notifications)
  | .detached sessionId connectionId _ =>
      ∃ notifications, latest sessionId front =
        some (.attached sessionId connectionId notifications)
  | .removed sessionId .shutdown _ => sessionId ∉ removedIds front
  | .removed sessionId .resume at_ =>
      sessionId ∉ removedIds front ∧
        ∃ connectionId detachedAt, latest sessionId front =
            some (.detached sessionId connectionId detachedAt) ∧
          detachedAt + DETACHED_SESSION_TTL ≤ at_
  | .removed sessionId (.timer connectionId detachedAt) at_ =>
      sessionId ∉ removedIds front ∧
        latest sessionId front = some (.detached sessionId connectionId detachedAt) ∧
        detachedAt + DETACHED_SESSION_TTL ≤ at_

/-- A history in which every event was allowed. -/
def Lawful (history : List Event) : Prop :=
  ∀ front event back, history = front ++ event :: back → Allowed front event

variable {event : Event}

theorem Lawful.snoc {history : List Event} (lawful : Lawful history)
    (allowed : Allowed history event) : Lawful (history ++ [event]) := by
  intro front other back split
  rcases List.eq_nil_or_concat back with rfl | ⟨init, last, rfl⟩
  · obtain ⟨isFront, isEvent⟩ := List.append_inj' split rfl
    simp only [List.cons.injEq, and_true] at isEvent
    rwa [← isFront, ← isEvent]
  · rw [List.concat_eq_append, ← List.cons_append, ← List.append_assoc] at split
    obtain ⟨isHistory, -⟩ := List.append_inj' split rfl
    exact lawful front other init isHistory

theorem latest_snoc (sessionId : String) (history : List Event) (event : Event) :
    latest sessionId (history ++ [event]) =
      if event.concerns sessionId then some event else latest sessionId history := by
  rw [latest, latest, List.filter_append]
  by_cases mine : event.concerns sessionId = true
  · simp [mine]
  · simp [mine]

theorem mem_of_latest {sessionId : String} {history : List Event}
    (found : latest sessionId history = some event) : event ∈ history :=
  List.mem_of_mem_filter (List.mem_of_getLast? found)

theorem removedIds_snoc (history : List Event) (event : Event) :
    removedIds (history ++ [event]) = removedIds history ++ event.removedId.toList := by
  rw [removedIds, removedIds, List.filterMap_append]
  cases isRemoved : event.removedId with
  | none => simp [isRemoved]
  | some sessionId => simp [isRemoved]

/-! ## The invariant -/

namespace Registry

/-- The sender that a resume under way has installed in a session. -/
def pendingSender (registry : Registry) (sessionId : String) : Option RpcNotificationSender :=
  registry.resuming.bind fun resume =>
    if resume.installed && resume.sessionId = sessionId then some resume.notifications else none

/-- An entry is attached to the connection of its latest event, or detached since then. -/
inductive EntryState (registry : Registry) (sessionId : String) (entry : SessionEntry) : Prop
  | attached (connectionId : ConnectionId) (notifications : RpcNotificationSender)
      (event : latest sessionId registry.history =
        some (.attached sessionId connectionId notifications))
      (fields : entry = ⟨some notifications, ⟨some connectionId, none, none, none⟩⟩)
      (unclaimed : registry.pendingSender sessionId = none)
  | detached (connectionId : ConnectionId) (at_ : Nat) (token : Option Token)
      (event : latest sessionId registry.history = some (.detached sessionId connectionId at_))
      (fields : entry = ⟨registry.pendingSender sessionId,
        ⟨none, some connectionId, some (at_ + DETACHED_SESSION_TTL), token⟩⟩)
      (timed : sessionId ∈ registry.sessions → token.isSome = true)

/-- What holds of a resume that holds the map. -/
structure ResumeState (registry : Registry) (resume : Resume) : Prop where
  registered : resume.sessionId ∈ registry.sessions
  used : resume.connectionId ∈ registry.usedConnections
  unseen : ∀ event ∈ registry.history, event.connectionId ≠ some resume.connectionId
  vacant : resume.installed = true → ∀ entry, registry.entries resume.sessionId = some entry →
    entry.attachment.currentConnectionId = none

/-- What holds of the registry at every step. -/
structure Sound (registry : Registry) : Prop where
  states : ∀ sessionId entry, registry.entries sessionId = some entry →
    registry.EntryState sessionId entry
  unborn : ∀ sessionId, registry.entries sessionId = none →
    ∀ event ∈ registry.history, event.sessionId ≠ sessionId
  registered : ∀ sessionId ∈ registry.sessions, (registry.entries sessionId).isSome = true
  distinct : registry.sessions.Nodup
  present : ∀ sessionId ∈ registry.sessions, sessionId ∉ removedIds registry.history
  missing : ∀ sessionId, (registry.entries sessionId).isSome = true →
    sessionId ∉ registry.sessions → sessionId ∈ removedIds registry.history
  removedOnce : (removedIds registry.history).Nodup
  owed : (registry.cleanups.map Cleanup.sessionId ++ registry.shutdowns).Perm
    (removedIds registry.history)
  used : ∀ event ∈ registry.history, ∀ connectionId, event.connectionId = some connectionId →
    connectionId ∈ registry.usedConnections
  resuming : ∀ resume, registry.resuming = some resume → registry.ResumeState resume
  timers : ∀ timer ∈ registry.timers,
    Event.detached timer.sessionId timer.connectionId timer.startedAt ∈ registry.history
  attachedOnce : ∀ first second connectionId one two,
    Event.attached first connectionId one ∈ registry.history →
    Event.attached second connectionId two ∈ registry.history → first = second
  detachedOnce : ∀ first second connectionId one two,
    Event.detached first connectionId one ∈ registry.history →
    Event.detached second connectionId two ∈ registry.history → first = second ∧ one = two
  detachedOver : ∀ sessionId entry connectionId, registry.entries sessionId = some entry →
    entry.attachment.currentConnectionId = some connectionId →
    ∀ other at_, Event.detached other connectionId at_ ∉ registry.history
  lawful : Lawful registry.history

theorem sound_empty : empty.Sound where
  states := by
    intro sessionId entry found
    cases found
  unborn := by
    intro sessionId _ event member
    cases member
  registered := by
    intro sessionId member
    cases member
  distinct := List.nodup_nil
  present := by
    intro sessionId member
    cases member
  missing := by
    intro sessionId known
    cases known
  removedOnce := List.nodup_nil
  owed := List.Perm.refl _
  used := by
    intro event member
    cases member
  resuming := by
    intro resume isResume
    cases isResume
  timers := by
    intro timer member
    cases member
  attachedOnce := by
    intro first second connectionId one two member
    cases member
  detachedOnce := by
    intro first second connectionId one two member
    cases member
  detachedOver := by
    intro sessionId entry connectionId found
    cases found
  lawful := by
    intro front event back split
    simp [empty] at split

variable {before after registry : Registry} {index : Nat}

/-- A state stays what it is when the session's latest event and claim do. -/
theorem EntryState.keep {sessionId : String} {entry : SessionEntry}
    (state : before.EntryState sessionId entry)
    (event : latest sessionId after.history = latest sessionId before.history)
    (claim : after.pendingSender sessionId = before.pendingSender sessionId)
    (shrunk : sessionId ∈ after.sessions → sessionId ∈ before.sessions) :
    after.EntryState sessionId entry := by
  cases state with
  | attached connectionId notifications isLatest fields unclaimed =>
    exact .attached connectionId notifications (by rw [event, isLatest]) fields
      (by rw [claim, unclaimed])
  | detached connectionId at_ token isLatest fields timed =>
    exact .detached connectionId at_ token (by rw [event, isLatest]) (by rw [claim, fields])
      fun member => timed (shrunk member)

/-- The holder of a session attached it. -/
theorem EntryState.holder {sessionId : String} {entry : SessionEntry} {connectionId : ConnectionId}
    (state : registry.EntryState sessionId entry)
    (held : entry.attachment.currentConnectionId = some connectionId) :
    ∃ notifications, latest sessionId registry.history =
        some (.attached sessionId connectionId notifications) ∧
      registry.pendingSender sessionId = none := by
  cases state with
  | attached holder notifications isLatest fields unclaimed =>
    subst fields
    simp only [Option.some.injEq] at held
    exact ⟨notifications, held ▸ isLatest, unclaimed⟩
  | detached holder at_ token isLatest fields timed =>
    subst fields
    cases held

/-- What an expired entry says. -/
theorem EntryState.expired {sessionId : String} {entry : SessionEntry} {now : Nat}
    (state : registry.EntryState sessionId entry) (expired : entry.isExpired now = true) :
    ∃ connectionId at_, latest sessionId registry.history =
        some (.detached sessionId connectionId at_) ∧
      entry.attachment.detachedConnectionId = some connectionId ∧
      at_ + DETACHED_SESSION_TTL ≤ now := by
  cases state with
  | attached holder notifications isLatest fields unclaimed =>
    subst fields
    simp [SessionEntry.isExpired] at expired
  | detached holder at_ token isLatest fields timed =>
    subst fields
    refine ⟨holder, at_, isLatest, rfl, ?_⟩
    rw [SessionEntry.isExpired, Option.any_some, decide_eq_true_eq] at expired
    exact expired

/-! ## What each step keeps -/

/-- A step that touches neither entries, the map nor the history. -/
theorem Sound.frame (sound : before.Sound) (entries : after.entries = before.entries)
    (sessions : after.sessions = before.sessions) (history : after.history = before.history)
    (claims : ∀ sessionId, after.pendingSender sessionId = before.pendingSender sessionId)
    (used : ∀ connectionId ∈ before.usedConnections, connectionId ∈ after.usedConnections)
    (owed : (after.cleanups.map Cleanup.sessionId ++ after.shutdowns).Perm
      (before.cleanups.map Cleanup.sessionId ++ before.shutdowns))
    (resuming : ∀ resume, after.resuming = some resume → after.ResumeState resume)
    (timers : ∀ timer ∈ after.timers,
      Event.detached timer.sessionId timer.connectionId timer.startedAt ∈ before.history) :
    after.Sound := by
  cases after
  dsimp only at entries sessions history used owed timers
  subst entries sessions history
  exact { sound with
    states := fun sessionId entry found =>
      (sound.states sessionId entry found).keep rfl (claims sessionId) id
    owed := owed.trans sound.owed
    used := fun event member connectionId isConnection =>
      used connectionId (sound.used event member connectionId isConnection)
    resuming
    timers }

/-- One session changed, with the events about it. -/
structure Touched (before after : Registry) (sessionId : String) (events : List Event) : Prop where
  others : ∀ other, other ≠ sessionId → after.entries other = before.entries other
  known : (after.entries sessionId).isSome = true
  registered : ∀ other, other ≠ sessionId → other ∈ after.sessions → other ∈ before.sessions
  history : after.history = before.history ++ events
  own : ∀ event ∈ events, event.sessionId = sessionId

namespace Touched

variable {sessionId : String} {events : List Event}

theorem latest_eq (touched : Touched before after sessionId events) {other : String}
    (different : other ≠ sessionId) :
    latest other after.history = latest other before.history := by
  have none_ : events.filter (Event.concerns other) = [] := by
    rw [List.filter_eq_nil_iff]
    intro event member
    have own := touched.own event member
    cases event with
    | attached mine _ _ | detached mine _ _ =>
      change mine = sessionId at own
      simpa [Event.concerns, own] using different.symm
    | removed _ _ _ => exact Bool.false_ne_true
  rw [touched.history, latest, List.filter_append, none_, List.append_nil, latest]

/-- The other entries stay what they are. -/
theorem states (touched : Touched before after sessionId events) (sound : before.Sound)
    (claims : ∀ other, other ≠ sessionId →
      after.pendingSender other = before.pendingSender other)
    (own : ∀ entry, after.entries sessionId = some entry → after.EntryState sessionId entry)
    (other : String) (entry : SessionEntry) (found : after.entries other = some entry) :
    after.EntryState other entry := by
  by_cases here : other = sessionId
  · subst here
    exact own entry found
  · rw [touched.others other here] at found
    exact (sound.states other entry found).keep (touched.latest_eq here) (claims other here)
      (touched.registered other here)

theorem unborn (touched : Touched before after sessionId events) (sound : before.Sound)
    (other : String) (unknown : after.entries other = none) :
    ∀ event ∈ after.history, event.sessionId ≠ other := by
  have different : other ≠ sessionId := by
    rintro rfl
    have known := touched.known
    rw [unknown] at known
    cases known
  rw [touched.others other different] at unknown
  rw [touched.history]
  intro event inside
  rcases List.mem_append.mp inside with old | new
  · exact sound.unborn other unknown event old
  · rw [touched.own event new]
    exact different.symm

theorem known_of_registered (touched : Touched before after sessionId events)
    (sound : before.Sound) (other : String) (member : other ∈ after.sessions) :
    (after.entries other).isSome = true := by
  by_cases here : other = sessionId
  · rw [here]
    exact touched.known
  · rw [touched.others other here]
    exact sound.registered other (touched.registered other here member)

end Touched

theorem ResumeState.frame {resume : Resume} (state : before.ResumeState resume)
    (entries : after.entries = before.entries) (sessions : after.sessions = before.sessions)
    (history : after.history = before.history)
    (used : ∀ connectionId ∈ before.usedConnections, connectionId ∈ after.usedConnections) :
    after.ResumeState resume := by
  cases after
  dsimp only at entries sessions history used
  subst entries sessions history
  exact { state with used := used _ state.used }

theorem Sound.tick (sound : registry.Sound) (elapsed : Nat) :
    Sound { registry with now := registry.now + elapsed } := by
  refine sound.frame rfl rfl rfl (fun _ => rfl) (fun _ member => member) (List.Perm.refl _) ?_
    sound.timers
  intro resume isResume
  exact (sound.resuming resume isResume).frame rfl rfl rfl fun _ member => member

/-- A connection id was drawn. -/
theorem Sound.draw (sound : registry.Sound) (connectionId : ConnectionId) :
    Sound { registry with usedConnections := connectionId :: registry.usedConnections } := by
  refine sound.frame rfl rfl rfl (fun _ => rfl) (fun _ => List.mem_cons_of_mem _)
    (List.Perm.refl _) ?_ sound.timers
  intro resume isResume
  exact (sound.resuming resume isResume).frame rfl rfl rfl fun _ => List.mem_cons_of_mem _

/-- Every allowed removal of a registered session keeps the invariant. -/
theorem Sound.remove (sound : registry.Sound) (free : registry.resuming = none) {sessionId : String}
    (member : sessionId ∈ registry.sessions) {cause : Cause} {cancels : Bool}
    (allowed : Allowed registry.history (.removed sessionId cause registry.now)) :
    (registry.remove sessionId cause cancels).Sound := by
  have touched : Touched registry (registry.remove sessionId cause cancels) sessionId
      [.removed sessionId cause registry.now] :=
    ⟨fun _ _ => rfl, sound.registered _ member, fun _ _ => List.mem_of_mem_erase, rfl,
      List.forall_mem_singleton.mpr rfl⟩
  have gone : removedIds (registry.history ++ [.removed sessionId cause registry.now]) =
      removedIds registry.history ++ [sessionId] := by
    rw [removedIds_snoc]
    rfl
  have absent := sound.present sessionId member
  refine ⟨touched.states sound (fun _ _ => rfl) ?_, touched.unborn sound,
    touched.known_of_registered sound, sound.distinct.erase _, ?_, ?_, ?_, ?_, ?_, ?_, ?_, ?_, ?_,
    ?_, sound.lawful.snoc allowed⟩
  · intro entry found
    refine (sound.states sessionId entry found).keep ?_ rfl List.mem_of_mem_erase
    exact latest_snoc _ _ _
  · intro other inside
    obtain ⟨different, old⟩ := sound.distinct.mem_erase_iff.mp inside
    change other ∉ removedIds (registry.history ++ _)
    rw [gone, List.mem_append, List.mem_singleton]
    rintro (earlier | same)
    · exact sound.present other old earlier
    · exact different same
  · intro other known absent
    change other ∈ removedIds (registry.history ++ _)
    rw [gone, List.mem_append, List.mem_singleton]
    by_cases here : other = sessionId
    · exact .inr here
    · refine .inl (sound.missing other known fun inside => absent ?_)
      exact sound.distinct.mem_erase_iff.mpr ⟨here, inside⟩
  · change (removedIds (registry.history ++ _)).Nodup
    rw [gone, List.nodup_append]
    refine ⟨sound.removedOnce, by simp, ?_⟩
    intro first firstIn second secondIn same
    rw [List.mem_singleton] at secondIn
    subst same secondIn
    exact absent firstIn
  · change ((registry.cleanups ++ [Cleanup.mk sessionId cancels]).map Cleanup.sessionId ++
      registry.shutdowns).Perm (removedIds (registry.history ++ _))
    rw [gone, List.map_append, List.append_assoc]
    refine (List.Perm.append_left _ List.perm_append_comm).trans ?_
    rw [← List.append_assoc]
    exact sound.owed.append_right _
  · intro event inside connectionId isConnection
    rcases List.mem_append.mp inside with old | new
    · exact sound.used event old connectionId isConnection
    · rw [List.mem_singleton] at new
      subst new
      cases isConnection
  · intro resume isResume
    change registry.resuming = some resume at isResume
    rw [free] at isResume
    cases isResume
  · intro timer inside
    exact List.mem_append_left _ (sound.timers timer inside)
  · intro first second connectionId one two firstIn secondIn
    exact sound.attachedOnce first second connectionId one two
      (by simpa [Registry.remove] using firstIn) (by simpa [Registry.remove] using secondIn)
  · intro first second connectionId one two firstIn secondIn
    exact sound.detachedOnce first second connectionId one two
      (by simpa [Registry.remove] using firstIn) (by simpa [Registry.remove] using secondIn)
  · intro other entry connectionId found held owner at_ inside
    exact sound.detachedOver other entry connectionId found held owner at_
      (by simpa [Registry.remove] using inside)

theorem Sound.shutdown (sound : registry.Sound) :
    registry.shutdown.Sound := by
  unfold Registry.shutdown
  by_cases busy : registry.resuming.isSome = true
  · rw [if_pos busy]
    exact sound
  rw [if_neg busy]
  have free : registry.resuming = none := by simpa using busy
  have all : ∀ (pending : List String) (registry : Registry), registry.Sound →
      registry.resuming = none → pending.Nodup → (∀ sessionId ∈ pending,
        sessionId ∈ registry.sessions) →
      (pending.foldl (fun registry sessionId => registry.remove sessionId .shutdown true)
        registry).Sound := by
    intro pending
    induction pending with
    | nil => exact fun registry sound _ _ _ => sound
    | cons sessionId pending ih =>
      intro registry sound free distinct inside
      obtain ⟨absent, rest⟩ := List.nodup_cons.mp distinct
      have member := inside sessionId List.mem_cons_self
      refine ih _ (sound.remove free member (sound.present sessionId member)) free rest ?_
      intro other isPending
      refine sound.distinct.mem_erase_iff.mpr ⟨?_, inside other (List.mem_cons_of_mem _ isPending)⟩
      rintro rfl
      exact absent isPending
  exact all _ registry sound free sound.distinct fun _ member => member

/-- The entry of a session that is registered. -/
theorem Sound.entry (sound : registry.Sound) {sessionId : String}
    (member : sessionId ∈ registry.sessions) :
    ∃ entry, registry.entries sessionId = some entry ∧ registry.EntryState sessionId entry := by
  obtain ⟨entry, found⟩ := Option.isSome_iff_exists.mp (sound.registered sessionId member)
  exact ⟨entry, found, sound.states sessionId entry found⟩

theorem pendingSender_of_free (free : registry.resuming = none)
    (sessionId : String) : registry.pendingSender sessionId = none := by
  rw [pendingSender, free]
  rfl

/-- A session passed to a new connection. -/
theorem Sound.attached (sound : before.Sound) {sessionId : String} {connectionId : ConnectionId}
    {notifications : RpcNotificationSender}
    (entries : after.entries = Function.update before.entries sessionId
      (some ⟨some notifications, ⟨some connectionId, none, none, none⟩⟩))
    (history : after.history = before.history ++ [.attached sessionId connectionId notifications])
    (free : after.resuming = none) (distinct : after.sessions.Nodup)
    (sessions : ∀ other, other ∈ after.sessions ↔ other = sessionId ∨ other ∈ before.sessions)
    (used : ∀ other ∈ before.usedConnections, other ∈ after.usedConnections)
    (drawn : connectionId ∈ after.usedConnections) (cleanups : after.cleanups = before.cleanups)
    (shutdowns : after.shutdowns = before.shutdowns) (timers : after.timers = before.timers)
    (claims : ∀ other, other ≠ sessionId → before.pendingSender other = none)
    (allowed : Allowed before.history (.attached sessionId connectionId notifications)) :
    after.Sound := by
  obtain ⟨unseen, notRemoved, vacant⟩ := allowed
  have here : after.entries sessionId =
      some ⟨some notifications, ⟨some connectionId, none, none, none⟩⟩ := by
    rw [entries, Function.update_self]
  have touched : Touched before after sessionId
      [.attached sessionId connectionId notifications] := by
    refine ⟨?_, by rw [here]; rfl, ?_, history, List.forall_mem_singleton.mpr rfl⟩
    · intro other different
      rw [entries, Function.update_of_ne different]
    · intro other different inside
      exact ((sessions other).mp inside).resolve_left different
  have sameRemoved : removedIds after.history = removedIds before.history := by
    rw [history, removedIds_snoc]
    exact List.append_nil _
  have pending := pendingSender_of_free free
  refine ⟨touched.states sound (fun other different => by rw [pending, claims other different]) ?_,
    touched.unborn sound, touched.known_of_registered sound, distinct, ?_, ?_, ?_, ?_, ?_, ?_, ?_,
    ?_, ?_, ?_, ?_⟩
  · intro entry found
    rw [here, Option.some.injEq] at found
    refine .attached connectionId notifications ?_ found.symm (pending sessionId)
    rw [history, latest_snoc]
    simp [Event.concerns]
  · intro other inside
    rw [sameRemoved]
    rcases (sessions other).mp inside with rfl | old
    · exact notRemoved
    · exact sound.present other old
  · intro other known absent
    rw [sessions, not_or] at absent
    rw [touched.others other absent.1] at known
    rw [sameRemoved]
    exact sound.missing other known absent.2
  · rw [sameRemoved]
    exact sound.removedOnce
  · rw [sameRemoved, cleanups, shutdowns]
    exact sound.owed
  · intro event inside other isConnection
    rw [history] at inside
    rcases List.mem_append.mp inside with old | new
    · exact used other (sound.used event old other isConnection)
    · rw [List.mem_singleton] at new
      subst new
      simp only [Event.connectionId, Option.some.injEq] at isConnection
      exact isConnection ▸ drawn
  · intro resume isResume
    rw [free] at isResume
    cases isResume
  · rw [timers, history]
    exact fun timer inside => List.mem_append_left _ (sound.timers timer inside)
  · rw [history]
    intro first second other one two firstIn secondIn
    rcases List.mem_append.mp firstIn with firstOld | firstNew
    · rcases List.mem_append.mp secondIn with secondOld | secondNew
      · exact sound.attachedOnce first second other one two firstOld secondOld
      · simp only [List.mem_singleton, Event.attached.injEq] at secondNew
        exact absurd (by rw [secondNew.2.1]; rfl) (unseen _ firstOld)
    · simp only [List.mem_singleton, Event.attached.injEq] at firstNew
      rcases List.mem_append.mp secondIn with secondOld | secondNew
      · exact absurd (by rw [firstNew.2.1]; rfl) (unseen _ secondOld)
      · simp only [List.mem_singleton, Event.attached.injEq] at secondNew
        rw [firstNew.1, secondNew.1]
  · rw [history]
    intro first second other one two firstIn secondIn
    exact sound.detachedOnce first second other one two (by simpa using firstIn)
      (by simpa using secondIn)
  · rw [history]
    intro other entry holder found held owner at_ inside
    have old : Event.detached owner holder at_ ∈ before.history := by simpa using inside
    by_cases same : other = sessionId
    · rw [same, here, Option.some.injEq] at found
      subst found
      simp only [Option.some.injEq] at held
      exact unseen _ old (by rw [held]; rfl)
    · rw [touched.others other same] at found
      exact sound.detachedOver other entry holder found held owner at_ old
  · rw [history]
    exact sound.lawful.snoc ⟨unseen, notRemoved, vacant⟩

theorem sessionId_of_removedId {sessionId : String}
    (isRemoved : event.removedId = some sessionId) : event.sessionId = sessionId := by
  cases event with
  | attached _ _ _ => cases isRemoved
  | detached _ _ _ => cases isRemoved
  | removed other _ _ => exact Option.some.inj isRemoved

theorem Sound.attachNew (sound : registry.Sound) (sessionId : String) (connectionId : ConnectionId)
    (notifications : RpcNotificationSender) :
    (registry.attachNew sessionId connectionId notifications).Sound := by
  unfold Registry.attachNew
  split
  · exact sound
  next fresh =>
  simp only [Bool.or_eq_true, decide_eq_true_eq, not_or, Option.not_isSome_iff_eq_none] at fresh
  obtain ⟨⟨free, unknown⟩, unused⟩ := fresh
  have fromNew := sound.unborn sessionId unknown
  refine sound.attached rfl rfl free ?_ ?_ (fun _ => List.mem_cons_of_mem _) List.mem_cons_self
    rfl rfl rfl (fun other _ => pendingSender_of_free free other) ⟨?_, ?_, ?_⟩
  · refine List.nodup_cons.mpr ⟨?_, sound.distinct⟩
    intro member
    have known := sound.registered sessionId member
    rw [unknown] at known
    cases known
  · exact fun other => List.mem_cons
  · intro event member isConnection
    exact unused (sound.used event member connectionId isConnection)
  · intro member
    obtain ⟨event, inside, isRemoved⟩ := List.mem_filterMap.mp member
    exact fromNew event inside (sessionId_of_removedId isRemoved)
  · intro holder sender isLatest
    exact fromNew _ (mem_of_latest isLatest) rfl

theorem Sound.resume (sound : registry.Sound) (sessionId : String) (connectionId : ConnectionId)
    (notifications : RpcNotificationSender) :
    (registry.resume sessionId connectionId notifications).Sound := by
  unfold Registry.resume
  split
  · exact sound
  next fresh =>
  simp only [Bool.or_eq_true, decide_eq_true_eq, not_or, Option.not_isSome_iff_eq_none] at fresh
  obtain ⟨free, unused⟩ := fresh
  have drawn := sound.draw connectionId
  dsimp only
  by_cases member : sessionId ∈ registry.sessions
  · rw [if_pos member]
    obtain ⟨entry, found, state⟩ := sound.entry member
    rw [found, Option.elim_some]
    by_cases expired : entry.isExpired registry.now = true
    · rw [if_pos expired]
      obtain ⟨holder, at_, isLatest, -, elapsed⟩ := state.expired expired
      exact drawn.remove free member
        ⟨sound.present sessionId member, holder, at_, isLatest, elapsed⟩
    rw [if_neg expired]
    refine drawn.frame rfl rfl rfl ?_ (fun _ inside => inside) (List.Perm.refl _) ?_
      sound.timers
    · intro other
      exact (pendingSender_of_free free other).symm
    intro resume isResume
    simp only [Option.some.injEq] at isResume
    subst isResume
    refine ⟨member, List.mem_cons_self, ?_, fun installed => by cases installed⟩
    intro event inside isConnection
    exact unused (sound.used event inside connectionId isConnection)
  · rw [if_neg member]
    exact drawn

/-- One entry changed without an event. -/
theorem Sound.setEntry (sound : before.Sound) {sessionId : String} {old new : SessionEntry}
    (found : before.entries sessionId = some old)
    (entries : after.entries = Function.update before.entries sessionId (some new))
    (sameHolder : new.attachment.currentConnectionId = old.attachment.currentConnectionId)
    (sessions : after.sessions = before.sessions) (history : after.history = before.history)
    (usedConnections : after.usedConnections = before.usedConnections)
    (timers : after.timers = before.timers)
    (owed : after.cleanups.map Cleanup.sessionId ++ after.shutdowns =
      before.cleanups.map Cleanup.sessionId ++ before.shutdowns)
    (claims : ∀ other, other ≠ sessionId →
      after.pendingSender other = before.pendingSender other)
    (state : after.EntryState sessionId new)
    (resuming : ∀ resume, after.resuming = some resume → after.ResumeState resume) :
    after.Sound := by
  have here : after.entries sessionId = some new := by
    rw [entries, Function.update_self]
  have touched : Touched before after sessionId [] := by
    refine ⟨?_, by rw [here]; rfl, ?_, by rw [history, List.append_nil], List.forall_mem_nil _⟩
    · intro other different
      rw [entries, Function.update_of_ne different]
    · intro other _ inside
      rwa [sessions] at inside
  have states := touched.states sound claims
    (fun entry found => Option.some.inj (here.symm.trans found) ▸ state)
  have unborn := touched.unborn sound
  have registered := touched.known_of_registered sound
  have others := touched.others
  clear touched
  cases after
  dsimp only at entries here sessions history usedConnections timers owed others
  subst sessions history usedConnections timers
  refine { sound with
    states, unborn, registered, resuming
    missing := ?_
    owed := owed ▸ sound.owed
    detachedOver := ?_ }
  · intro other known absent
    by_cases same : other = sessionId
    · exact sound.missing other (by rw [same, found]; rfl) absent
    · refine sound.missing other ?_ absent
      rw [← others other same]
      exact known
  intro other entry holder isEntry held
  by_cases same : other = sessionId
  · subst same
    obtain rfl := Option.some.inj (here.symm.trans isEntry)
    exact sound.detachedOver other old holder found (by rw [← sameHolder, held])
  · exact sound.detachedOver other entry holder ((others other same).symm.trans isEntry) held

theorem Sound.resumeCheck (sound : registry.Sound) {resume : Resume}
    (isResume : registry.resuming = some resume) (pending : resume.installed = false) :
    (registry.resumeCheck resume).Sound := by
  have held := sound.resuming resume isResume
  obtain ⟨entry, found, state⟩ := sound.entry held.registered
  have unclaimed : ∀ other, registry.pendingSender other = none := by
    intro other
    simp [pendingSender, isResume, pending]
  rw [Registry.resumeCheck, found, Option.elim_some]
  by_cases active : entry.hasActiveConnection = true
  · rw [if_pos active]
    refine sound.frame rfl rfl rfl ?_ (fun _ member => member) (List.Perm.refl _) ?_ sound.timers
    · intro other
      rw [unclaimed other]
      rfl
    · intro other isOther
      cases isOther
  rw [if_neg active]
  cases state with
  | attached connectionId notifications event fields none_ =>
    subst fields
    exact absurd rfl active
  | detached connectionId at_ token event fields timed =>
    subst fields
    refine sound.setEntry found rfl rfl rfl rfl rfl rfl rfl ?_ ?_ ?_
    · intro other different
      rw [unclaimed other]
      simp [pendingSender, Ne.symm different]
    · refine .detached connectionId at_ token event ?_ timed
      simp [SessionEntry.setNotificationSender, pendingSender]
    intro other isOther
    simp only [Option.some.injEq] at isOther
    subst isOther
    refine ⟨held.registered, held.used, held.unseen, ?_⟩
    intro _ new isNew
    simp only [Registry.setEntry, Function.update_self, Option.some.injEq] at isNew
    subst isNew
    rfl

theorem Sound.resumeAttach (sound : registry.Sound) {resume : Resume}
    (isResume : registry.resuming = some resume) (installed : resume.installed = true) :
    (registry.resumeAttach resume).Sound := by
  have held := sound.resuming resume isResume
  obtain ⟨entry, found, state⟩ := sound.entry held.registered
  have claimed : registry.pendingSender resume.sessionId = some resume.notifications := by
    simp [pendingSender, isResume, installed]
  rw [Registry.resumeAttach, found, Option.elim_some]
  cases state with
  | attached connectionId notifications event fields unclaimed =>
    rw [claimed] at unclaimed
    cases unclaimed
  | detached connectionId at_ token event fields timed =>
    subst fields
    refine sound.attached ?_ rfl rfl sound.distinct ?_ (fun _ member => member)
      held.used rfl rfl rfl ?_ ⟨held.unseen, sound.present _ held.registered, ?_⟩
    · simp [Registry.cancel, Registry.setEntry, SessionEntry.attach, claimed]
    · refine fun other => ⟨.inr, ?_⟩
      rintro (rfl | member)
      · exact held.registered
      · exact member
    · intro other different
      simp [pendingSender, isResume, Ne.symm different]
    · intro holder sender isLatest
      rw [event] at isLatest
      cases isLatest

/-- The connection of a session went away. -/
theorem Sound.detached (sound : before.Sound) {sessionId : String} {entry : SessionEntry}
    {connectionId : ConnectionId} (found : before.entries sessionId = some entry)
    (held : entry.attachment.currentConnectionId = some connectionId)
    (entries : after.entries = Function.update before.entries sessionId
      (some ⟨none, ⟨none, some connectionId, some (before.now + DETACHED_SESSION_TTL),
        some before.nextToken⟩⟩))
    (history : after.history = before.history ++ [.detached sessionId connectionId before.now])
    (sessions : after.sessions = before.sessions)
    (usedConnections : after.usedConnections = before.usedConnections)
    (resuming : after.resuming = before.resuming) (cleanups : after.cleanups = before.cleanups)
    (shutdowns : after.shutdowns = before.shutdowns)
    (timers : after.timers = before.timers ++
      [⟨sessionId, connectionId, before.nextToken, before.now, .sleeping⟩]) :
    after.Sound := by
  obtain ⟨notifications, isLatest, unclaimed⟩ := (sound.states sessionId entry found).holder held
  have attachedHere := mem_of_latest isLatest
  have notDetached := sound.detachedOver sessionId entry connectionId found held
  have sameRemoved : removedIds after.history = removedIds before.history := by
    rw [history, removedIds_snoc]
    exact List.append_nil _
  have here := (congrFun entries sessionId).trans (Function.update_self ..)
  have pending : ∀ other, after.pendingSender other = before.pendingSender other := by
    intro other
    rw [pendingSender, resuming, pendingSender]
  have touched : Touched before after sessionId
      [.detached sessionId connectionId before.now] := by
    refine ⟨?_, by rw [here]; rfl, ?_, history, List.forall_mem_singleton.mpr rfl⟩
    · intro other different
      rw [entries, Function.update_of_ne different]
    · intro other _ inside
      rwa [sessions] at inside
  have lawful : Lawful after.history := history ▸ sound.lawful.snoc ⟨notifications, isLatest⟩
  refine ⟨touched.states sound (fun other _ => pending other) ?_, touched.unborn sound,
    touched.known_of_registered sound, sessions ▸ sound.distinct, ?_, ?_, ?_, ?_, ?_, ?_, ?_, ?_,
    ?_, ?_, lawful⟩
  · intro current isEntry
    obtain rfl := Option.some.inj (here.symm.trans isEntry)
    refine .detached connectionId before.now (some before.nextToken) ?_ ?_ fun _ => rfl
    · rw [history, latest_snoc]
      simp [Event.concerns]
    · rw [pending, unclaimed]
  · rw [sessions, sameRemoved]
    exact sound.present
  · intro other known absent
    rw [sessions] at absent
    rw [sameRemoved]
    by_cases same : other = sessionId
    · exact sound.missing other (by rw [same, found]; rfl) absent
    · exact sound.missing other (touched.others other same ▸ known) absent
  · rw [sameRemoved]
    exact sound.removedOnce
  · rw [sameRemoved, cleanups, shutdowns]
    exact sound.owed
  · intro event inside other isConnection
    rw [history] at inside
    rw [usedConnections]
    rcases List.mem_append.mp inside with old | new
    · exact sound.used event old other isConnection
    · rw [List.mem_singleton] at new
      subst new
      exact sound.used _ attachedHere other isConnection
  · intro resume isResume
    rw [resuming] at isResume
    have kept := sound.resuming resume isResume
    refine ⟨sessions ▸ kept.registered, usedConnections ▸ kept.used, ?_, ?_⟩
    · intro event inside isConnection
      rw [history] at inside
      rcases List.mem_append.mp inside with old | new
      · exact kept.unseen event old isConnection
      · rw [List.mem_singleton] at new
        subst new
        exact kept.unseen _ attachedHere isConnection
    · intro installed current isEntry
      by_cases same : resume.sessionId = sessionId
      · obtain rfl := Option.some.inj (here.symm.trans (same ▸ isEntry))
        rfl
      · exact kept.vacant installed current (touched.others _ same ▸ isEntry)
  · rw [timers, history]
    intro timer inside
    rcases List.mem_append.mp inside with old | new
    · exact List.mem_append_left _ (sound.timers timer old)
    · rw [List.mem_singleton] at new
      subst new
      exact List.mem_append_right _ List.mem_cons_self
  · rw [history]
    intro first second other one two firstIn secondIn
    exact sound.attachedOnce first second other one two (by simpa using firstIn)
      (by simpa using secondIn)
  · rw [history]
    intro first second other one two firstIn secondIn
    rcases List.mem_append.mp firstIn with firstOld | firstNew
    · rcases List.mem_append.mp secondIn with secondOld | secondNew
      · exact sound.detachedOnce first second other one two firstOld secondOld
      · simp only [List.mem_singleton, Event.detached.injEq] at secondNew
        exact absurd (secondNew.2.1 ▸ firstOld) (notDetached first one)
    · simp only [List.mem_singleton, Event.detached.injEq] at firstNew
      rcases List.mem_append.mp secondIn with secondOld | secondNew
      · exact absurd (firstNew.2.1 ▸ secondOld) (notDetached second two)
      · simp only [List.mem_singleton, Event.detached.injEq] at secondNew
        exact ⟨firstNew.1.trans secondNew.1.symm, firstNew.2.2.trans secondNew.2.2.symm⟩
  · rw [history]
    intro other current holder isEntry isHolder owner at_ inside
    by_cases same : other = sessionId
    · obtain rfl := Option.some.inj (here.symm.trans (same ▸ isEntry))
      cases isHolder
    rw [touched.others other same] at isEntry
    rcases List.mem_append.mp inside with old | new
    · exact sound.detachedOver other current holder isEntry isHolder owner at_ old
    · simp only [List.mem_singleton, Event.detached.injEq] at new
      obtain ⟨sender, latestThere, -⟩ := (sound.states other current isEntry).holder isHolder
      exact same (sound.attachedOnce other sessionId connectionId sender notifications
        (new.2.1 ▸ mem_of_latest latestThere) attachedHere)

theorem Sound.detach (sound : registry.Sound) (sessionId : String)
    (connectionId : ConnectionId) : (registry.detach sessionId connectionId).Sound := by
  unfold Registry.detach
  cases found : registry.entries sessionId with
  | none => exact sound
  | some entry =>
    rw [Option.bind_some, SessionEntry.detach]
    by_cases stale : entry.attachment.currentConnectionId ≠ some connectionId
    · rw [if_pos stale]
      exact sound
    · rw [if_neg stale, Option.elim_some]
      exact sound.detached found (not_not.mp stale) rfl rfl rfl rfl rfl rfl rfl rfl

/-- The phase of a timer changed. -/
theorem Sound.setTimer (sound : registry.Sound) {timer : Timer}
    (found : registry.timers[index]? = some timer) (phase : TimerPhase) :
    Sound { registry with timers := registry.timers.set index { timer with phase := phase } } := by
  refine sound.frame rfl rfl rfl (fun _ => rfl) (fun _ member => member) (List.Perm.refl _) ?_ ?_
  · intro resume isResume
    exact (sound.resuming resume isResume).frame rfl rfl rfl fun _ member => member
  · intro other member
    rcases List.mem_or_eq_of_mem_set member with old | rfl
    · exact sound.timers other old
    · exact sound.timers timer (List.mem_of_getElem? found)

/-- Only the timer of the latest detach removes a session. -/
theorem Sound.expireIfDetached (sound : registry.Sound) (free : registry.resuming = none)
    {sessionId : String} {connectionId : ConnectionId} {startedAt : Nat}
    (started : Event.detached sessionId connectionId startedAt ∈ registry.history) :
    (registry.expireIfDetached sessionId connectionId startedAt).Sound := by
  unfold Registry.expireIfDetached
  by_cases claim : (decide (sessionId ∈ registry.sessions) &&
      (registry.entries sessionId).any fun entry =>
        entry.isDetachedConnectionExpired connectionId registry.now) = true
  · rw [if_pos claim]
    obtain ⟨isMember, expired⟩ := Bool.and_eq_true_iff.mp claim
    have member := of_decide_eq_true isMember
    obtain ⟨entry, found, state⟩ := sound.entry member
    rw [found, Option.any_some, SessionEntry.isDetachedConnectionExpired, Bool.and_eq_true,
      Bool.and_eq_true] at expired
    obtain ⟨holder, at_, isLatest, isHolder, elapsed⟩ := state.expired expired.2
    have sameHolder := of_decide_eq_true expired.1.2
    rw [isHolder, Option.some.injEq] at sameHolder
    subst sameHolder
    obtain ⟨-, sameTime⟩ := sound.detachedOnce _ _ holder _ _ (mem_of_latest isLatest) started
    subst sameTime
    exact sound.remove free member ⟨sound.present sessionId member, isLatest, elapsed⟩
  · rw [if_neg claim]
    exact sound

theorem Sound.advanceTimer (sound : registry.Sound) {timer : Timer}
    (found : registry.timers[index]? = some timer) :
    (registry.advanceTimer index timer).Sound := by
  unfold Registry.advanceTimer
  split
  · exact sound.setTimer found _
  · split
    · exact sound
    · next free =>
      rw [Option.not_isSome_iff_eq_none] at free
      exact (sound.setTimer found .finished).expireIfDetached free
        (sound.timers timer (List.mem_of_getElem? found))
  · exact sound

theorem Sound.advanceCleanup (sound : registry.Sound) {cleanup : Cleanup}
    (found : registry.cleanups[index]? = some cleanup) :
    (registry.advanceCleanup index cleanup).Sound := by
  obtain ⟨inside, isCleanup⟩ := List.getElem?_eq_some_iff.mp found
  have isRemoved : cleanup.sessionId ∈ removedIds registry.history :=
    sound.owed.subset (List.mem_append_left _
      (List.mem_map_of_mem (List.mem_of_getElem? found)))
  have gone : cleanup.sessionId ∉ registry.sessions := by
    intro member
    exact sound.present _ member isRemoved
  unfold Registry.advanceCleanup
  by_cases cancels : cleanup.cancels = true
  · rw [if_pos cancels]
    cases isEntry : registry.entries cleanup.sessionId with
    | none => exact sound
    | some entry =>
      rw [Option.elim_some]
      have sameOwed : (registry.cleanups.set index ⟨cleanup.sessionId, false⟩).map
          Cleanup.sessionId = registry.cleanups.map Cleanup.sessionId := by
        have inMap : index < (registry.cleanups.map Cleanup.sessionId).length := by
          rwa [List.length_map]
        have here : (registry.cleanups.map Cleanup.sessionId)[index] = cleanup.sessionId := by
          rw [List.getElem_map, isCleanup]
        rw [List.map_set, ← here]
        exact List.set_getElem_self inMap
      refine sound.setEntry isEntry rfl rfl rfl rfl rfl rfl ?_ (fun _ _ => rfl) ?_ ?_
      · exact congrArg (· ++ registry.shutdowns) sameOwed
      · cases sound.states _ _ isEntry with
        | attached connectionId notifications event fields unclaimed =>
          subst fields
          exact .attached connectionId notifications event rfl unclaimed
        | detached connectionId at_ token event fields timed =>
          subst fields
          exact .detached connectionId at_ none event rfl fun member => absurd member gone
      intro resume isResume
      have held := sound.resuming resume isResume
      refine ⟨held.registered, held.used, held.unseen, ?_⟩
      intro installed current isCurrent
      have different : resume.sessionId ≠ cleanup.sessionId := by
        intro same
        exact gone (same ▸ held.registered)
      refine held.vacant installed current ?_
      simpa [Registry.cancel, Registry.setEntry, Function.update_of_ne different] using isCurrent
  · rw [if_neg cancels]
    refine sound.frame rfl rfl rfl (fun _ => rfl) (fun _ member => member) ?_ ?_ sound.timers
    · dsimp only
      have taken : (cleanup :: registry.cleanups.eraseIdx index).Perm registry.cleanups := by
        rw [← isCleanup]
        exact List.getElem_cons_eraseIdx_perm inside
      have ids := taken.map Cleanup.sessionId
      rw [List.map_cons] at ids
      exact List.perm_middle.trans (ids.append_right registry.shutdowns)
    · intro resume isResume
      exact (sound.resuming resume isResume).frame rfl rfl rfl fun _ member => member

theorem Sound.step (sound : registry.Sound) (step : Step) :
    (registry.step step).Sound := by
  cases step with
  | tick elapsed => exact sound.tick elapsed
  | attachNew sessionId connectionId notifications =>
    exact sound.attachNew sessionId connectionId notifications
  | resume sessionId connectionId notifications =>
    exact sound.resume sessionId connectionId notifications
  | advanceResume =>
    rw [Registry.step]
    cases isResume : registry.resuming with
    | none => exact sound
    | some resume =>
      rw [Option.elim_some, Registry.advanceResume]
      by_cases installed : resume.installed = true
      · rw [if_pos installed]
        exact sound.resumeAttach isResume installed
      · rw [if_neg installed]
        exact sound.resumeCheck isResume (by simpa using installed)
  | detach sessionId connectionId => exact sound.detach sessionId connectionId
  | advanceTimer index =>
    rw [Registry.step]
    cases found : registry.timers[index]? with
    | none => exact sound
    | some timer => exact sound.advanceTimer found
  | shutdown => exact sound.shutdown
  | advanceCleanup index =>
    rw [Registry.step]
    cases found : registry.cleanups[index]? with
    | none => exact sound
    | some cleanup => exact sound.advanceCleanup found

theorem sound_run (steps : List Step) : (run steps).Sound := by
  unfold run
  generalize isStart : empty = start
  have sound : start.Sound := isStart ▸ sound_empty
  clear isStart
  induction steps generalizing start with
  | nil => exact sound
  | cons step steps ih => exact ih _ (sound.step step)

/-! ## Pending cleanups -/

/-- A session whose processes are to be shut down has an entry. -/
theorem Sound.cleanup_entry (sound : registry.Sound) {cleanup : Cleanup}
    (member : cleanup ∈ registry.cleanups) :
    ∃ entry, registry.entries cleanup.sessionId = some entry := by
  rw [← Option.isSome_iff_exists]
  by_contra unknown
  rw [Option.not_isSome_iff_eq_none] at unknown
  have isRemoved := sound.owed.subset (List.mem_append_left _
    (List.mem_map_of_mem (f := Cleanup.sessionId) member))
  obtain ⟨event, inside, isEvent⟩ := List.mem_filterMap.mp isRemoved
  exact sound.unborn _ unknown event inside (sessionId_of_removedId isEvent)

/-- The owners of removed sessions can always finish. -/
theorem Sound.drain (sound : registry.Sound) :
    ∃ count,
      ((List.replicate count (Step.advanceCleanup 0)).foldl Registry.step registry).cleanups = [] ∧
      ((List.replicate count (Step.advanceCleanup 0)).foldl Registry.step registry).history =
        registry.history := by
  generalize isCleanups : registry.cleanups = cleanups
  induction cleanups generalizing registry with
  | nil => exact ⟨0, isCleanups, rfl⟩
  | cons cleanup cleanups ih =>
    obtain ⟨sessionId, cancels⟩ := cleanup
    have finish : ∀ registry : Registry, registry.Sound →
        registry.cleanups = ⟨sessionId, false⟩ :: cleanups → ∃ count,
          ((List.replicate count (Step.advanceCleanup 0)).foldl Registry.step
            registry).cleanups = [] ∧
          ((List.replicate count (Step.advanceCleanup 0)).foldl Registry.step
            registry).history = registry.history := by
      intro registry sound isCleanups
      have next : registry.step (.advanceCleanup 0) =
          { registry with
            cleanups := cleanups
            shutdowns := sessionId :: registry.shutdowns } := by
        simp [Registry.step, isCleanups, Registry.advanceCleanup]
      obtain ⟨count, done, same⟩ := ih (sound.step (.advanceCleanup 0)) (by rw [next])
      refine ⟨count + 1, done, ?_⟩
      rw [List.replicate_succ, List.foldl_cons, same, next]
    cases cancels with
    | false => exact finish registry sound isCleanups
    | true =>
      have member : (⟨sessionId, true⟩ : Cleanup) ∈ registry.cleanups := by
        rw [isCleanups]
        exact List.mem_cons_self
      obtain ⟨entry, found⟩ := sound.cleanup_entry member
      dsimp only at found
      have next : registry.step (.advanceCleanup 0) =
          { (registry.setEntry sessionId entry.cancelExpiry).cancel
              entry.attachment.expiryCancelled with
            cleanups := ⟨sessionId, false⟩ :: cleanups } := by
        simp [Registry.step, isCleanups, Registry.advanceCleanup, found]
      obtain ⟨count, done, same⟩ := finish _ (sound.step (.advanceCleanup 0)) (by rw [next])
      refine ⟨count + 1, done, ?_⟩
      rw [List.replicate_succ, List.foldl_cons, same, next]
      rfl

/-! ## Every interleaving -/

/-- The fields of an entry say whether, and to whom, the session is attached. -/
structure Owned (registry : Registry) (sessionId : String) (entry : SessionEntry) : Prop where
  sender : ∀ connectionId, entry.attachment.currentConnectionId = some connectionId →
    ∃ notifications, latest sessionId registry.history =
        some (.attached sessionId connectionId notifications) ∧
      entry.notifications = some notifications
  vacant : entry.attachment.currentConnectionId = none →
    entry.notifications = registry.pendingSender sessionId
  absent : registry.resuming = none →
    (entry.notifications = none ↔ entry.attachment.currentConnectionId = none)
  detachedId : entry.attachment.detachedConnectionId.isSome = true ↔
    entry.attachment.currentConnectionId = none
  deadline : entry.attachment.detachedExpiresAt.isSome = true ↔
    entry.attachment.currentConnectionId = none
  token : sessionId ∈ registry.sessions → (entry.attachment.expiryCancelled.isSome = true ↔
    entry.attachment.currentConnectionId = none)

theorem EntryState.owned {sessionId : String} {entry : SessionEntry}
    (state : registry.EntryState sessionId entry) : registry.Owned sessionId entry := by
  cases state with
  | attached connectionId notifications event fields unclaimed =>
    subst fields
    refine ⟨?_, by simp, by simp, by simp, by simp, by simp⟩
    intro other isOther
    simp only [Option.some.injEq] at isOther
    exact ⟨notifications, isOther ▸ event, rfl⟩
  | detached connectionId at_ token event fields timed =>
    subst fields
    refine ⟨by simp, fun _ => rfl, ?_, by simp, by simp, ?_⟩
    · intro free
      simp [pendingSender_of_free free]
    · intro member
      simp [timed member]

end Registry

/-- In every interleaving, the history of attachments and removals is lawful: one connection at a
    time holds a session, and a session is removed once, by a shutdown or after the full time to
    live since its latest detach, by no timer but that of this detach. The fields of every entry
    say who holds it, a connection holds one session, a stale detach changes nothing, the sessions
    outside the map are the removed ones, and the processes of each removed session were shut down
    once or have one owner who still can. -/
theorem sessions_one_owner (steps : List Step) :
    Lawful (Registry.run steps).history ∧
    (∀ sessionId entry, (Registry.run steps).entries sessionId = some entry →
      (Registry.run steps).Owned sessionId entry) ∧
    (∀ first second one two connectionId, (Registry.run steps).entries first = some one →
      (Registry.run steps).entries second = some two →
      one.attachment.currentConnectionId = some connectionId →
      two.attachment.currentConnectionId = some connectionId → first = second) ∧
    (∀ sessionId connectionId, (∀ entry, (Registry.run steps).entries sessionId = some entry →
        entry.attachment.currentConnectionId ≠ some connectionId) →
      (Registry.run steps).step (.detach sessionId connectionId) = Registry.run steps) ∧
    (∀ sessionId, sessionId ∈ removedIds (Registry.run steps).history ↔
      ((Registry.run steps).entries sessionId).isSome = true ∧
        sessionId ∉ (Registry.run steps).sessions) ∧
    (removedIds (Registry.run steps).history).Nodup ∧
    ((Registry.run steps).cleanups.map Cleanup.sessionId ++
      (Registry.run steps).shutdowns).Perm (removedIds (Registry.run steps).history) ∧
    ∃ count, (Registry.run (steps ++ List.replicate count (.advanceCleanup 0))).shutdowns.Perm
      (removedIds (Registry.run steps).history) := by
  have sound := Registry.sound_run steps
  refine ⟨sound.lawful, ?_, ?_, ?_, ?_, sound.removedOnce, sound.owed, ?_⟩
  · exact fun sessionId entry found => (sound.states sessionId entry found).owned
  · intro first second one two connectionId isOne isTwo heldOne heldTwo
    obtain ⟨firstSender, firstLatest, -⟩ := (sound.states first one isOne).holder heldOne
    obtain ⟨secondSender, secondLatest, -⟩ := (sound.states second two isTwo).holder heldTwo
    exact sound.attachedOnce first second connectionId firstSender secondSender
      (mem_of_latest firstLatest) (mem_of_latest secondLatest)
  · intro sessionId connectionId stale
    rw [Registry.step, Registry.detach]
    cases found : (Registry.run steps).entries sessionId with
    | none => rfl
    | some entry =>
      rw [Option.bind_some, SessionEntry.detach, if_pos (stale entry found)]
      rfl
  · intro sessionId
    refine ⟨?_, fun gone => sound.missing sessionId gone.1 gone.2⟩
    intro isRemoved
    refine ⟨?_, fun member => sound.present sessionId member isRemoved⟩
    by_contra unknown
    rw [Option.not_isSome_iff_eq_none] at unknown
    obtain ⟨event, inside, isEvent⟩ := List.mem_filterMap.mp isRemoved
    exact sound.unborn _ unknown event inside (Registry.sessionId_of_removedId isEvent)
  obtain ⟨count, drained, sameHistory⟩ := sound.drain
  refine ⟨count, ?_⟩
  have final := Registry.sound_run (steps ++ List.replicate count (.advanceCleanup 0))
  have owed := final.owed
  have isFinal : Registry.run (steps ++ List.replicate count (.advanceCleanup 0)) =
      (List.replicate count (Step.advanceCleanup 0)).foldl Registry.step (Registry.run steps) :=
    List.foldl_append
  rw [isFinal, drained, sameHistory] at owed
  rw [isFinal]
  exact owed

end Codex.ExecServer.Sessions
