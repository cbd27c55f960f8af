import Codex.FileWatcher.ChangedPaths

/-!
# Coalesced change notifications

`file-watcher/src/lib.rs:129-243` and `428-505`. Senders add batches of changed paths to the set
of one subscriber and mark rescans; a receiver takes what is there as one event, directly or
behind a wrapper that throttles or debounces. The set is behind a lock and the rescan flag beside
it, so a call of a sender is several steps, and calls of any number of senders interleave with the
receiver. A call of `recv` may be cancelled at every await and timers fire at any time.

The wake-ups of `Notify` are left out: they decide when a waiting call is polled again, and here
it is polled at any time.
-/

namespace Codex.FileWatcher

/-! ## The receivers -/

/-- `ReceiverInner` (`lib.rs:138`). -/
structure ReceiverInner where
  closed : Bool := false
  changedPaths : PathSet := OrderedMap.empty
  rescanRequired : Bool := false
  senderCount : Nat := 1

/-- How one poll of a call ends: it goes on waiting, or it returns. -/
inductive Poll where
  | waits
  | returns (result : Option FileWatcherEvent)

/-- `Receiver::recv` up to its await. -/
def ReceiverInner.recv (inner : ReceiverInner) : Poll × ReceiverInner :=
  let taken := { inner with rescanRequired := false }
  if inner.rescanRequired || !inner.changedPaths.toList.isEmpty then
    (.returns (some ⟨inner.changedPaths.toList, inner.rescanRequired⟩),
      { taken with changedPaths := OrderedMap.empty })
  else if inner.closed || inner.senderCount = 0 then (.returns none, taken)
  else (.waits, taken)

/-- `ThrottledWatchReceiver`, without the receiver inside. -/
structure ThrottledWatchReceiver where
  interval : Nat
  nextAllowed : Option Nat := none
  pending : PendingChanges := {}

/-- The raw receiver is polled inside `recv_with_observer` (`lib.rs:459`). -/
def ThrottledWatchReceiver.received (wrapper : ThrottledWatchReceiver) (now : Nat) :
    Option FileWatcherEvent → Poll × ThrottledWatchReceiver
  | some event =>
      match wrapper.nextAllowed with
      | none =>
          (.returns (some event), { wrapper with nextAllowed := some (now + wrapper.interval) })
      | some _ => (.waits, { wrapper with pending := wrapper.pending.merge event })
  | none =>
      match wrapper.nextAllowed with
      | none => (.returns none, wrapper)
      | some _ =>
          let taken := wrapper.pending.take
          (.returns taken.1, { wrapper with pending := taken.2 })

/-- The sleep ends, when there is one. -/
def ThrottledWatchReceiver.slept (wrapper : ThrottledWatchReceiver) (now : Nat) :
    Poll × ThrottledWatchReceiver :=
  match wrapper.nextAllowed with
  | none => (.waits, wrapper)
  | some _ =>
      let taken := wrapper.pending.take
      match taken.1 with
      | some event =>
          (.returns (some event),
            { wrapper with nextAllowed := some (now + wrapper.interval), pending := taken.2 })
      | none => (.waits, { wrapper with nextAllowed := none, pending := taken.2 })

/-- `DebouncedWatchReceiver`, without the receiver inside. -/
structure DebouncedWatchReceiver where
  interval : Nat
  pending : PendingChanges := {}
  deadline : Option Nat := none

/-- The raw receiver is polled inside `recv` (`lib.rs:509`): in the first loop while nothing is
    pending, in the second one otherwise. -/
def DebouncedWatchReceiver.received (wrapper : DebouncedWatchReceiver) (now : Nat) :
    Option FileWatcherEvent → Poll × DebouncedWatchReceiver
  | some event =>
      let pending := wrapper.pending.merge event
      if pending.isEmpty then (.waits, { wrapper with pending })
      else
        (.waits, { wrapper with
          pending
          deadline := some (wrapper.deadline.getD (now + wrapper.interval)) })
  | none =>
      if wrapper.pending.isEmpty then (.returns none, wrapper)
      else
        let taken := wrapper.pending.take
        (.returns taken.1, { wrapper with pending := taken.2, deadline := none })

def DebouncedWatchReceiver.slept (wrapper : DebouncedWatchReceiver) :
    Poll × DebouncedWatchReceiver :=
  if wrapper.pending.isEmpty then (.waits, wrapper)
  else
    let taken := wrapper.pending.take
    (.returns taken.1, { wrapper with pending := taken.2, deadline := none })

/-- Who calls `recv`. -/
inductive Consumer where
  | raw
  | throttled (wrapper : ThrottledWatchReceiver)
  | debounced (wrapper : DebouncedWatchReceiver)

/-- What the wrapper has received and not emitted. -/
def Consumer.pending : Consumer → PendingChanges
  | .raw => {}
  | .throttled wrapper => wrapper.pending
  | .debounced wrapper => wrapper.pending

/-- The receiver itself, or a wrapper around it with its interval. -/
inductive Wrapping where
  | raw
  | throttled (interval : Nat)
  | debounced (interval : Nat)
  deriving DecidableEq, Repr

/-- `watch_channel` and the `new` of the wrappers. -/
def Wrapping.consumer : Wrapping → Consumer
  | .raw => .raw
  | .throttled interval => .throttled { interval }
  | .debounced interval => .debounced { interval }

def Consumer.received (consumer : Consumer) (now : Nat) (result : Option FileWatcherEvent) :
    Poll × Consumer :=
  match consumer with
  | .raw => (.returns result, .raw)
  | .throttled wrapper =>
      let polled := wrapper.received now result
      (polled.1, .throttled polled.2)
  | .debounced wrapper =>
      let polled := wrapper.received now result
      (polled.1, .debounced polled.2)

def Consumer.slept (consumer : Consumer) (now : Nat) : Poll × Consumer :=
  match consumer with
  | .raw => (.waits, .raw)
  | .throttled wrapper =>
      let polled := wrapper.slept now
      (polled.1, .throttled polled.2)
  | .debounced wrapper =>
      let polled := wrapper.slept
      (polled.1, .debounced polled.2)

/-! ## The system -/

/-- The senders and the receiver. A call of `add_changed_paths` that has not returned waits for
    the lock, or has cleared the set and is about to mark the rescan. -/
structure Channel where
  inner : ReceiverInner := {}
  locking : List (List PathBuf) := []
  marking : List (List PathBuf) := []
  consumer : Consumer
  receiving : Bool := false

/-- One step of one party. -/
inductive Event where
  | addChangedPaths (paths : List PathBuf)
  | lock (call : Nat)
  | markOverflow (call : Nat)
  | markRescanRequired
  | close
  | cloneSender
  | dropSender
  | recv
  | cancel
  | poll (now : Nat)
  | timer (now : Nat)

/-- What can be observed: a batch is passed to `add_changed_paths`, that call returns, and a call
    of `recv` returns. -/
inductive Observation where
  | adding (paths : List PathBuf)
  | added (paths : List PathBuf)
  | emitted (event : FileWatcherEvent)
  | ended

namespace Channel

/-- `add_changed_paths` up to its await on the lock (`lib.rs:184`). -/
def addChangedPaths (channel : Channel) (paths : List PathBuf) : Channel × List Observation :=
  if paths.isEmpty || channel.inner.rescanRequired then (channel, [.adding paths, .added paths])
  else ({ channel with locking := channel.locking ++ [paths] }, [.adding paths])

/-- A waiting call gets the lock and runs until it releases it. -/
def lock (channel : Channel) (call : Nat) : Channel × List Observation :=
  match channel.locking[call]? with
  | none => (channel, [])
  | some paths =>
      let locking := channel.locking.eraseIdx call
      if channel.inner.rescanRequired then ({ channel with locking }, [.added paths])
      else
        match insertChangedPaths channel.inner.changedPaths paths with
        | some changedPaths =>
            ({ channel with inner := { channel.inner with changedPaths }, locking }, [.added paths])
        | none =>
            ({ channel with
              inner := { channel.inner with changedPaths := OrderedMap.empty }
              locking
              marking := channel.marking ++ [paths] }, [])

def markRescanRequired (channel : Channel) : Channel :=
  { channel with inner := { channel.inner with rescanRequired := true } }

/-- A call that has cleared the set marks the rescan and returns. -/
def markOverflow (channel : Channel) (call : Nat) : Channel × List Observation :=
  match channel.marking[call]? with
  | none => (channel, [])
  | some paths =>
      ({ channel.markRescanRequired with marking := channel.marking.eraseIdx call },
        [.added paths])

/-- A poll of the call of `recv` ends. -/
def finish (channel : Channel) : Poll → Channel × List Observation
  | .waits => (channel, [])
  | .returns (some event) => ({ channel with receiving := false }, [.emitted event])
  | .returns none => ({ channel with receiving := false }, [.ended])

/-- The raw receiver is polled. -/
def poll (channel : Channel) (now : Nat) : Channel × List Observation :=
  let raw := channel.inner.recv
  match raw.1 with
  | .waits => ({ channel with inner := raw.2 }, [])
  | .returns result =>
      let polled := channel.consumer.received now result
      finish { channel with inner := raw.2, consumer := polled.2 } polled.1

def timer (channel : Channel) (now : Nat) : Channel × List Observation :=
  let polled := channel.consumer.slept now
  finish { channel with consumer := polled.2 } polled.1

def step (channel : Channel) : Event → Channel × List Observation
  | .addChangedPaths paths => channel.addChangedPaths paths
  | .lock call => channel.lock call
  | .markOverflow call => channel.markOverflow call
  | .markRescanRequired => (channel.markRescanRequired, [])
  | .close => ({ channel with inner := { channel.inner with closed := true } }, [])
  | .cloneSender =>
      let senderCount := channel.inner.senderCount + 1
      ({ channel with inner := { channel.inner with senderCount } }, [])
  | .dropSender =>
      let senderCount := channel.inner.senderCount - 1
      ({ channel with inner := { channel.inner with senderCount } }, [])
  | .recv => ({ channel with receiving := true }, [])
  | .cancel => ({ channel with receiving := false }, [])
  | .poll now => if channel.receiving then channel.poll now else (channel, [])
  | .timer now => if channel.receiving then channel.timer now else (channel, [])

/-- A run: the channel that is reached and everything observed on the way. -/
def run (channel : Channel) : List Event → Channel × List Observation
  | [] => (channel, [])
  | event :: events =>
      let stepped := channel.step event
      let rest := stepped.1.run events
      (rest.1, stepped.2 ++ rest.2)

end Channel

/-! ## One poll of a wrapper -/

/-- Nothing is lost and nothing is made up between what a wrapper had pending, what it received
    and what it returns. -/
structure Consumer.Keeps (consumer : Consumer) (told : Option FileWatcherEvent)
    (polled : Poll × Consumer) : Prop where
  keeps : ∀ path, (consumer.pending.Holds path ∨ ∃ event, told = some event ∧ event.Tells path) →
    (∃ event, polled.1 = .returns (some event) ∧ event.Tells path) ∨ polled.2.pending.Holds path
  bounded : polled.2.pending.paths.length ≤ SUBSCRIBER_PATH_BUFFER_CAPACITY
  pending : ∀ kept ∈ polled.2.pending.paths.toList,
    ∃ path ∈ consumer.pending.paths.toList ++ (told.map FileWatcherEvent.paths).getD [],
      Covers kept path
  emitted : ∀ event, polled.1 = .returns (some event) → ∀ kept ∈ event.paths,
    ∃ path ∈ consumer.pending.paths.toList ++ (told.map FileWatcherEvent.paths).getD [],
      Covers kept path

/-- A throttling wrapper that may emit at once has nothing pending. -/
def Consumer.Ready : Consumer → Prop
  | .raw => True
  | .throttled wrapper => wrapper.nextAllowed = none → wrapper.pending.isEmpty = true
  | .debounced _ => True

section Consumers

variable {consumer next : Consumer} {told : Option FileWatcherEvent}

variable {event : FileWatcherEvent}

/-- The wrapper goes on waiting with the received event merged into what is pending. -/
theorem Consumer.Keeps.merged
    (bounded : consumer.pending.paths.length ≤ SUBSCRIBER_PATH_BUFFER_CAPACITY)
    (pending : next.pending = consumer.pending.merge event) :
    consumer.Keeps (some event) (.waits, next) := by
  obtain ⟨holds, size, sources⟩ := PendingChanges.merge_spec event bounded
  refine ⟨?_, by rw [pending]; exact size, by rw [pending]; exact sources, ?_⟩
  · rintro path (held | ⟨other, same, tells⟩)
    · rw [pending]
      exact .inr (holds path (.inl held))
    · cases same
      rw [pending]
      exact .inr (holds path (.inr tells))
  · intro other returned
    cases returned

/-- The wrapper emits what is pending. -/
theorem Consumer.Keeps.taken (paths : event.paths = consumer.pending.paths.toList)
    (tells : ∀ path, consumer.pending.Holds path → event.Tells path) (pending : next.pending = {}) :
    consumer.Keeps none (.returns (some event), next) := by
  refine ⟨?_, by rw [pending]; exact Nat.zero_le _, ?_, ?_⟩
  · rintro path (held | ⟨other, same, -⟩)
    · exact .inl ⟨event, rfl, tells path held⟩
    · cases same
  · rw [pending]
    intro kept held
    cases held
  · intro other returned kept member
    cases returned
    rw [paths] at member
    exact ⟨kept, List.mem_append_left _ member, Covers.refl kept⟩

/-- The wrapper does not change what is pending. -/
theorem Consumer.Keeps.unchanged {poll : Poll}
    (bounded : consumer.pending.paths.length ≤ SUBSCRIBER_PATH_BUFFER_CAPACITY)
    (pending : next.pending = consumer.pending) (quiet : poll = .waits ∨ poll = .returns none) :
    consumer.Keeps none (poll, next) := by
  refine ⟨?_, by rw [pending]; exact bounded, ?_, ?_⟩
  · rintro path (held | ⟨other, same, -⟩)
    · rw [pending]
      exact .inr held
    · cases same
  · rw [pending]
    intro kept held
    exact ⟨kept, List.mem_append_left _ held, Covers.refl kept⟩
  · rintro event rfl
    rcases quiet with wrong | wrong <;> cases wrong

/-- The wrapper passes the received event on. -/
theorem Consumer.Keeps.passed
    (bounded : consumer.pending.paths.length ≤ SUBSCRIBER_PATH_BUFFER_CAPACITY)
    (pending : next.pending = consumer.pending) :
    consumer.Keeps (some event) (.returns (some event), next) := by
  refine ⟨?_, by rw [pending]; exact bounded, ?_, ?_⟩
  · rintro path (held | ⟨other, same, tells⟩)
    · rw [pending]
      exact .inr held
    · cases same
      exact .inl ⟨event, rfl, tells⟩
  · rw [pending]
    intro kept held
    exact ⟨kept, List.mem_append_left _ held, Covers.refl kept⟩
  · intro other returned kept member
    cases returned
    exact ⟨kept, List.mem_append_right _ member, Covers.refl kept⟩

end Consumers

theorem Consumer.received_keeps {consumer : Consumer}
    (bounded : consumer.pending.paths.length ≤ SUBSCRIBER_PATH_BUFFER_CAPACITY)
    (ready : consumer.Ready) (now : Nat) (told : Option FileWatcherEvent) :
    consumer.Keeps told (consumer.received now told) ∧ (consumer.received now told).2.Ready := by
  cases consumer with
  | raw =>
    cases told with
    | none => exact ⟨.unchanged bounded rfl (.inr rfl), trivial⟩
    | some event => exact ⟨.passed bounded rfl, trivial⟩
  | throttled wrapper =>
    simp only [Consumer.received]
    cases told with
    | none =>
      simp only [ThrottledWatchReceiver.received]
      split
      · exact ⟨.unchanged bounded rfl (.inr rfl), ready⟩
      next allowed waiting =>
      dsimp only
      have later :
          (Consumer.throttled { wrapper with pending := wrapper.pending.take.2 }).Ready := by
        intro none
        rw [waiting] at none
        cases none
      refine ⟨?_, later⟩
      rcases wrapper.pending.take_spec with ⟨-, taken⟩ | ⟨event, taken, paths, tells⟩
      · rw [taken]
        exact .unchanged bounded rfl (.inr rfl)
      · rw [taken]
        exact .taken paths tells rfl
    | some event =>
      simp only [ThrottledWatchReceiver.received]
      split
      · next idle =>
        exact ⟨.passed bounded rfl, fun none => ready idle⟩
      · next allowed waiting =>
        refine ⟨.merged bounded rfl, ?_⟩
        intro none
        rw [waiting] at none
        cases none
  | debounced wrapper =>
    simp only [Consumer.received]
    cases told with
    | none =>
      simp only [DebouncedWatchReceiver.received]
      split
      · exact ⟨.unchanged bounded rfl (.inr rfl), trivial⟩
      refine ⟨?_, trivial⟩
      rcases wrapper.pending.take_spec with ⟨-, taken⟩ | ⟨event, taken, paths, tells⟩
      · rw [taken]
        exact .unchanged bounded rfl (.inr rfl)
      · rw [taken]
        exact .taken paths tells rfl
    | some event =>
      simp only [DebouncedWatchReceiver.received]
      split
      · exact ⟨.merged bounded rfl, trivial⟩
      · exact ⟨.merged bounded rfl, trivial⟩

theorem Consumer.slept_keeps {consumer : Consumer}
    (bounded : consumer.pending.paths.length ≤ SUBSCRIBER_PATH_BUFFER_CAPACITY)
    (ready : consumer.Ready) (now : Nat) :
    consumer.Keeps none (consumer.slept now) ∧ (consumer.slept now).2.Ready := by
  cases consumer with
  | raw => exact ⟨.unchanged bounded rfl (.inl rfl), trivial⟩
  | throttled wrapper =>
    simp only [Consumer.slept, ThrottledWatchReceiver.slept]
    split
    · exact ⟨.unchanged bounded rfl (.inl rfl), ready⟩
    · rcases wrapper.pending.take_spec with ⟨empty, taken⟩ | ⟨event, taken, paths, tells⟩
      · rw [taken]
        exact ⟨.unchanged bounded rfl (.inl rfl), fun _ => empty⟩
      · rw [taken]
        exact ⟨.taken paths tells rfl, fun _ => rfl⟩
  | debounced wrapper =>
    simp only [Consumer.slept, DebouncedWatchReceiver.slept]
    split
    · exact ⟨.unchanged bounded rfl (.inl rfl), trivial⟩
    refine ⟨?_, trivial⟩
    rcases wrapper.pending.take_spec with ⟨-, taken⟩ | ⟨event, taken, paths, tells⟩
    · rw [taken]
      exact .unchanged bounded rfl (.inr rfl)
    · rw [taken]
      exact .taken paths tells rfl

/-! ## Histories -/

/-- The path was added and no event emitted since then tells of it. -/
def Owed (history : List Observation) (path : PathBuf) : Prop :=
  ∃ before batch after, history = before ++ .added batch :: after ∧ path ∈ batch ∧
    ∀ event, .emitted event ∈ after → ¬ event.Tells path

variable {history : List Observation} {observation : Observation}

theorem Owed.snoc {path : PathBuf} (owed : Owed (history ++ [observation]) path) :
    (∃ batch, observation = .added batch ∧ path ∈ batch) ∨
      Owed history path ∧ ∀ event, observation = .emitted event → ¬ event.Tells path := by
  obtain ⟨before, batch, after, split, member, silent⟩ := owed
  rcases List.eq_nil_or_concat after with rfl | ⟨front, last, rfl⟩
  · left
    obtain ⟨-, same⟩ := List.append_inj' split rfl
    cases same
    exact ⟨batch, rfl, member⟩
  right
  rw [List.concat_eq_append, ← List.cons_append, ← List.append_assoc] at split
  obtain ⟨rfl, same⟩ := List.append_inj' split rfl
  cases same
  refine ⟨⟨before, batch, front, rfl, member, ?_⟩, ?_⟩
  · intro event emitted
    apply silent
    rw [List.concat_eq_append]
    exact List.mem_append_left _ emitted
  · rintro event rfl
    apply silent
    rw [List.concat_eq_append]
    exact List.mem_append_right _ (List.mem_singleton_self _)

/-- The path is one that was passed to a sender, or an ancestor of one. -/
def FromBatch (history : List Observation) (kept : PathBuf) : Prop :=
  ∃ batch path, .adding batch ∈ history ∧ path ∈ batch ∧ Covers kept path

theorem FromBatch.append {kept : PathBuf} (source : FromBatch history kept)
    (more : List Observation) :
    FromBatch (history ++ more) kept := by
  obtain ⟨batch, path, passed, member, covers⟩ := source
  exact ⟨batch, path, List.mem_append_left _ passed, member, covers⟩

theorem FromBatch.above {kept path : PathBuf} (source : FromBatch history path)
    (covers : Covers kept path) : FromBatch history kept := by
  obtain ⟨batch, origin, passed, member, lower⟩ := source
  exact ⟨batch, origin, passed, member, covers.trans lower⟩

/-- Every emitted path comes from a batch that was passed to a sender before. -/
def Grounded (history : List Observation) : Prop :=
  ∀ before event after, history = before ++ .emitted event :: after →
    ∀ kept ∈ event.paths, FromBatch before kept

theorem Grounded.snoc (grounded : Grounded history)
    (last : ∀ event, observation = .emitted event → ∀ kept ∈ event.paths, FromBatch history kept) :
    Grounded (history ++ [observation]) := by
  intro before event after split
  rcases List.eq_nil_or_concat after with rfl | ⟨front, other, rfl⟩
  · obtain ⟨rfl, same⟩ := List.append_inj' split rfl
    cases same
    exact last event rfl
  · rw [List.concat_eq_append, ← List.cons_append, ← List.append_assoc] at split
    obtain ⟨rfl, -⟩ := List.append_inj' split rfl
    exact grounded before event front rfl

/-! ## The invariant of a run -/

namespace Channel

/-- A change at the path is on its way to the receiver. -/
def Holds (channel : Channel) (path : PathBuf) : Prop :=
  channel.inner.rescanRequired = true ∨
    (∃ kept ∈ channel.inner.changedPaths.toList, Covers kept path) ∨
    channel.marking ≠ [] ∨ channel.consumer.pending.Holds path

/-- Nothing is on its way. -/
def Settled (channel : Channel) : Prop :=
  channel.inner.rescanRequired = false ∧ channel.inner.changedPaths.toList = [] ∧
    channel.marking = [] ∧ channel.consumer.pending.isEmpty = true

theorem Settled.not_holds {channel : Channel} (settled : channel.Settled) (path : PathBuf) :
    ¬ channel.Holds path := by
  obtain ⟨quiet, empty, marked, pending⟩ := settled
  rintro (rescan | ⟨kept, member, -⟩ | marking | held)
  · rw [quiet] at rescan
    cases rescan
  · rw [empty] at member
    cases member
  · exact marking marked
  · exact PendingChanges.not_holds_of_isEmpty pending path held

structure Accounted (history : List Observation) (channel : Channel) : Prop where
  bounded : channel.inner.changedPaths.length ≤ SUBSCRIBER_PATH_BUFFER_CAPACITY
  pendingBounded : channel.consumer.pending.paths.length ≤ SUBSCRIBER_PATH_BUFFER_CAPACITY
  ready : channel.consumer.Ready
  owed : ∀ path, Owed history path → channel.Holds path
  locking : ∀ batch ∈ channel.locking, .adding batch ∈ history
  changed : ∀ kept ∈ channel.inner.changedPaths.toList, FromBatch history kept
  pending : ∀ kept ∈ channel.consumer.pending.paths.toList, FromBatch history kept
  grounded : Grounded history

variable {history : List Observation} {channel : Channel}

/-- `watch_channel`: nothing has been added. -/
def start (wrapping : Wrapping) : Channel := { consumer := wrapping.consumer }

theorem accounted_start (wrapping : Wrapping) : Accounted [] (start wrapping) := by
  have fresh : wrapping.consumer.pending = {} ∧ wrapping.consumer.Ready := by
    cases wrapping with
    | raw => exact ⟨rfl, trivial⟩
    | throttled => exact ⟨rfl, fun _ => rfl⟩
    | debounced => exact ⟨rfl, trivial⟩
  refine ⟨Nat.zero_le _, ?_, fresh.2, ?_, ?_, ?_, ?_, ?_⟩
  · show wrapping.consumer.pending.paths.length ≤ _
    rw [fresh.1]
    exact Nat.zero_le _
  · rintro path ⟨before, batch, after, split, -⟩
    simp at split
  · intro batch member
    cases member
  · intro kept member
    cases member
  · intro kept member
    change kept ∈ wrapping.consumer.pending.paths.toList at member
    rw [fresh.1] at member
    cases member
  · intro before event after split
    simp at split

/-- An observation that neither adds nor emits changes nothing that is owed. -/
theorem Accounted.observe (accounted : Accounted history channel)
    (adds : ∀ batch, observation = .added batch → ∀ path ∈ batch, channel.Holds path)
    (emits : ∀ event, observation ≠ .emitted event) :
    Accounted (history ++ [observation]) channel where
  bounded := accounted.bounded
  pendingBounded := accounted.pendingBounded
  ready := accounted.ready
  owed := by
    intro path owed
    rcases owed.snoc with ⟨batch, same, member⟩ | ⟨before, -⟩
    · exact adds batch same path member
    · exact accounted.owed path before
  locking := fun batch member => List.mem_append_left _ (accounted.locking batch member)
  changed := fun kept member => (accounted.changed kept member).append _
  pending := fun kept member => (accounted.pending kept member).append _
  grounded := accounted.grounded.snoc fun event same => absurd same (emits event)

theorem Accounted.addChangedPaths (accounted : Accounted history channel) (paths : List PathBuf) :
    Accounted (history ++ (channel.addChangedPaths paths).2) (channel.addChangedPaths paths).1 := by
  have passed : Accounted (history ++ [.adding paths]) channel :=
    accounted.observe (fun _ same => by cases same) fun _ same => by cases same
  rw [Channel.addChangedPaths]
  split
  · next skip =>
    show Accounted (history ++ ([.adding paths] ++ [.added paths])) channel
    rw [← List.append_assoc]
    refine passed.observe ?_ fun _ same => by cases same
    intro batch same path member
    cases same
    rw [Bool.or_eq_true, List.isEmpty_iff] at skip
    rcases skip with rfl | rescan
    · cases member
    · exact .inl rescan
  refine { passed with locking := ?_ }
  intro batch member
  rcases List.mem_append.mp member with old | new
  · exact passed.locking batch old
  · rw [List.mem_singleton.mp new]
    exact List.mem_append_right _ (List.mem_singleton_self _)

theorem Accounted.lock (accounted : Accounted history channel) (call : Nat) :
    Accounted (history ++ (channel.lock call).2) (channel.lock call).1 := by
  rw [Channel.lock]
  split
  · rw [List.append_nil]
    exact accounted
  next paths found =>
  have passed : .adding paths ∈ history := accounted.locking paths (List.mem_of_getElem? found)
  have fewer : ∀ batch ∈ channel.locking.eraseIdx call, .adding batch ∈ history :=
    fun batch member => accounted.locking batch (List.mem_of_mem_eraseIdx member)
  dsimp only
  split
  · next rescan =>
    have shorter : Accounted history { channel with locking := channel.locking.eraseIdx call } :=
      { accounted with locking := fewer }
    exact shorter.observe (fun _ _ _ _ => .inl rescan) fun _ same => by cases same
  split
  · next quiet changedPaths inserted =>
    obtain ⟨coarser, size⟩ := insertChangedPaths_spec accounted.bounded inserted
    have grown : Accounted history { channel with
        inner := { channel.inner with changedPaths }
        locking := channel.locking.eraseIdx call } := by
      refine { accounted with bounded := size, locking := fewer, owed := ?_, changed := ?_ }
      · intro path owed
        rcases accounted.owed path owed with rescan | ⟨kept, member, covers⟩ | rest
        · exact .inl rescan
        · obtain ⟨last, stands, above⟩ := coarser.1 kept (List.mem_append_left _ member)
          exact .inr (.inl ⟨last, stands, above.trans covers⟩)
        · exact .inr (.inr rest)
      · intro kept member
        obtain ⟨path, source, covers⟩ := coarser.2 kept member
        rcases List.mem_append.mp source with old | new
        · exact (accounted.changed path old).above covers
        · exact ⟨paths, path, passed, new, covers⟩
    refine grown.observe ?_ fun _ same => by cases same
    · intro batch same path member
      cases same
      exact .inr (.inl (coarser.1 path (List.mem_append_right _ member)))
  · next overflow =>
    rw [List.append_nil]
    refine { accounted with
      bounded := Nat.zero_le _, locking := fewer, owed := ?_, changed := ?_ }
    · intro path _
      exact .inr (.inr (.inl (by simp)))
    · intro kept member
      cases member

/-- Marking a rescan tells of every change. -/
theorem Accounted.mark (accounted : Accounted history channel) (marking : List (List PathBuf)) :
    Accounted history { channel.markRescanRequired with marking } :=
  { accounted with owed := fun _ _ => .inl rfl }

theorem Accounted.markOverflow (accounted : Accounted history channel) (call : Nat) :
    Accounted (history ++ (channel.markOverflow call).2) (channel.markOverflow call).1 := by
  rw [Channel.markOverflow]
  split
  · rw [List.append_nil]
    exact accounted
  · refine (accounted.mark _).observe ?_ fun _ same => by cases same
    intro batch _ path _
    exact .inl rfl

/-- A step of the receiver: the wrapper is told what left the inner receiver. -/
theorem Accounted.consume (accounted : Accounted history channel) {inner : ReceiverInner}
    {told : Option FileWatcherEvent} {polled : Poll × Consumer}
    (bounded : inner.changedPaths.length ≤ SUBSCRIBER_PATH_BUFFER_CAPACITY)
    (left : ∀ path, (channel.inner.rescanRequired = true ∨
        ∃ kept ∈ channel.inner.changedPaths.toList, Covers kept path) →
      (∃ event, told = some event ∧ event.Tells path) ∨ inner.rescanRequired = true ∨
        ∃ kept ∈ inner.changedPaths.toList, Covers kept path)
    (changed : ∀ kept ∈ inner.changedPaths.toList, FromBatch history kept)
    (toldPaths : ∀ kept ∈ (told.map FileWatcherEvent.paths).getD [], FromBatch history kept)
    (keeps : channel.consumer.Keeps told polled) (ready : polled.2.Ready) :
    Accounted (history ++ (finish { channel with inner, consumer := polled.2 } polled.1).2)
      (finish { channel with inner, consumer := polled.2 } polled.1).1 := by
  have sourced : ∀ kept, (∃ path ∈ channel.consumer.pending.paths.toList ++
      (told.map FileWatcherEvent.paths).getD [], Covers kept path) → FromBatch history kept := by
    rintro kept ⟨path, member, covers⟩
    rcases List.mem_append.mp member with old | new
    · exact (accounted.pending path old).above covers
    · exact (toldPaths path new).above covers
  -- what was held is emitted by this poll or still held after it
  have passes : ∀ path, channel.Holds path →
      (∃ event, polled.1 = .returns (some event) ∧ event.Tells path) ∨
        { channel with inner, consumer := polled.2 : Channel }.Holds path := by
    intro path held
    have wrapped : (channel.consumer.pending.Holds path ∨
        ∃ event, told = some event ∧ event.Tells path) →
        (∃ event, polled.1 = .returns (some event) ∧ event.Tells path) ∨
          { channel with inner, consumer := polled.2 : Channel }.Holds path := by
      intro either
      rcases keeps.keeps path either with emitted | pending
      · exact .inl emitted
      · exact .inr (.inr (.inr (.inr pending)))
    have inside : (channel.inner.rescanRequired = true ∨
        ∃ kept ∈ channel.inner.changedPaths.toList, Covers kept path) →
        (∃ event, polled.1 = .returns (some event) ∧ event.Tells path) ∨
          { channel with inner, consumer := polled.2 : Channel }.Holds path := by
      intro either
      rcases left path either with event | rescan | kept
      · exact wrapped (.inr event)
      · exact .inr (.inl rescan)
      · exact .inr (.inr (.inl kept))
    rcases held with rescan | kept | marking | pending
    · exact inside (.inl rescan)
    · exact inside (.inr kept)
    · exact .inr (.inr (.inr (.inl marking)))
    · exact wrapped (.inl pending)
  have common : ∀ receiving, (∀ path, Owed history path →
      { channel with inner, consumer := polled.2 : Channel }.Holds path) →
      Accounted history { channel with inner, consumer := polled.2, receiving } :=
    fun receiving owed =>
      { bounded, pendingBounded := keeps.bounded, ready, owed, locking := accounted.locking,
        changed, pending := fun kept held => sourced kept (keeps.pending kept held),
        grounded := accounted.grounded }
  have quiet : (∀ event, polled.1 ≠ .returns (some event)) → ∀ path, Owed history path →
      { channel with inner, consumer := polled.2 : Channel }.Holds path := by
    intro silent path owed
    rcases passes path (accounted.owed path owed) with ⟨event, returned, -⟩ | held
    · exact absurd returned (silent event)
    · exact held
  cases returned : polled.1 with
  | waits =>
    rw [finish, List.append_nil]
    exact common _ (quiet fun event same => by rw [returned] at same; cases same)
  | returns result =>
    cases result with
    | none =>
      refine Accounted.observe (common false ?_) (fun _ same => by cases same)
        fun _ same => by cases same
      exact quiet fun event same => by rw [returned] at same; cases same
    | some event =>
      have emits := keeps.emitted event returned
      exact {
        bounded
        pendingBounded := keeps.bounded
        ready
        owed := by
          intro path owed
          rcases owed.snoc with ⟨batch, same, -⟩ | ⟨before, silent⟩
          · cases same
          · rcases passes path (accounted.owed path before) with ⟨other, same, tells⟩ | held
            · rw [returned] at same
              cases same
              exact absurd tells (silent event rfl)
            · exact held
        locking := fun batch member => List.mem_append_left _ (accounted.locking batch member)
        changed := fun kept member => (changed kept member).append _
        pending := fun kept held => (sourced kept (keeps.pending kept held)).append _
        grounded := accounted.grounded.snoc fun other same kept member => by
          cases same
          exact sourced kept (emits kept member) }

/-- What one poll of the raw receiver takes. -/
theorem recv_spec (inner : ReceiverInner) :
    inner.recv.2.rescanRequired = false ∧ inner.recv.2.changedPaths.toList = [] ∧
      ((∃ event, inner.recv.1 = .returns (some event) ∧ event.paths = inner.changedPaths.toList ∧
          ∀ path, (inner.rescanRequired = true ∨
            ∃ kept ∈ inner.changedPaths.toList, Covers kept path) → event.Tells path) ∨
        (inner.recv.1 = .waits ∨ inner.recv.1 = .returns none) ∧
          inner.rescanRequired = false ∧ inner.changedPaths.toList = []) := by
  rw [ReceiverInner.recv]
  dsimp only
  split
  · exact ⟨rfl, rfl, .inl ⟨_, rfl, rfl, fun _ held => held⟩⟩
  next nothing =>
  rw [Bool.or_eq_true, not_or, Bool.not_eq_true, Bool.not_eq_true', Bool.not_eq_false,
    List.isEmpty_iff] at nothing
  obtain ⟨quiet, empty⟩ := nothing
  split
  · exact ⟨rfl, empty, .inr ⟨.inr rfl, quiet, empty⟩⟩
  · exact ⟨rfl, empty, .inr ⟨.inl rfl, quiet, empty⟩⟩

theorem length_le_of_empty {paths : PathSet} (empty : paths.toList = []) :
    paths.length ≤ SUBSCRIBER_PATH_BUFFER_CAPACITY := by
  have none : paths.length = 0 := by
    rw [PathSet.toList, OrderedMap.keys, List.map_eq_nil_iff] at empty
    rw [OrderedMap.length, empty]
    rfl
  rw [none]
  exact Nat.zero_le _

theorem Accounted.poll (accounted : Accounted history channel) (now : Nat) :
    Accounted (history ++ (channel.poll now).2) (channel.poll now).1 := by
  obtain ⟨-, emptied, result⟩ := recv_spec channel.inner
  have bounded := length_le_of_empty emptied
  have changed : ∀ kept ∈ channel.inner.recv.2.changedPaths.toList, FromBatch history kept := by
    rw [emptied]
    intro kept member
    cases member
  rw [Channel.poll]
  rcases result with ⟨event, returned, paths, tells⟩ | ⟨ends, quiet, empty⟩
  · dsimp only
    rw [returned]
    obtain ⟨keeps, ready⟩ :=
      Consumer.received_keeps accounted.pendingBounded accounted.ready now (some event)
    refine accounted.consume bounded (fun path held => .inl ⟨event, rfl, tells path held⟩) changed
      ?_ keeps ready
    intro kept member
    change kept ∈ event.paths at member
    rw [paths] at member
    exact accounted.changed kept member
  have nothing : ∀ path, ¬ (channel.inner.rescanRequired = true ∨
      ∃ kept ∈ channel.inner.changedPaths.toList, Covers kept path) := by
    rintro path (rescan | ⟨kept, member, -⟩)
    · rw [quiet] at rescan
      cases rescan
    · rw [empty] at member
      cases member
  dsimp only
  rcases ends with waits | ended
  · rw [waits]
    have unchanged : channel.consumer.Keeps none (.waits, channel.consumer) :=
      .unchanged accounted.pendingBounded rfl (.inl rfl)
    refine accounted.consume bounded (fun path held => absurd held (nothing path)) changed ?_
      unchanged accounted.ready
    intro kept member
    cases member
  rw [ended]
  obtain ⟨keeps, ready⟩ :=
    Consumer.received_keeps accounted.pendingBounded accounted.ready now none
  refine accounted.consume bounded (fun path held => absurd held (nothing path)) changed ?_
    keeps ready
  intro kept member
  cases member

theorem Accounted.timer (accounted : Accounted history channel) (now : Nat) :
    Accounted (history ++ (channel.timer now).2) (channel.timer now).1 := by
  obtain ⟨keeps, ready⟩ := Consumer.slept_keeps accounted.pendingBounded accounted.ready now
  refine accounted.consume accounted.bounded (fun _ held => .inr held) accounted.changed ?_ keeps
    ready
  intro kept member
  cases member

theorem Accounted.step (accounted : Accounted history channel) (event : Event) :
    Accounted (history ++ (channel.step event).2) (channel.step event).1 := by
  have quiet : ∀ {next : Channel}, Accounted history next → Accounted (history ++ []) next := by
    intro next kept
    rw [List.append_nil]
    exact kept
  cases event with
  | addChangedPaths paths => exact accounted.addChangedPaths paths
  | lock call => exact accounted.lock call
  | markOverflow call => exact accounted.markOverflow call
  | markRescanRequired => exact quiet (accounted.mark channel.marking)
  | close | cloneSender | dropSender | recv | cancel => exact quiet { accounted with }
  | poll now =>
    rw [Channel.step]
    split
    · exact accounted.poll now
    · exact quiet accounted
  | timer now =>
    rw [Channel.step]
    split
    · exact accounted.timer now
    · exact quiet accounted

theorem Accounted.run (accounted : Accounted history channel) (events : List Event) :
    Accounted (history ++ (channel.run events).2) (channel.run events).1 := by
  induction events generalizing history channel with
  | nil =>
    rw [Channel.run, List.append_nil]
    exact accounted
  | cons event events ih =>
    rw [Channel.run, ← List.append_assoc]
    exact ih (accounted.step event)

/-! ## Receiving what is pending -/

theorem slept_empties {consumer : Consumer} (ready : consumer.Ready) (now : Nat) :
    (consumer.slept now).2.pending.isEmpty = true := by
  cases consumer with
  | raw => rfl
  | throttled wrapper =>
    simp only [Consumer.slept, ThrottledWatchReceiver.slept]
    split
    · next idle => exact ready idle
    · rcases wrapper.pending.take_spec with ⟨empty, taken⟩ | ⟨event, taken, -⟩
      · rw [taken]
        exact empty
      · rw [taken]
        rfl
  | debounced wrapper =>
    simp only [Consumer.slept, DebouncedWatchReceiver.slept]
    split
    · next empty => exact empty
    · rcases wrapper.pending.take_spec with ⟨empty, taken⟩ | ⟨event, taken, -⟩
      · rw [taken]
        exact empty
      · rw [taken]
        rfl

@[simp] theorem finish_inner (channel : Channel) (poll : Poll) :
    (channel.finish poll).1.inner = channel.inner := by
  cases poll with
  | waits => rfl
  | returns result => cases result <;> rfl

@[simp] theorem finish_marking (channel : Channel) (poll : Poll) :
    (channel.finish poll).1.marking = channel.marking := by
  cases poll with
  | waits => rfl
  | returns result => cases result <;> rfl

@[simp] theorem finish_consumer (channel : Channel) (poll : Poll) :
    (channel.finish poll).1.consumer = channel.consumer := by
  cases poll with
  | waits => rfl
  | returns result => cases result <;> rfl

theorem poll_inner (channel : Channel) (now : Nat) :
    (channel.poll now).1.inner = channel.inner.recv.2 ∧
      (channel.poll now).1.marking = channel.marking := by
  rw [Channel.poll]
  dsimp only
  split
  · exact ⟨rfl, rfl⟩
  · exact ⟨finish_inner _ _, finish_marking _ _⟩

/-- A receiver that is polled and waits for its timer once has received everything, unless a call
    of a sender is about to mark a rescan. -/
theorem Accounted.settles (accounted : Accounted history channel) (unmarked : channel.marking = [])
    (now : Nat) : (channel.run [.recv, .poll now, .recv, .timer now]).1.Settled := by
  have called : Accounted history { channel with receiving := true } := { accounted with }
  have polled := called.poll now
  obtain ⟨inner, marking⟩ := poll_inner { channel with receiving := true } now
  obtain ⟨quiet, empty, -⟩ := recv_spec channel.inner
  let waiting : Channel := { ({ channel with receiving := true : Channel }.poll now).1 with
    receiving := true }
  show ((waiting.timer now).1).Settled
  rw [Channel.timer]
  refine ⟨?_, ?_, ?_, ?_⟩
  · rw [finish_inner]
    exact (congrArg ReceiverInner.rescanRequired inner).trans quiet
  · rw [finish_inner]
    exact (congrArg (fun inner => inner.changedPaths.toList) inner).trans empty
  · rw [finish_marking]
    exact marking.trans unmarked
  · rw [finish_consumer]
    exact slept_empties polled.ready now

end Channel

/-- Coalescing hides no change. In every interleaving of the senders' calls with the receiver, raw
    or wrapped, a path whose call has returned is told by an event emitted later or is still on
    its way, so that none is left when everything pending has been received, and a receiver that
    goes on calling reaches that point. Every emitted path is one that was passed to a sender or
    an ancestor of one, no set of pending paths exceeds the capacity, and coarsening reports room
    only with fewer paths than the capacity while each path is covered. -/
theorem coalescing_hides_no_change (wrapping : Wrapping) (events : List Event) :
    let reached := (Channel.start wrapping).run events
    (reached.1.Settled → ∀ before batch after, reached.2 = before ++ .added batch :: after →
      ∀ path ∈ batch, ∃ event, .emitted event ∈ after ∧ event.Tells path) ∧
    (reached.1.marking = [] → ∀ now,
      (reached.1.run [.recv, .poll now, .recv, .timer now]).1.Settled) ∧
    (∀ before event after, reached.2 = before ++ .emitted event :: after → ∀ kept ∈ event.paths,
      ∃ batch path, .adding batch ∈ before ∧ path ∈ batch ∧ Covers kept path) ∧
    (reached.1.inner.changedPaths.length ≤ SUBSCRIBER_PATH_BUFFER_CAPACITY ∧
      reached.1.consumer.pending.paths.length ≤ SUBSCRIBER_PATH_BUFFER_CAPACITY) ∧
    ∀ (paths : PathSet) (capacity : Nat),
      ((compressChangedPaths paths capacity).2 = true →
        (compressChangedPaths paths capacity).1.length < capacity) ∧
      ∀ path ∈ paths.toList,
        ∃ kept ∈ (compressChangedPaths paths capacity).1.toList, Covers kept path := by
  intro reached
  have accounted := (Channel.accounted_start wrapping).run events
  rw [List.nil_append] at accounted
  refine ⟨?_, accounted.settles, accounted.grounded, ⟨accounted.bounded, accounted.pendingBounded⟩,
    ?_⟩
  · intro settled before batch after split path member
    by_contra silent
    apply settled.not_holds path
    refine accounted.owed path ⟨before, batch, after, split, member, ?_⟩
    intro event emitted tells
    exact silent ⟨event, emitted, tells⟩
  · intro paths capacity
    obtain ⟨coarser, fewer⟩ := compressChangedPaths_spec paths capacity
    exact ⟨fewer, coarser.1⟩

end Codex.FileWatcher
