import Codex.Lib.OrderedMap
import Codex.ExecServer.Process.Running

/-!
# Ordered session events

`exec-server/src/client.rs` and `client_recovery.rs`: a client session publishes the events of a
remote process in sequence order. Events that come early wait in a reorder buffer, a declared gap
lets the cursor pass over absent output, and after a reconnect a retained read fills in what the
notifications did not bring.
-/

namespace Codex.ExecServer.Process

def MAX_PENDING_PROCESS_EVENTS : Nat := 256

def MAX_PENDING_PROCESS_EVENT_BYTES : Nat := 1024 * 1024

/-- `OrderedSessionEvents` (`client.rs:193`) with the events that were published. -/
structure SessionState where
  lastPublishedSeq : Nat
  outputGapThrough : Nat
  exitPublished : Bool
  observedExited : Bool
  lastExitCode : Option Int
  sandboxDenied : Bool
  closedPublished : Bool
  pending : OrderedMap Nat ExecProcessEvent
  pendingBytes : Nat
  /-- `pending_byte_limit` is `usize::MAX`, which no buffer reaches -/
  unlimitedBytes : Bool
  failure : Option String
  published : List ExecProcessEvent

namespace SessionState

/-- `OrderedSessionEvents::default`. -/
def new : SessionState :=
  ⟨0, 0, false, false, none, false, false, OrderedMap.empty, 0, false, none, []⟩

/-- `insert_pending` (`client.rs:1688`). -/
def insertPending (session : SessionState) (event : ExecProcessEvent) :
    Except String SessionState :=
  match event.seq with
  | none => .error "cannot reorder an unsequenced process event"
  | some seq =>
      if (session.pending.get seq).isSome then .ok session
      else
        let closesGap := seq = session.lastPublishedSeq + 1
        if !closesGap && session.pending.length ≥ MAX_PENDING_PROCESS_EVENTS then
          .error "process event reorder buffer exceeds 256 entries"
        else if !session.unlimitedBytes && event.bytes > MAX_PENDING_PROCESS_EVENT_BYTES then
          .error "process event exceeds 1048576 bytes"
        else if !closesGap && !session.unlimitedBytes &&
            session.pendingBytes + event.bytes > MAX_PENDING_PROCESS_EVENT_BYTES then
          .error "process event reorder buffer exceeds 1048576 bytes"
        else .ok
          { session with
            pending := session.pending.insert seq event
            pendingBytes := session.pendingBytes + event.bytes }

/-- An absent stretch inside the declared gap is passed over (`client.rs:1598`). -/
def publishGap (session : SessionState) : SessionState :=
  let throughSeq := min
    ((session.pending.first.map fun entry => entry.1 - 1).getD session.outputGapThrough)
    session.outputGapThrough
  { session with
    lastPublishedSeq := throughSeq
    published := session.published ++ [.outputGap throughSeq] }

/-- Whether an event is an exit. -/
def isExited : ExecProcessEvent → Bool
  | .exited _ _ _ => true
  | .output _ => false
  | .outputGap _ => false
  | .closed _ _ => false
  | .failed _ => false

/-- Whether an event is the close. -/
def isClosed : ExecProcessEvent → Bool
  | .closed _ _ => true
  | .output _ => false
  | .outputGap _ => false
  | .exited _ _ _ => false
  | .failed _ => false

/-- The exit code of an exit. -/
def exitCodeOf : ExecProcessEvent → Option Int
  | .exited _ exitCode _ => some exitCode
  | .output _ => none
  | .outputGap _ => none
  | .closed _ _ => none
  | .failed _ => none

/-- The next event leaves the buffer (`client.rs:1609`). -/
def publishEvent (session : SessionState) (event : ExecProcessEvent) : SessionState :=
  { session with
    lastPublishedSeq := session.lastPublishedSeq + 1
    exitPublished := session.exitPublished || isExited event
    lastExitCode := (exitCodeOf event).or session.lastExitCode
    closedPublished := session.closedPublished || isClosed event
    pending := session.pending.remove (session.lastPublishedSeq + 1)
    pendingBytes := session.pendingBytes - event.bytes
    published := session.published ++ [event] }

/-- Nothing is left to reorder. -/
def clearPending (session : SessionState) : SessionState :=
  { session with pending := OrderedMap.empty, pendingBytes := 0 }

/-- The loop of `publish_ready` (`client.rs:1593`): whether it published the close. -/
def publishLoop : Nat → SessionState → SessionState × Bool
  | 0, session => (session, false)
  | fuel + 1, session =>
      match session.pending.get (session.lastPublishedSeq + 1) with
      | none =>
          if session.lastPublishedSeq + 1 ≤ session.outputGapThrough then
            publishLoop fuel session.publishGap
          else (session, false)
      | some event =>
          if isClosed event then ((session.publishEvent event).clearPending, true)
          else publishLoop fuel (session.publishEvent event)

/-- `publish_ready` (`client.rs:1591`). Each turn takes an event or moves the cursor inside the
    gap, which bounds the turns. -/
def publishReady (session : SessionState) : SessionState × Bool :=
  publishLoop (session.pending.length + (session.outputGapThrough - session.lastPublishedSeq) + 1)
    session

/-- The facts that a notification states about the process (`client.rs:1576`). -/
def observeEvent (session : SessionState) : ExecProcessEvent → SessionState
  | .exited _ exitCode sandboxDenied =>
      { session with
        observedExited := true
        lastExitCode := some exitCode
        sandboxDenied := session.sandboxDenied || sandboxDenied.getD false }
  | .closed _ sandboxDenied =>
      { session with sandboxDenied := session.sandboxDenied || sandboxDenied.getD false }
  | .output _ => session
  | .outputGap _ => session
  | .failed _ => session

/-- `insert_pending` and `publish_ready`. -/
def insertAndPublish (session : SessionState) (event : ExecProcessEvent) :
    Except String Bool × SessionState :=
  match session.insertPending event with
  | .error message => (.error message, session)
  | .ok inserted => (.ok inserted.publishReady.2, inserted.publishReady.1)

/-- `publish_ordered_event` for a sequenced event past the cursor (`client.rs:1568`). -/
def publishSequenced (session : SessionState) : ExecProcessEvent → Except String Bool × SessionState
  | .outputGap throughSeq =>
      let declared := { session with
        outputGapThrough := max session.outputGapThrough throughSeq }
      (.ok declared.publishReady.2, declared.publishReady.1)
  | event => (session.observeEvent event).insertAndPublish event

/-- `publish_ordered_event` (`client.rs:1549`). -/
def publishOrderedEvent (session : SessionState) (event : ExecProcessEvent) :
    Except String Bool × SessionState :=
  match event.seq with
  | none => (.ok false, { session with published := session.published ++ [event] })
  | some seq =>
      if session.failure.isSome || session.closedPublished || seq ≤ session.lastPublishedSeq then
        (.ok false, session)
      else session.publishSequenced event

/-- `set_failure` (`client.rs:1630`). -/
def setFailure (session : SessionState) (message : String) : SessionState :=
  if session.failure.isSome || session.closedPublished then session
  else
    { session.clearPending with
      failure := some message
      published := session.published ++ [.failed message] }

/-- `observe_read_facts` (`client.rs:1654`). -/
def observeReadFacts (session : SessionState) (response : ReadResponse) : SessionState :=
  { session with
    observedExited := session.observedExited || response.exited
    lastExitCode := response.exitCode.or session.lastExitCode
    sandboxDenied := session.sandboxDenied || response.sandboxDenied }

/-- `recovery_gap_error` (`client_recovery.rs:431`). -/
def recoveryGapError (targetSeq : Nat) : String :=
  "process events are no longer retained while recovering through sequence " ++ toString targetSeq

/-- A recovery under way: the session, whether the exit is known, whether the close was published,
    and the error that ended it. -/
structure Recovery where
  session : SessionState
  exitKnown : Bool
  publishedClosed : Bool
  error : Option String

namespace Recovery

def fail (recovery : Recovery) (message : String) : Recovery :=
  { recovery with error := some message }

/-- `insert_pending` with its error. -/
def insert (recovery : Recovery) (event : ExecProcessEvent) : Recovery :=
  match recovery.session.insertPending event with
  | .error message => recovery.fail message
  | .ok session => { recovery with session := session }

/-- `published_closed |= self.publish_ready(..)`. -/
def publish (recovery : Recovery) : Recovery :=
  { recovery with
    session := recovery.session.publishReady.1
    publishedClosed := recovery.publishedClosed || recovery.session.publishReady.2 }

/-- The rest of the recovery, unless it failed. -/
def andThen (recovery : Recovery) (rest : Recovery → Recovery) : Recovery :=
  if recovery.error.isSome then recovery else rest recovery

end Recovery

/-- `(sandbox_denied || closed).then_some(sandbox_denied)`. -/
def recoveredDenial (response : ReadResponse) : Option Bool :=
  if response.sandboxDenied || response.closed then some response.sandboxDenied else none

/-- The exit is inserted at a sequence (`client_recovery.rs:218`, `client_recovery.rs:278`). -/
def insertExit (response : ReadResponse) (seq : Nat) (recovery : Recovery) : Recovery :=
  match response.exitCode with
  | none => recovery.fail "recovering exited process did not include its exit code"
  | some exitCode => recovery.insert (.exited seq exitCode (recoveredDenial response))

/-- One recovered chunk (`client_recovery.rs:208`). -/
def recoverChunk (response : ReadResponse) (targetSeq : Nat) (inferredExit : Option Nat)
    (chunk : ProcessOutputChunk) (recovery : Recovery) : Recovery :=
  if chunk.seq > targetSeq then
    recovery.fail ("recovered process output sequence " ++ toString chunk.seq ++
      " exceeds target sequence " ++ toString targetSeq)
  else
    let nextSeq := recovery.session.lastPublishedSeq + 1
    (if !recovery.exitKnown && inferredExit = some nextSeq && chunk.seq > nextSeq then
      (insertExit response nextSeq recovery).andThen fun recovery =>
        { recovery.publish with exitKnown := true }
    else recovery).andThen fun recovery =>
      if chunk.seq > recovery.session.lastPublishedSeq then
        (recovery.insert (.output chunk)).andThen Recovery.publish
      else recovery

/-- The loop over the recovered chunks. -/
def recoverChunks (response : ReadResponse) (targetSeq : Nat) (inferredExit : Option Nat) :
    List ProcessOutputChunk → Recovery → Recovery
  | [], recovery => recovery
  | chunk :: chunks, recovery =>
      (recoverChunk response targetSeq inferredExit chunk recovery).andThen
        (recoverChunks response targetSeq inferredExit chunks)

/-- What the scan for absent sequences knows. -/
structure Scan where
  expected : Nat
  missing : Nat
  exitSeq : Option Nat
  deriving DecidableEq, Repr

/-- One sequence of the scan (`client_recovery.rs:190`). -/
def Scan.visit (scan : Scan) (seq : Nat) : Scan :=
  { expected := max scan.expected (seq + 1)
    missing := if seq > scan.expected then scan.missing + (seq - scan.expected) else scan.missing
    exitSeq := if seq > scan.expected then some scan.expected else scan.exitSeq }

/-- The rest of the range (`client_recovery.rs:196`). -/
def Scan.finish (scan : Scan) (targetSeq : Nat) : Scan :=
  if scan.expected ≤ targetSeq then
    { scan with
      missing := scan.missing + (targetSeq - scan.expected + 1)
      exitSeq := some scan.expected }
  else scan

/-- The scan over retained output and pending notifications, merged in order
    (`client_recovery.rs:170`). -/
def scanMissing (first targetSeq : Nat) (output pending : List Nat) : Scan :=
  ((List.merge output pending fun a b => a ≤ b).foldl Scan.visit ⟨first, 0, none⟩).finish targetSeq

/-- The chunks are not strictly ascending. -/
def unordered (chunks : List ProcessOutputChunk) : Bool :=
  (chunks.zip chunks.tail).any fun (first, second) => first.seq ≥ second.seq

/-- The one absent sequence that an unknown exit may take (`client_recovery.rs:160`). -/
def inferExit (session : SessionState) (response : ReadResponse) (targetSeq : Nat)
    (exitKnown : Bool) : Except String (Option Nat) :=
  if response.exited && !exitKnown then
    if unordered response.chunks || response.chunks.any fun chunk => chunk.seq > targetSeq then
      .error (recoveryGapError targetSeq)
    else
      let first := session.lastPublishedSeq + 1
      let scan := scanMissing first targetSeq
        (((response.chunks.map ProcessOutputChunk.seq).filter fun seq => first ≤ seq) ++
          if response.closed then [targetSeq] else [])
        (session.pending.keys.filter fun seq => first ≤ seq && seq ≤ targetSeq)
      if scan.missing ≠ 1 then .error (recoveryGapError targetSeq) else .ok scan.exitSeq
  else .ok none

/-- The pending exit up to a sequence takes the assessment of a read (`client_recovery.rs:136`). -/
def assessExit (response : ReadResponse) : ExecProcessEvent → ExecProcessEvent
  | .exited seq exitCode sandboxDenied =>
      .exited seq exitCode
        (if response.sandboxDenied || response.closed then
          some (sandboxDenied.getD false || response.sandboxDenied)
        else sandboxDenied)
  | event => event

/-- The first pending exit up to a sequence. -/
def pendingExit (session : SessionState) (targetSeq : Nat) : Option (Nat × ExecProcessEvent) :=
  session.pending.entries.find? fun entry => entry.1 ≤ targetSeq && isExited entry.2

/-- `first_missing_seq` (`client_recovery.rs:416`). -/
def firstMissing (expected : Nat) : List Nat → Nat
  | [] => expected
  | seq :: seqs => if seq ≠ expected then expected else firstMissing (expected + 1) seqs

/-- The end of a recovery without a gap: the close, and an exit that comes after all chunks
    (`client_recovery.rs:241`). -/
def finishRecovery (response : ReadResponse) (targetSeq : Nat) (recovery : Recovery) : Recovery :=
  (if response.closed && !recovery.session.closedPublished &&
      !((recovery.session.pending.get targetSeq).any isClosed) then
    recovery.insert (.closed targetSeq (some response.sandboxDenied))
  else recovery).andThen fun recovery =>
    let session := recovery.session
    let waiting := session.pending.keys.filter fun seq =>
      session.lastPublishedSeq + 1 ≤ seq && seq ≤ targetSeq
    let missingCount := targetSeq - session.lastPublishedSeq - waiting.length
    (if response.exited && !recovery.exitKnown then
      if missingCount ≠ 1 then recovery.fail (recoveryGapError targetSeq)
      else insertExit response (firstMissing (session.lastPublishedSeq + 1) waiting) recovery
    else if missingCount ≠ 0 then recovery.fail (recoveryGapError targetSeq)
    else recovery).andThen Recovery.publish

/-- The result of a recovery. -/
def Recovery.result (recovery : Recovery) : Except String Bool × SessionState :=
  (recovery.error.elim (.ok recovery.publishedClosed) .error, recovery.session)

/-- The conflict of a close with another event at its sequence (`client_recovery.rs:150`). -/
def closeConflict (session : SessionState) (response : ReadResponse) (targetSeq : Nat) : Bool :=
  response.closed && ((session.pending.get targetSeq).any (fun event => !isClosed event) ||
    response.chunks.any fun chunk => chunk.seq = targetSeq)

/-- The part of `recover_events` under the lock, for a target past the cursor. -/
def recoverThrough (session : SessionState) (response : ReadResponse) (targetSeq : Nat) :
    Except String Bool × SessionState :=
  let pendingExit := session.pendingExit targetSeq
  let session := pendingExit.elim session fun entry =>
    { session with pending := session.pending.insert entry.1 (assessExit response entry.2) }
  let exitKnown := session.exitPublished || pendingExit.isSome
  if session.closeConflict response targetSeq then
    (.error ("process close sequence " ++ toString targetSeq ++
      " conflicts with recovered output"), session)
  else match session.inferExit response targetSeq exitKnown with
    | .error message => (.error message, session)
    | .ok inferredExit =>
        ((recoverChunks response targetSeq inferredExit response.chunks
          ⟨session, exitKnown, false, none⟩).andThen
            (finishRecovery response targetSeq)).result

/-- The rejections of `recover_output_gap` (`client_recovery.rs:308`). -/
def gapRejected (response : ReadResponse) (gap : ProcessOutputGap) (target : Nat) : Bool :=
  gap.throughSeq > target || response.exited != gap.exitSeq.isSome ||
    gap.exitSeq.any (fun seq => seq = 0 || seq > target || response.exitCode.isNone) ||
    (response.closed && gap.exitSeq.all fun seq => seq ≥ target) ||
    unordered response.chunks ||
    response.chunks.any fun chunk => chunk.seq > target || some chunk.seq = gap.exitSeq ||
      (response.closed && chunk.seq = target)

/-- The retained suffix (`client_recovery.rs:337`). -/
def recoveredEvents (response : ReadResponse) (gap : ProcessOutputGap) (target : Nat)
    (exitCode : Int) : List (Nat × ExecProcessEvent) :=
  response.chunks.map (fun chunk => (chunk.seq, ExecProcessEvent.output chunk)) ++
    (gap.exitSeq.map fun seq =>
      (seq, ExecProcessEvent.exited seq exitCode (recoveredDenial response))).toList ++
    if response.closed then
      [(target, ExecProcessEvent.closed target (some response.sandboxDenied))]
    else []

/-- The suffix merged with the notifications up to the target; the suffix wins. -/
def mergeRecovered (session : SessionState) (target : Nat)
    (recovered : List (Nat × ExecProcessEvent)) : OrderedMap Nat ExecProcessEvent :=
  (session.pending.retain fun seq => seq ≤ target).entries.foldl
    (fun map entry => if (map.get entry.1).isSome then map else map.insert entry.1 entry.2)
    (OrderedMap.ofList recovered)

/-- Whether a hole lies past the declared gap (`client_recovery.rs:372`). -/
def holesDeclared (throughSeq target : Nat) (cursor : Nat) : List Nat → Bool
  | [] => !(cursor < target && target > throughSeq)
  | seq :: seqs =>
      !(seq > cursor + 1 && seq - 1 > throughSeq) && holesDeclared throughSeq target seq seqs

/-- `self.events.publish(OutputGap)` up to a sequence, with the cursor. -/
def skipTo (session : SessionState) (throughSeq : Nat) : SessionState :=
  { session with
    lastPublishedSeq := throughSeq
    published := session.published ++ [.outputGap throughSeq] }

/-- One merged event (`client_recovery.rs:389`). -/
def recoverMerged (entry : Nat × ExecProcessEvent) (recovery : Recovery) : Recovery :=
  if entry.1 ≤ recovery.session.lastPublishedSeq then recovery
  else
    let session := if entry.1 > recovery.session.lastPublishedSeq + 1 then
      recovery.session.skipTo (entry.1 - 1) else recovery.session
    (Recovery.insert { recovery with session := session } entry.2).andThen Recovery.publish

def recoverAllMerged : List (Nat × ExecProcessEvent) → Recovery → Recovery
  | [], recovery => recovery
  | entry :: entries, recovery => (recoverMerged entry recovery).andThen (recoverAllMerged entries)

/-- The end of the gap (`client_recovery.rs:403`). -/
def finishGap (target : Nat) (recovery : Recovery) : Recovery :=
  Recovery.publish
    { recovery with
      session := if recovery.session.lastPublishedSeq < target then recovery.session.skipTo target
        else recovery.session }

/-- `recover_output_gap` (`client_recovery.rs:302`). -/
def recoverOutputGap (session : SessionState) (response : ReadResponse) (gap : ProcessOutputGap) :
    Except String Bool × SessionState :=
  let target := response.nextSeq - 1
  if gapRejected response gap target then (.error (recoveryGapError target), session)
  else if session.failure.isSome || session.closedPublished then (.ok false, session)
  else
    let recovered := session.mergeRecovered target
      (recoveredEvents response gap target (response.exitCode.getD 0))
    if !holesDeclared gap.throughSeq target session.lastPublishedSeq
        (recovered.keys.filter fun seq => seq > session.lastPublishedSeq) then
      (.error (recoveryGapError target), session)
    else
      let rest := session.pending.retain fun seq => seq > target
      let session := { session with
        pending := rest
        pendingBytes := (rest.values.map ExecProcessEvent.bytes).sum }
      ((recoverAllMerged recovered.entries ⟨session, true, false, none⟩).andThen
        (finishGap target)).result

/-- `recover_events` (`client_recovery.rs:108`). -/
def recoverEvents (session : SessionState) (response : ReadResponse) :
    Except String Bool × SessionState :=
  let session := session.observeReadFacts response
  match response.failure with
  | some message => (.error ("process failed while recovering: " ++ message), session)
  | none =>
      match response.outputGap with
      | some gap => session.recoverOutputGap response gap
      | none =>
          let targetSeq := response.nextSeq - 1
          if session.failure.isSome || session.closedPublished ||
              targetSeq ≤ session.lastPublishedSeq then (.ok false, session)
          else session.recoverThrough response targetSeq

/-- Whether an event is a gap. -/
def isGap : ExecProcessEvent → Bool
  | .outputGap _ => true
  | .output _ => false
  | .exited _ _ _ => false
  | .closed _ _ => false
  | .failed _ => false

/-- Where the cursor stands after an event. -/
def reach (start : Nat) (event : ExecProcessEvent) : Nat := event.seq.getD start

/-- The event is the next sequence, a gap that reaches further, or has no sequence. -/
def Fits (start : Nat) (event : ExecProcessEvent) : Prop :=
  ∀ seq, event.seq = some seq → start < seq ∧ (isGap event = false → seq = start + 1)

/-- The events follow each other from `start` to `stop`. -/
def Tiles : Nat → List ExecProcessEvent → Nat → Prop
  | start, [], stop => start = stop
  | start, event :: rest, stop => Fits start event ∧ Tiles (reach start event) rest stop

/-- A sequence lies in the range of a gap of the events. -/
def InGap : Nat → List ExecProcessEvent → Nat → Prop
  | _, [], _ => False
  | start, event :: rest, seq =>
      (isGap event = true ∧ start < seq ∧ seq ≤ reach start event) ∨
        InGap (reach start event) rest seq

variable {start stop seq : Nat} {event : ExecProcessEvent} {events : List ExecProcessEvent}
   {session : SessionState}

theorem Fits.le_reach (fits : Fits start event) :
    start ≤ reach start event := by
  unfold reach
  cases isSeq : event.seq with
  | none => exact le_refl _
  | some seq => exact le_of_lt (fits seq isSeq).1

theorem Tiles.append {first second : List ExecProcessEvent} {middle : Nat}
    (front : Tiles start first middle) (back : Tiles middle second stop) :
    Tiles start (first ++ second) stop := by
  induction first generalizing start with
  | nil =>
    cases front
    exact back
  | cons event rest ih => exact ⟨front.1, ih front.2⟩

theorem Tiles.le (tiles : Tiles start events stop) : start ≤ stop := by
  induction events generalizing start with
  | nil => exact le_of_eq tiles
  | cons event rest ih => exact le_trans tiles.1.le_reach (ih tiles.2)

/-- One sequenced event. -/
theorem Tiles.single (isNext : event.seq = some (start + 1)) : Tiles start [event] (start + 1) := by
  refine ⟨?_, ?_⟩
  · intro seq isSeq
    rw [isNext, Option.some.injEq] at isSeq
    subst isSeq
    exact ⟨Nat.lt_succ_self _, fun _ => rfl⟩
  · change reach start event = start + 1
    rw [reach, isNext]
    rfl

theorem Tiles.gap {throughSeq : Nat} (beyond : start < throughSeq) :
    Tiles start [.outputGap throughSeq] throughSeq := by
  refine ⟨?_, rfl⟩
  intro seq isSeq
  cases isSeq
  exact ⟨beyond, fun notGap => by cases notGap⟩

/-- An event without a sequence changes nothing. -/
theorem Tiles.unsequenced (start : Nat) (noSeq : event.seq = none) :
    Tiles start [event] start := by
  refine ⟨?_, ?_⟩
  · intro seq isSeq
    rw [noSeq] at isSeq
    cases isSeq
  · change reach start event = start
    rw [reach, noSeq]
    rfl

/-- Every sequence of a tiling is an event's own or lies in a gap. -/
theorem Tiles.covered (tiles : Tiles start events stop) (above : start < seq) (below : seq ≤ stop) :
    InGap start events seq ∨ ∃ event ∈ events, event.seq = some seq ∧ isGap event = false := by
  induction events generalizing start with
  | nil =>
    cases tiles
    omega
  | cons event rest ih =>
    by_cases beyond : reach start event < seq
    · rcases ih tiles.2 beyond with inGap | ⟨other, member, facts⟩
      · exact .inl (.inr inGap)
      · exact .inr ⟨other, List.mem_cons_of_mem _ member, facts⟩
    rw [not_lt] at beyond
    by_cases gap : isGap event = true
    · exact .inl (.inl ⟨gap, above, beyond⟩)
    have notGap : isGap event = false := by simpa using gap
    right
    refine ⟨event, List.mem_cons_self, ?_, notGap⟩
    unfold reach at beyond
    cases isSeq : event.seq with
    | none =>
      rw [isSeq, Option.getD_none] at beyond
      omega
    | some own =>
      rw [isSeq, Option.getD_some] at beyond
      have next := (tiles.1 own isSeq).2 notGap
      rw [Option.some.injEq]
      omega

/-- The sequences of a tiling lie between its ends. -/
theorem Tiles.bounds (tiles : Tiles start events stop) (member : event ∈ events)
    (isSeq : event.seq = some seq) : start < seq ∧ seq ≤ stop := by
  induction events generalizing start with
  | nil => cases member
  | cons first rest ih =>
    rcases List.mem_cons.mp member with rfl | later
    · refine ⟨(tiles.1 seq isSeq).1, ?_⟩
      have le := tiles.2.le
      rwa [reach, isSeq, Option.getD_some] at le
    · have facts := ih tiles.2 later
      exact ⟨lt_of_le_of_lt tiles.1.le_reach facts.1, facts.2⟩

theorem Tiles.inGap_above (tiles : Tiles start events stop)
    (inGap : InGap start events seq) : start < seq := by
  induction events generalizing start with
  | nil => cases inGap
  | cons first rest ih =>
    rcases inGap with here | later
    · exact here.2.1
    · exact lt_of_le_of_lt tiles.1.le_reach (ih tiles.2 later)

/-- No sequence is both an event's own and in a gap. -/
theorem Tiles.not_inGap (tiles : Tiles start events stop) (member : event ∈ events)
    (isSeq : event.seq = some seq) (notGap : isGap event = false) : ¬ InGap start events seq := by
  induction events generalizing start with
  | nil => cases member
  | cons first rest ih =>
    intro inGap
    rcases List.mem_cons.mp member with rfl | later
    · rcases inGap with here | after
      · rw [notGap] at here
        cases here.1
      · have beyond := tiles.2.inGap_above after
        rw [reach, isSeq, Option.getD_some] at beyond
        exact lt_irrefl _ beyond
    · rcases inGap with here | after
      · have beyond := (tiles.2.bounds later isSeq).1
        omega
      · exact ih tiles.2 later after

/-- The sequenced events of a tiling ascend. -/
theorem Tiles.ascending (tiles : Tiles start events stop) :
    (events.filterMap ExecProcessEvent.seq).Pairwise (· < ·) := by
  induction events generalizing start with
  | nil => exact List.Pairwise.nil
  | cons event rest ih =>
    cases isSeq : event.seq with
    | none =>
      rw [List.filterMap_cons_none isSeq]
      exact ih tiles.2
    | some seq =>
      rw [List.filterMap_cons_some isSeq]
      refine List.pairwise_cons.mpr ⟨?_, ih tiles.2⟩
      intro other member
      obtain ⟨later, inside, isOther⟩ := List.mem_filterMap.mp member
      have beyond := (tiles.2.bounds inside isOther).1
      rwa [reach, isSeq, Option.getD_some] at beyond

/-- Every pending event waits under its own sequence, past the cursor. -/
def Waiting (session : SessionState) : Prop :=
  ∀ seq event, session.pending.get seq = some event →
    event.seq = some seq ∧ session.lastPublishedSeq < seq

/-- The new events tile the way of the cursor, they come from the buffer, and only absent
    sequences of the declared gap are passed over. -/
structure Published (before after : SessionState) (new : List ExecProcessEvent) : Prop where
  events : after.published = before.published ++ new
  tiles : Tiles before.lastPublishedSeq new after.lastPublishedSeq
  source : ∀ event ∈ new, isGap event = true ∨ ∃ seq, before.pending.get seq = some event
  covered : ∀ seq, before.lastPublishedSeq < seq → seq ≤ after.lastPublishedSeq →
    (∃ event ∈ new, before.pending.get seq = some event) ∨
      (seq ≤ before.outputGapThrough ∧ before.pending.get seq = none)
  rest : ∀ seq event, after.pending.get seq = some event →
    before.pending.get seq = some event ∧ after.lastPublishedSeq < seq
  kept : new.any isClosed = false →
    ∀ seq event, before.pending.get seq = some event → after.lastPublishedSeq < seq →
      after.pending.get seq = some event
  exitPublished : after.exitPublished = (before.exitPublished || new.any isExited)
  closedPublished : after.closedPublished = (before.closedPublished || new.any isClosed)
  outputGapThrough : after.outputGapThrough = before.outputGapThrough
  failure : after.failure = before.failure
  unlimitedBytes : after.unlimitedBytes = before.unlimitedBytes
  count : before.outputGapThrough ≤ before.lastPublishedSeq →
    new.length + after.pending.length ≤ before.pending.length

theorem Published.refl (waiting : session.Waiting) :
    Published session session [] where
  events := (List.append_nil _).symm
  tiles := rfl
  source := by
    intro event member
    cases member
  covered := by
    intro seq above below
    omega
  rest := fun seq event found => ⟨found, (waiting seq event found).2⟩
  kept := fun _ _ _ found _ => found
  exitPublished := (Bool.or_false _).symm
  closedPublished := (Bool.or_false _).symm
  outputGapThrough := rfl
  failure := rfl
  unlimitedBytes := rfl
  count := fun _ => by simp

theorem Published.trans {first second third : SessionState} {one two : List ExecProcessEvent}
    (front : Published first second one) (back : Published second third two)
    (isOpen : one.any isClosed = false) : Published first third (one ++ two) where
  events := by rw [back.events, front.events, List.append_assoc]
  tiles := front.tiles.append back.tiles
  source := by
    intro event member
    rcases List.mem_append.mp member with early | late
    · exact front.source event early
    · rcases back.source event late with gap | ⟨seq, found⟩
      · exact .inl gap
      · exact .inr ⟨seq, (front.rest seq event found).1⟩
  covered := by
    intro seq above below
    by_cases early : seq ≤ second.lastPublishedSeq
    · rcases front.covered seq above early with ⟨event, member, found⟩ | absent
      · exact .inl ⟨event, List.mem_append_left _ member, found⟩
      · exact .inr absent
    rw [not_le] at early
    rcases back.covered seq early below with ⟨event, member, found⟩ | ⟨inside, absent⟩
    · exact .inl ⟨event, List.mem_append_right _ member, (front.rest seq event found).1⟩
    refine .inr ⟨front.outputGapThrough ▸ inside, ?_⟩
    cases found : first.pending.get seq with
    | none => rfl
    | some event =>
      rw [front.kept isOpen seq event found early] at absent
      cases absent
  rest := by
    intro seq event found
    obtain ⟨middle, beyond⟩ := back.rest seq event found
    exact ⟨(front.rest seq event middle).1, beyond⟩
  kept := by
    intro stillOpen seq event found beyond
    have beyondSecond : second.lastPublishedSeq < seq := lt_of_le_of_lt back.tiles.le beyond
    rw [List.any_append, isOpen, Bool.false_or] at stillOpen
    exact back.kept stillOpen seq event
      (front.kept isOpen seq event found beyondSecond) beyond
  exitPublished := by
    rw [back.exitPublished, front.exitPublished, List.any_append, Bool.or_assoc]
  closedPublished := by
    rw [back.closedPublished, front.closedPublished, List.any_append, Bool.or_assoc]
  outputGapThrough := back.outputGapThrough.trans front.outputGapThrough
  failure := back.failure.trans front.failure
  unlimitedBytes := back.unlimitedBytes.trans front.unlimitedBytes
  count := by
    intro passed
    have early := front.count passed
    have le := front.tiles.le
    have late := back.count (by rw [front.outputGapThrough]; omega)
    rw [List.length_append]
    omega

theorem published_publishEvent (waiting : session.Waiting)
    (found : session.pending.get (session.lastPublishedSeq + 1) = some event) :
    Published session (session.publishEvent event) [event] where
  events := rfl
  tiles := Tiles.single (waiting _ event found).1
  source := by
    intro other member
    rw [List.mem_singleton] at member
    exact .inr ⟨_, member ▸ found⟩
  covered := by
    intro seq above below
    have isNext : seq = session.lastPublishedSeq + 1 := by
      change seq ≤ session.lastPublishedSeq + 1 at below
      omega
    exact .inl ⟨event, List.mem_singleton_self _, isNext ▸ found⟩
  rest := by
    intro seq other isOther
    change (session.pending.remove (session.lastPublishedSeq + 1)).get seq = some other at isOther
    rw [OrderedMap.get_remove] at isOther
    split at isOther
    · cases isOther
    · next different =>
      have beyond := (waiting seq other isOther).2
      refine ⟨isOther, ?_⟩
      change session.lastPublishedSeq + 1 < seq
      omega
  kept := by
    intro _ seq other isOther beyond
    change session.lastPublishedSeq + 1 < seq at beyond
    change (session.pending.remove (session.lastPublishedSeq + 1)).get seq = some other
    rw [OrderedMap.get_remove, if_neg (by omega), isOther]
  exitPublished := by simp [publishEvent]
  closedPublished := by simp [publishEvent]
  outputGapThrough := rfl
  failure := rfl
  unlimitedBytes := rfl
  count := by
    intro _
    have shorter := OrderedMap.length_remove found
    change 1 + (session.pending.remove (session.lastPublishedSeq + 1)).length ≤
      session.pending.length
    omega

/-- The close clears the buffer. -/
theorem Published.clear {before after : SessionState} {new : List ExecProcessEvent}
    (published : Published before after new) (closing : new.any isClosed = true) :
    Published before after.clearPending new where
  events := published.events
  tiles := published.tiles
  source := published.source
  covered := published.covered
  rest := by
    intro seq event found
    cases found
  kept := by
    intro same
    rw [closing] at same
    cases same
  exitPublished := published.exitPublished
  closedPublished := published.closedPublished
  outputGapThrough := published.outputGapThrough
  failure := published.failure
  unlimitedBytes := published.unlimitedBytes
  count := by
    intro passed
    have count := published.count passed
    change new.length + 0 ≤ _
    omega

theorem published_publishGap (waiting : session.Waiting)
    (absent : session.pending.get (session.lastPublishedSeq + 1) = none)
    (inside : session.lastPublishedSeq + 1 ≤ session.outputGapThrough) :
    ∃ throughSeq, Published session session.publishGap [.outputGap throughSeq] ∧
      session.publishGap.lastPublishedSeq = throughSeq ∧
      session.lastPublishedSeq < throughSeq ∧ throughSeq ≤ session.outputGapThrough ∧
      session.publishGap.pending = session.pending := by
  generalize isThrough : min
    ((session.pending.first.map fun entry => entry.1 - 1).getD session.outputGapThrough)
    session.outputGapThrough = throughSeq
  have upper : throughSeq ≤ session.outputGapThrough := by
    rw [← isThrough]
    exact min_le_right _ _
  -- No pending sequence lies between the cursor and the new one.
  have clear : ∀ seq, seq ≤ throughSeq → session.pending.get seq = none := by
    intro seq below
    cases found : session.pending.get seq with
    | none => rfl
    | some event =>
      cases first : session.pending.first with
      | none =>
        have member := OrderedMap.mem_keys_iff.mpr (by rw [found]; rfl)
        exact absurd member (OrderedMap.first_eq_none first seq)
      | some entry =>
        have least := OrderedMap.first_le first (OrderedMap.mem_keys_iff.mpr (by rw [found]; rfl))
        have own := (waiting _ _ (OrderedMap.first_mem first)).2
        rw [first, Option.map_some, Option.getD_some] at isThrough
        have limit := min_le_left (entry.1 - 1) session.outputGapThrough
        omega
  have beyond : session.lastPublishedSeq < throughSeq := by
    cases first : session.pending.first with
    | none =>
      rw [first, Option.map_none, Option.getD_none, min_self] at isThrough
      omega
    | some entry =>
      have own := waiting _ _ (OrderedMap.first_mem first)
      have different : entry.1 ≠ session.lastPublishedSeq + 1 := by
        intro same
        have found := OrderedMap.first_mem first
        rw [same, absent] at found
        cases found
      rw [first, Option.map_some, Option.getD_some] at isThrough
      have below := own.2
      rcases min_choice (entry.1 - 1) session.outputGapThrough with isFirst | isGapEnd
      · omega
      · omega
  have shape : session.publishGap = { session with
      lastPublishedSeq := throughSeq
      published := session.published ++ [.outputGap throughSeq] } := by
    rw [publishGap, isThrough]
  refine ⟨throughSeq, ?_, ?_, beyond, upper, ?_⟩
  · rw [shape]
    refine ⟨rfl, Tiles.gap beyond, ?_, ?_, ?_, ?_, ?_, ?_, rfl, rfl, rfl, ?_⟩
    · intro event member
      rw [List.mem_singleton] at member
      subst member
      exact .inl rfl
    · intro seq _ below
      exact .inr ⟨le_trans below upper, clear seq below⟩
    · intro seq event found
      refine ⟨found, ?_⟩
      by_contra within
      rw [not_lt] at within
      change session.pending.get seq = some event at found
      rw [clear seq within] at found
      cases found
    · exact fun _ _ _ found _ => found
    · simp [isExited]
    · simp [isClosed]
    · intro passed
      omega
  · rw [shape]
  · rw [shape]

theorem Published.waiting {before after : SessionState} {new : List ExecProcessEvent}
    (published : Published before after new) (waiting : before.Waiting) : after.Waiting := by
  intro seq event found
  obtain ⟨earlier, beyond⟩ := published.rest seq event found
  exact ⟨(waiting seq event earlier).1, beyond⟩

/-- The loop publishes, and with enough turns it ends with the close or where the next sequence is
    neither pending nor inside the gap. -/
theorem publishLoop_spec {fuel : Nat} (waiting : session.Waiting)
    (enough : session.pending.length + (session.outputGapThrough - session.lastPublishedSeq) < fuel) :
    ∃ new, Published session (publishLoop fuel session).1 new ∧
      ((publishLoop fuel session).2 = true ↔ new.any isClosed = true) ∧
      ((publishLoop fuel session).2 = false →
        (publishLoop fuel session).1.pending.get
          ((publishLoop fuel session).1.lastPublishedSeq + 1) = none ∧
        session.outputGapThrough ≤ (publishLoop fuel session).1.lastPublishedSeq) := by
  induction fuel generalizing session with
  | zero => omega
  | succ fuel ih =>
    rw [publishLoop]
    cases found : session.pending.get (session.lastPublishedSeq + 1) with
    | none =>
      dsimp only
      by_cases inside : session.lastPublishedSeq + 1 ≤ session.outputGapThrough
      · rw [if_pos inside]
        obtain ⟨throughSeq, published, isThrough, beyond, upper, samePending⟩ :=
          published_publishGap waiting found inside
        have less : session.publishGap.pending.length +
            (session.publishGap.outputGapThrough - session.publishGap.lastPublishedSeq) < fuel := by
          rw [samePending, published.outputGapThrough, isThrough]
          omega
        obtain ⟨new, rest, closes, stops⟩ :=
          ih (published.waiting waiting) less
        refine ⟨_, published.trans rest rfl, ?_, ?_⟩
        · rw [closes]
          simp [isClosed]
        · intro unclosed
          rw [← published.outputGapThrough]
          exact stops unclosed
      · rw [if_neg inside]
        refine ⟨[], Published.refl waiting, by simp, ?_⟩
        intro _
        exact ⟨found, by dsimp only; omega⟩
    | some event =>
      dsimp only
      have published := published_publishEvent waiting found
      by_cases closing : isClosed event = true
      · rw [if_pos closing]
        refine ⟨[event], published.clear (by simp [closing]), by simp [closing], ?_⟩
        intro impossible
        cases impossible
      rw [if_neg closing]
      have notClosing : isClosed event = false := by simpa using closing
      have shorter := OrderedMap.length_remove found
      have less : (session.publishEvent event).pending.length +
          ((session.publishEvent event).outputGapThrough -
            (session.publishEvent event).lastPublishedSeq) < fuel := by
        change (session.pending.remove (session.lastPublishedSeq + 1)).length +
          (session.outputGapThrough - (session.lastPublishedSeq + 1)) < fuel
        omega
      obtain ⟨new, rest, closes, stops⟩ :=
        ih (published.waiting waiting) less
      refine ⟨_, published.trans rest (by simp [notClosing]), ?_, ?_⟩
      · rw [closes]
        simp [notClosing]
      · intro unclosed
        exact stops unclosed

theorem publishReady_spec (waiting : session.Waiting) :
    ∃ new, Published session session.publishReady.1 new ∧
      (session.publishReady.2 = true ↔ new.any isClosed = true) ∧
      (session.publishReady.2 = false →
        session.publishReady.1.pending.get (session.publishReady.1.lastPublishedSeq + 1) = none ∧
        session.outputGapThrough ≤ session.publishReady.1.lastPublishedSeq) :=
  publishLoop_spec waiting (Nat.lt_succ_self _)

end SessionState

end Codex.ExecServer.Process
