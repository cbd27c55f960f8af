import Codex.ExecServer.Process.RetainedReads

/-!
# Process events across connections

One remote process end to end: the server's record, the forwarder of
`exec-server/src/local_process.rs` that sends its events to the connection of the moment and
rebuilds its queue when it falls behind the live log, connections that are cut, and the client
session with its recovery reads (`client.rs`, `client_recovery.rs`). A gap that was declared on one
connection can meet an exit that was lost on another.
-/

namespace Codex.ExecServer.Process

open SessionState RunningProcess

/-- `PROCESS_EVENT_CHANNEL_CAPACITY` (`local_process.rs:62`). -/
def PROCESS_EVENT_CHANNEL_CAPACITY : Nat := 256

/-- A connection: whether it still takes notifications, and those that the client has not handled. -/
structure Connection where
  alive : Bool
  inFlight : List ExecProcessEvent
  deriving DecidableEq

/-- The parties and what is under way between them. -/
structure Delivery where
  processId : String
  process : RunningProcess
  /-- everything that was published to the live log -/
  log : List ExecProcessEvent
  /-- the place of the forwarder's receiver in the log -/
  received : Nat
  lastSeq : Nat
  queue : List ExecProcessEvent
  stopped : Bool
  connections : List Connection
  sink : Option Nat
  failedSink : Option Nat
  /-- `after_seq` of the recovery reads that are not answered -/
  reads : List Nat
  responses : List ReadResponse
  session : SessionState

namespace Delivery

def start (processId : String) (tty sandboxed : Bool) : Delivery :=
  { processId, process := spawned tty sandboxed, log := [], received := 0, lastSeq := 0, queue := []
    stopped := false, connections := [], sink := none, failedSink := none, reads := []
    responses := [], session := SessionState.new }

/-! ## The server -/

/-- What a step publishes to the live log: numbered events, or a lost exit observation. -/
def publishedBy (before after : RunningProcess) : List ExecProcessEvent :=
  after.history.drop before.history.length ++
    if before.failure.isNone then after.failure.toList.map .failed else []

def serverStep (delivery : Delivery) (step : ProcessStep) : Delivery :=
  { delivery with
    process := delivery.process.step step
    log := delivery.log ++ publishedBy delivery.process (delivery.process.step step) }

/-! ## The forwarder -/

/-- The events that a new subscription replays (`process.rs:124`, `process.rs:146`). -/
def retainedLog : List ExecProcessEvent → List ExecProcessEvent
  | [] => []
  | event :: events =>
      if (event :: events).length > PROCESS_EVENT_CHANNEL_CAPACITY ||
          ((event :: events).map ExecProcessEvent.bytes).sum > RETAINED_OUTPUT_BYTES_PER_PROCESS then
        retainedLog events
      else event :: events

/-- The retained output of a rebuilt queue (`local_process.rs:1454`). -/
def retainedFor (process : RunningProcess) (lastSeq : Nat) : List ProcessOutputChunk :=
  (process.output.reverse.filter fun chunk =>
    chunk.seq > max lastSeq process.lastEvictedSeq).take PROCESS_EVENT_CHANNEL_CAPACITY

/-- `notification_gap` (`local_process.rs:1460`). -/
def notificationGap (process : RunningProcess) (lastSeq : Nat) : Nat :=
  max (((retainedFor process lastSeq).map fun chunk => chunk.seq - 1).min?.getD 0)
    process.lastEvictedSeq

/-- The gap up to an exit that the declared gap covers (`local_process.rs:1466`). -/
def gapBeforeExit (process : RunningProcess) (lastSeq : Nat) : List (Nat × ExecProcessEvent) :=
  match process.exitSeq, process.exitCode with
  | some seq, some _ =>
      if seq > lastSeq && seq ≤ notificationGap process lastSeq && seq - 1 > lastSeq then
        [(seq - 1, .outputGap (seq - 1))]
      else []
  | _, _ => []

/-- The declared gap (`local_process.rs:1474`). -/
def declaredGap (process : RunningProcess) (lastSeq : Nat) : List (Nat × ExecProcessEvent) :=
  let gap := notificationGap process lastSeq
  if gap > lastSeq && process.exitSeq ≠ some gap then [(gap, .outputGap gap)] else []

/-- The retained exit (`local_process.rs:1479`). -/
def retainedExit (process : RunningProcess) (lastSeq : Nat) : List (Nat × ExecProcessEvent) :=
  match process.exitSeq, process.exitCode with
  | some seq, some exitCode =>
      if seq > lastSeq then
        [(seq, .exited seq exitCode (if process.sandboxed then none else some false))]
      else []
  | _, _ => []

/-- The close, or the failure (`local_process.rs:1487`). -/
def retainedEnd (process : RunningProcess) : List (Nat × ExecProcessEvent) :=
  if process.closed then
    [(process.nextSeq - 1, .closed (process.nextSeq - 1)
      (if process.sandboxDenied then some true
      else if process.sandboxed then none else some false))]
  else process.failure.toList.map fun message => (process.nextSeq, .failed message)

/-- The queue that replaces a lagged receiver (`local_process.rs:1450`). -/
def rebuild (process : RunningProcess) (lastSeq : Nat) : List ExecProcessEvent :=
  ((gapBeforeExit process lastSeq ++ declaredGap process lastSeq ++ retainedExit process lastSeq ++
    retainedEnd process ++
    (retainedFor process lastSeq).map fun chunk : ProcessOutputChunk =>
      (chunk.seq, ExecProcessEvent.output chunk)).mergeSort
        fun first second => first.1 ≤ second.1).map Prod.snd

/-- The receiver fell behind the live log (`local_process.rs:1440`). -/
def lag (delivery : Delivery) : Delivery :=
  if delivery.stopped || !delivery.queue.isEmpty then delivery
  else
    { delivery with
      received := delivery.log.length - (retainedLog delivery.log).length
      queue := rebuild delivery.process delivery.lastSeq }

/-- How a notification fared on its connection. -/
inductive SendOutcome where
  | sent
  /-- an error or a timeout, with the notification gone out or not -/
  | failed (arrived : Bool)

/-- The sink of the moment, unless a delivery to it failed (`local_process.rs:1509`). -/
def liveSink (delivery : Delivery) : Option Nat :=
  delivery.sink.filter fun sink => delivery.failedSink ≠ some sink

end Delivery

/-- A notification goes onto a connection that is not cut. -/
def Connection.push (connection : Connection) (event : ExecProcessEvent) : Connection :=
  if connection.alive then { connection with inFlight := connection.inFlight ++ [event] }
  else connection

namespace Delivery

def send (delivery : Delivery) (sink : Nat) (event : ExecProcessEvent) :
    SendOutcome → Delivery
  | .sent =>
      { delivery with
        connections := delivery.connections.modify sink fun connection => connection.push event }
  | .failed arrived =>
      { delivery with
        connections := if arrived then
          delivery.connections.modify sink fun connection => connection.push event
        else delivery.connections
        failedSink := some sink }

/-- `Closed` and `Failed` end the forwarder. -/
def terminal : ExecProcessEvent → Bool
  | .closed _ _ => true
  | .failed _ => true
  | .output _ => false
  | .outputGap _ => false
  | .exited _ _ _ => false

/-- The event after it was taken (`local_process.rs:1505`). -/
def forwardEvent (delivery : Delivery) (event : ExecProcessEvent) (outcome : SendOutcome) :
    Delivery :=
  if event.seq.any fun seq => seq ≤ delivery.lastSeq then delivery
  else
    let sent := delivery.liveSink.elim delivery fun sink => delivery.send sink event outcome
    { sent with
      lastSeq := event.seq.getD delivery.lastSeq
      stopped := terminal event }

/-- One turn of `forward_process_notifications` (`local_process.rs:1413`). -/
def forward (delivery : Delivery) (outcome : SendOutcome) : Delivery :=
  if delivery.stopped then delivery
  else match delivery.queue with
    | event :: queue => forwardEvent { delivery with queue := queue } event outcome
    | [] =>
        match delivery.log[delivery.received]? with
        | none => delivery
        | some event =>
            forwardEvent { delivery with received := delivery.received + 1 } event outcome

/-! ## Connections -/

/-- A new connection becomes the sink. -/
def bind (delivery : Delivery) : Delivery :=
  { delivery with
    connections := delivery.connections ++ [⟨true, []⟩]
    sink := some delivery.connections.length }

/-- `set_notification_sender(None)`. -/
def unbind (delivery : Delivery) : Delivery := { delivery with sink := none }

/-- A connection is cut and loses what was sent after some notifications. -/
def cut (delivery : Delivery) (connection kept : Nat) : Delivery :=
  { delivery with
    connections := delivery.connections.modify connection fun connection =>
      ⟨false, connection.inFlight.take kept⟩ }

/-! ## The client -/

/-- `finish_process_event` (`client.rs:1740`). -/
def finishProcessEvent (result : Except String Bool × SessionState) : SessionState :=
  match result with
  | (.ok _, session) => session
  | (.error message, session) => session.setFailure message

/-- `handle_server_notification` (`client.rs:2058`). -/
def handleNotification (session : SessionState) : ExecProcessEvent → SessionState
  | .failed message => session.setFailure message
  | event => finishProcessEvent (session.publishOrderedEvent event)

/-- The client handles the next notification of a connection. -/
def deliver (delivery : Delivery) (connection : Nat) : Delivery :=
  match delivery.connections[connection]? with
  | none => delivery
  | some from_ =>
      match from_.inFlight with
      | [] => delivery
      | event :: rest =>
          { delivery with
            connections := delivery.connections.set connection { from_ with inFlight := rest }
            session := handleNotification delivery.session event }

/-- A recovery read goes out (`client_recovery.rs:693`). -/
def requestRead (delivery : Delivery) : Delivery :=
  { delivery with reads := delivery.reads ++ [delivery.session.lastPublishedSeq] }

/-- The text of a failed recovery (`client_recovery.rs:726`). -/
def recoveryFailed (delivery : Delivery) (message : String) : String :=
  "failed to recover process " ++ delivery.processId ++ ": " ++ message

/-- `ExecServerError::Server` of `invalid_params` as text (`client.rs:616`). -/
def rejectedRequest (delivery : Delivery) (message : String) : String :=
  "exec-server rejected request (-32602): " ++ message ++ " for process " ++ delivery.processId

/-- `ExecServerError::Protocol` as text (`client.rs:614`). -/
def protocolError (message : String) : String := "exec-server protocol error: " ++ message

/-- The server answers a read, or refuses it. -/
def answerRead (delivery : Delivery) (read : Nat) : Delivery :=
  match delivery.reads[read]? with
  | none => delivery
  | some afterSeq =>
      match delivery.process.execRead afterSeq none with
      | .ok response =>
          { delivery with
            reads := delivery.reads.eraseIdx read
            responses := delivery.responses ++ [response] }
      | .error message =>
          { delivery with
            reads := delivery.reads.eraseIdx read
            session := delivery.session.setFailure
              (delivery.recoveryFailed (delivery.rejectedRequest message)) }

/-- A read fails for another reason, such as a record that is gone. -/
def failRead (delivery : Delivery) (read : Nat) (message : String) : Delivery :=
  { delivery with
    reads := delivery.reads.eraseIdx read
    session := delivery.session.setFailure (delivery.recoveryFailed message) }

/-- A read or its answer is lost with its connection, to be tried again. -/
def loseRead (delivery : Delivery) (read : Nat) : Delivery :=
  { delivery with reads := delivery.reads.eraseIdx read }

def loseResponse (delivery : Delivery) (response : Nat) : Delivery :=
  { delivery with responses := delivery.responses.eraseIdx response }

/-- The result of a recovery (`client_recovery.rs:713`). -/
def finishRecovered (delivery : Delivery) (result : Except String Bool × SessionState) :
    SessionState :=
  match result with
  | (.ok _, session) => session
  | (.error message, session) =>
      session.setFailure (delivery.recoveryFailed (protocolError message))

/-- The client handles the answer to a read. -/
def handleResponse (delivery : Delivery) (response : Nat) : Delivery :=
  match delivery.responses[response]? with
  | none => delivery
  | some answer =>
      { delivery with
        responses := delivery.responses.eraseIdx response
        session := delivery.finishRecovered (delivery.session.recoverEvents answer) }

end Delivery

/-- What happens next, in any order. -/
inductive DeliveryStep where
  | server (step : ProcessStep)
  | forward (outcome : Delivery.SendOutcome)
  | lag
  | bind
  | unbind
  | cut (connection kept : Nat)
  | deliver (connection : Nat)
  | requestRead
  | answerRead (read : Nat)
  | failRead (read : Nat) (message : String)
  | loseRead (read : Nat)
  | loseResponse (response : Nat)
  | handleResponse (response : Nat)

namespace Delivery

def step (delivery : Delivery) : DeliveryStep → Delivery
  | .server step => delivery.serverStep step
  | .forward outcome => delivery.forward outcome
  | .lag => delivery.lag
  | .bind => delivery.bind
  | .unbind => delivery.unbind
  | .cut connection kept => delivery.cut connection kept
  | .deliver connection => delivery.deliver connection
  | .requestRead => delivery.requestRead
  | .answerRead read => delivery.answerRead read
  | .failRead read message => delivery.failRead read message
  | .loseRead read => delivery.loseRead read
  | .loseResponse response => delivery.loseResponse response
  | .handleResponse response => delivery.handleResponse response

def run (delivery : Delivery) (steps : List DeliveryStep) : Delivery := steps.foldl step delivery

end Delivery

/-! ## What grows -/

namespace RunningProcess

/-- A later state of a process: the history goes on, what is known of the exit stays, a later exit
    comes later, and a close was the end. -/
structure Extends (before after : RunningProcess) : Prop where
  history : before.history <+: after.history
  next : before.nextSeq ≤ after.nextSeq
  exitSeq : ∀ seq, before.exitSeq = some seq → after.exitSeq = some seq
  exitCode : ∀ code, before.exitCode = some code → after.exitCode = some code
  later : before.exitSeq = none → ∀ seq, after.exitSeq = some seq → before.nextSeq ≤ seq
  closed : before.closed = true → after.closed = true ∧ after.nextSeq = before.nextSeq

theorem Extends.refl (process : RunningProcess) : process.Extends process where
  history := List.prefix_refl _
  next := le_refl _
  exitSeq := fun _ isExit => isExit
  exitCode := fun _ isCode => isCode
  later := by
    intro running seq isExit
    rw [running] at isExit
    cases isExit
  closed := fun closed => ⟨closed, rfl⟩

/-- A step that leaves the exit and the close. -/
theorem Extends.of_same {before after : RunningProcess} (history : before.history <+: after.history)
    (next : before.nextSeq ≤ after.nextSeq) (exitSeq : after.exitSeq = before.exitSeq)
    (exitCode : after.exitCode = before.exitCode) (closed : after.closed = before.closed)
    (isOpen : before.closed = false ∨ after.nextSeq = before.nextSeq) :
    before.Extends after where
  history := history
  next := next
  exitSeq := fun seq isExit => exitSeq.trans isExit
  exitCode := fun code isCode => exitCode.trans isCode
  later := by
    intro running seq isExit
    rw [exitSeq, running] at isExit
    cases isExit
  closed := by
    intro isClosed
    refine ⟨closed.trans isClosed, ?_⟩
    rcases isOpen with isOpen | same
    · rw [isOpen] at isClosed
      cases isClosed
    · exact same

theorem Recorded.extends_step {process : RunningProcess} (recorded : process.Recorded)
    (step : ProcessStep) : process.Extends (process.step step) := by
  have none : process.exitSeq = none → process.exitCode = none := by
    intro running
    have known := recorded.exitKnown
    rw [running] at known
    simpa using known
  cases step with
  | output second chunk =>
    rw [RunningProcess.step]
    split
    · next draining =>
      have isOpen := (recorded.open_of_task (.inr ⟨second, draining⟩)).1
      exact .of_same (List.prefix_append _ _) (Nat.le_succ _) rfl rfl rfl (.inl isOpen)
    · exact .refl _
  | finish second captured =>
    rw [RunningProcess.step]
    split
    · next draining =>
      have isOpen := (recorded.open_of_task (.inr ⟨second, draining⟩)).1
      unfold RunningProcess.finishOutputStream
      dsimp only
      generalize (if process.tty then process.openStreams > 1 || captured else captured) = complete
      cases complete with
      | true => exact .of_same (List.prefix_refl _) (le_refl _) rfl rfl rfl (.inl isOpen)
      | false => exact .of_same (List.prefix_append _ _) (Nat.le_succ _) rfl rfl rfl (.inl isOpen)
    · exact .refl _
  | exit exitCode =>
    rw [RunningProcess.step]
    split
    · next watching =>
      have isOpen := (recorded.open_of_task (.inl watching)).1
      have running := recorded.waiting watching
      cases exitCode with
      | none => exact .of_same (List.prefix_refl _) (le_refl _) rfl rfl rfl (.inl isOpen)
      | some code =>
        refine ⟨List.prefix_append _ _, Nat.le_succ _, ?_, ?_, ?_, ?_⟩
        · intro seq isExit
          rw [running] at isExit
          cases isExit
        · intro code isCode
          rw [none running] at isCode
          cases isCode
        · intro _ seq isExit
          exact le_of_eq (Option.some.inj isExit)
        · intro closed
          rw [isOpen] at closed
          cases closed
    · exact .refl _
  | beginClose unconfirmed =>
    rw [RunningProcess.step, RunningProcess.beginClose]
    split
    · exact .refl _
    · exact .of_same (List.prefix_refl _) (le_refl _) rfl rfl rfl (.inr rfl)
  | finishClose denied =>
    rw [RunningProcess.step]
    split
    · next finalizing =>
      unfold RunningProcess.finishClose
      split
      · exact .refl _
      next isOpen =>
      refine ⟨List.prefix_append _ _, Nat.le_succ _, fun seq isExit => isExit,
        fun code isCode => isCode, ?_, ?_⟩
      · intro running seq isExit
        change process.exitSeq = some seq at isExit
        rw [running] at isExit
        cases isExit
      · intro closed
        exact absurd closed isOpen
    · exact .refl _

end RunningProcess

/-! ## What may be under way -/

/-- A notification that the server sends: an event of its own, or a gap up to a sequence that it has
    assigned. -/
def Sent (process : RunningProcess) : ExecProcessEvent → Prop
  | .output chunk => ExecProcessEvent.output chunk ∈ process.history
  | .outputGap throughSeq => throughSeq < process.nextSeq
  | .exited seq exitCode _ => process.exitSeq = some seq ∧ process.exitCode = some exitCode
  | .closed seq _ => process.closed = true ∧ seq + 1 = process.nextSeq
  | .failed _ => True

variable {after process : RunningProcess} {event : ExecProcessEvent}

theorem Sent.extend {before : RunningProcess} (grown : before.Extends after)
    (sent : Sent before event) : Sent after event := by
  cases event with
  | output chunk => exact grown.history.subset sent
  | outputGap throughSeq => exact lt_of_lt_of_le sent grown.next
  | exited seq exitCode denied => exact ⟨grown.exitSeq _ sent.1, grown.exitCode _ sent.2⟩
  | closed seq denied =>
    obtain ⟨closed, next⟩ := grown.closed sent.1
    exact ⟨closed, sent.2.trans next.symm⟩
  | failed message => trivial

/-- An answer to a read that the server gave at some time. -/
structure Answered (process : RunningProcess) (response : ReadResponse) : Prop where
  output : ∀ chunk ∈ response.chunks, ExecProcessEvent.output chunk ∈ process.history
  next : response.nextSeq ≤ process.nextSeq
  exited : response.exited = response.exitCode.isSome
  exit : ∀ exitCode, response.exitCode = some exitCode → process.exitCode = some exitCode ∧
    ∃ seq, process.exitSeq = some seq ∧ seq + 1 ≤ response.nextSeq
  closed : response.closed = true → process.closed = true ∧ response.nextSeq = process.nextSeq
  gap : ∀ gap, response.outputGap = some gap → ∀ seq, gap.exitSeq = some seq ↔
    process.exitSeq = some seq ∧ seq + 1 ≤ response.nextSeq

theorem Answered.extend {before : RunningProcess} (grown : before.Extends after)
    {response : ReadResponse} (answered : Answered before response) : Answered after response where
  output := fun chunk member => grown.history.subset (answered.output chunk member)
  next := le_trans answered.next grown.next
  exited := answered.exited
  exit := by
    intro exitCode isCode
    obtain ⟨own, seq, isExit, below⟩ := answered.exit exitCode isCode
    exact ⟨grown.exitCode _ own, seq, grown.exitSeq _ isExit, below⟩
  closed := by
    intro closed
    obtain ⟨own, same⟩ := answered.closed closed
    obtain ⟨still, next⟩ := grown.closed own
    exact ⟨still, same.trans next.symm⟩
  gap := by
    intro gap isGap seq
    rw [answered.gap gap isGap seq]
    refine ⟨fun facts => ⟨grown.exitSeq _ facts.1, facts.2⟩, ?_⟩
    rintro ⟨isExit, below⟩
    refine ⟨?_, below⟩
    cases own : before.exitSeq with
    | none =>
      have later := grown.later own seq isExit
      have next := answered.next
      omega
    | some other => rw [← isExit, grown.exitSeq other own]

theorem RunningProcess.Recorded.answered (recorded : process.Recorded)
    (afterSeq : Nat) : Answered process (process.snapshot afterSeq) where
  output := fun chunk member =>
    recorded.mem_output ((mem_snapshot recorded).mp member).1
  next := le_refl _
  exited := rfl
  exit := by
    intro exitCode isCode
    refine ⟨isCode, ?_⟩
    have exited : process.exitSeq.isSome = true := by
      rw [← recorded.exitKnown]
      change process.exitCode = some exitCode at isCode
      rw [isCode]
      rfl
    obtain ⟨seq, isExit⟩ := Option.isSome_iff_exists.mp exited
    exact ⟨seq, isExit, (recorded.exit_apart isExit).2.1⟩
  closed := fun closed => ⟨closed, rfl⟩
  gap := by
    intro gap isGap seq
    change (if afterSeq < process.lastEvictedSeq then
      some (⟨process.lastEvictedSeq, process.exitSeq⟩ : ProcessOutputGap) else none) =
      some gap at isGap
    split at isGap
    · rw [← Option.some.inj isGap]
      exact ⟨fun isExit => ⟨isExit, (recorded.exit_apart isExit).2.1⟩, fun facts => facts.1⟩
    · cases isGap

/-! ## The session -/

/-- The contract of a session: events of the server at their sequences, and no gap over the exit. -/
def deliveryContract {process : RunningProcess} (recorded : process.Recorded) : Contract where
  start := 0
  exitKnown := false
  limit := process.nextSeq - 1
  Genuine := fun event => isGap event = false ∧ Sent process event
  Kept := fun seq => process.exitSeq = some seq
  bounded := by
    rintro event seq ⟨notGap, sent⟩ isSeq
    cases event with
    | output chunk =>
      obtain ⟨own, isOwn, -, below⟩ := recorded.seq_le sent
      rw [isSeq, Option.some.injEq] at isOwn
      omega
    | outputGap _ => cases notGap
    | exited own exitCode denied =>
      have below := (recorded.exit_apart sent.1).2.1
      have same := Option.some.inj isSeq
      omega
    | closed own denied =>
      have isLast := sent.2
      have same := Option.some.inj isSeq
      omega
    | failed _ => cases isSeq
  keeps := fun _ _ genuine _ _ => genuine.1

section

variable {process : RunningProcess} {recorded : process.Recorded} {budget : Nat}
  {session : SessionState}

/-- An event at the sequence of the exit is the exit. -/
theorem isExited_of_seq (recorded : process.Recorded) {seq : Nat}
    (isExit : process.exitSeq = some seq) (notGap : isGap event = false) (sent : Sent process event)
    (isSeq : event.seq = some seq) : isExited event = true := by
  cases event with
  | output chunk =>
    obtain ⟨exitCode, denied, member⟩ := recorded.exitHappened seq isExit
    cases recorded.eq_of_seq sent member isSeq
  | outputGap _ => cases notGap
  | exited _ _ _ => rfl
  | closed own denied =>
    have apart := (recorded.exit_apart isExit).2.2.2 sent.1
    have isLast := sent.2
    have same := Option.some.inj isSeq
    omega
  | failed _ => cases isSeq

/-- The contract grows with the process. -/
theorem SessionState.Faithful.extend {later : after.Recorded}
    (faithful : Faithful (deliveryContract recorded) budget session)
    (grown : process.Extends after) : Faithful (deliveryContract later) budget session where
  waiting := faithful.waiting
  tiles := faithful.tiles
  limited := le_trans faithful.limited (Nat.sub_le_sub_right grown.next 1)
  pendingGenuine := by
    intro seq event found
    obtain ⟨notGap, sent⟩ := faithful.pendingGenuine seq event found
    exact ⟨notGap, sent.extend grown⟩
  publishedGenuine := by
    intro event member notGap
    exact ⟨notGap, (faithful.publishedGenuine event member notGap).2.extend grown⟩
  kept := by
    intro seq isExit inGap
    cases own : process.exitSeq with
    | none =>
      -- The exit came after everything that was published.
      have beyond := grown.later own seq isExit
      have below : seq ≤ session.lastPublishedSeq := faithful.tiles.inGap_le inGap
      have limited : session.lastPublishedSeq ≤ process.nextSeq - 1 := faithful.limited
      have positive := recorded.next
      omega
    | some other =>
      have same : other = seq := by
        have still := grown.exitSeq other own
        exact Option.some.inj (still.symm.trans isExit)
      exact faithful.kept seq (same ▸ own) inGap
  exits := faithful.exits
  closes := faithful.closes
  count := faithful.count

theorem faithful_new (recorded : process.Recorded) :
    Faithful (deliveryContract recorded) 0 SessionState.new where
  waiting := by
    intro seq event found
    cases found
  tiles := rfl
  limited := Nat.zero_le _
  pendingGenuine := by
    intro seq event found
    cases found
  publishedGenuine := by
    intro event member
    cases member
  kept := by
    intro seq _ inGap
    cases inGap
  exits := rfl
  closes := rfl
  count := le_refl _

/-- A session that keeps the contract, with no gap left open. -/
structure Keeping (recorded : process.Recorded) (session : SessionState) : Prop where
  faithful : ∃ budget, Faithful (deliveryContract recorded) budget session
  passed : session.closedPublished = false → session.outputGapThrough ≤ session.lastPublishedSeq

theorem Keeping.setFailure (keeping : Keeping recorded session) (message : String) :
    Keeping recorded (session.setFailure message) := by
  obtain ⟨⟨budget, faithful⟩, passed⟩ := keeping
  unfold SessionState.setFailure
  split
  · exact ⟨⟨budget, faithful⟩, passed⟩
  have tiles : Tiles 0 (session.published ++ [.failed message]) session.lastPublishedSeq :=
    faithful.tiles.append (Tiles.unsequenced _ rfl)
  refine ⟨⟨budget + 1, ?_, tiles, faithful.limited, ?_, ?_, ?_, ?_, ?_, ?_⟩, passed⟩
  · intro seq event found
    cases found
  · intro seq event found
    cases found
  · intro event member notGap
    rcases List.mem_append.mp member with older | new
    · exact faithful.publishedGenuine event older notGap
    · rw [List.mem_singleton.mp new]
      exact ⟨rfl, trivial⟩
  · intro seq kept inGap
    rcases inGap.of_append faithful.tiles with early | late
    · exact faithful.kept seq kept early
    · rcases late with here | rest
      · cases here.1
      · cases rest
  · change session.exitPublished = _
    rw [faithful.exits, List.any_append]
    simp [isExited]
  · change session.closedPublished = _
    rw [faithful.closes, List.any_append]
    simp [isClosed]
  · have count := faithful.count
    change (session.published ++ [ExecProcessEvent.failed message]).length + 0 ≤ _
    rw [List.length_append, List.length_singleton]
    omega

/-- Publishing what is ready, where the declared gap leaves the exit out. -/
theorem Keeping.publishReady (faithful : Faithful (deliveryContract recorded) budget session)
    (limited : session.outputGapThrough ≤ process.nextSeq - 1)
    (kept : ∀ seq, process.exitSeq = some seq → session.lastPublishedSeq < seq →
      seq ≤ session.outputGapThrough → (session.pending.get seq).isSome = true) :
    Keeping recorded session.publishReady.1 := by
  obtain ⟨new, published, closes, stops⟩ := publishReady_spec faithful.waiting
  refine ⟨⟨_, faithful.published published (.inl limited) kept⟩, ?_⟩
  intro isOpen
  have unclosed : session.publishReady.2 = false := by
    by_contra closed
    rw [Bool.not_eq_false, closes] at closed
    rw [published.closedPublished, closed, Bool.or_true] at isOpen
    cases isOpen
  rw [published.outputGapThrough]
  exact (stops unclosed).2

/-- A gap notification would move the session past an exit that it does not have. -/
def skipsExit (process : RunningProcess) (session : SessionState) : ExecProcessEvent → Bool
  | .outputGap throughSeq =>
      session.failure.isNone && !session.closedPublished && process.exitSeq.any fun seq =>
        session.lastPublishedSeq < seq && seq ≤ throughSeq && (session.pending.get seq).isNone
  | .output _ => false
  | .exited _ _ _ => false
  | .closed _ _ => false
  | .failed _ => false

theorem Keeping.finishProcessEvent {result : Except String Bool × SessionState}
    (keeping : Keeping recorded result.2) :
    Keeping recorded (Delivery.finishProcessEvent result) := by
  obtain ⟨outcome, after⟩ := result
  cases outcome with
  | ok closed => exact keeping
  | error message => exact keeping.setFailure message

/-- A session that goes on. -/
theorem Keeping.insertAndPublish (faithful : Faithful (deliveryContract recorded) budget session)
    (passed : session.outputGapThrough ≤ session.lastPublishedSeq) {seq : Nat}
    (isSeq : event.seq = some seq) (beyond : session.lastPublishedSeq < seq)
    (notGap : isGap event = false) (sent : Sent process event) :
    Keeping recorded (session.insertAndPublish event).2 := by
  unfold SessionState.insertAndPublish
  cases inserted : session.insertPending event with
  | error message => exact ⟨⟨budget, faithful⟩, fun _ => passed⟩
  | ok after =>
    have next := faithful.insertPending isSeq beyond ⟨notGap, sent⟩ inserted
    have same : after.outputGapThrough = session.outputGapThrough ∧
        after.lastPublishedSeq = session.lastPublishedSeq := by
      rcases insertPending_ok isSeq inserted with ⟨rfl, -⟩ | ⟨-, rfl⟩
      · exact ⟨rfl, rfl⟩
      · exact ⟨rfl, rfl⟩
    have limited : session.lastPublishedSeq ≤ process.nextSeq - 1 := faithful.limited
    apply Keeping.publishReady next
    · omega
    · intro other _ above inside
      omega

theorem SessionState.Faithful.observeEvent
    (faithful : Faithful (deliveryContract recorded) budget session) (event : ExecProcessEvent) :
    Faithful (deliveryContract recorded) budget (session.observeEvent event) := by
  cases event <;>
    exact ⟨faithful.waiting, faithful.tiles, faithful.limited, faithful.pendingGenuine,
      faithful.publishedGenuine, faithful.kept, faithful.exits, faithful.closes, faithful.count⟩

/-- A notification that does not skip the exit keeps the contract. -/
theorem Keeping.notification (keeping : Keeping recorded session) (sent : Sent process event)
    (careful : skipsExit process session event = false) :
    Keeping recorded (Delivery.handleNotification session event) := by
  obtain ⟨⟨budget, faithful⟩, passed⟩ := id keeping
  have publish : ∀ seq, event.seq = some seq → isGap event = false →
      session.publishSequenced event = (session.observeEvent event).insertAndPublish event →
      Keeping recorded (Delivery.finishProcessEvent (session.publishOrderedEvent event)) := by
    intro seq isSeq notGap sequenced
    apply Keeping.finishProcessEvent
    rw [publishOrderedEvent, isSeq]
    dsimp only
    split
    · exact keeping
    next going =>
    simp only [Bool.or_eq_true, not_or, decide_eq_true_eq, not_le, Bool.not_eq_true] at going
    have same : (session.observeEvent event).outputGapThrough = session.outputGapThrough ∧
        (session.observeEvent event).lastPublishedSeq = session.lastPublishedSeq := by
      cases event <;> exact ⟨rfl, rfl⟩
    rw [sequenced]
    apply Keeping.insertAndPublish (faithful.observeEvent event) ?_ isSeq ?_ notGap sent
    · rw [same.1, same.2]
      exact passed going.1.2
    · rw [same.2]
      exact going.2
  cases event with
  | output chunk => exact publish chunk.seq rfl rfl rfl
  | exited seq exitCode denied => exact publish seq rfl rfl rfl
  | closed seq denied => exact publish seq rfl rfl rfl
  | failed message => exact keeping.setFailure message
  | outputGap throughSeq =>
    apply Keeping.finishProcessEvent
    rw [publishOrderedEvent]
    dsimp only [ExecProcessEvent.seq_outputGap]
    split
    · exact keeping
    next going =>
    simp only [Bool.or_eq_true, not_or, decide_eq_true_eq, not_le, Bool.not_eq_true] at going
    have declared : Faithful (deliveryContract recorded) budget { session with
        outputGapThrough := max session.outputGapThrough throughSeq } :=
      ⟨faithful.waiting, faithful.tiles, faithful.limited, faithful.pendingGenuine,
        faithful.publishedGenuine, faithful.kept, faithful.exits, faithful.closes, faithful.count⟩
    have earlier := passed going.1.2
    have limited : session.lastPublishedSeq ≤ process.nextSeq - 1 := faithful.limited
    have assigned : throughSeq < process.nextSeq := sent
    apply Keeping.publishReady declared
    · dsimp only
      omega
    intro seq isExit above inside
    dsimp only at above inside ⊢
    by_contra missing
    have skipped : skipsExit process session (.outputGap throughSeq) = true := by
      have unfailed : session.failure.isNone = true := by simpa using going.1.1
      rw [skipsExit, isExit, unfailed, going.1.2]
      simp only [Option.any_some, Bool.true_and, Bool.not_false, Bool.and_eq_true,
        decide_eq_true_eq]
      refine ⟨⟨above, by omega⟩, by simpa using missing⟩
    rw [careful] at skipped
    cases skipped

/-- An answer fits the contract. -/
theorem Answered.answers {response : ReadResponse} (answered : Answered process response) :
    Answers (deliveryContract recorded) response (response.nextSeq - 1) where
  output := fun chunk member _ => ⟨rfl, answered.output chunk member⟩
  close := by
    intro closed
    obtain ⟨own, same⟩ := answered.closed closed
    have next := recorded.next
    exact ⟨rfl, own, by omega⟩
  assess := by
    rintro event ⟨notGap, sent⟩
    cases event with
    | output _ => exact ⟨rfl, sent⟩
    | outputGap _ => cases notGap
    | exited _ _ _ => exact ⟨rfl, sent⟩
    | closed _ _ => exact ⟨rfl, sent⟩
    | failed _ => exact ⟨rfl, sent⟩
  exits := by
    rintro exited event seq ⟨notGap, sent⟩ isExit isSeq
    rw [answered.exited] at exited
    obtain ⟨exitCode, isCode⟩ := Option.isSome_iff_exists.mp exited
    obtain ⟨-, own, isOwn, below⟩ := answered.exit exitCode isCode
    cases event with
    | exited other _ _ =>
      have same : other = own := Option.some.inj (sent.1.symm.trans isOwn)
      have isOther := Option.some.inj isSeq
      omega
    | output _ => cases isExit
    | outputGap _ => cases isExit
    | closed _ _ => cases isExit
    | failed _ => cases isExit
  exit := by
    intro _ _ exitCode isCode
    right
    obtain ⟨own, seq, isExit, below⟩ := answered.exit exitCode isCode
    have bounds := recorded.exit_apart isExit
    refine ⟨seq, bounds.1, by omega, isExit, ⟨rfl, isExit, own⟩, ?_⟩
    rintro event ⟨notGap, sent⟩ isSeq
    exact isExited_of_seq recorded isExit notGap sent isSeq

/-- The answer to a recovery read keeps the contract. -/
theorem Keeping.recoverEvents (keeping : Keeping recorded session) {response : ReadResponse}
    (answered : Answered process response) :
    Keeping recorded (session.recoverEvents response).2 := by
  obtain ⟨⟨budget, faithful⟩, passed⟩ := keeping
  have observed := faithful.observe response
  have limited : response.nextSeq - 1 ≤ process.nextSeq - 1 := Nat.sub_le_sub_right answered.next 1
  unfold SessionState.recoverEvents
  dsimp only
  cases response.failure with
  | some message => exact ⟨⟨budget, observed⟩, passed⟩
  | none =>
    dsimp only
    cases isGap : response.outputGap with
    | none =>
      dsimp only
      split
      · exact ⟨⟨budget, observed⟩, passed⟩
      next unfinished =>
      simp only [Bool.or_eq_true, not_or, decide_eq_true_eq, not_le, Bool.not_eq_true]
        at unfinished
      obtain ⟨after, through⟩ := observed.recoverThrough (passed unfinished.1.2) unfinished.2
        answered.answers
      exact ⟨⟨_, after⟩, fun _ => through⟩
    | some gap =>
      dsimp only
      have exitPlace := answered.gap gap isGap
      have next := @Faithful.recoverOutputGap _ response gap _ _
        (observed.mono (Nat.le_add_right budget (session.published.length +
          ((session.observeReadFacts response).pending.retain fun seq =>
            decide (response.nextSeq - 1 < seq)).length +
          2 * ((session.observeReadFacts response).mergeRecovered (response.nextSeq - 1)
            (recoveredEvents response gap (response.nextSeq - 1)
              (response.exitCode.getD 0))).length + 1))) passed limited ?_ ?_ ?_
      · exact ⟨⟨_, next.1⟩, next.2⟩
      · intro accepted entry member
        simp only [gapRejected, Bool.or_eq_false_iff] at accepted
        rw [recoveredEvents, List.mem_append, List.mem_append] at member
        rcases member with (isChunk | isExit) | isClose
        · obtain ⟨chunk, inChunks, rfl⟩ := List.mem_map.mp isChunk
          exact ⟨rfl, answered.output chunk inChunks⟩
        · rw [Option.mem_toList, Option.map_eq_some_iff] at isExit
          obtain ⟨seq, isSeq, rfl⟩ := isExit
          have known : response.exitCode.isSome = true := by
            rw [← answered.exited]
            simpa [isSeq] using accepted.1.1.1.1.2
          obtain ⟨exitCode, isCode⟩ := Option.isSome_iff_exists.mp known
          refine ⟨rfl, ((exitPlace seq).mp isSeq).1, ?_⟩
          rw [isCode]
          exact (answered.exit exitCode isCode).1
        · split at isClose
          · next closed =>
            rw [List.mem_singleton.mp isClose]
            exact (@Answered.answers process recorded response answered).close closed
          · cases isClose
      · intro _ seq isExit above inside
        left
        have bounds := recorded.exit_apart isExit
        refine ⟨.exited seq (response.exitCode.getD 0) (recoveredDenial response),
          List.mem_append_left _ (List.mem_append_right _ ?_)⟩
        rw [(exitPlace seq).mpr ⟨isExit, by omega⟩]
        exact List.mem_singleton_self _
      · exact Nat.le_add_left _ _

end

/-! ## The whole delivery -/

namespace Delivery

/-- Everything under way is the server's, and the session keeps the contract. -/
structure Sound (delivery : Delivery) : Prop where
  recorded : delivery.process.Recorded
  log : ∀ event ∈ delivery.log, Sent delivery.process event
  queue : ∀ event ∈ delivery.queue, Sent delivery.process event
  inFlight : ∀ connection ∈ delivery.connections, ∀ event ∈ connection.inFlight,
    Sent delivery.process event
  reads : ∀ afterSeq ∈ delivery.reads, afterSeq < delivery.process.nextSeq
  responses : ∀ response ∈ delivery.responses, Answered delivery.process response
  keeping : Keeping recorded delivery.session

theorem sound_start (processId : String) (tty sandboxed : Bool) :
    (start processId tty sandboxed).Sound where
  recorded := recorded_spawned tty sandboxed
  log := by
    intro event member
    cases member
  queue := by
    intro event member
    cases member
  inFlight := by
    intro connection member
    cases member
  reads := by
    intro afterSeq member
    cases member
  responses := by
    intro response member
    cases member
  keeping := ⟨⟨0, faithful_new _⟩, fun _ => le_refl _⟩

/-- Every event of the history may be sent. -/
theorem sent_of_history (recorded : process.Recorded)
    (member : event ∈ process.history) : Sent process event := by
  cases event with
  | output chunk => exact member
  | outputGap throughSeq =>
    obtain ⟨seq, isSeq, -, below⟩ := recorded.seq_le member
    have same := Option.some.inj isSeq
    change throughSeq < process.nextSeq
    omega
  | exited seq exitCode denied => exact recorded.exitRecorded seq exitCode denied member
  | closed seq denied => exact recorded.closeRecorded seq denied member
  | failed message => trivial

variable {delivery : Delivery}

theorem Sound.serverStep (sound : delivery.Sound) (step : ProcessStep) :
    (delivery.serverStep step).Sound := by
  have recorded := sound.recorded.step step
  have grown := sound.recorded.extends_step step
  obtain ⟨⟨budget, faithful⟩, passed⟩ := sound.keeping
  refine ⟨recorded, ?_, ?_, ?_, ?_, ?_, ⟨⟨budget, faithful.extend grown⟩, passed⟩⟩
  · intro event member
    rcases List.mem_append.mp member with older | new
    · exact (sound.log event older).extend grown
    rw [publishedBy, List.mem_append] at new
    rcases new with numbered | lost
    · exact sent_of_history recorded (List.mem_of_mem_drop numbered)
    · split at lost
      · obtain ⟨message, -, rfl⟩ := List.mem_map.mp lost
        trivial
      · cases lost
  · exact fun event member => (sound.queue event member).extend grown
  · exact fun connection member event isEvent =>
      (sound.inFlight connection member event isEvent).extend grown
  · exact fun afterSeq member => lt_of_lt_of_le (sound.reads afterSeq member) grown.next
  · exact fun response member => (sound.responses response member).extend grown

/-- The rebuilt queue is the server's. -/
theorem sent_rebuild (recorded : process.Recorded) {lastSeq : Nat}
    (member : event ∈ rebuild process lastSeq) : Sent process event := by
  have retained : ∀ chunk ∈ retainedFor process lastSeq, chunk ∈ process.output := by
    intro chunk isChunk
    exact List.mem_reverse.mp (List.mem_filter.mp (List.mem_of_mem_take isChunk)).1
  have gapBelow : notificationGap process lastSeq < process.nextSeq := by
    rw [notificationGap, max_lt_iff]
    refine ⟨?_, recorded.evicted⟩
    cases isMin : ((retainedFor process lastSeq).map fun chunk => chunk.seq - 1).min? with
    | none =>
      have next := recorded.next
      rw [Option.getD_none]
      omega
    | some least =>
      obtain ⟨chunk, isChunk, same⟩ := List.mem_map.mp (List.min?_mem isMin)
      have below := (recorded.chunk_apart (retained chunk isChunk)).2.1
      rw [Option.getD_some]
      omega
  rw [rebuild] at member
  obtain ⟨entry, isEntry, rfl⟩ := List.mem_map.mp member
  rw [List.mem_mergeSort] at isEntry
  simp only [List.mem_append] at isEntry
  rcases isEntry with (((before | gap) | exit) | isEnd) | chunk
  · unfold gapBeforeExit at before
    split at before
    · next seq exitCode isExit isCode =>
      split at before
      · rw [List.mem_singleton.mp before]
        have below := (recorded.exit_apart isExit).2.1
        change seq - 1 < process.nextSeq
        omega
      · cases before
    · cases before
  · unfold declaredGap at gap
    dsimp only at gap
    split at gap
    · rw [List.mem_singleton.mp gap]
      exact gapBelow
    · cases gap
  · unfold retainedExit at exit
    split at exit
    · next seq exitCode isExit isCode =>
      split at exit
      · rw [List.mem_singleton.mp exit]
        exact ⟨isExit, isCode⟩
      · cases exit
    · cases exit
  · unfold retainedEnd at isEnd
    split at isEnd
    · next closed =>
      rw [List.mem_singleton.mp isEnd]
      refine ⟨closed, ?_⟩
      have next := recorded.next
      omega
    · obtain ⟨message, -, rfl⟩ := List.mem_map.mp isEnd
      trivial
  · obtain ⟨own, isOwn, rfl⟩ := List.mem_map.mp chunk
    exact recorded.mem_output (retained own isOwn)

theorem mem_modify {connections : List Connection} {index : Nat} {change : Connection → Connection}
    {connection : Connection} (member : connection ∈ connections.modify index change) :
    connection ∈ connections ∨ ∃ old ∈ connections, connection = change old := by
  obtain ⟨i, isIndex⟩ := List.mem_iff_getElem?.mp member
  rw [List.getElem?_modify] at isIndex
  cases found : connections[i]? with
  | none =>
    rw [found] at isIndex
    cases isIndex
  | some old =>
    rw [found] at isIndex
    simp only [Option.map_eq_map, Option.map_some, Option.some.injEq] at isIndex
    have isOld := List.mem_of_getElem? found
    split at isIndex
    · exact .inr ⟨old, isOld, isIndex.symm⟩
    · exact .inl (isIndex ▸ isOld)

theorem Sound.forwardEvent (sound : delivery.Sound) (sent : Sent delivery.process event)
    (outcome : SendOutcome) :
    (delivery.forwardEvent event outcome).Sound := by
  have pushed : ∀ sink, ∀ connection ∈ delivery.connections.modify sink
      (fun connection => connection.push event), ∀ other ∈ connection.inFlight,
      Sent delivery.process other := by
    intro sink connection member other isOther
    rcases mem_modify member with old | ⟨old, isOld, rfl⟩
    · exact sound.inFlight connection old other isOther
    rw [Connection.push] at isOther
    split at isOther
    · rcases List.mem_append.mp isOther with older | new
      · exact sound.inFlight old isOld other older
      · rw [List.mem_singleton.mp new]
        exact sent
    · exact sound.inFlight old isOld other isOther
  unfold Delivery.forwardEvent
  split
  · exact sound
  dsimp only
  cases delivery.liveSink with
  | none => exact ⟨sound.recorded, sound.log, sound.queue, sound.inFlight, sound.reads,
      sound.responses, sound.keeping⟩
  | some sink =>
    cases outcome with
    | sent => exact ⟨sound.recorded, sound.log, sound.queue, pushed sink, sound.reads,
        sound.responses, sound.keeping⟩
    | failed arrived =>
      refine ⟨sound.recorded, sound.log, sound.queue, ?_, sound.reads, sound.responses,
        sound.keeping⟩
      cases arrived with
      | true => exact pushed sink
      | false => exact sound.inFlight

theorem Sound.forward (sound : delivery.Sound) (outcome : SendOutcome) :
    (delivery.forward outcome).Sound := by
  unfold Delivery.forward
  split
  · exact sound
  split
  · next event queue isQueue =>
    have sent : ∀ other ∈ event :: queue, Sent delivery.process other := by
      rw [← isQueue]
      exact sound.queue
    have shorter : Sound { delivery with queue := queue } :=
      ⟨sound.recorded, sound.log, fun other member => sent other (List.mem_cons_of_mem _ member),
        sound.inFlight, sound.reads, sound.responses, sound.keeping⟩
    exact shorter.forwardEvent (sent event List.mem_cons_self) outcome
  split
  · exact sound
  · next event isNext =>
    have moved : Sound { delivery with received := delivery.received + 1 } :=
      ⟨sound.recorded, sound.log, sound.queue, sound.inFlight, sound.reads, sound.responses,
        sound.keeping⟩
    exact moved.forwardEvent (sound.log event (List.mem_of_getElem? isNext)) outcome

theorem Sound.lag (sound : delivery.Sound) : delivery.lag.Sound := by
  unfold Delivery.lag
  split
  · exact sound
  · exact ⟨sound.recorded, sound.log, fun event member => sent_rebuild sound.recorded member,
      sound.inFlight, sound.reads, sound.responses, sound.keeping⟩

/-- Whether a step hands the session a gap that skips the exit. -/
def skips (delivery : Delivery) : DeliveryStep → Bool
  | .deliver connection =>
      ((delivery.connections[connection]?.map Connection.inFlight).bind List.head?).any
        (skipsExit delivery.process delivery.session)
  | _ => false

theorem Sound.deliver (sound : delivery.Sound) {connection : Nat}
    (careful : delivery.skips (.deliver connection) = false) :
    (delivery.deliver connection).Sound := by
  unfold Delivery.deliver
  cases isConnection : delivery.connections[connection]? with
  | none => exact sound
  | some own =>
    dsimp only
    cases isFlight : own.inFlight with
    | nil => exact sound
    | cons event rest =>
      have member := List.mem_of_getElem? isConnection
      have sent : ∀ other ∈ event :: rest, Sent delivery.process other := by
        rw [← isFlight]
        exact sound.inFlight own member
      have kept : skipsExit delivery.process delivery.session event = false := by
        simpa [skips, isConnection, isFlight] using careful
      refine ⟨sound.recorded, sound.log, sound.queue, ?_, sound.reads, sound.responses,
        sound.keeping.notification (sent event List.mem_cons_self) kept⟩
      intro other isOther one isOne
      rcases List.mem_or_eq_of_mem_set isOther with old | rfl
      · exact sound.inFlight other old one isOne
      · exact sent one (List.mem_cons_of_mem _ isOne)

theorem Sound.last_lt (sound : delivery.Sound) :
    delivery.session.lastPublishedSeq < delivery.process.nextSeq := by
  obtain ⟨⟨budget, faithful⟩, -⟩ := sound.keeping
  have limited : delivery.session.lastPublishedSeq ≤ delivery.process.nextSeq - 1 :=
    faithful.limited
  have next := sound.recorded.next
  omega

theorem Sound.answerRead (sound : delivery.Sound) (read : Nat) :
    (delivery.answerRead read).Sound := by
  have fewer : ∀ afterSeq ∈ delivery.reads.eraseIdx read, afterSeq < delivery.process.nextSeq :=
    fun afterSeq member => sound.reads afterSeq (List.mem_of_mem_eraseIdx member)
  unfold Delivery.answerRead
  cases isRead : delivery.reads[read]? with
  | none => exact sound
  | some afterSeq =>
    dsimp only
    rw [execRead_unbounded sound.recorded (sound.reads afterSeq (List.mem_of_getElem? isRead))]
    refine ⟨sound.recorded, sound.log, sound.queue, sound.inFlight, fewer, ?_, sound.keeping⟩
    intro response member
    rcases List.mem_append.mp member with older | new
    · exact sound.responses response older
    · rw [List.mem_singleton.mp new]
      exact sound.recorded.answered afterSeq

theorem Sound.handleResponse (sound : delivery.Sound) (response : Nat) :
    (delivery.handleResponse response).Sound := by
  unfold Delivery.handleResponse
  cases isResponse : delivery.responses[response]? with
  | none => exact sound
  | some answer =>
    have recovered := sound.keeping.recoverEvents
      (sound.responses answer (List.mem_of_getElem? isResponse))
    refine ⟨sound.recorded, sound.log, sound.queue, sound.inFlight, sound.reads,
      fun other member => sound.responses other (List.mem_of_mem_eraseIdx member), ?_⟩
    dsimp only
    generalize delivery.session.recoverEvents answer = result at recovered
    obtain ⟨outcome, session⟩ := result
    cases outcome with
    | ok closed => exact recovered
    | error message => exact recovered.setFailure _

theorem Sound.step (sound : delivery.Sound) {step : DeliveryStep}
    (careful : delivery.skips step = false) : (delivery.step step).Sound := by
  cases step with
  | server step => exact sound.serverStep step
  | forward outcome => exact sound.forward outcome
  | lag => exact sound.lag
  | bind =>
    refine ⟨sound.recorded, sound.log, sound.queue, ?_, sound.reads, sound.responses,
      sound.keeping⟩
    intro connection member event isEvent
    rcases List.mem_append.mp member with older | new
    · exact sound.inFlight connection older event isEvent
    · rw [List.mem_singleton.mp new] at isEvent
      cases isEvent
  | unbind =>
    exact ⟨sound.recorded, sound.log, sound.queue, sound.inFlight, sound.reads, sound.responses,
      sound.keeping⟩
  | cut connection kept =>
    refine ⟨sound.recorded, sound.log, sound.queue, ?_, sound.reads, sound.responses,
      sound.keeping⟩
    intro other member event isEvent
    rcases mem_modify member with old | ⟨old, isOld, rfl⟩
    · exact sound.inFlight other old event isEvent
    · exact sound.inFlight old isOld event (List.mem_of_mem_take isEvent)
  | deliver connection => exact sound.deliver careful
  | requestRead =>
    refine ⟨sound.recorded, sound.log, sound.queue, sound.inFlight, ?_, sound.responses,
      sound.keeping⟩
    intro afterSeq member
    rcases List.mem_append.mp member with older | new
    · exact sound.reads afterSeq older
    · rw [List.mem_singleton.mp new]
      exact sound.last_lt
  | answerRead read => exact sound.answerRead read
  | failRead read message =>
    exact ⟨sound.recorded, sound.log, sound.queue, sound.inFlight,
      fun afterSeq member => sound.reads afterSeq (List.mem_of_mem_eraseIdx member),
      sound.responses, sound.keeping.setFailure _⟩
  | loseRead read =>
    exact ⟨sound.recorded, sound.log, sound.queue, sound.inFlight,
      fun afterSeq member => sound.reads afterSeq (List.mem_of_mem_eraseIdx member),
      sound.responses, sound.keeping⟩
  | loseResponse response =>
    exact ⟨sound.recorded, sound.log, sound.queue, sound.inFlight, sound.reads,
      fun other member => sound.responses other (List.mem_of_mem_eraseIdx member), sound.keeping⟩
  | handleResponse response => exact sound.handleResponse response

/-- No step of a run skips the exit. -/
def Careful (delivery : Delivery) : List DeliveryStep → Prop
  | [] => True
  | step :: steps => delivery.skips step = false ∧ (delivery.step step).Careful steps

theorem Sound.run (sound : delivery.Sound) {steps : List DeliveryStep}
    (careful : delivery.Careful steps) : (delivery.run steps).Sound := by
  induction steps generalizing delivery with
  | nil => exact sound
  | cons step steps ih => exact ih (sound.step careful.1) careful.2

instance decidableCareful : (delivery : Delivery) → (steps : List DeliveryStep) →
    Decidable (delivery.Careful steps)
  | _, [] => .isTrue trivial
  | delivery, step :: steps =>
      have := decidableCareful (delivery.step step) steps
      inferInstanceAs (Decidable (_ ∧ _))

theorem Careful.of_append {done rest : List DeliveryStep}
    (careful : delivery.Careful (done ++ rest)) : delivery.Careful done := by
  induction done generalizing delivery with
  | nil => trivial
  | cons step done ih => exact ⟨careful.1, ih careful.2⟩

end Delivery

/-! ## What the client sees -/

/-- The events of a session ascend and with their gaps cover the way to the cursor; they are the
    server's; and the exit comes once, before the close and in no gap. -/
structure Delivered (process : RunningProcess) (session : SessionState) : Prop where
  tiles : Tiles 0 session.published session.lastPublishedSeq
  ascending : (session.published.filterMap ExecProcessEvent.seq).Pairwise (· < ·)
  covered : ∀ seq, 1 ≤ seq → seq ≤ session.lastPublishedSeq →
    (InGap 0 session.published seq ↔
      ¬ ∃ event ∈ session.published, event.seq = some seq ∧ isGap event = false)
  output : ∀ chunk, ExecProcessEvent.output chunk ∈ session.published →
    ExecProcessEvent.output chunk ∈ process.history
  closed : ∀ seq denied, ExecProcessEvent.closed seq denied ∈ session.published →
    ∃ assessed, ExecProcessEvent.closed seq assessed ∈ process.history
  exited : ∀ seq exitCode denied, ExecProcessEvent.exited seq exitCode denied ∈ session.published →
    ∃ assessed, ExecProcessEvent.exited seq exitCode assessed ∈ process.history
  once : (session.published.filter isExited).length ≤ 1
  beforeClosed : ∀ front seq denied back,
    session.published = front ++ ExecProcessEvent.closed seq denied :: back →
    (front.filter isExited).length = 1
  passed : ∀ seq, process.exitSeq = some seq → seq ≤ session.lastPublishedSeq →
    ∃ event ∈ session.published, isExited event = true
  outside : ∀ seq, process.exitSeq = some seq → ¬ InGap 0 session.published seq

theorem SessionState.Tiles.split {first second : List ExecProcessEvent} {start stop : Nat}
    (tiles : Tiles start (first ++ second) stop) :
    ∃ middle, Tiles start first middle ∧ Tiles middle second stop := by
  induction first generalizing start with
  | nil => exact ⟨start, rfl, tiles⟩
  | cons event rest ih =>
    obtain ⟨middle, front, back⟩ := ih tiles.2
    exact ⟨middle, ⟨tiles.1, front⟩, back⟩

theorem SessionState.InGap.append {first second : List ExecProcessEvent} {start seq : Nat}
    (inGap : InGap start first seq) : InGap start (first ++ second) seq := by
  induction first generalizing start with
  | nil => cases inGap
  | cons event rest ih =>
    rcases inGap with here | later
    · exact .inl here
    · exact .inr (ih later)

/-- Events of one sequence in an ascending list are at most one. -/
theorem length_le_one_of_seq {events : List ExecProcessEvent} (seq : Nat)
    (ascending : (events.filterMap ExecProcessEvent.seq).Pairwise (· < ·))
    (same : ∀ event ∈ events, event.seq = some seq) : events.length ≤ 1 := by
  cases events with
  | nil => exact Nat.zero_le _
  | cons first rest =>
    cases rest with
    | nil => exact le_refl _
    | cons second rest =>
      rw [List.filterMap_cons_some (same first List.mem_cons_self),
        List.filterMap_cons_some (same second (List.mem_cons_of_mem _ List.mem_cons_self))]
        at ascending
      have less := (List.pairwise_cons.mp ascending).1 seq List.mem_cons_self
      exact absurd less (lt_irrefl _)

theorem Delivery.Sound.delivered {delivery : Delivery} (sound : delivery.Sound) :
    Delivered delivery.process delivery.session := by
  have recorded := sound.recorded
  obtain ⟨⟨budget, faithful⟩, -⟩ := sound.keeping
  have tiles : Tiles 0 delivery.session.published delivery.session.lastPublishedSeq :=
    faithful.tiles
  have genuine : ∀ event ∈ delivery.session.published, isGap event = false →
      Sent delivery.process event :=
    fun event member notGap => (faithful.publishedGenuine event member notGap).2
  have once : (delivery.session.published.filter isExited).length ≤ 1 := by
    cases isExit : delivery.process.exitSeq with
    | none =>
      have none : delivery.session.published.filter isExited = [] := by
        rw [List.filter_eq_nil_iff]
        intro event member exited
        cases event with
        | exited seq exitCode denied =>
          have facts := (genuine _ member rfl).1
          rw [isExit] at facts
          cases facts
        | output _ => cases exited
        | outputGap _ => cases exited
        | closed _ _ => cases exited
        | failed _ => cases exited
      rw [none]
      exact Nat.zero_le _
    | some seq =>
      apply length_le_one_of_seq seq
        (tiles.ascending.sublist (List.filter_sublist.filterMap _))
      intro event member
      obtain ⟨isEvent, exited⟩ := List.mem_filter.mp member
      cases event with
      | exited other exitCode denied =>
        have facts := (genuine _ isEvent rfl).1
        rw [isExit] at facts
        exact facts.symm
      | output _ => cases exited
      | outputGap _ => cases exited
      | closed _ _ => cases exited
      | failed _ => cases exited
  refine ⟨tiles, tiles.ascending, ?_, ?_, ?_, ?_, once, ?_, ?_, faithful.kept⟩
  · intro seq above within
    refine ⟨?_, ?_⟩
    · rintro inGap ⟨event, member, isSeq, notGap⟩
      exact tiles.not_inGap member isSeq notGap inGap
    · intro uncovered
      rcases tiles.covered above within with inGap | found
      · exact inGap
      · exact absurd found uncovered
  · exact fun chunk member => genuine _ member rfl
  · intro seq denied member
    obtain ⟨closed, isLast⟩ := genuine _ member rfl
    obtain ⟨assessed, isEvent⟩ := recorded.closeHappened closed
    refine ⟨assessed, ?_⟩
    rwa [← isLast, Nat.add_sub_cancel] at isEvent
  · intro seq exitCode denied member
    obtain ⟨isExit, isCode⟩ := genuine _ member rfl
    obtain ⟨own, assessed, isEvent⟩ := recorded.exitHappened seq isExit
    have same := (recorded.exitRecorded seq own assessed isEvent).2
    rw [isCode, Option.some.injEq] at same
    exact ⟨assessed, same ▸ isEvent⟩
  · intro front seq denied back isPublished
    have member : ExecProcessEvent.closed seq denied ∈ delivery.session.published := by
      rw [isPublished]
      exact List.mem_append_right _ List.mem_cons_self
    obtain ⟨closed, isLast⟩ := genuine _ member rfl
    obtain ⟨exit, isExit⟩ := Option.isSome_iff_exists.mp (recorded.ended (.inl closed)).1
    obtain ⟨positive, below, -, apart⟩ := recorded.exit_apart isExit
    have different := apart closed
    rw [isPublished] at tiles once
    obtain ⟨middle, frontTiles, backTiles⟩ := tiles.split
    have isNext := (backTiles.1 seq rfl).2 rfl
    have fewer : (front.filter isExited).length ≤ 1 := by
      rw [List.filter_append, List.length_append] at once
      omega
    rcases frontTiles.covered positive (by omega) with inGap | ⟨event, inFront, isSeq, notGap⟩
    · have outside := faithful.kept exit isExit
      rw [isPublished] at outside
      exact absurd inGap.append outside
    have isEvent : event ∈ delivery.session.published := by
      rw [isPublished]
      exact List.mem_append_left _ inFront
    have exited := isExited_of_seq recorded isExit notGap (genuine event isEvent notGap) isSeq
    have some : 0 < (front.filter isExited).length :=
      List.length_pos_of_mem (List.mem_filter.mpr ⟨inFront, exited⟩)
    omega
  · intro seq isExit within
    have positive := (recorded.exit_apart isExit).1
    obtain ⟨event, member, isSeq, notGap⟩ := faithful.published_of_kept isExit positive within
    exact ⟨event, member, isExited_of_seq recorded isExit notGap (genuine event member notGap) isSeq⟩

/-- In every run in which no gap notification skips an exit that the session does not have, the
    client sees the events of the process in order in every state. -/
theorem events_delivered (processId : String) (tty sandboxed : Bool) (steps : List DeliveryStep)
    (careful : (Delivery.start processId tty sandboxed).Careful steps) :
    ∀ done, done <+: steps →
      Delivered ((Delivery.start processId tty sandboxed).run done).process
        ((Delivery.start processId tty sandboxed).run done).session := by
  rintro done ⟨rest, rfl⟩
  have sound := (Delivery.sound_start processId tty sandboxed).run careful.of_append
  exact sound.delivered

/-- The exit is sent and lost with its connection; on the next one a capture loss comes before the
    answer to the recovery read, and the close after it. -/
def lostExitSteps : List DeliveryStep :=
  [.bind, .server (.exit (some 0)), .forward .sent, .cut 0 0, .bind, .requestRead,
    .server (.finish false false), .forward .sent, .answerRead 0, .deliver 1, .handleResponse 0,
    .server (.finish true true), .server (.beginClose false), .server (.finishClose false),
    .forward .sent, .deliver 1]

/-- The same with the answer handled before the capture loss. -/
def keptExitSteps : List DeliveryStep :=
  [.bind, .server (.exit (some 0)), .forward .sent, .cut 0 0, .bind, .requestRead,
    .server (.finish false false), .forward .sent, .answerRead 0, .handleResponse 0, .deliver 1,
    .server (.finish true true), .server (.beginClose false), .server (.finishClose false),
    .forward .sent, .deliver 1]

theorem events_delivered_kept :
    (Delivery.start "p" false false).Careful keptExitSteps ∧
      Delivered ((Delivery.start "p" false false).run keptExitSteps).process
        ((Delivery.start "p" false false).run keptExitSteps).session :=
  ⟨by decide, events_delivered "p" false false keptExitSteps (by decide) keptExitSteps
    (List.prefix_refl _)⟩

/-- The gap covers the exit, and the close is published without it. -/
theorem exit_lost_in_gap :
    ¬ Delivered ((Delivery.start "p" false false).run lostExitSteps).process
      ((Delivery.start "p" false false).run lostExitSteps).session := by
  intro delivered
  have published : ((Delivery.start "p" false false).run lostExitSteps).session.published =
      [.outputGap 2] ++ .closed 3 (some false) :: [] := by decide
  have one := delivered.beforeClosed _ _ _ _ published
  revert one
  decide

end Codex.ExecServer.Process
