import Codex.Lib.Text

/-!
# Standard input of a process

`exec-server/src/local_process.rs`: `exec_write_bound` checks a write id, waits for a permit of the
stdin channel, checks the id again and sends; `close_stdin_bound` closes admission. A bounded
window remembers accepted ids, and a floor for each writer outlaws the numbers that left it. Calls
of one process are interleaved at their awaits; a call can be dropped at each of them.
-/

namespace Codex.ExecServer.Stdin

open Codex.Text

def RETAINED_STDIN_WRITE_IDS_PER_PROCESS : Nat := 4096

def MAX_STDIN_CHUNK_BYTES : Nat := 1024 * 1024

def MAX_STDIN_WRITE_ID_BYTES : Nat := 256

/-- `WriteStatus` (`protocol.rs`). -/
inductive WriteStatus where
  | accepted
  | unknownProcess
  | stdinClosed
  | starting
  deriving DecidableEq, Repr

/-- `JSONRPCErrorError`, by the function that makes it. -/
inductive RpcError where
  | invalidParams (message : String)
  | invalidRequest (message : String)
  deriving DecidableEq, Repr

/-- The answer of a call. -/
abbrev Answer := Except RpcError WriteStatus

/-- `WriteParams`, less the process id. -/
structure WriteParams where
  writeId : Text
  chunk : List UInt8
  deriving DecidableEq, Repr

/-! ## Accepted write ids -/

/-- The number that digits stand for, in range. -/
def parseDigits (digits : Text) : Option Nat :=
  if digits.isEmpty || !digits.all Char.isDigit then none
  else if Nat.ofDigitChars 10 digits 0 < 2 ^ 64 then some (Nat.ofDigitChars 10 digits 0)
  else none

/-- `str::parse::<u64>`: digits after an optional plus sign. -/
def parseU64 (text : Text) : Option Nat :=
  parseDigits (if text.head? = some '+' then text.tail else text)

/-- `u64::to_string`. -/
def decimal (number : Nat) : Text := Nat.toDigits 10 number

/-- The writer and the digits of a write id (`local_process.rs:134`). -/
def writerDigits (writeId : Text) : Fin 2 × Text :=
  ((stripPrefix "local-".toList writeId).map fun digits => (1, digits)).getD (0, writeId)

/-- `AcceptedStdinWriteIds::sequence` (`local_process.rs:132`). -/
def sequence (writeId : Text) : Option (Fin 2 × Nat) := do
  let (writer, digits) := writerDigits writeId
  let sequence ← parseU64 digits
  if digits = decimal sequence then some (writer, sequence) else none

/-- `AcceptedStdinWriteIds` (`local_process.rs:124`). -/
structure AcceptedStdinWriteIds where
  closed : Bool
  ids : Finset Text
  order : List Text
  retiredThrough : Fin 2 → Option Nat

namespace AcceptedStdinWriteIds

def default : AcceptedStdinWriteIds := ⟨false, ∅, [], fun _ => none⟩

/-- Whether a number lies at or below a writer's floor. -/
def retired (accepted : AcceptedStdinWriteIds) (writeId : Text) : Bool :=
  (sequence writeId).any fun (writer, number) =>
    (accepted.retiredThrough writer).any fun floor => number ≤ floor

/-- `already_accepted` (`local_process.rs:141`). -/
def alreadyAccepted (accepted : AcceptedStdinWriteIds) (writeId : Text) : Except RpcError Bool :=
  if writeId ∈ accepted.ids then .ok true
  else if accepted.retired writeId then
    .error (.invalidParams
      "writeId has expired from the stdin retry window; input was not written")
  else .ok false

/-- What an eviction leaves of the window (`local_process.rs:166`). -/
def retire (accepted : AcceptedStdinWriteIds) (evicted : Text) : AcceptedStdinWriteIds :=
  { accepted with
    ids := accepted.ids.erase evicted
    retiredThrough := fun writer =>
      if (sequence evicted).map Prod.fst = some writer then
        (sequence evicted).map fun (_, number) =>
          (accepted.retiredThrough writer).elim number fun previous => max previous number
      else accepted.retiredThrough writer }

/-- The eviction loop of `remember` over the queue (`local_process.rs:162`). -/
def evict (accepted : AcceptedStdinWriteIds) : List Text → AcceptedStdinWriteIds
  | [] => { accepted with order := [] }
  | evicted :: order =>
      if (evicted :: order).length > RETAINED_STDIN_WRITE_IDS_PER_PROCESS then
        (accepted.retire evicted).evict order
      else { accepted with order := evicted :: order }

/-- `remember` (`local_process.rs:156`). -/
def remember (accepted : AcceptedStdinWriteIds) (writeId : Text) : AcceptedStdinWriteIds :=
  if writeId ∈ accepted.ids then accepted
  else { accepted with ids := insert writeId accepted.ids }.evict (accepted.order ++ [writeId])

/-- Either check of `exec_write_bound` under the lock (`local_process.rs:770`,
    `local_process.rs:784`): an answer, or nothing when the call goes on. -/
def check (accepted : AcceptedStdinWriteIds) (writeId : Text) : Option Answer :=
  match accepted.alreadyAccepted writeId with
  | .error error => some (.error error)
  | .ok true => some (.ok .accepted)
  | .ok false => if accepted.closed then some (.ok .stdinClosed) else none

end AcceptedStdinWriteIds

/-! ## Calls -/

/-- Where a write call stands. -/
inductive WritePhase where
  /-- waiting for the process map -/
  | arrived
  /-- waiting for the accepted ids for the first time -/
  | admitted
  /-- waiting for a permit -/
  | reserving
  /-- waiting for the accepted ids with a permit in hand -/
  | permitted
  | answered (answer : Answer)
  | cancelled
  deriving DecidableEq

structure WriteCall where
  params : WriteParams
  phase : WritePhase
  deriving DecidableEq

/-- Where a close call stands. -/
inductive ClosePhase where
  | arrived
  | admitted
  | draining
  | answered (answer : Answer)
  | cancelled
  deriving DecidableEq

/-- What the process map holds under the process id when a call looks. -/
inductive Entry where
  | missing
  | replaced
  | starting
  | running
  deriving DecidableEq, Repr

/-- What happened to standard input, in order. -/
inductive StdinEvent where
  | sent (call : Nat) (params : WriteParams)
  | closeAdmitted
  deriving DecidableEq

namespace StdinEvent

/-- The id whose chunk was sent. -/
@[simp] def sentId : StdinEvent → Option Text
  | sent _ params => some params.writeId
  | closeAdmitted => none

/-- The call that sent. -/
@[simp] def sentCall : StdinEvent → Option Nat
  | sent call _ => some call
  | closeAdmitted => none

end StdinEvent

/-- A process with the calls that were made to it. -/
structure Process where
  tty : Bool
  pipeStdin : Bool
  accepted : AcceptedStdinWriteIds
  writes : List WriteCall
  closes : List ClosePhase
  events : List StdinEvent

/-- A running process before any call. -/
def Process.spawned (tty pipeStdin : Bool) : Process :=
  ⟨tty, pipeStdin, AcceptedStdinWriteIds.default, [], [], []⟩

/-- The checks of `exec_write_bound` on its parameters (`local_process.rs:727`). -/
def validate (params : WriteParams) : Option Answer :=
  if params.writeId.isEmpty || utf8Len params.writeId > MAX_STDIN_WRITE_ID_BYTES then
    some (.error (.invalidParams "writeId must contain 1..=256 bytes; input was not accepted"))
  else if params.chunk.length > MAX_STDIN_CHUNK_BYTES then
    some (.error (.invalidParams "stdin chunk exceeds the 1 MiB limit; input was not accepted"))
  else none

/-- The look at the process map of `exec_write_bound` (`local_process.rs:738`). -/
def writeAdmission (process : Process) : Entry → Option Answer
  | .missing => some (.ok .unknownProcess)
  | .replaced => some (.error (.invalidRequest "process handle has expired or was replaced"))
  | .starting => some (.ok .starting)
  | .running =>
      if !process.tty && !process.pipeStdin then some (.ok .stdinClosed) else none

/-- The look at the process map of `close_stdin_bound` (`local_process.rs:807`). -/
def closeAdmission (process : Process) : Entry → Option Answer
  | .missing => some (.ok .unknownProcess)
  | .replaced => some (.error (.invalidRequest "process handle has expired or was replaced"))
  | .starting => some (.ok .starting)
  | .running =>
      if process.tty then
        some (.error (.invalidRequest ("cannot close terminal input; explicit stdin EOF requires " ++
          "a pipe, not Ctrl-D")))
      else none

namespace Process

/-- A call moves to a phase: an answer ends it. -/
def settle (process : Process) (call : Nat) (params : WriteParams) (phase : WritePhase) : Process :=
  { process with writes := process.writes.set call ⟨params, phase⟩ }

/-- The phase after a check: answered, or the next one. -/
def phaseAfter (next : WritePhase) : Option Answer → WritePhase
  | some answer => .answered answer
  | none => next

/-- The commit under the lock: the second check, the synchronous send and the memory of the id
    (`local_process.rs:783-799`). -/
def commit (process : Process) (call : Nat) (params : WriteParams) : Process :=
  match process.accepted.check params.writeId with
  | some answer => process.settle call params (.answered answer)
  | none =>
      { process with
        accepted := process.accepted.remember params.writeId
        writes := process.writes.set call ⟨params, .answered (.ok .accepted)⟩
        events := process.events ++ [.sent call params] }

/-- One write call takes its next step; `entry` and `reserved` are what it finds. -/
def advanceWrite (process : Process) (call : Nat) (entry : Entry) (reserved : Bool)
    (write : WriteCall) : Process :=
  match write.phase with
  | .arrived =>
      process.settle call write.params (phaseAfter .admitted (writeAdmission process entry))
  | .admitted =>
      process.settle call write.params
        (phaseAfter .reserving (process.accepted.check write.params.writeId))
  | .reserving =>
      process.settle call write.params
        (if reserved then .permitted
        else .answered (.error (.invalidRequest "stdin is closed; input was not accepted")))
  | .permitted => process.commit call write.params
  | .answered _ => process
  | .cancelled => process

/-- One close call takes its next step; `drained` is the result of `close_stdin_ordered`. -/
def advanceClose (process : Process) (call : Nat) (entry : Entry) (drained : Except String Unit)
    (phase : ClosePhase) : Process :=
  match phase with
  | .arrived =>
      { process with
        closes := process.closes.set call
          ((closeAdmission process entry).elim .admitted ClosePhase.answered) }
  | .admitted =>
      { process with
        accepted := { process.accepted with closed := true }
        closes := process.closes.set call .draining
        events := process.events ++ [.closeAdmitted] }
  | .draining =>
      { process with
        closes := process.closes.set call (.answered (match drained with
          | .ok () => .ok .accepted
          | .error error => .error (.invalidRequest ("stdin close failed: " ++ error)))) }
  | .answered _ => process
  | .cancelled => process

/-- A dropped call. One that has its answer is over. -/
def cancelWrite (process : Process) (call : Nat) (write : WriteCall) : Process :=
  match write.phase with
  | .answered _ => process
  | _ => process.settle call write.params .cancelled

end Process

/-- What can happen next. -/
inductive Step where
  | write (params : WriteParams)
  | advanceWrite (call : Nat) (entry : Entry) (reserved : Bool)
  | cancelWrite (call : Nat)
  | close
  | advanceClose (call : Nat) (entry : Entry) (drained : Except String Unit)
  | cancelClose (call : Nat)

namespace Process

/-- A dropped close call. -/
def cancelClose (process : Process) (call : Nat) (phase : ClosePhase) : Process :=
  match phase with
  | .answered _ => process
  | _ => { process with closes := process.closes.set call .cancelled }

def step (process : Process) : Step → Process
  | .write params =>
      { process with
        writes := process.writes ++ [⟨params, phaseAfter .arrived (validate params)⟩] }
  | .advanceWrite call entry reserved =>
      (process.writes[call]?).elim process (process.advanceWrite call entry reserved)
  | .cancelWrite call => (process.writes[call]?).elim process (process.cancelWrite call)
  | .close => { process with closes := process.closes ++ [.arrived] }
  | .advanceClose call entry drained =>
      (process.closes[call]?).elim process (process.advanceClose call entry drained)
  | .cancelClose call => (process.closes[call]?).elim process (process.cancelClose call)

def run (process : Process) (steps : List Step) : Process := steps.foldl step process

/-- The ids whose chunks were sent, in order. -/
def sentIds (process : Process) : List Text :=
  process.events.filterMap StdinEvent.sentId

end Process

/-! ## Sequenced ids -/

variable {number call : Nat} {writer : Fin 2} {writeId : Text} {process : Process}

theorem parseU64_decimal (fits : number < 2 ^ 64) :
    parseU64 (decimal number) = some number := by
  have digits : ∀ c ∈ decimal number, c.isDigit = true := fun c member =>
    Nat.isDigit_of_mem_toDigits (by decide) (by decide) member
  have nonempty : decimal number ≠ [] := Nat.toDigits_ne_nil
  have unsigned : (decimal number).head? ≠ some '+' := by
    intro signed
    exact absurd (digits _ (List.mem_of_head? signed)) (by decide)
  have value : Nat.ofDigitChars 10 (decimal number) 0 = number := Nat.ofDigitChars_ten_toDigits
  have shape : ((decimal number).isEmpty || !(decimal number).all Char.isDigit) = false := by
    simp [nonempty, List.all_eq_true.mpr digits]
  rw [parseU64, if_neg unsigned, parseDigits, shape, value, if_neg (by simp), if_pos fits]

theorem parseU64_lt {text : Text} (parsed : parseU64 text = some number) :
    number < 2 ^ 64 := by
  unfold parseU64 parseDigits at parsed
  generalize (if text.head? = some '+' then text.tail else text) = digits at parsed
  split at parsed
  · cases parsed
  · split at parsed
    · next fits =>
      simp only [Option.some.injEq] at parsed
      rwa [← parsed]
    · cases parsed

/-- The id of a number of a writer. -/
def sequencedId (writer : Fin 2) (number : Nat) : Text :=
  if writer = 1 then "local-".toList ++ decimal number else decimal number

theorem writerDigits_sequencedId (writer : Fin 2) (number : Nat) :
    writerDigits (sequencedId writer number) = (writer, decimal number) := by
  by_cases isLocal : writer = 1
  · subst isLocal
    rw [sequencedId, if_pos rfl, writerDigits, stripPrefix_eq_some.mpr rfl]
    rfl
  have remote : writer = 0 := by omega
  subst remote
  have noPrefix : ¬ "local-".toList <+: decimal number := by
    rintro ⟨rest, isDecimal⟩
    have member : 'l' ∈ decimal number := by
      rw [← isDecimal]
      simp
    exact absurd (Nat.isDigit_of_mem_toDigits (by decide) (by decide) member) (by decide)
  rw [sequencedId, if_neg isLocal, writerDigits, stripPrefix_of_not_prefix noPrefix]
  rfl

theorem sequence_sequencedId (fits : number < 2 ^ 64) :
    sequence (sequencedId writer number) = some (writer, number) := by
  simp [sequence, writerDigits_sequencedId, parseU64_decimal fits]

/-- The ids that the code orders are the canonical spellings of 64-bit numbers. -/
theorem sequence_eq_some (ordered : sequence writeId = some (writer, number)) :
    number < 2 ^ 64 ∧ writeId = sequencedId writer number := by
  simp only [sequence, bind, Option.bind_eq_some_iff] at ordered
  obtain ⟨parsed, isParsed, canonical⟩ := ordered
  split at canonical
  · next isDecimal =>
    simp only [Option.some.injEq, Prod.mk.injEq] at canonical
    obtain ⟨isWriter, rfl⟩ := canonical
    refine ⟨parseU64_lt isParsed, ?_⟩
    cases stripped : stripPrefix "local-".toList writeId with
    | some digits =>
      simp only [writerDigits, stripped, Option.map_some, Option.getD_some] at isWriter isDecimal
      rw [sequencedId, if_pos isWriter.symm, ← isDecimal]
      exact stripPrefix_eq_some.mp stripped
    | none =>
      simp only [writerDigits, stripped, Option.map_none, Option.getD_none] at isWriter isDecimal
      rw [sequencedId, if_neg (by rw [← isWriter]; decide), ← isDecimal]
  · cases canonical

/-- The ids with a number are the canonical decimals of either writer. -/
theorem sequence_isSome_iff (writeId : Text) :
    (sequence writeId).isSome = true ↔
      ∃ writer number, number < 2 ^ 64 ∧ writeId = sequencedId writer number := by
  rw [Option.isSome_iff_exists]
  refine ⟨?_, ?_⟩
  · rintro ⟨⟨writer, number⟩, ordered⟩
    exact ⟨writer, number, sequence_eq_some ordered⟩
  · rintro ⟨writer, number, fits, rfl⟩
    exact ⟨_, sequence_sequencedId fits⟩

/-! ## The window -/

namespace AcceptedStdinWriteIds

/-- The id set and the queue hold the same, pairwise distinct ids, and not too many. -/
structure Window (accepted : AcceptedStdinWriteIds) : Prop where
  distinct : accepted.order.Nodup
  same : accepted.ids = accepted.order.toFinset
  bounded : accepted.order.length ≤ RETAINED_STDIN_WRITE_IDS_PER_PROCESS

variable {accepted : AcceptedStdinWriteIds} {queue : List Text}

theorem retired_iff :
    accepted.retired writeId = true ↔ ∃ writer number floor,
      sequence writeId = some (writer, number) ∧
        accepted.retiredThrough writer = some floor ∧ number ≤ floor := by
  simp [retired, Option.any_eq_true]

/-- An eviction does not lower a floor. -/
theorem retire_floor (accepted : AcceptedStdinWriteIds) (evicted : Text) {floor : Nat}
    (isFloor : accepted.retiredThrough writer = some floor) :
    ∃ higher, (accepted.retire evicted).retiredThrough writer = some higher ∧ floor ≤ higher := by
  by_cases mine : (sequence evicted).map Prod.fst = some writer
  · obtain ⟨⟨owner, number⟩, isSequence, rfl⟩ := Option.map_eq_some_iff.mp mine
    refine ⟨max floor number, ?_, le_max_left _ _⟩
    simp [retire, isSequence, isFloor]
  · exact ⟨floor, by simp [retire, mine, isFloor], le_refl _⟩

theorem retired_retire (evicted : Text) (isRetired : accepted.retired writeId = true) :
    (accepted.retire evicted).retired writeId = true := by
  obtain ⟨writer, number, floor, isSequence, isFloor, below⟩ := retired_iff.mp isRetired
  obtain ⟨higher, isHigher, above⟩ := accepted.retire_floor evicted isFloor
  exact retired_iff.mpr ⟨writer, number, higher, isSequence, isHigher, le_trans below above⟩

/-- An evicted number lies below the floor from then on. -/
theorem retired_self (accepted : AcceptedStdinWriteIds) {evicted : Text}
    (ordered : (sequence evicted).isSome = true) :
    (accepted.retire evicted).retired evicted = true := by
  obtain ⟨⟨writer, number⟩, isSequence⟩ := Option.isSome_iff_exists.mp ordered
  have floor : (accepted.retire evicted).retiredThrough writer =
      some ((accepted.retiredThrough writer).elim number fun previous => max previous number) := by
    simp [retire, isSequence]
  refine retired_iff.mpr ⟨writer, number, _, isSequence, floor, ?_⟩
  cases accepted.retiredThrough writer with
  | none => exact le_refl _
  | some previous => exact le_max_right _ _

/-- What the eviction loop keeps and retires. -/
structure Evicted (before after : AcceptedStdinWriteIds) (queue : List Text) : Prop where
  window : after.Window
  closed : after.closed = before.closed
  order : after.order = queue.drop (queue.length - RETAINED_STDIN_WRITE_IDS_PER_PROCESS)
  floors : ∀ writeId, before.retired writeId = true → after.retired writeId = true
  covered : ∀ writeId ∈ queue, (sequence writeId).isSome = true →
    writeId ∈ after.ids ∨ after.retired writeId = true

theorem evict_evicted (distinct : queue.Nodup) (same : accepted.ids = queue.toFinset) :
    Evicted accepted (accepted.evict queue) queue := by
  induction queue generalizing accepted with
  | nil =>
    refine ⟨⟨List.nodup_nil, same, Nat.zero_le _⟩, rfl, rfl, fun _ isRetired => isRetired, ?_⟩
    intro writeId member
    cases member
  | cons evicted queue ih =>
    rw [evict]
    by_cases full : (evicted :: queue).length > RETAINED_STDIN_WRITE_IDS_PER_PROCESS
    · rw [if_pos full]
      obtain ⟨absent, restDistinct⟩ := List.nodup_cons.mp distinct
      have restSame : (accepted.retire evicted).ids = queue.toFinset := by
        change accepted.ids.erase evicted = _
        rw [same, List.toFinset_cons, Finset.erase_insert (by simpa using absent)]
      have rest := ih restDistinct restSame
      refine ⟨rest.window, rest.closed, ?_, ?_, ?_⟩
      · rw [rest.order]
        have more : (evicted :: queue).length - RETAINED_STDIN_WRITE_IDS_PER_PROCESS =
            queue.length - RETAINED_STDIN_WRITE_IDS_PER_PROCESS + 1 := by
          rw [List.length_cons] at full ⊢
          omega
        rw [more, List.drop_succ_cons]
      · exact fun writeId isRetired => rest.floors writeId (retired_retire evicted isRetired)
      · intro writeId member ordered
        rcases List.mem_cons.mp member with rfl | inside
        · exact .inr (rest.floors writeId (retired_self accepted ordered))
        · exact rest.covered writeId inside ordered
    · rw [if_neg full]
      refine ⟨⟨distinct, same, not_lt.mp full⟩, rfl, ?_, fun _ isRetired => isRetired, ?_⟩
      · rw [Nat.sub_eq_zero_of_le (not_lt.mp full), List.drop_zero]
      · intro writeId member _
        exact .inl (by rw [same]; exact List.mem_toFinset.mpr member)

/-- What remembering a new id does to a window. -/
theorem Window.remember (window : accepted.Window) (fresh : writeId ∉ accepted.ids) :
    Evicted accepted (accepted.remember writeId) (accepted.order ++ [writeId]) := by
  rw [AcceptedStdinWriteIds.remember, if_neg fresh]
  have absent : writeId ∉ accepted.order := by
    rw [window.same] at fresh
    simpa using fresh
  have spec := @evict_evicted { accepted with ids := insert writeId accepted.ids }
    (accepted.order ++ [writeId])
    (List.nodup_append.mpr ⟨window.distinct, by simp, by
      intro first firstIn second secondIn same
      rw [List.mem_singleton] at secondIn
      subst same secondIn
      exact absent firstIn⟩)
    (by
      dsimp only
      rw [window.same]
      ext other
      simp)
  exact ⟨spec.window, spec.closed, spec.order, spec.floors, spec.covered⟩

/-- A remembered id is in the window. -/
theorem Evicted.last_mem {before after : AcceptedStdinWriteIds}
    (evicted : Evicted before after (queue ++ [writeId])) : writeId ∈ after.ids := by
  rw [evicted.window.same, List.mem_toFinset, evicted.order, List.drop_append_of_le_length]
  · simp
  · rw [List.length_append, List.length_singleton, RETAINED_STDIN_WRITE_IDS_PER_PROCESS]
    omega

/-- The ids in the window are old ones or the new one. -/
theorem Evicted.mem {before after : AcceptedStdinWriteIds} (evicted : Evicted before after queue)
    (member : writeId ∈ after.ids) : writeId ∈ queue := by
  rw [evicted.window.same, List.mem_toFinset, evicted.order] at member
  exact List.mem_of_mem_drop member

/-- A call that goes on found its id neither in the window nor below a floor, and stdin open. -/
theorem check_eq_none :
    accepted.check writeId = none ↔
      writeId ∉ accepted.ids ∧ accepted.retired writeId = false ∧ accepted.closed = false := by
  unfold check alreadyAccepted
  by_cases known : writeId ∈ accepted.ids
  · simp [known]
  · by_cases isRetired : accepted.retired writeId = true
    · simp [known, isRetired]
    · by_cases isClosed : accepted.closed = true
      · simp [known, isRetired, isClosed]
      · simp [known, isRetired, isClosed]

/-- Only a known id is answered as accepted. -/
theorem check_accepted
    (answered : accepted.check writeId = some (.ok .accepted)) : writeId ∈ accepted.ids := by
  unfold check alreadyAccepted at answered
  by_contra unknown
  rw [if_neg unknown] at answered
  by_cases isRetired : accepted.retired writeId = true
  · simp [isRetired] at answered
  · by_cases isClosed : accepted.closed = true
    · simp [isRetired, isClosed] at answered
    · simp [isRetired, isClosed] at answered

end AcceptedStdinWriteIds

/-! ## What a step can do -/

/-- Nothing was sent or closed, calls that had their answer keep it, and a write is newly answered
    as accepted only for an id of the window. -/
structure Quiet (before after : Process) : Prop where
  accepted : after.accepted = before.accepted
  events : after.events = before.events
  kept : ∀ (call : Nat) (params : WriteParams) (answer : Answer), before.writes[call]? = some ⟨params, .answered answer⟩ →
    after.writes[call]? = some ⟨params, .answered answer⟩
  justified : ∀ (call : Nat) (params : WriteParams), after.writes[call]? = some ⟨params, .answered (.ok .accepted)⟩ →
    before.writes[call]? = some ⟨params, .answered (.ok .accepted)⟩ ∨
      params.writeId ∈ before.accepted.ids

/-- A call with a permit found stdin open and its id unknown, sent its chunk and remembered it. -/
def Sends (before after : Process) : Prop :=
  ∃ call params, before.writes[call]? = some ⟨params, .permitted⟩ ∧
    before.accepted.check params.writeId = none ∧
    after = { before with
      accepted := before.accepted.remember params.writeId
      writes := before.writes.set call ⟨params, .answered (.ok .accepted)⟩
      events := before.events ++ [.sent call params] }

/-- A close call closed admission. -/
def Closes (before after : Process) : Prop :=
  ∃ closes, after = { before with
    accepted := { before.accepted with closed := true }
    closes := closes
    events := before.events ++ [.closeAdmitted] }

theorem Quiet.refl (process : Process) : Quiet process process :=
  ⟨rfl, rfl, fun _ _ _ here => here, fun _ _ here => .inl here⟩

/-- Only the close calls changed. -/
theorem Quiet.of_closes (process : Process) (closes : List ClosePhase) :
    Quiet process { process with closes := closes } :=
  ⟨rfl, rfl, fun _ _ _ here => here, fun _ _ here => .inl here⟩

/-- A call without its answer moved to a phase. -/
theorem Quiet.settle {params : WriteParams} {phase next : WritePhase}
    (here : process.writes[call]? = some ⟨params, phase⟩)
    (pending : ∀ answer, phase ≠ .answered answer)
    (honest : next = .answered (.ok .accepted) → params.writeId ∈ process.accepted.ids) :
    Quiet process (process.settle call params next) := by
  have inside : call < process.writes.length := (List.getElem?_eq_some_iff.mp here).1
  refine ⟨rfl, rfl, ?_, ?_⟩
  · intro other otherParams answer found
    have different : call ≠ other := by
      rintro rfl
      rw [here] at found
      simp only [Option.some.injEq, WriteCall.mk.injEq] at found
      exact pending answer found.2
    rw [Process.settle, List.getElem?_set_ne different, found]
  intro other otherParams found
  rw [Process.settle] at found
  dsimp only at found
  by_cases same : call = other
  · subst same
    rw [List.getElem?_set_self inside] at found
    simp only [Option.some.injEq, WriteCall.mk.injEq] at found
    exact .inr (found.1 ▸ honest found.2)
  · rw [List.getElem?_set_ne same] at found
    exact .inl found

theorem Quiet.newWrite (process : Process) {params : WriteParams} {phase : WritePhase}
    (unanswered : phase ≠ .answered (.ok .accepted)) :
    Quiet process { process with writes := process.writes ++ [⟨params, phase⟩] } := by
  refine ⟨rfl, rfl, ?_, ?_⟩
  · intro call otherParams answer found
    have inside : call < process.writes.length := (List.getElem?_eq_some_iff.mp found).1
    rw [List.getElem?_append_left inside, found]
  intro call otherParams found
  dsimp only at found
  rw [List.getElem?_append] at found
  split at found
  · exact .inl found
  · have last := List.mem_of_getElem? found
    simp only [List.mem_singleton, WriteCall.mk.injEq] at last
    exact absurd last.2.symm unanswered

theorem phaseAfter_validate (params : WriteParams) :
    Process.phaseAfter .arrived (validate params) ≠ .answered (.ok .accepted) := by
  unfold validate
  split
  · simp [Process.phaseAfter]
  · split
    · simp [Process.phaseAfter]
    · simp [Process.phaseAfter]

theorem phaseAfter_writeAdmission (process : Process) (entry : Entry) :
    Process.phaseAfter .admitted (writeAdmission process entry) ≠ .answered (.ok .accepted) := by
  cases entry with
  | missing | replaced | starting => simp [writeAdmission, Process.phaseAfter]
  | running =>
    rw [writeAdmission]
    split
    · simp [Process.phaseAfter]
    · simp [Process.phaseAfter]

theorem advanceWrite_cases {write : WriteCall} (here : process.writes[call]? = some write)
    (entry : Entry) (reserved : Bool) :
    Quiet process (process.advanceWrite call entry reserved write) ∨
      Sends process (process.advanceWrite call entry reserved write) := by
  obtain ⟨params, phase⟩ := write
  cases phase with
  | arrived =>
    refine .inl (Quiet.settle here (by simp) fun isAccepted => ?_)
    exact absurd isAccepted (phaseAfter_writeAdmission process entry)
  | admitted =>
    refine .inl (Quiet.settle here (by simp) fun isAccepted => ?_)
    dsimp only at isAccepted
    cases checked : process.accepted.check params.writeId with
    | none =>
      rw [checked] at isAccepted
      cases isAccepted
    | some answer =>
      rw [checked] at isAccepted
      simp only [Process.phaseAfter, WritePhase.answered.injEq] at isAccepted
      rw [isAccepted] at checked
      exact AcceptedStdinWriteIds.check_accepted checked
  | reserving =>
    refine .inl (Quiet.settle here (by simp) fun isAccepted => ?_)
    cases reserved with
    | true => cases isAccepted
    | false => cases isAccepted
  | permitted =>
    change Quiet process (process.commit call params) ∨ Sends process (process.commit call params)
    unfold Process.commit
    split
    · next answer checked =>
      refine .inl (Quiet.settle here (by simp) fun isAccepted => ?_)
      simp only [WritePhase.answered.injEq] at isAccepted
      rw [isAccepted] at checked
      exact AcceptedStdinWriteIds.check_accepted checked
    · next checked => exact .inr ⟨call, params, here, checked, rfl⟩
  | answered answer => exact .inl (Quiet.refl process)
  | cancelled => exact .inl (Quiet.refl process)

theorem cancelWrite_quiet {write : WriteCall} (here : process.writes[call]? = some write) :
    Quiet process (process.cancelWrite call write) := by
  obtain ⟨params, phase⟩ := write
  unfold Process.cancelWrite
  split
  · exact Quiet.refl process
  · next pending =>
    refine Quiet.settle here (fun answer isAnswer => pending answer isAnswer) fun isAccepted => ?_
    cases isAccepted

theorem advanceClose_cases (process : Process) (call : Nat) (entry : Entry)
    (drained : Except String Unit) (phase : ClosePhase) :
    Quiet process (process.advanceClose call entry drained phase) ∨
      Closes process (process.advanceClose call entry drained phase) := by
  cases phase with
  | arrived => exact .inl (Quiet.of_closes process _)
  | admitted => exact .inr ⟨_, rfl⟩
  | draining => exact .inl (Quiet.of_closes process _)
  | answered answer => exact .inl (Quiet.refl process)
  | cancelled => exact .inl (Quiet.refl process)

theorem cancelClose_quiet (process : Process) (call : Nat) (phase : ClosePhase) :
    Quiet process (process.cancelClose call phase) := by
  unfold Process.cancelClose
  split
  · exact Quiet.refl process
  · exact Quiet.of_closes process _

/-- Every step is quiet, sends one chunk, or closes admission. -/
theorem step_cases (process : Process) (step : Step) :
    Quiet process (process.step step) ∨ Sends process (process.step step) ∨
      Closes process (process.step step) := by
  cases step with
  | write params => exact .inl (Quiet.newWrite process (phaseAfter_validate params))
  | advanceWrite call entry reserved =>
    rw [Process.step]
    cases here : process.writes[call]? with
    | none => exact .inl (Quiet.refl process)
    | some write =>
      rcases advanceWrite_cases here entry reserved with quiet | sends
      · exact .inl quiet
      · exact .inr (.inl sends)
  | cancelWrite call =>
    rw [Process.step]
    cases here : process.writes[call]? with
    | none => exact .inl (Quiet.refl process)
    | some write => exact .inl (cancelWrite_quiet here)
  | close => exact .inl (Quiet.of_closes process _)
  | advanceClose call entry drained =>
    rw [Process.step]
    cases process.closes[call]? with
    | none => exact .inl (Quiet.refl process)
    | some phase =>
      rcases advanceClose_cases process call entry drained phase with quiet | closes
      · exact .inl quiet
      · exact .inr (.inr closes)
  | cancelClose call =>
    rw [Process.step]
    cases process.closes[call]? with
    | none => exact .inl (Quiet.refl process)
    | some phase => exact .inl (cancelClose_quiet process call phase)

/-! ## The invariant -/

namespace Process

/-- The calls whose chunks were sent, in order. -/
def sentCalls (process : Process) : List Nat :=
  process.events.filterMap StdinEvent.sentCall

/-- No event after a close sends anything. -/
def SilentAfterClose (events : List StdinEvent) : Prop :=
  ∀ front back, events = front ++ .closeAdmitted :: back →
    ∀ call params, StdinEvent.sent call params ∉ back

/-- What holds of a process at every step. -/
structure Sound (process : Process) : Prop where
  window : process.accepted.Window
  retained : ∀ writeId ∈ process.accepted.ids, writeId ∈ process.sentIds
  outlawed : ∀ writeId ∈ process.sentIds, (sequence writeId).isSome = true →
    writeId ∈ process.accepted.ids ∨ process.accepted.retired writeId = true
  once : (process.sentIds.filter fun writeId => (sequence writeId).isSome).Nodup
  callsOnce : process.sentCalls.Nodup
  owned : ∀ (call : Nat) (params : WriteParams), StdinEvent.sent call params ∈ process.events →
    process.writes[call]? = some ⟨params, .answered (.ok .accepted)⟩
  honest : ∀ (call : Nat) (params : WriteParams), process.writes[call]? = some ⟨params, .answered (.ok .accepted)⟩ →
    params.writeId ∈ process.sentIds
  closed : StdinEvent.closeAdmitted ∈ process.events → process.accepted.closed = true
  silent : SilentAfterClose process.events

theorem sound_spawned (tty pipeStdin : Bool) : (spawned tty pipeStdin).Sound where
  window := ⟨List.nodup_nil, rfl, Nat.zero_le _⟩
  retained := by
    intro writeId member
    simp [spawned, AcceptedStdinWriteIds.default] at member
  outlawed := by
    intro writeId member
    cases member
  once := List.nodup_nil
  callsOnce := List.nodup_nil
  owned := by
    intro call params member
    cases member
  honest := by
    intro call params found
    cases found
  closed := by
    intro member
    cases member
  silent := by
    intro front back split
    simp [spawned] at split

theorem mem_sentCalls (member : call ∈ process.sentCalls) :
    ∃ params, StdinEvent.sent call params ∈ process.events := by
  obtain ⟨event, inside, isCall⟩ := List.mem_filterMap.mp member
  cases event with
  | sent other params =>
    simp only [StdinEvent.sentCall, Option.some.injEq] at isCall
    exact ⟨params, isCall ▸ inside⟩
  | closeAdmitted => cases isCall

variable {before after : Process}

theorem Sound.quiet (sound : before.Sound) (quiet : Quiet before after) :
    after.Sound := by
  have sameIds : after.sentIds = before.sentIds := by rw [sentIds, sentIds, quiet.events]
  refine ⟨?_, ?_, ?_, ?_, ?_, ?_, ?_, ?_, ?_⟩
  · rw [quiet.accepted]
    exact sound.window
  · rw [quiet.accepted, sameIds]
    exact sound.retained
  · rw [quiet.accepted, sameIds]
    exact sound.outlawed
  · rw [sameIds]
    exact sound.once
  · rw [sentCalls, quiet.events]
    exact sound.callsOnce
  · intro call params member
    rw [quiet.events] at member
    exact quiet.kept call params _ (sound.owned call params member)
  · intro call params found
    rw [sameIds]
    rcases quiet.justified call params found with old | known
    · exact sound.honest call params old
    · exact sound.retained _ known
  · rw [quiet.events, quiet.accepted]
    exact sound.closed
  · rw [quiet.events]
    exact sound.silent

/-- An event appended to a log that stays silent after a close. -/
theorem SilentAfterClose.snoc {events : List StdinEvent} {event : StdinEvent}
    (silent : SilentAfterClose events)
    (allowed : StdinEvent.closeAdmitted ∈ events → ∀ call params, event ≠ .sent call params) :
    SilentAfterClose (events ++ [event]) := by
  intro front back split call params member
  rcases List.eq_nil_or_concat back with rfl | ⟨init, last, rfl⟩
  · cases member
  rw [List.concat_eq_append] at split member
  rw [← List.cons_append, ← List.append_assoc] at split
  obtain ⟨isEvents, isLast⟩ := List.append_inj' split rfl
  rcases List.mem_append.mp member with old | new
  · exact silent front init isEvents call params old
  · rw [List.mem_singleton] at new
    simp only [List.cons.injEq, and_true] at isLast
    refine allowed ?_ call params (isLast.trans new.symm)
    rw [isEvents]
    simp

theorem Sound.sends (sound : before.Sound) (sends : Sends before after) :
    after.Sound := by
  obtain ⟨call, params, permitted, checked, rfl⟩ := sends
  obtain ⟨fresh, alive, isOpen⟩ := AcceptedStdinWriteIds.check_eq_none.mp checked
  have inside : call < before.writes.length := (List.getElem?_eq_some_iff.mp permitted).1
  have evicted := sound.window.remember fresh
  have inOrder : ∀ writeId, writeId ∈ before.accepted.order ↔ writeId ∈ before.accepted.ids := by
    intro writeId
    rw [sound.window.same, List.mem_toFinset]
  have unsent : (sequence params.writeId).isSome = true → params.writeId ∉ before.sentIds := by
    intro ordered sent
    rcases sound.outlawed _ sent ordered with known | isRetired
    · exact fresh known
    · rw [alive] at isRetired
      cases isRetired
  refine ⟨evicted.window, ?_, ?_, ?_, ?_, ?_, ?_, ?_, ?_⟩
  · intro writeId member
    simp only [sentIds, List.filterMap_append, List.mem_append]
    rcases List.mem_append.mp (evicted.mem member) with old | new
    · exact .inl (sound.retained writeId ((inOrder writeId).mp old))
    · exact .inr (by simpa using new)
  · intro writeId member ordered
    simp only [sentIds, List.filterMap_append, List.mem_append] at member
    rcases member with old | new
    · rcases sound.outlawed writeId old ordered with known | isRetired
      · exact evicted.covered writeId
          (List.mem_append_left _ ((inOrder writeId).mpr known)) ordered
      · exact .inr (evicted.floors writeId isRetired)
    · have isNew : writeId = params.writeId := by simpa using new
      subst isNew
      exact .inl evicted.last_mem
  · simp only [sentIds, List.filterMap_append, List.filter_append]
    by_cases ordered : (sequence params.writeId).isSome = true
    · have absent := unsent ordered
      refine List.nodup_append.mpr ⟨sound.once, by simp [ordered], ?_⟩
      intro first firstIn second secondIn same
      have isNew : second = params.writeId := by simpa [ordered] using secondIn
      subst same isNew
      exact absent (List.mem_of_mem_filter firstIn)
    · have nothing : ([StdinEvent.sent call params].filterMap StdinEvent.sentId).filter
          (fun writeId => (sequence writeId).isSome) = [] := by
        simp [ordered]
      rw [nothing, List.append_nil]
      exact sound.once
  · simp only [sentCalls, List.filterMap_append]
    refine List.nodup_append.mpr ⟨sound.callsOnce, by simp, ?_⟩
    intro first firstIn second secondIn same
    have isNew : second = call := by simpa using secondIn
    subst same isNew
    obtain ⟨earlier, sent⟩ := mem_sentCalls firstIn
    have answered := sound.owned _ earlier sent
    rw [permitted] at answered
    simp at answered
  · intro other otherParams member
    rcases List.mem_append.mp member with old | new
    · have answered := sound.owned other otherParams old
      have different : call ≠ other := by
        rintro rfl
        rw [permitted] at answered
        simp at answered
      dsimp only
      rw [List.getElem?_set_ne different, answered]
    · simp only [List.mem_singleton, StdinEvent.sent.injEq] at new
      obtain ⟨rfl, rfl⟩ := new
      exact List.getElem?_set_self inside
  · intro other otherParams found
    simp only [sentIds, List.filterMap_append, List.mem_append]
    dsimp only at found
    by_cases same : call = other
    · subst same
      rw [List.getElem?_set_self inside] at found
      simp only [Option.some.injEq, WriteCall.mk.injEq, and_true] at found
      exact .inr (by simp [found])
    · rw [List.getElem?_set_ne same] at found
      exact .inl (sound.honest other otherParams found)
  · intro member
    have old : StdinEvent.closeAdmitted ∈ before.events := by simpa using member
    rw [sound.closed old] at isOpen
    cases isOpen
  · refine sound.silent.snoc fun isClosed => ?_
    rw [sound.closed isClosed] at isOpen
    cases isOpen

theorem Sound.closes (sound : before.Sound) (closes : Closes before after) : after.Sound := by
  obtain ⟨calls, rfl⟩ := closes
  have sameIds : (before.events ++ [StdinEvent.closeAdmitted]).filterMap StdinEvent.sentId =
      before.sentIds := by
    simp [sentIds]
  refine ⟨⟨sound.window.distinct, sound.window.same, sound.window.bounded⟩, ?_, ?_, ?_, ?_, ?_,
    ?_, fun _ => rfl, ?_⟩
  · rw [sentIds, sameIds]
    exact sound.retained
  · rw [sentIds, sameIds]
    exact sound.outlawed
  · rw [sentIds, sameIds]
    exact sound.once
  · have sameCalls : (before.events ++ [StdinEvent.closeAdmitted]).filterMap
        StdinEvent.sentCall = before.sentCalls := by
      rw [List.filterMap_append, sentCalls]
      exact List.append_nil _
    rw [sentCalls, sameCalls]
    exact sound.callsOnce
  · intro call params member
    exact sound.owned call params (by simpa using member)
  · rw [sentIds, sameIds]
    exact sound.honest
  · exact sound.silent.snoc fun _ call params => by simp

theorem Sound.step (sound : process.Sound) (step : Step) :
    (process.step step).Sound := by
  rcases step_cases process step with quiet | sends | closes
  · exact sound.quiet quiet
  · exact sound.sends sends
  · exact sound.closes closes

theorem Sound.run (sound : process.Sound) (steps : List Step) :
    (process.run steps).Sound := by
  induction steps generalizing process with
  | nil => exact sound
  | cons step steps ih => exact ih (sound.step step)

/-! ## Retained ids -/

/-- A step sends the chunk of an id only if the window does not hold the id, and then the window
    does. -/
theorem Sound.sentIds_step (sound : process.Sound) (step : Step) :
    (process.step step).sentIds = process.sentIds ∨
      ∃ writeId, (process.step step).sentIds = process.sentIds ++ [writeId] ∧
        writeId ∉ process.accepted.ids ∧ writeId ∈ (process.step step).accepted.ids := by
  rcases step_cases process step with quiet | sends | ⟨calls, closes⟩
  · exact .inl (by rw [sentIds, sentIds, quiet.events])
  · obtain ⟨call, params, permitted, checked, sent⟩ := sends
    obtain ⟨fresh, -, -⟩ := AcceptedStdinWriteIds.check_eq_none.mp checked
    refine .inr ⟨params.writeId, ?_, fresh, ?_⟩
    · rw [sent]
      simp [sentIds]
    · rw [sent]
      exact (sound.window.remember fresh).last_mem
  · refine .inl ?_
    rw [closes]
    simp [sentIds]

/-- While the window holds an id, its chunk is not sent. -/
theorem Sound.count_retained (sound : process.Sound) (steps : List Step)
    (kept : ∀ count ≤ steps.length, writeId ∈ (process.run (steps.take count)).accepted.ids) :
    (process.run steps).sentIds.count writeId = process.sentIds.count writeId := by
  induction steps generalizing process with
  | nil => rfl
  | cons step steps ih =>
    have here : writeId ∈ process.accepted.ids := kept 0 (Nat.zero_le _)
    have later := ih (sound.step step) fun count inside => by
      have next := kept (count + 1) (by rw [List.length_cons]; omega)
      rwa [List.take_succ_cons] at next
    rw [show process.run (step :: steps) = (process.step step).run steps from rfl, later]
    rcases sound.sentIds_step step with same | ⟨other, grown, fresh, -⟩
    · rw [same]
    · have different : other ≠ writeId := by
        rintro rfl
        exact fresh here
      rw [grown, List.count_append, List.count_singleton, if_neg (by simpa using different),
        Nat.add_zero]

end Process

/-- In every interleaving of write and close calls with drops at their awaits: a canonical number
    of either writer is sent at most once, an id that the window holds is not sent again, nothing
    is sent after a close, an accepted answer means that the id was sent, a call without that
    answer sent nothing and no call sent twice, and the set and the queue of the window hold the
    same distinct ids within the bound. -/
theorem stdin_written_at_most_once (tty pipeStdin : Bool) (steps : List Step) :
    (∀ (writer : Fin 2) (number : Nat), number < 2 ^ 64 →
      ((Process.spawned tty pipeStdin).run steps).sentIds.count (sequencedId writer number) ≤ 1) ∧
    (∀ (writeId : Text) (later : List Step),
      (∀ count ≤ later.length, writeId ∈ (((Process.spawned tty pipeStdin).run steps).run
        (later.take count)).accepted.ids) →
      (((Process.spawned tty pipeStdin).run steps).run later).sentIds.count writeId =
        ((Process.spawned tty pipeStdin).run steps).sentIds.count writeId) ∧
    (∀ step, (((Process.spawned tty pipeStdin).run steps).step step).sentIds =
        ((Process.spawned tty pipeStdin).run steps).sentIds ∨
      ∃ writeId, (((Process.spawned tty pipeStdin).run steps).step step).sentIds =
          ((Process.spawned tty pipeStdin).run steps).sentIds ++ [writeId] ∧
        writeId ∉ ((Process.spawned tty pipeStdin).run steps).accepted.ids ∧
        writeId ∈ (((Process.spawned tty pipeStdin).run steps).step step).accepted.ids) ∧
    Process.SilentAfterClose ((Process.spawned tty pipeStdin).run steps).events ∧
    (∀ (call : Nat) (params : WriteParams),
      ((Process.spawned tty pipeStdin).run steps).writes[call]? =
        some ⟨params, .answered (.ok .accepted)⟩ →
      params.writeId ∈ ((Process.spawned tty pipeStdin).run steps).sentIds) ∧
    (∀ (call : Nat) (params : WriteParams), StdinEvent.sent call params ∈
        ((Process.spawned tty pipeStdin).run steps).events →
      ((Process.spawned tty pipeStdin).run steps).writes[call]? =
        some ⟨params, .answered (.ok .accepted)⟩) ∧
    ((Process.spawned tty pipeStdin).run steps).sentCalls.Nodup ∧
    ((Process.spawned tty pipeStdin).run steps).accepted.Window := by
  have sound := (Process.sound_spawned tty pipeStdin).run steps
  refine ⟨?_, ?_, fun step => sound.sentIds_step step, sound.silent, sound.honest, sound.owned,
    sound.callsOnce, sound.window⟩
  · intro writer number fits
    have ordered := (sequence_isSome_iff _).mpr ⟨writer, number, fits, rfl⟩
    have once := List.nodup_iff_count_le_one.mp sound.once (sequencedId writer number)
    rw [List.count_filter (p := fun writeId => (sequence writeId).isSome) ordered] at once
    exact once
  · exact fun writeId later kept => sound.count_retained later kept

end Codex.ExecServer.Stdin
