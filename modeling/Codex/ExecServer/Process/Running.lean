import Mathlib

/-!
# A running process and its retained output

`exec-server/src/local_process.rs`: output chunks, capture losses, the exit and the close of a
process take sequence numbers under the process lock, and output is retained up to a byte limit,
the oldest leaving first. A read returns the retained output after a sequence with the facts of
the process. Sequence numbers are `u64` counters of events, far from their end, so they are
natural numbers and the saturating additions on them are additions.
-/

namespace Codex.ExecServer.Process

def RETAINED_OUTPUT_BYTES_PER_PROCESS : Nat := 1024 * 1024

inductive ExecOutputStream where
  | stdout
  | stderr
  | pty
  deriving DecidableEq, Repr

structure ProcessOutputChunk where
  seq : Nat
  stream : ExecOutputStream
  chunk : List UInt8
  deriving DecidableEq, Repr

/-- `ExecProcessEvent` (`process.rs:31`). -/
inductive ExecProcessEvent where
  | output (chunk : ProcessOutputChunk)
  | outputGap (throughSeq : Nat)
  | exited (seq : Nat) (exitCode : Int) (sandboxDenied : Option Bool)
  | closed (seq : Nat) (sandboxDenied : Option Bool)
  | failed (message : String)
  deriving DecidableEq, Repr

namespace ExecProcessEvent

/-- `ExecProcessEvent::seq` (`process.rs:76`). -/
def seq : ExecProcessEvent → Option Nat
  | output chunk => some chunk.seq
  | outputGap throughSeq => some throughSeq
  | exited seq _ _ => some seq
  | closed seq _ => some seq
  | failed _ => none

@[simp] theorem seq_output (chunk : ProcessOutputChunk) : (output chunk).seq = some chunk.seq := rfl

@[simp] theorem seq_outputGap (throughSeq : Nat) : (outputGap throughSeq).seq = some throughSeq :=
  rfl

@[simp] theorem seq_closed (seq : Nat) (denied : Option Bool) :
    (closed seq denied).seq = some seq := rfl

/-- `pending_process_event_bytes` (`client.rs:1728`), which is also `retained_len`. -/
def bytes : ExecProcessEvent → Nat
  | output chunk => chunk.chunk.length
  | failed message => message.utf8ByteSize
  | outputGap _ => 0
  | exited _ _ _ => 0
  | closed _ _ => 0

/-- The chunk of an output event. -/
def chunk : ExecProcessEvent → Option ProcessOutputChunk
  | output chunk => some chunk
  | outputGap _ => none
  | exited _ _ _ => none
  | closed _ _ => none
  | failed _ => none

end ExecProcessEvent

structure ProcessOutputGap where
  throughSeq : Nat
  exitSeq : Option Nat
  deriving DecidableEq, Repr

/-- `ReadResponse` (`protocol.rs:380`). -/
structure ReadResponse where
  chunks : List ProcessOutputChunk
  nextSeq : Nat
  exited : Bool
  exitCode : Option Int
  closed : Bool
  failure : Option String
  outputGap : Option ProcessOutputGap
  sandboxDenied : Bool
  deriving DecidableEq, Repr

/-- `RunningProcess` (`local_process.rs:87`): what reads and events depend on, the tasks that are
    still at work, and all events that were published. -/
structure RunningProcess where
  tty : Bool
  sandboxed : Bool
  output : List ProcessOutputChunk
  retainedBytes : Nat
  lastEvictedSeq : Nat
  nextSeq : Nat
  exitSeq : Option Nat
  exitCode : Option Int
  openStreams : Nat
  closed : Bool
  finalizing : Bool
  failure : Option String
  sandboxDenied : Bool
  /-- whether nothing was evicted when `maybe_emit_closed` took its snapshot -/
  completeOutput : Bool
  /-- the stdout and stderr receivers that `stream_output` still drains -/
  draining : Bool → Bool
  /-- `watch_exit` still waits -/
  watching : Bool
  history : List ExecProcessEvent

namespace RunningProcess

/-- The record that `start_process_reserved` inserts (`local_process.rs:527`). -/
def spawned (tty sandboxed : Bool) : RunningProcess :=
  { tty, sandboxed, output := [], retainedBytes := 0, lastEvictedSeq := 0, nextSeq := 1
    exitSeq := none, exitCode := none, openStreams := 2, closed := false, finalizing := false
    failure := none, sandboxDenied := false, completeOutput := true, draining := fun _ => true
    watching := true, history := [] }

/-- The stream of a receiver (`local_process.rs:571`). -/
def stream (process : RunningProcess) (second : Bool) : ExecOutputStream :=
  if process.tty then .pty else if second then .stderr else .stdout

/-- The eviction loop of `stream_output` (`local_process.rs:1160`). -/
def evict (retainedBytes lastEvictedSeq : Nat) :
    List ProcessOutputChunk → List ProcessOutputChunk × Nat × Nat
  | [] => ([], retainedBytes, lastEvictedSeq)
  | evicted :: output =>
      if retainedBytes > RETAINED_OUTPUT_BYTES_PER_PROCESS then
        evict (retainedBytes - evicted.chunk.length) (max lastEvictedSeq evicted.seq) output
      else (evicted :: output, retainedBytes, lastEvictedSeq)

/-- An event takes the next sequence. -/
def publish (process : RunningProcess) (event : ExecProcessEvent) : RunningProcess :=
  { process with
    nextSeq := process.nextSeq + 1
    history := process.history ++ [event] }

/-- One chunk of `stream_output` (`local_process.rs:1136`). -/
def streamOutput (process : RunningProcess) (second : Bool) (chunk : List UInt8) :
    RunningProcess :=
  let output : ProcessOutputChunk := ⟨process.nextSeq, process.stream second, chunk⟩
  let kept := evict (process.retainedBytes + chunk.length) process.lastEvictedSeq
    (process.output ++ [output])
  { process.publish (.output output) with
    output := kept.1
    retainedBytes := kept.2.1
    lastEvictedSeq := kept.2.2 }

/-- A capture loss has a sequence of its own (`local_process.rs:1288`). -/
def markLoss (process : RunningProcess) : RunningProcess :=
  { process.publish (.outputGap process.nextSeq) with lastEvictedSeq := process.nextSeq }

/-- A receiver has drained (`local_process.rs:1298`). -/
def endStream (process : RunningProcess) (second : Bool) : RunningProcess :=
  { process with
    openStreams := process.openStreams - 1
    draining := Function.update process.draining second false }

/-- `finish_output_stream` (`local_process.rs:1268`); `captured` is whether the capture of the
    stream, or of the terminal, is complete. -/
def finishOutputStream (process : RunningProcess) (second captured : Bool) : RunningProcess :=
  let complete := if process.tty then process.openStreams > 1 || captured else captured
  (if complete then process else process.markLoss).endStream second

/-- `watch_exit` with the exit code (`local_process.rs:1245`), or without one
    (`local_process.rs:1191`). -/
def watchExit (process : RunningProcess) : Option Int → RunningProcess
  | some exitCode =>
      { process.publish (.exited process.nextSeq exitCode
          (if process.sandboxed then none else some false)) with
        exitCode := some exitCode
        exitSeq := some process.nextSeq
        watching := false }
  | none =>
      { process with
        failure := some "process exit observation lost"
        watching := false }

/-- The first part of `maybe_emit_closed` (`local_process.rs:1316`); `unconfirmed` is a
    termination that was requested and is not confirmed. -/
def beginClose (process : RunningProcess) (unconfirmed : Bool) : RunningProcess :=
  if process.closed || process.finalizing || process.openStreams ≠ 0 || unconfirmed ||
      process.exitCode.isNone then process
  else
    { process with
      finalizing := true
      completeOutput := process.lastEvictedSeq = 0 }

/-- The assessment of `maybe_emit_closed`; `denied` is the verdict on the output
    (`local_process.rs:1345`). -/
def assessment (process : RunningProcess) (denied : Bool) : Option Bool :=
  if !process.sandboxed then some false
  else if process.exitCode = some 0 then (if process.completeOutput then some false else none)
  else if denied || process.completeOutput then some denied
  else none

/-- The second part of `maybe_emit_closed` (`local_process.rs:1375`). -/
def finishClose (process : RunningProcess) (denied : Bool) : RunningProcess :=
  if process.closed then process
  else
    { process.publish (.closed process.nextSeq (process.assessment denied)) with
      sandboxDenied := (process.assessment denied).getD false
      closed := true }

/-- The loop of `exec_read` over the retained chunks (`local_process.rs:663`). -/
def takeChunks (maxBytes totalBytes : Nat) (chunks : List ProcessOutputChunk) :
    List ProcessOutputChunk → List ProcessOutputChunk
  | [] => chunks
  | retained :: rest =>
      if !chunks.isEmpty && totalBytes + retained.chunk.length > maxBytes then chunks
      else if totalBytes + retained.chunk.length ≥ maxBytes then chunks ++ [retained]
      else takeChunks maxBytes (totalBytes + retained.chunk.length) (chunks ++ [retained]) rest

/-- The snapshot of `exec_read_bound` (`local_process.rs:639`). A read without a limit has that of
    `usize::MAX` bytes and reports the end of the stream. -/
def execRead (process : RunningProcess) (afterSeq : Nat) (maxBytes : Option Nat) :
    Except String ReadResponse :=
  if afterSeq ≥ process.nextSeq then
    .error ("afterSeq " ++ toString afterSeq ++ " exceeds the last available sequence " ++
      toString (process.nextSeq - 1))
  else
    let chunks := takeChunks (maxBytes.getD (2 ^ 64 - 1)) 0 []
      (process.output.dropWhile fun chunk => chunk.seq ≤ afterSeq)
    let nextSeq := (chunks.getLast?.map fun chunk => chunk.seq + 1).getD process.nextSeq
    .ok
      { chunks := chunks
        nextSeq := if maxBytes.isNone then process.nextSeq else nextSeq
        exited := process.exitCode.isSome
        exitCode := process.exitCode
        closed := process.closed
        failure := process.failure
        outputGap := if afterSeq < process.lastEvictedSeq then
          some ⟨process.lastEvictedSeq, process.exitSeq⟩ else none
        sandboxDenied := process.sandboxDenied }

end RunningProcess

/-- What the tasks of a process do next. -/
inductive ProcessStep where
  | output (second : Bool) (chunk : List UInt8)
  | finish (second captured : Bool)
  | exit (exitCode : Option Int)
  | beginClose (unconfirmed : Bool)
  | finishClose (denied : Bool)

namespace RunningProcess

/-- A step of a task that is at work. -/
def step (process : RunningProcess) : ProcessStep → RunningProcess
  | .output second chunk =>
      if process.draining second then process.streamOutput second chunk else process
  | .finish second captured =>
      if process.draining second then process.finishOutputStream second captured else process
  | .exit exitCode => if process.watching then process.watchExit exitCode else process
  | .beginClose unconfirmed => process.beginClose unconfirmed
  | .finishClose denied => if process.finalizing then process.finishClose denied else process

def run (process : RunningProcess) (steps : List ProcessStep) : RunningProcess :=
  steps.foldl step process

/-- The retained bytes of some chunks. -/
def byteCount (chunks : List ProcessOutputChunk) : Nat :=
  (chunks.map fun chunk => chunk.chunk.length).sum

/-- The output events of a history. -/
def outputsOf (history : List ExecProcessEvent) : List ProcessOutputChunk :=
  history.filterMap ExecProcessEvent.chunk

/-- The history is numbered from one; the retained output is the last part of all output, and what
    is missing of it, or was never captured, lies at or below the last evicted sequence; the exit
    and the close are where the record says; and the close comes last. -/
structure Recorded (process : RunningProcess) : Prop where
  numbered : process.history.map ExecProcessEvent.seq =
    (List.range process.history.length).map fun i => some (i + 1)
  next : process.nextSeq = process.history.length + 1
  retained : ∃ evicted, outputsOf process.history = evicted ++ process.output ∧
    ∀ chunk ∈ evicted, chunk.seq ≤ process.lastEvictedSeq
  lost : ∀ throughSeq, ExecProcessEvent.outputGap throughSeq ∈ process.history →
    throughSeq ≤ process.lastEvictedSeq
  evicted : process.lastEvictedSeq < process.nextSeq
  bytes : process.retainedBytes = byteCount process.output
  limited : process.retainedBytes ≤ RETAINED_OUTPUT_BYTES_PER_PROCESS
  exitRecorded : ∀ seq exitCode denied,
    ExecProcessEvent.exited seq exitCode denied ∈ process.history →
    process.exitSeq = some seq ∧ process.exitCode = some exitCode
  exitHappened : ∀ seq, process.exitSeq = some seq → ∃ exitCode denied,
    ExecProcessEvent.exited seq exitCode denied ∈ process.history
  exitKnown : process.exitCode.isSome = process.exitSeq.isSome
  waiting : process.watching = true → process.exitSeq = none
  closeRecorded : ∀ seq denied, ExecProcessEvent.closed seq denied ∈ process.history →
    process.closed = true ∧ seq + 1 = process.nextSeq
  closeHappened : process.closed = true → ∃ denied,
    ExecProcessEvent.closed (process.nextSeq - 1) denied ∈ process.history
  ended : process.closed = true ∨ process.finalizing = true → process.exitSeq.isSome = true ∧
    process.watching = false ∧ ∀ second, process.draining second = false
  streams : process.openStreams = (process.draining false).toNat + (process.draining true).toNat
  unfailed : ∀ message, ExecProcessEvent.failed message ∉ process.history

theorem recorded_spawned (tty sandboxed : Bool) : (spawned tty sandboxed).Recorded where
  numbered := rfl
  next := rfl
  retained := ⟨[], rfl, by simp⟩
  lost := by simp [spawned]
  evicted := by simp [spawned]
  bytes := rfl
  limited := Nat.zero_le _
  exitRecorded := by simp [spawned]
  exitHappened := by simp [spawned]
  exitKnown := rfl
  waiting := fun _ => rfl
  closeRecorded := by simp [spawned]
  closeHappened := by simp [spawned]
  ended := by simp [spawned]
  streams := rfl
  unfailed := by simp [spawned]

/-- What the eviction loop keeps. -/
theorem evict_spec {retainedBytes lastEvictedSeq : Nat} {output : List ProcessOutputChunk}
    (bytes : retainedBytes = byteCount output) :
    ∃ evicted, output = evicted ++ (evict retainedBytes lastEvictedSeq output).1 ∧
      (∀ chunk ∈ evicted, chunk.seq ≤ (evict retainedBytes lastEvictedSeq output).2.2) ∧
      lastEvictedSeq ≤ (evict retainedBytes lastEvictedSeq output).2.2 ∧
      (evict retainedBytes lastEvictedSeq output).2.1 =
        byteCount (evict retainedBytes lastEvictedSeq output).1 ∧
      (evict retainedBytes lastEvictedSeq output).2.1 ≤ RETAINED_OUTPUT_BYTES_PER_PROCESS ∧
      ((evict retainedBytes lastEvictedSeq output).2.2 = lastEvictedSeq ∨
        ∃ chunk ∈ output, (evict retainedBytes lastEvictedSeq output).2.2 = chunk.seq) := by
  induction output generalizing retainedBytes lastEvictedSeq with
  | nil =>
    subst bytes
    exact ⟨[], rfl, by simp, le_refl _, rfl, Nat.zero_le _, .inl rfl⟩
  | cons first output ih =>
    rw [evict]
    by_cases full : retainedBytes > RETAINED_OUTPUT_BYTES_PER_PROCESS
    · rw [if_pos full]
      have rest : retainedBytes - first.chunk.length = byteCount output := by
        rw [bytes, byteCount, byteCount, List.map_cons, List.sum_cons, Nat.add_sub_cancel_left]
      obtain ⟨evicted, split, below, grown, same, limited, source⟩ :=
        @ih _ (max lastEvictedSeq first.seq) rest
      refine ⟨first :: evicted, ?_, ?_, le_trans (le_max_left _ _) grown, same, limited, ?_⟩
      · rw [List.cons_append, ← split]
      · intro chunk member
        rcases List.mem_cons.mp member with rfl | later
        · exact le_trans (le_max_right _ _) grown
        · exact below chunk later
      · rcases source with isMax | ⟨chunk, member, isChunk⟩
        · rcases max_choice lastEvictedSeq first.seq with old | new
          · exact .inl (isMax.trans old)
          · exact .inr ⟨first, List.mem_cons_self, isMax.trans new⟩
        · exact .inr ⟨chunk, List.mem_cons_of_mem _ member, isChunk⟩
    · rw [if_neg full]
      exact ⟨[], rfl, by simp, le_refl _, bytes, not_lt.mp full, .inl rfl⟩

/-- The sequences of numbered events. -/
theorem numbered_snoc {history : List ExecProcessEvent} {event : ExecProcessEvent}
    (numbered : history.map ExecProcessEvent.seq =
      (List.range history.length).map fun i => some (i + 1))
    (isNext : event.seq = some (history.length + 1)) :
    (history ++ [event]).map ExecProcessEvent.seq =
      (List.range (history ++ [event]).length).map fun i => some (i + 1) := by
  rw [List.map_append, numbered, List.length_append, List.length_singleton, List.range_succ,
    List.map_append]
  simp [isNext]

theorem outputsOf_snoc (history : List ExecProcessEvent) (event : ExecProcessEvent) :
    outputsOf (history ++ [event]) = outputsOf history ++ event.chunk.toList := by
  rw [outputsOf, outputsOf, List.filterMap_append]
  cases isChunk : event.chunk with
  | none => simp [isChunk]
  | some chunk => simp [isChunk]

variable {process : RunningProcess} {second : Bool}

theorem Recorded.seq_le (recorded : process.Recorded) {event : ExecProcessEvent}
    (member : event ∈ process.history) :
    ∃ seq, event.seq = some seq ∧ 1 ≤ seq ∧ seq < process.nextSeq := by
  have inside : event.seq ∈ process.history.map ExecProcessEvent.seq := List.mem_map_of_mem member
  rw [recorded.numbered] at inside
  obtain ⟨index, isIndex, same⟩ := List.mem_map.mp inside
  rw [List.mem_range] at isIndex
  exact ⟨index + 1, same.symm, by omega, by rw [recorded.next]; omega⟩

theorem Recorded.mem_output (recorded : process.Recorded) {chunk : ProcessOutputChunk}
    (member : chunk ∈ process.output) :
    ExecProcessEvent.output chunk ∈ process.history := by
  obtain ⟨evicted, split, -⟩ := recorded.retained
  have inside : chunk ∈ outputsOf process.history := by
    rw [split]
    exact List.mem_append_right _ member
  obtain ⟨event, isEvent, isChunk⟩ := List.mem_filterMap.mp inside
  cases event with
  | output other =>
    simp only [ExecProcessEvent.chunk, Option.some.injEq] at isChunk
    exact isChunk ▸ isEvent
  | outputGap _ => cases isChunk
  | exited _ _ _ => cases isChunk
  | closed _ _ => cases isChunk
  | failed _ => cases isChunk

/-- A process that has neither closed nor begun to. -/
theorem Recorded.open_of_task (recorded : process.Recorded)
    (task : process.watching = true ∨ ∃ second, process.draining second = true) :
    process.closed = false ∧ process.finalizing = false := by
  by_contra over_
  have ended := recorded.ended (by
    cases isClosed : process.closed with
    | true => exact .inl rfl
    | false =>
      right
      by_contra unfinished
      exact over_ ⟨isClosed, by simpa using unfinished⟩)
  rcases task with watching | ⟨second, draining⟩
  · rw [ended.2.1] at watching
    cases watching
  · rw [ended.2.2 second] at draining
    cases draining

theorem Recorded.not_closed (recorded : process.Recorded) (isOpen : process.closed = false)
    (seq : Nat) (denied : Option Bool) :
    ExecProcessEvent.closed seq denied ∉ process.history := by
  intro member
  have isClosed := (recorded.closeRecorded seq denied member).1
  rw [isOpen] at isClosed
  cases isClosed

theorem Recorded.streamOutput (recorded : process.Recorded)
    (draining : process.draining second = true) (chunk : List UInt8) :
    (process.streamOutput second chunk).Recorded := by
  obtain ⟨isOpen, notFinal⟩ := recorded.open_of_task (.inr ⟨second, draining⟩)
  generalize isNew : (⟨process.nextSeq, process.stream second, chunk⟩ : ProcessOutputChunk) = new
  have newSeq : new.seq = process.nextSeq := by rw [← isNew]
  have bytes : process.retainedBytes + chunk.length = byteCount (process.output ++ [new]) := by
    rw [recorded.bytes, byteCount, byteCount, List.map_append, List.sum_append, ← isNew]
    simp
  obtain ⟨evicted, split, below, grown, same, limited, source⟩ :=
    @evict_spec _ process.lastEvictedSeq _ bytes
  rw [RunningProcess.streamOutput, isNew]
  generalize evict (process.retainedBytes + chunk.length) process.lastEvictedSeq
    (process.output ++ [new]) = kept at split below grown same limited source
  obtain ⟨old, oldSplit, oldBelow⟩ := recorded.retained
  refine ⟨?_, ?_, ⟨old ++ evicted, ?_, ?_⟩, ?_, ?_, same, limited, ?_, ?_, recorded.exitKnown,
    recorded.waiting, ?_, ?_, ?_, recorded.streams, ?_⟩
  · exact numbered_snoc recorded.numbered (by rw [← recorded.next, ← newSeq]; rfl)
  · simp [publish, recorded.next]
  · change outputsOf (process.history ++ [.output new]) = old ++ evicted ++ kept.1
    rw [outputsOf_snoc, oldSplit, List.append_assoc, List.append_assoc, ← split]
    rfl
  · intro other member
    rcases List.mem_append.mp member with isOld | isEvicted
    · exact le_trans (oldBelow other isOld) grown
    · exact below other isEvicted
  · intro throughSeq member
    refine le_trans (recorded.lost throughSeq ?_) grown
    simpa [publish] using member
  · change kept.2.2 < process.nextSeq + 1
    rcases source with isOld | ⟨other, member, isSeq⟩
    · rw [isOld]
      have evicted := recorded.evicted
      omega
    rw [isSeq]
    rcases List.mem_append.mp member with retained | isLast
    · obtain ⟨seq, isSeq', -, less⟩ := recorded.seq_le (recorded.mem_output retained)
      simp only [ExecProcessEvent.seq_output, Option.some.injEq] at isSeq'
      omega
    · rw [List.mem_singleton] at isLast
      rw [isLast, newSeq]
      omega
  · intro seq exitCode denied member
    exact recorded.exitRecorded seq exitCode denied (by simpa [publish] using member)
  · intro seq isExit
    obtain ⟨exitCode, denied, member⟩ := recorded.exitHappened seq isExit
    exact ⟨exitCode, denied, List.mem_append_left _ member⟩
  · intro seq denied member
    have older : ExecProcessEvent.closed seq denied ∈ process.history := by
      simpa [publish] using member
    exact absurd older (recorded.not_closed isOpen seq denied)
  · intro isClosed
    change process.closed = true at isClosed
    rw [isOpen] at isClosed
    cases isClosed
  · intro ending
    exact recorded.ended ending
  · intro message member
    exact recorded.unfailed message (by simpa [publish] using member)

/-- A capture loss takes the next sequence, and is the last evicted one from then on. -/
theorem Recorded.markLoss (recorded : process.Recorded) (isOpen : process.closed = false) :
    process.markLoss.Recorded := by
  obtain ⟨old, oldSplit, oldBelow⟩ := recorded.retained
  have below := recorded.evicted
  refine ⟨?_, ?_, ⟨old, ?_, ?_⟩, ?_, Nat.lt_succ_self _, recorded.bytes, recorded.limited, ?_, ?_,
    recorded.exitKnown, recorded.waiting, ?_, ?_, recorded.ended, recorded.streams, ?_⟩
  · exact numbered_snoc recorded.numbered (by rw [← recorded.next]; rfl)
  · simp [RunningProcess.markLoss, publish, recorded.next]
  · change outputsOf (process.history ++ [.outputGap process.nextSeq]) = old ++ process.output
    rw [outputsOf_snoc, oldSplit]
    exact List.append_nil _
  · intro chunk member
    exact le_trans (oldBelow chunk member) (le_of_lt below)
  · intro throughSeq member
    rcases List.mem_append.mp member with older | new
    · exact le_trans (recorded.lost throughSeq older) (le_of_lt below)
    · simp only [List.mem_singleton, ExecProcessEvent.outputGap.injEq] at new
      exact le_of_eq new
  · intro seq exitCode denied member
    exact recorded.exitRecorded seq exitCode denied (by simpa [RunningProcess.markLoss, publish] using member)
  · intro seq isExit
    obtain ⟨exitCode, denied, member⟩ := recorded.exitHappened seq isExit
    exact ⟨exitCode, denied, List.mem_append_left _ member⟩
  · intro seq denied member
    exact absurd (by simpa [RunningProcess.markLoss, publish] using member) (recorded.not_closed isOpen seq denied)
  · intro isClosed
    change process.closed = true at isClosed
    rw [isOpen] at isClosed
    cases isClosed
  · intro message member
    exact recorded.unfailed message (by simpa [RunningProcess.markLoss, publish] using member)

/-- A receiver ended. -/
theorem Recorded.endStream (recorded : process.Recorded)
    (draining : process.draining second = true) :
    (process.endStream second).Recorded where
  numbered := recorded.numbered
  next := recorded.next
  retained := recorded.retained
  lost := recorded.lost
  evicted := recorded.evicted
  bytes := recorded.bytes
  limited := recorded.limited
  exitRecorded := recorded.exitRecorded
  exitHappened := recorded.exitHappened
  exitKnown := recorded.exitKnown
  waiting := recorded.waiting
  closeRecorded := recorded.closeRecorded
  closeHappened := recorded.closeHappened
  ended := by
    intro ending
    have facts := recorded.ended ending
    rw [facts.2.2 second] at draining
    cases draining
  streams := by
    have count := recorded.streams
    cases second with
    | false | true => simp [RunningProcess.endStream, count, draining]
  unfailed := recorded.unfailed

theorem Recorded.finishOutputStream (recorded : process.Recorded)
    (draining : process.draining second = true) (captured : Bool) :
    (process.finishOutputStream second captured).Recorded := by
  obtain ⟨isOpen, -⟩ := recorded.open_of_task (.inr ⟨second, draining⟩)
  unfold RunningProcess.finishOutputStream
  dsimp only
  generalize (if process.tty then process.openStreams > 1 || captured else captured) = complete
  cases complete with
  | true => exact recorded.endStream draining
  | false => exact (recorded.markLoss isOpen).endStream draining

theorem Recorded.watchExit (recorded : process.Recorded) (watching : process.watching = true)
    (exitCode : Option Int) :
    (process.watchExit exitCode).Recorded := by
  obtain ⟨isOpen, notFinal⟩ := recorded.open_of_task (.inl watching)
  have running : ∀ seq code denied, ExecProcessEvent.exited seq code denied ∉ process.history := by
    intro seq code denied member
    have isExit := (recorded.exitRecorded seq code denied member).1
    rw [recorded.waiting watching] at isExit
    cases isExit
  cases exitCode with
  | none =>
    refine ⟨recorded.numbered, recorded.next, recorded.retained, recorded.lost, recorded.evicted,
      recorded.bytes, recorded.limited, recorded.exitRecorded, recorded.exitHappened,
      recorded.exitKnown, ?_, recorded.closeRecorded, recorded.closeHappened, ?_,
      recorded.streams, recorded.unfailed⟩
    · intro still
      cases still
    · intro ending
      have facts := recorded.ended ending
      exact ⟨facts.1, rfl, facts.2.2⟩
  | some code =>
    obtain ⟨old, oldSplit, oldBelow⟩ := recorded.retained
    have below := recorded.evicted
    refine ⟨?_, ?_, ⟨old, ?_, oldBelow⟩, ?_, ?_, recorded.bytes, recorded.limited, ?_, ?_, rfl, ?_,
      ?_, ?_, ?_, recorded.streams, ?_⟩
    · exact numbered_snoc recorded.numbered (by rw [← recorded.next]; rfl)
    · simp [RunningProcess.watchExit, publish, recorded.next]
    · change outputsOf (process.history ++ [.exited process.nextSeq code _]) = _
      rw [outputsOf_snoc, oldSplit]
      exact List.append_nil _
    · intro throughSeq member
      exact recorded.lost throughSeq (by simpa [RunningProcess.watchExit, publish] using member)
    · exact Nat.lt_succ_of_lt below
    · intro seq other denied member
      rcases List.mem_append.mp member with older | new
      · exact absurd older (running seq other denied)
      · simp only [List.mem_singleton, ExecProcessEvent.exited.injEq] at new
        exact ⟨congrArg some new.1.symm, congrArg some new.2.1.symm⟩
    · intro seq isExit
      change some process.nextSeq = some seq at isExit
      simp only [Option.some.injEq] at isExit
      refine ⟨code, if process.sandboxed then none else some false, ?_⟩
      rw [← isExit]
      exact List.mem_append_right _ List.mem_cons_self
    · intro still
      cases still
    · intro seq denied member
      exact absurd (by simpa [RunningProcess.watchExit, publish] using member)
        (recorded.not_closed isOpen seq denied)
    · intro isClosed
      change process.closed = true at isClosed
      rw [isOpen] at isClosed
      cases isClosed
    · intro ending
      change process.closed = true ∨ process.finalizing = true at ending
      rw [isOpen, notFinal] at ending
      simp at ending
    · intro message member
      exact recorded.unfailed message
        (by simpa [RunningProcess.watchExit, publish] using member)

theorem Recorded.beginClose (recorded : process.Recorded)
    (unconfirmed : Bool) : (process.beginClose unconfirmed).Recorded := by
  unfold RunningProcess.beginClose
  split
  · exact recorded
  next ready =>
  simp only [Bool.or_eq_true, not_or, decide_eq_true_eq, ne_eq, not_not, Bool.not_eq_true,
    Option.isNone_eq_false_iff] at ready
  obtain ⟨⟨⟨⟨-, -⟩, noStreams⟩, -⟩, exitKnown⟩ := ready
  refine ⟨recorded.numbered, recorded.next, recorded.retained, recorded.lost, recorded.evicted,
    recorded.bytes, recorded.limited, recorded.exitRecorded, recorded.exitHappened,
    recorded.exitKnown, recorded.waiting, recorded.closeRecorded, recorded.closeHappened, ?_,
    recorded.streams, recorded.unfailed⟩
  intro _
  have exited : process.exitSeq.isSome = true := by rw [← recorded.exitKnown, exitKnown]
  refine ⟨exited, ?_, ?_⟩
  · by_contra watching
    rw [Bool.not_eq_false] at watching
    rw [recorded.waiting watching] at exited
    cases exited
  have count := recorded.streams
  rw [noStreams] at count
  intro second
  cases first : process.draining false with
  | true =>
    rw [first] at count
    simp only [Bool.toNat_true] at count
    omega
  | false =>
    cases other : process.draining true with
    | true =>
      rw [other] at count
      simp only [Bool.toNat_true] at count
      omega
    | false =>
      cases second with
      | false => exact first
      | true => exact other

theorem Recorded.finishClose (recorded : process.Recorded) (finalizing : process.finalizing = true)
    (denied : Bool) :
    (process.finishClose denied).Recorded := by
  unfold RunningProcess.finishClose
  by_cases isClosed : process.closed = true
  · rw [if_pos isClosed]
    exact recorded
  rw [if_neg isClosed]
  have isOpen : process.closed = false := by simpa using isClosed
  obtain ⟨old, oldSplit, oldBelow⟩ := recorded.retained
  have below := recorded.evicted
  refine ⟨?_, ?_, ⟨old, ?_, oldBelow⟩, ?_, ?_, recorded.bytes, recorded.limited, ?_, ?_,
    recorded.exitKnown, recorded.waiting, ?_, ?_, fun _ => recorded.ended (.inr finalizing),
    recorded.streams, ?_⟩
  · exact numbered_snoc recorded.numbered (by rw [← recorded.next]; rfl)
  · simp [publish, recorded.next]
  · change outputsOf (process.history ++ [.closed process.nextSeq _]) = _
    rw [outputsOf_snoc, oldSplit]
    exact List.append_nil _
  · intro throughSeq member
    exact recorded.lost throughSeq (by simpa [publish] using member)
  · exact Nat.lt_succ_of_lt below
  · intro seq other assessed member
    exact recorded.exitRecorded seq other assessed (by simpa [publish] using member)
  · intro seq isExit
    obtain ⟨exitCode, assessed, member⟩ := recorded.exitHappened seq isExit
    exact ⟨exitCode, assessed, List.mem_append_left _ member⟩
  · intro seq assessed member
    rcases List.mem_append.mp member with older | new
    · exact absurd older (recorded.not_closed isOpen seq assessed)
    · simp only [List.mem_singleton, ExecProcessEvent.closed.injEq] at new
      exact ⟨rfl, congrArg (· + 1) new.1⟩
  · intro _
    exact ⟨process.assessment denied, List.mem_append_right _ List.mem_cons_self⟩
  · intro message member
    exact recorded.unfailed message (by simpa [publish] using member)

theorem Recorded.step (recorded : process.Recorded)
    (step : ProcessStep) : (process.step step).Recorded := by
  cases step with
  | output second chunk =>
    rw [RunningProcess.step]
    split
    · next draining => exact recorded.streamOutput draining chunk
    · exact recorded
  | finish second captured =>
    rw [RunningProcess.step]
    split
    · next draining => exact recorded.finishOutputStream draining captured
    · exact recorded
  | exit exitCode =>
    rw [RunningProcess.step]
    split
    · next watching => exact recorded.watchExit watching exitCode
    · exact recorded
  | beginClose unconfirmed => exact recorded.beginClose unconfirmed
  | finishClose denied =>
    rw [RunningProcess.step]
    split
    · next finalizing => exact recorded.finishClose finalizing denied
    · exact recorded

theorem Recorded.run (recorded : process.Recorded)
    (steps : List ProcessStep) : (process.run steps).Recorded := by
  induction steps generalizing process with
  | nil => exact recorded
  | cons step steps ih => exact ih (recorded.step step)

end RunningProcess

end Codex.ExecServer.Process
