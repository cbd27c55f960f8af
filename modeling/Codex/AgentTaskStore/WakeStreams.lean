import Codex.Lib.Machine
import Codex.Lib.Text

/-!
# Wake streams

`agent-task-store/src/local.rs`: observations are appended to one stream per root session, a
stream row keeps the next sequence and the retention edge, and consumers read pages behind a
cursor. Each operation is one SQLite transaction, so it is a function on the tables; a failed
transaction changes nothing. Sequence numbers are `i64` columns of rows that a database file
holds, of which there are fewer than `2 ^ 63`, so they are integers here. Rows keep their decoded
bodies.
-/

namespace Codex.AgentTaskStore

/-- A UUID of the given kind (`id.rs:11`). -/
structure WakeEventId where
  uuid : BitVec 128
  deriving DecidableEq, Repr

structure MutationEventId where
  uuid : BitVec 128
  deriving DecidableEq, Repr

structure AssignmentId where
  uuid : BitVec 128
  deriving DecidableEq, Repr

structure AttemptId where
  uuid : BitVec 128
  deriving DecidableEq, Repr

/-- `ObservationKind` (`model.rs:820`). -/
inductive ObservationKind where
  | accepted
  | starting
  | reading
  | editing
  | reviewing
  | validating
  | blocked
  | toolCall
  | mutation
  | gateChanged
  | receiptSealed
  | partialResult
  | hostCompletion
  | completed
  | needsMain
  | violated
  | abandoned
  deriving DecidableEq, Repr

/-- `RuntimeObservation` (`model.rs:866`). -/
structure RuntimeObservation where
  executionStopCause : Option String
  eventId : MutationEventId
  wakeEventId : WakeEventId
  assignmentId : AssignmentId
  attemptId : AttemptId
  kind : ObservationKind
  summary : String
  callId : Option String
  createdAt : Nat
  deriving DecidableEq, Repr

/-- `WakeEvent` (`model.rs:1369`). -/
structure WakeEvent where
  eventId : WakeEventId
  assignmentId : AssignmentId
  attemptId : AttemptId
  reason : ObservationKind
  summary : String
  createdAt : Nat
  deriving DecidableEq, Repr

inductive WakeReadStatus where
  | unknown
  | noStream
  | empty
  | eventsAvailable
  | timedOut
  | closed
  deriving DecidableEq, Repr

/-- `WakeRead` (`model.rs:1379`). -/
structure WakeRead where
  status : WakeReadStatus
  reason : Option ObservationKind
  updatedAgents : List WakeEvent
  latestEventId : Option WakeEventId
  lostToRetentionCount : Nat
  remainingCount : Nat
  truncatedCount : Nat
  timedOut : Bool
  deriving DecidableEq, Repr

inductive WakeError where
  | invalidAssignment (message : String)
  | invalidWakeWatermark (eventId : WakeEventId)
  | wakeWatermarkRegression (current next : Int)
  | corruptData (message : String)
  | sql (message : String)
  deriving DecidableEq, Repr

/-- `MAX_WAKE_EVENTS_PER_ROOT` (`model.rs:21`). -/
def MAX_WAKE_EVENTS_PER_ROOT : Nat := 256

/-- `MAX_WAKE_EVENTS_PER_READ` (`model.rs:22`). -/
def MAX_WAKE_EVENTS_PER_READ : Nat := 50

/-- A row of `observations`. -/
structure ObservationRow where
  eventId : MutationEventId
  wakeEventId : WakeEventId
  rootSessionId : String
  wakeSequence : Int
  assignmentId : AssignmentId
  attemptId : AttemptId
  kind : ObservationKind
  body : RuntimeObservation
  createdAt : Nat
  deriving DecidableEq, Repr

/-- A row of `wake_streams`. -/
structure WakeStreamRow where
  nextSequence : Int
  retainedFromSequence : Int
  latestEventId : Option WakeEventId
  deriving DecidableEq, Repr

/-- A row of `automatic_wake_cursors`. -/
structure WakeCursorRow where
  eventId : Option WakeEventId
  updatedAt : Nat
  deliveryJson : Option String
  deriving DecidableEq, Repr

/-- The tables behind wake events; the observations in the order they were inserted. -/
structure WakeTables where
  observations : List ObservationRow
  wakeStreams : AList (fun _ : String => WakeStreamRow)
  automaticWakeCursors : AList (fun _ : String × String => WakeCursorRow)

namespace WakeTables

/-- The store before anything is written. -/
def empty : WakeTables := ⟨[], ∅, ∅⟩

/-- The rows of a root session. -/
def rowsOf (tables : WakeTables) (rootSessionId : String) : List ObservationRow :=
  tables.observations.filter fun row => row.rootSessionId = rootSessionId

/-- `WHERE wake_event_id = ?`. -/
def rowOfEvent (tables : WakeTables) (eventId : WakeEventId) : Option ObservationRow :=
  tables.observations.find? fun row => row.wakeEventId = eventId

/-- Ascending by wake sequence. -/
def ascending (first second : ObservationRow) : Bool := first.wakeSequence ≤ second.wakeSequence

/-- Descending by wake sequence. -/
def descending (first second : ObservationRow) : Bool := second.wakeSequence ≤ first.wakeSequence

/-- `append_observation_with_stop_cause_tx` (`local.rs:5662`), with the ids and the time that the
    observation was given. -/
def appendObservation (tables : WakeTables) (rootSessionId : String)
    (observation : RuntimeObservation) : Except WakeError WakeTables :=
  let stream := (tables.wakeStreams.lookup rootSessionId).getD ⟨1, 1, none⟩
  let wakeSequence := stream.nextSequence
  let retainedFrom := max (wakeSequence - MAX_WAKE_EVENTS_PER_ROOT + 1) 1
  let row : ObservationRow :=
    { eventId := observation.eventId
      wakeEventId := observation.wakeEventId
      rootSessionId := rootSessionId
      wakeSequence := wakeSequence
      assignmentId := observation.assignmentId
      attemptId := observation.attemptId
      kind := observation.kind
      body := observation
      createdAt := observation.createdAt }
  if tables.observations.any fun other => other.eventId = row.eventId ||
      other.wakeEventId = row.wakeEventId ||
      (other.rootSessionId = row.rootSessionId && other.wakeSequence = row.wakeSequence) then
    .error (.sql "UNIQUE constraint failed")
  else
    .ok
      { tables with
        observations := tables.observations ++ [row]
        wakeStreams := tables.wakeStreams.insert rootSessionId
          ⟨wakeSequence + 1, retainedFrom, some observation.wakeEventId⟩ }

/-- `MAX(wake_sequence)` over some rows. -/
def maxSequence : List ObservationRow → Option Int
  | [] => none
  | row :: rows => some (rows.foldl (fun top other => max top other.wakeSequence) row.wakeSequence)

/-- The stream row that the observations of a root call for (`local.rs:2975`). -/
def expectedStream (tables : WakeTables) (rootSessionId : String) : Option WakeStreamRow :=
  (maxSequence (tables.rowsOf rootSessionId)).map fun top =>
    { nextSequence := top + 1
      retainedFromSequence := max (top - MAX_WAKE_EVENTS_PER_ROOT + 1) 1
      latestEventId :=
        ((tables.rowsOf rootSessionId).mergeSort descending).head?.map ObservationRow.wakeEventId }

/-- The roots that observations belong to. -/
def roots (tables : WakeTables) : List String :=
  (tables.observations.map ObservationRow.rootSessionId).dedup

/-- `rebuild_wake_streams` (`local.rs:2969`). -/
def rebuildWakeStreams (tables : WakeTables) : WakeTables :=
  { tables with
    wakeStreams := tables.roots.foldl (fun streams root =>
      (tables.expectedStream root).elim streams (streams.insert root)) ∅ }

/-- `wake_streams_are_current` (`local.rs:2935`). -/
def wakeStreamsAreCurrent (tables : WakeTables) : Bool :=
  (tables.roots ++ tables.wakeStreams.keys).all fun root =>
    tables.wakeStreams.lookup root = tables.expectedStream root

/-- `rebuild_wake_streams_if_needed` (`local.rs:2928`). -/
def rebuildWakeStreamsIfNeeded (tables : WakeTables) : WakeTables :=
  if tables.wakeStreamsAreCurrent then tables else tables.rebuildWakeStreams

/-- Whether `trim` leaves nothing. -/
def blank (text : String) : Bool := (Codex.Text.trim text.toList).isEmpty

/-- `wake_event_from_observation_row` (`local.rs:4393`). -/
def wakeEventFromObservationRow (row : ObservationRow) : Except WakeError WakeEvent :=
  if row.body.assignmentId ≠ row.assignmentId || row.body.attemptId ≠ row.attemptId ||
      row.body.wakeEventId ≠ row.wakeEventId then
    .error (.corruptData "authoritative wake observation identity mismatch")
  else
    .ok ⟨row.body.wakeEventId, row.body.assignmentId, row.body.attemptId, row.body.kind,
      row.body.summary, row.body.createdAt⟩

/-- The sequence of an event of a root (`local.rs:2271`, and `wake_event_sequence_tx` at
    `local.rs:2423`). -/
def wakeEventSequence (tables : WakeTables) (rootSessionId : String) (eventId : WakeEventId) :
    Except WakeError Int :=
  match tables.rowOfEvent eventId with
  | none => .error (.invalidWakeWatermark eventId)
  | some row =>
      if row.rootSessionId ≠ rootSessionId then .error (.invalidWakeWatermark eventId)
      else .ok row.wakeSequence

/-- The sequence after which a cursor reads: zero without one. -/
def afterSequence (tables : WakeTables) (rootSessionId : String) :
    Option WakeEventId → Except WakeError Int
  | some eventId => tables.wakeEventSequence rootSessionId eventId
  | none => .ok 0

/-- The page of a read (`local.rs:2291`). -/
def page (tables : WakeTables) (rootSessionId : String) (startSequence : Int) :
    List ObservationRow :=
  (((tables.rowsOf rootSessionId).filter fun row => startSequence ≤ row.wakeSequence).mergeSort
    ascending).take MAX_WAKE_EVENTS_PER_READ

/-- The result of a read: the events of its page, and the counts around them
    (`local.rs:2296-2322`). -/
def wakeRead (afterEventId : Option WakeEventId) (stream : WakeStreamRow) (after : Int)
    (updatedAgents : List WakeEvent) : WakeRead :=
  let retainedFrom := stream.retainedFromSequence
  let latestSequence := stream.nextSequence - 1
  let startSequence := max (after + 1) retainedFrom
  let lostToRetention := (max (retainedFrom - after - 1) 0).toNat
  let available := (max (latestSequence - startSequence + 1) 0).toNat
  let notReturned := available - updatedAgents.length
  { status := if updatedAgents.isEmpty then .empty else .eventsAvailable
    reason := updatedAgents.getLast?.map WakeEvent.reason
    updatedAgents := updatedAgents
    latestEventId := (updatedAgents.getLast?.map WakeEvent.eventId).or afterEventId
    lostToRetentionCount := lostToRetention
    remainingCount := notReturned
    truncatedCount := lostToRetention + notReturned
    timedOut := false }

/-- A read of a stream that exists (`local.rs:2268-2296`). -/
def readStream (tables : WakeTables) (rootSessionId : String) (afterEventId : Option WakeEventId)
    (stream : WakeStreamRow) : Except WakeError WakeRead := do
  let after ← tables.afterSequence rootSessionId afterEventId
  let startSequence := max (after + 1) stream.retainedFromSequence
  let updatedAgents ← (tables.page rootSessionId startSequence).mapM wakeEventFromObservationRow
  return wakeRead afterEventId stream after updatedAgents

/-- `read_wake_events_impl` (`local.rs:2239`). -/
def readWakeEvents (tables : WakeTables) (rootSessionId : String)
    (afterEventId : Option WakeEventId) : Except WakeError WakeRead :=
  if blank rootSessionId then .error (.invalidAssignment "root session id cannot be empty")
  else match tables.wakeStreams.lookup rootSessionId with
    | none => match afterEventId with
        | some eventId => .error (.invalidWakeWatermark eventId)
        | none => .ok ⟨.noStream, none, [], none, 0, 0, 0, false⟩
    | some stream => tables.readStream rootSessionId afterEventId stream

/-- `automatic_wake_cursor_impl` (`local.rs:2326`): a missing cursor starts a page before the end
    of the retained events. -/
def automaticWakeCursor (tables : WakeTables) (rootSessionId consumingAgentPath : String)
    (now : Nat) : Except WakeError (Option WakeEventId × WakeTables) :=
  if blank rootSessionId || blank consumingAgentPath then
    .error (.invalidAssignment "automatic wake cursor keys cannot be empty")
  else match tables.automaticWakeCursors.lookup (rootSessionId, consumingAgentPath) with
    | some row => .ok (row.eventId, tables)
    | none =>
        -- A comparison with the missing stream row's column selects nothing.
        let retained := (tables.wakeStreams.lookup rootSessionId).elim [] fun stream =>
          (tables.rowsOf rootSessionId).filter fun row =>
            stream.retainedFromSequence ≤ row.wakeSequence
        let snapshotBefore :=
          (retained.mergeSort descending)[MAX_WAKE_EVENTS_PER_READ]?.map ObservationRow.wakeEventId
        .ok (snapshotBefore,
          { tables with
            automaticWakeCursors := tables.automaticWakeCursors.insert
              (rootSessionId, consumingAgentPath) ⟨snapshotBefore, now, none⟩ })

/-- `compare_and_swap_automatic_wake_cursor_impl` (`local.rs:2416`). -/
def compareAndSwapAutomaticWakeCursor (tables : WakeTables)
    (rootSessionId consumingAgentPath : String) (expected : Option WakeEventId)
    (next : WakeEventId) (deliveryJson : Option String) (now : Nat) :
    Except WakeError (Bool × WakeTables) :=
  if blank rootSessionId || blank consumingAgentPath then
    .error (.invalidAssignment "automatic wake cursor keys cannot be empty")
  else match tables.automaticWakeCursors.lookup (rootSessionId, consumingAgentPath) with
    | none => .ok (false, tables)
    | some row =>
        if row.eventId ≠ expected then .ok (false, tables)
        else do
          let nextSequence ← tables.wakeEventSequence rootSessionId next
          let swapped : Bool × WakeTables :=
            (true,
              { tables with
                automaticWakeCursors := tables.automaticWakeCursors.insert
                  (rootSessionId, consumingAgentPath) ⟨some next, now, deliveryJson⟩ })
          match row.eventId with
          | none => return swapped
          | some current =>
              let currentSequence ← tables.wakeEventSequence rootSessionId current
              if nextSequence < currentSequence then
                .error (.wakeWatermarkRegression currentSequence nextSequence)
              else return swapped

/-- The rows are numbered consecutively from `base`. -/
def Numbered (base : Int) : List ObservationRow → Prop
  | [] => True
  | row :: rows => row.wakeSequence = base ∧ Numbered (base + 1) rows

variable {base : Int} {rows : List ObservationRow} {row : ObservationRow} {tables : WakeTables}
   {root : String}

theorem Numbered.snoc (numbered : Numbered base rows)
    (next : row.wakeSequence = base + rows.length) :
    Numbered base (rows ++ [row]) := by
  induction rows generalizing base with
  | nil => exact ⟨by simpa using next, trivial⟩
  | cons first rows ih =>
    refine ⟨numbered.1, ih numbered.2 ?_⟩
    rw [next, List.length_cons]
    push_cast
    ring

theorem Numbered.last
    (numbered : Numbered base (rows ++ [row])) : row.wakeSequence = base + rows.length := by
  induction rows generalizing base with
  | nil => simpa using numbered.1
  | cons first rows ih =>
    rw [ih numbered.2, List.length_cons]
    push_cast
    ring

theorem Numbered.drop (numbered : Numbered base rows)
    (count : Nat) : Numbered (base + count) (rows.drop count) := by
  induction count generalizing base rows with
  | zero => simpa using numbered
  | succ count ih =>
    cases rows with
    | nil => exact trivial
    | cons row rows =>
      have rest := ih numbered.2
      rw [List.drop_succ_cons]
      rwa [show base + 1 + (count : Int) = base + ((count + 1 : Nat) : Int) by push_cast; ring]
        at rest

theorem Numbered.take (numbered : Numbered base rows)
    (count : Nat) : Numbered base (rows.take count) := by
  induction count generalizing base rows with
  | zero => exact trivial
  | succ count ih =>
    cases rows with
    | nil => exact trivial
    | cons row rows => exact ⟨numbered.1, ih numbered.2⟩

theorem Numbered.sequences (numbered : Numbered base rows) :
    rows.map ObservationRow.wakeSequence =
      (List.range rows.length).map fun i : Nat => base + (i : Int) := by
  induction rows generalizing base with
  | nil => rfl
  | cons row rows ih =>
    rw [List.map_cons, numbered.1, ih numbered.2, List.length_cons, List.range_succ_eq_map]
    simp only [List.map_cons, List.map_map, Nat.cast_zero, add_zero, List.cons.injEq, true_and]
    refine List.map_congr_left fun i _ => ?_
    simp only [Function.comp_apply]
    push_cast
    ring

theorem Numbered.le (numbered : Numbered base rows) (member : row ∈ rows) :
    base ≤ row.wakeSequence ∧ row.wakeSequence < base + rows.length := by
  have inside : row.wakeSequence ∈ rows.map ObservationRow.wakeSequence :=
    List.mem_map_of_mem member
  rw [numbered.sequences] at inside
  obtain ⟨i, iRange, isSequence⟩ := List.mem_map.mp inside
  have bound := List.mem_range.mp iRange
  omega

theorem Numbered.pairwise (numbered : Numbered base rows) :
    rows.Pairwise fun first second => first.wakeSequence < second.wakeSequence := by
  induction rows generalizing base with
  | nil => exact .nil
  | cons row rows ih =>
    refine .cons ?_ (ih numbered.2)
    intro other member
    have above := (numbered.2.le member).1
    have here := numbered.1
    omega

theorem Numbered.inj (numbered : Numbered base rows) {first second : ObservationRow}
    (firstIn : first ∈ rows) (secondIn : second ∈ rows)
    (same : first.wakeSequence = second.wakeSequence) : first = second := by
  have nodup : (rows.map ObservationRow.wakeSequence).Nodup :=
    List.pairwise_map.mpr (numbered.pairwise.imp ne_of_lt)
  exact List.inj_on_of_nodup_map nodup firstIn secondIn same

/-- A bound on the sequence drops that many rows. -/
theorem Numbered.filter {start : Int} (numbered : Numbered base rows) :
    rows.filter (fun row => start ≤ row.wakeSequence) = rows.drop (start - base).toNat := by
  induction rows generalizing base with
  | nil => simp
  | cons row rows ih =>
    have rest := ih numbered.2
    rw [List.filter_cons, numbered.1]
    by_cases included : start ≤ base
    · rw [if_pos (by simpa using included), rest]
      rw [show (start - (base + 1)).toNat = 0 by omega, show (start - base).toNat = 0 by omega]
      rfl
    · rw [if_neg (by simpa using included), rest]
      rw [show (start - base).toNat = (start - (base + 1)).toNat + 1 by omega, List.drop_succ_cons]

theorem Numbered.mergeSort_ascending
    (numbered : Numbered base rows) : rows.mergeSort ascending = rows := by
  refine List.mergeSort_of_pairwise (numbered.pairwise.imp ?_)
  intro first second less
  simp only [ascending, decide_eq_true_eq]
  omega

theorem Numbered.mergeSort_descending
    (numbered : Numbered base rows) : rows.mergeSort descending = rows.reverse := by
  have sorted : (rows.mergeSort descending).Pairwise (fun first second =>
      descending first second = true) := by
    refine List.pairwise_mergeSort ?_ ?_ rows
    · intro first second third
      simp only [descending, decide_eq_true_eq]
      omega
    · intro first second
      simp only [descending, Bool.or_eq_true, decide_eq_true_eq]
      omega
  have reversed : rows.reverse.Pairwise (fun first second => descending first second = true) := by
    rw [List.pairwise_reverse]
    refine numbered.pairwise.imp ?_
    intro first second less
    simp only [descending, decide_eq_true_eq]
    omega
  refine List.Perm.eq_of_pairwise ?_ sorted reversed
    ((List.mergeSort_perm rows descending).trans (List.reverse_perm rows).symm)
  intro first second firstMember secondMember forth back
  simp only [descending, decide_eq_true_eq] at forth back
  have firstIn : first ∈ rows := List.mem_mergeSort.mp firstMember
  have secondIn : second ∈ rows := List.mem_reverse.mp secondMember
  exact numbered.inj firstIn secondIn (by omega)

/-- The stream row of the rows of a root. -/
def streamOf (rows : List ObservationRow) : Option WakeStreamRow :=
  rows.getLast?.map fun last =>
    { nextSequence := rows.length + 1
      retainedFromSequence := max ((rows.length : Int) - MAX_WAKE_EVENTS_PER_ROOT + 1) 1
      latestEventId := some last.wakeEventId }

theorem Numbered.foldl_max {top : Int} (numbered : Numbered base rows) (below : top + 1 = base) :
    rows.foldl (fun top other => max top other.wakeSequence) top = top + rows.length := by
  induction rows generalizing base top with
  | nil => simp
  | cons row rows ih =>
    rw [List.foldl_cons, numbered.1, max_eq_right (by omega), ih numbered.2 rfl, List.length_cons]
    push_cast
    omega

theorem expectedStream_eq (numbered : Numbered 1 (tables.rowsOf root)) :
    tables.expectedStream root = streamOf (tables.rowsOf root) := by
  rw [expectedStream, numbered.mergeSort_descending, List.head?_reverse, streamOf]
  rcases rows : tables.rowsOf root with _ | ⟨row, rest⟩
  · rfl
  rw [rows] at numbered
  have top : rest.foldl (fun top other => max top other.wakeSequence) row.wakeSequence =
      (row :: rest).length := by
    rw [numbered.2.foldl_max (by rw [numbered.1]), numbered.1, List.length_cons]
    push_cast
    ring
  have some : ∃ last, (row :: rest).getLast? = some last :=
    ⟨_, List.getLast?_eq_some_getLast (by simp)⟩
  obtain ⟨last, isLast⟩ := some
  rw [maxSequence, Option.map_some, top, isLast]
  rfl

/-- Each root's rows are numbered from one, event ids are unique, bodies match their rows, stream
    rows say what the rows say, and cursors point at rows of their root. -/
structure Consistent (tables : WakeTables) : Prop where
  numbered : ∀ root, Numbered 1 (tables.rowsOf root)
  ids : (tables.observations.map ObservationRow.wakeEventId).Nodup
  bodies : ∀ row ∈ tables.observations, row.body.assignmentId = row.assignmentId ∧
    row.body.attemptId = row.attemptId ∧ row.body.wakeEventId = row.wakeEventId
  streams : ∀ root, tables.wakeStreams.lookup root = streamOf (tables.rowsOf root)
  cursors : ∀ root path cursor eventId,
    tables.automaticWakeCursors.lookup (root, path) = some cursor →
    cursor.eventId = some eventId → ∃ row ∈ tables.rowsOf root, row.wakeEventId = eventId

theorem consistent_empty : Consistent empty where
  numbered := fun _ => trivial
  ids := List.nodup_nil
  bodies := by
    intro row member
    cases member
  streams := fun _ => rfl
  cursors := by
    intro root path cursor eventId found
    cases found

theorem mem_rowsOf :
    row ∈ tables.rowsOf root ↔ row ∈ tables.observations ∧ row.rootSessionId = root := by
  simp [rowsOf]

/-- The row of an event that a row has. -/
theorem Consistent.rowOfEvent (consistent : tables.Consistent)
    (member : row ∈ tables.observations) :
    tables.rowOfEvent row.wakeEventId = some row := by
  obtain ⟨found, isFound⟩ : ∃ found, tables.rowOfEvent row.wakeEventId = some found := by
    rw [← Option.isSome_iff_exists, WakeTables.rowOfEvent, List.find?_isSome]
    exact ⟨row, member, by simp⟩
  have same : found.wakeEventId = row.wakeEventId := by simpa using List.find?_some isFound
  rw [isFound, List.inj_on_of_nodup_map consistent.ids (List.mem_of_find?_eq_some isFound) member
    same]

theorem Consistent.wakeEventSequence (consistent : tables.Consistent)
    (member : row ∈ tables.rowsOf root) :
    tables.wakeEventSequence root row.wakeEventId = .ok row.wakeSequence := by
  obtain ⟨inside, isRoot⟩ := mem_rowsOf.mp member
  simp only [WakeTables.wakeEventSequence, consistent.rowOfEvent inside, isRoot, ne_eq,
    not_true_eq_false, if_false]

/-- An event with a sequence in a root has a row there. -/
theorem row_of_wakeEventSequence {eventId : WakeEventId} {sequence : Int}
    (found : tables.wakeEventSequence root eventId = .ok sequence) :
    ∃ row ∈ tables.rowsOf root, row.wakeEventId = eventId ∧ row.wakeSequence = sequence := by
  unfold WakeTables.wakeEventSequence at found
  split at found
  · cases found
  next row isRow =>
  split at found
  · cases found
  · next isRoot =>
    simp only [Except.ok.injEq] at found
    refine ⟨row, mem_rowsOf.mpr ⟨List.mem_of_find?_eq_some isRow, not_not.mp isRoot⟩, ?_, found⟩
    simpa using List.find?_some isRow

/-- Observations are only ever added. -/
def Extends (before after : WakeTables) : Prop :=
  ∃ more, after.observations = before.observations ++ more

theorem Extends.refl (tables : WakeTables) : tables.Extends tables := ⟨[], by simp⟩

theorem Extends.trans {first second third : WakeTables} (one : first.Extends second)
    (two : second.Extends third) : first.Extends third := by
  obtain ⟨more, isSecond⟩ := one
  obtain ⟨rest, isThird⟩ := two
  exact ⟨more ++ rest, by rw [isThird, isSecond, List.append_assoc]⟩

theorem Extends.mem_rowsOf {before after : WakeTables} (grown : before.Extends after)
    (member : row ∈ before.rowsOf root) :
    row ∈ after.rowsOf root := by
  obtain ⟨more, grew⟩ := grown
  rw [rowsOf, grew, List.filter_append]
  exact List.mem_append_left _ member

/-- What an append that succeeds leaves behind. -/
theorem appendObservation_ok {next : WakeTables} {observation : RuntimeObservation}
    (consistent : tables.Consistent)
    (appended : tables.appendObservation root observation = .ok next) :
    ∃ row : ObservationRow, next.observations = tables.observations ++ [row] ∧
      row.rootSessionId = root ∧ row.wakeSequence = (tables.rowsOf root).length + 1 ∧
      row.body = observation ∧ row.wakeEventId = observation.wakeEventId ∧
      row.assignmentId = observation.assignmentId ∧ row.attemptId = observation.attemptId ∧
      row.wakeEventId ∉ tables.observations.map ObservationRow.wakeEventId ∧
      next.wakeStreams.lookup root = streamOf (tables.rowsOf root ++ [row]) ∧
      (∀ other, other ≠ root →
        next.wakeStreams.lookup other = tables.wakeStreams.lookup other) ∧
      next.automaticWakeCursors = tables.automaticWakeCursors := by
  have sequence : ((tables.wakeStreams.lookup root).getD ⟨1, 1, none⟩).nextSequence =
      (tables.rowsOf root).length + 1 := by
    rw [consistent.streams root, streamOf]
    rcases rows : tables.rowsOf root with _ | ⟨row, rest⟩
    · rfl
    · rw [List.getLast?_eq_some_getLast (by simp)]
      rfl
  simp only [appendObservation, sequence] at appended
  split at appended
  · cases appended
  next fresh =>
  simp only [Except.ok.injEq] at appended
  subst appended
  refine ⟨_, rfl, rfl, rfl, rfl, rfl, rfl, rfl, ?_, ?_, ?_, rfl⟩
  · intro member
    obtain ⟨other, inside, same⟩ := List.mem_map.mp member
    refine fresh (List.any_eq_true.mpr ⟨other, inside, ?_⟩)
    simp [same]
  · rw [AList.lookup_insert, streamOf, List.getLast?_concat]
    simp
  · intro other different
    rw [AList.lookup_insert_ne different]

theorem Consistent.appendObservation {next : WakeTables} {observation : RuntimeObservation}
    (consistent : tables.Consistent)
    (appended : tables.appendObservation root observation = .ok next) : next.Consistent := by
  obtain ⟨row, grew, isRoot, sequence, isBody, wakeId, assignment, attempt, fresh, stream, others,
    cursors⟩ := appendObservation_ok consistent appended
  have rowsRoot : next.rowsOf root = tables.rowsOf root ++ [row] := by
    simp [rowsOf, grew, isRoot]
  have rowsOther : ∀ other, other ≠ root → next.rowsOf other = tables.rowsOf other := by
    intro other different
    simp [rowsOf, grew, isRoot, Ne.symm different]
  refine ⟨?_, ?_, ?_, ?_, ?_⟩
  · intro other
    by_cases here : other = root
    · subst here
      rw [rowsRoot]
      exact (consistent.numbered other).snoc (by rw [sequence]; ring)
    · rw [rowsOther other here]
      exact consistent.numbered other
  · rw [grew, List.map_append, List.nodup_append]
    refine ⟨consistent.ids, by simp, ?_⟩
    intro first firstIn second secondIn same
    simp only [List.map_cons, List.map_nil, List.mem_singleton] at secondIn
    subst same secondIn
    exact fresh firstIn
  · intro other member
    rw [grew] at member
    rcases List.mem_append.mp member with old | new
    · exact consistent.bodies other old
    · obtain rfl := List.mem_singleton.mp new
      rw [isBody, wakeId, assignment, attempt]
      exact ⟨rfl, rfl, rfl⟩
  · intro other
    by_cases here : other = root
    · subst here
      rw [stream, rowsRoot]
    · rw [others other here, rowsOther other here]
      exact consistent.streams other
  · intro owner path cursor eventId found isEvent
    rw [cursors] at found
    obtain ⟨source, member, isSource⟩ := consistent.cursors owner path cursor eventId found isEvent
    exact ⟨source, Extends.mem_rowsOf ⟨[row], grew⟩ member, isSource⟩

theorem lookup_foldl_insert (expected : String → Option WakeStreamRow) (names : List String)
    (streams : AList (fun _ : String => WakeStreamRow)) (root : String) :
    (names.foldl (fun streams root => (expected root).elim streams (streams.insert root))
      streams).lookup root =
      if root ∈ names then (expected root).or (streams.lookup root) else streams.lookup root := by
  induction names generalizing streams with
  | nil => simp
  | cons name names ih =>
    rw [List.foldl_cons, ih]
    cases entry : expected name with
    | none =>
      by_cases here : root = name
      · subst here
        simp [entry]
      · simp [here]
    | some stream =>
      by_cases here : root = name
      · subst here
        simp [entry]
      · simp [here, AList.lookup_insert_ne here]

theorem mem_roots :
    root ∈ tables.roots ↔ tables.rowsOf root ≠ [] := by
  rw [roots, List.mem_dedup, List.mem_map]
  refine ⟨?_, ?_⟩
  · rintro ⟨row, inside, isRoot⟩
    exact List.ne_nil_of_mem (WakeTables.mem_rowsOf.mpr ⟨inside, isRoot⟩)
  · intro nonempty
    obtain ⟨row, member⟩ := List.exists_mem_of_ne_nil _ nonempty
    exact ⟨row, (WakeTables.mem_rowsOf.mp member).1, (WakeTables.mem_rowsOf.mp member).2⟩

/-- A rebuild computes each stream row from the observations. -/
theorem lookup_rebuildWakeStreams (tables : WakeTables) (root : String) :
    tables.rebuildWakeStreams.wakeStreams.lookup root = tables.expectedStream root := by
  rw [rebuildWakeStreams]
  dsimp only
  rw [lookup_foldl_insert]
  split
  · rw [AList.lookup_empty, Option.or_none]
  · next absent =>
    rw [mem_roots, not_not] at absent
    rw [AList.lookup_empty, expectedStream, absent]
    rfl

theorem Consistent.rebuildWakeStreams (consistent : tables.Consistent) :
    tables.rebuildWakeStreams.Consistent where
  numbered := consistent.numbered
  ids := consistent.ids
  bodies := consistent.bodies
  streams := by
    intro root
    rw [lookup_rebuildWakeStreams, expectedStream_eq (consistent.numbered root)]
    rfl
  cursors := consistent.cursors

/-- Moving a cursor to an event of its root. -/
theorem Consistent.setCursor (consistent : tables.Consistent) {path : String}
    {cursor : WakeCursorRow} (valid : ∀ eventId, cursor.eventId = some eventId →
      ∃ row ∈ tables.rowsOf root, row.wakeEventId = eventId) :
    Consistent { tables with
      automaticWakeCursors := tables.automaticWakeCursors.insert (root, path) cursor } where
  numbered := consistent.numbered
  ids := consistent.ids
  bodies := consistent.bodies
  streams := consistent.streams
  cursors := by
    intro owner otherPath other eventId found isEvent
    dsimp only at found
    rw [Machine.lookup_insert_eq] at found
    split at found
    · next same =>
      simp only [Prod.mk.injEq] at same
      simp only [Option.some.injEq] at found
      subst found
      rw [same.1]
      exact valid eventId isEvent
    · exact consistent.cursors owner otherPath other eventId found isEvent

end WakeTables

end Codex.AgentTaskStore
