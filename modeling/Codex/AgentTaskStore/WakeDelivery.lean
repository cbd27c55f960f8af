import Codex.AgentTaskStore.WakeStreams

/-!
# Delivery of wake events

Runs of the wake operations of `agent-task-store/src/local.rs`, with one consumer that reads a
root's stream behind the cursor of its previous read. Over a run each event up to the consumer's
cursor was returned once or counted as lost once, and automatic cursors only move forward.
-/

namespace Codex.AgentTaskStore

namespace WakeTables

/-- The sequence that a cursor stands for: zero without one. -/
def cursorSequence (tables : WakeTables) : Option WakeEventId → Int
  | none => 0
  | some eventId => ((tables.rowOfEvent eventId).map ObservationRow.wakeSequence).getD 0

/-- A cursor is missing or an event of the root. -/
def ValidCursor (tables : WakeTables) (root : String) (cursor : Option WakeEventId) : Prop :=
  ∀ eventId, cursor = some eventId → ∃ row ∈ tables.rowsOf root, row.wakeEventId = eventId

variable {tables : WakeTables} {root : String}

theorem Consistent.cursorSequence_row (consistent : tables.Consistent) {row : ObservationRow}
    (member : row ∈ tables.rowsOf root) :
    tables.cursorSequence (some row.wakeEventId) = row.wakeSequence := by
  rw [cursorSequence, consistent.rowOfEvent (mem_rowsOf.mp member).1]
  rfl

variable {cursor : Option WakeEventId}

theorem Consistent.afterSequence (consistent : tables.Consistent)
    (valid : tables.ValidCursor root cursor) :
    tables.afterSequence root cursor = .ok (tables.cursorSequence cursor) := by
  cases cursor with
  | none => rfl
  | some eventId =>
    obtain ⟨row, member, rfl⟩ := valid eventId rfl
    rw [WakeTables.afterSequence, consistent.wakeEventSequence member,
      consistent.cursorSequence_row member]

theorem Consistent.cursorSequence_le (consistent : tables.Consistent)
    (valid : tables.ValidCursor root cursor) :
    0 ≤ tables.cursorSequence cursor ∧
      tables.cursorSequence cursor ≤ (tables.rowsOf root).length := by
  cases cursor with
  | none => exact ⟨le_refl _, by rw [cursorSequence]; omega⟩
  | some eventId =>
    obtain ⟨row, member, rfl⟩ := valid eventId rfl
    rw [consistent.cursorSequence_row member]
    have bounds := (consistent.numbered root).le member
    omega

/-- Later appends do not change what an event's sequence is. -/
theorem Extends.cursorSequence {before after : WakeTables} (grown : before.Extends after)
    (consistent : before.Consistent) (later : after.Consistent)
    (valid : before.ValidCursor root cursor) :
    after.cursorSequence cursor = before.cursorSequence cursor := by
  cases cursor with
  | none => rfl
  | some eventId =>
    obtain ⟨row, member, rfl⟩ := valid eventId rfl
    rw [consistent.cursorSequence_row member, later.cursorSequence_row (grown.mem_rowsOf member)]

theorem Extends.validCursor {before after : WakeTables} (grown : before.Extends after)
    (valid : before.ValidCursor root cursor) :
    after.ValidCursor root cursor := by
  intro eventId isEvent
  obtain ⟨row, member, same⟩ := valid eventId isEvent
  exact ⟨row, grown.mem_rowsOf member, same⟩

/-- The event that a row holds. -/
def eventOf (row : ObservationRow) : WakeEvent :=
  ⟨row.body.wakeEventId, row.body.assignmentId, row.body.attemptId, row.body.kind,
    row.body.summary, row.body.createdAt⟩

theorem Consistent.mapM_wakeEvent (consistent : tables.Consistent) {rows : List ObservationRow}
    (inside : ∀ row ∈ rows, row ∈ tables.observations) :
    rows.mapM wakeEventFromObservationRow = .ok (rows.map eventOf) := by
  induction rows with
  | nil => rfl
  | cons row rows ih =>
    obtain ⟨assignment, attempt, wake⟩ := consistent.bodies row (inside row List.mem_cons_self)
    have here : wakeEventFromObservationRow row = .ok (eventOf row) := by
      simp [wakeEventFromObservationRow, eventOf, assignment, attempt, wake]
    rw [List.mapM_cons, here, ih fun other member => inside other (List.mem_cons_of_mem _ member)]
    rfl

/-- What a read of a root behind a cursor says: the returned events follow the cursor and the lost
    ones without a gap, the events left over reach the end of the stream, and the new cursor is
    the last event returned. -/
structure HonestRead (tables : WakeTables) (root : String) (cursor : Option WakeEventId)
    (read : WakeRead) : Prop where
  consecutive : (read.updatedAgents.map fun event => tables.cursorSequence (some event.eventId)) =
    (List.range read.updatedAgents.length).map fun i : Nat =>
      tables.cursorSequence cursor + 1 + read.lostToRetentionCount + i
  complete : tables.cursorSequence cursor + read.lostToRetentionCount +
    read.updatedAgents.length + read.remainingCount = (tables.rowsOf root).length
  events : ∀ event ∈ read.updatedAgents, ∃ row ∈ tables.rowsOf root,
    row.wakeEventId = event.eventId
  valid : tables.ValidCursor root read.latestEventId
  advanced : tables.cursorSequence read.latestEventId =
    tables.cursorSequence cursor + read.lostToRetentionCount + read.updatedAgents.length

/-- A page of numbered rows. -/
theorem Consistent.page (consistent : tables.Consistent) (root : String) (start : Int) :
    tables.page root start =
      ((tables.rowsOf root).drop (start - 1).toNat).take MAX_WAKE_EVENTS_PER_READ := by
  have numbered := (consistent.numbered root).drop (start - 1).toNat
  rw [WakeTables.page, (consistent.numbered root).filter, numbered.mergeSort_ascending]

/-- The events of a page as sequences. -/
theorem Consistent.page_sequences (consistent : tables.Consistent) {rows : List ObservationRow}
    {base : Int} (numbered : Numbered base rows) (inside : ∀ row ∈ rows, row ∈ tables.rowsOf root) :
    ((rows.map eventOf).map fun event => tables.cursorSequence (some event.eventId)) =
      (List.range rows.length).map fun i : Nat => base + (i : Int) := by
  rw [← numbered.sequences, List.map_map]
  refine List.map_congr_left fun row member => ?_
  have body := (consistent.bodies row (mem_rowsOf.mp (inside row member)).1).2.2
  simp only [Function.comp_apply, eventOf, body]
  exact consistent.cursorSequence_row (inside row member)

/-- The counts around a page are those of the rows. -/
theorem Consistent.honest_wakeRead (consistent : tables.Consistent)
    (valid : tables.ValidCursor root cursor) {retained : Int} {latest : Option WakeEventId}
    (inside : retained ≤ (tables.rowsOf root).length) (positive : 1 ≤ retained) :
    tables.HonestRead root cursor
      (wakeRead cursor ⟨(tables.rowsOf root).length + 1, retained, latest⟩
        (tables.cursorSequence cursor)
        ((tables.page root (max (tables.cursorSequence cursor + 1) retained)).map eventOf)) := by
  obtain ⟨lower, upper⟩ := consistent.cursorSequence_le valid
  generalize isAfter : tables.cursorSequence cursor = after at lower upper
  obtain ⟨skip, isSkip⟩ : ∃ skip : Nat, (skip : Int) = max (after + 1) retained - 1 :=
    ⟨(max (after + 1) retained - 1).toNat, by omega⟩
  obtain ⟨lost, isLost⟩ : ∃ lost : Nat, (lost : Int) = max (retained - after - 1) 0 :=
    ⟨(max (retained - after - 1) 0).toNat, by omega⟩
  have split : (skip : Int) = after + lost := by omega
  have pageRows : tables.page root (max (after + 1) retained) =
      ((tables.rowsOf root).drop skip).take MAX_WAKE_EVENTS_PER_READ := by
    rw [consistent.page, ← isSkip, Int.toNat_natCast]
  have numbered := ((consistent.numbered root).drop skip).take MAX_WAKE_EVENTS_PER_READ
  have lengths : (((tables.rowsOf root).drop skip).take MAX_WAKE_EVENTS_PER_READ).length =
      min MAX_WAKE_EVENTS_PER_READ ((tables.rowsOf root).length - skip) := by
    rw [List.length_take, List.length_drop]
  have members : ∀ row ∈ ((tables.rowsOf root).drop skip).take MAX_WAKE_EVENTS_PER_READ,
      row ∈ tables.rowsOf root := by
    intro row member
    exact List.mem_of_mem_drop (List.mem_of_mem_take member)
  rw [pageRows]
  generalize isPage : ((tables.rowsOf root).drop skip).take MAX_WAKE_EVENTS_PER_READ = rows
    at numbered lengths members
  generalize count : (tables.rowsOf root).length = n at inside upper lengths
  have lostEq : (wakeRead cursor ⟨n + 1, retained, latest⟩ after
      (rows.map eventOf)).lostToRetentionCount = lost := by
    simp only [wakeRead]
    omega
  have remainingEq : ((wakeRead cursor ⟨n + 1, retained, latest⟩ after
      (rows.map eventOf)).remainingCount : Int) = n - skip - rows.length := by
    simp only [wakeRead, List.length_map]
    omega
  have cursorAt : tables.ValidCursor root (wakeRead cursor ⟨n + 1, retained, latest⟩ after
        (rows.map eventOf)).latestEventId ∧
      tables.cursorSequence (wakeRead cursor ⟨n + 1, retained, latest⟩ after
        (rows.map eventOf)).latestEventId = after + lost + rows.length := by
    rcases List.eq_nil_or_concat rows with rfl | ⟨init, row, rfl⟩
    · refine ⟨valid, ?_⟩
      change tables.cursorSequence cursor = _
      rw [MAX_WAKE_EVENTS_PER_READ, List.length_nil] at lengths
      rw [isAfter, List.length_nil]
      omega
    rw [List.concat_eq_append] at numbered members ⊢
    have inRows := members row (by simp)
    have body := (consistent.bodies row (mem_rowsOf.mp inRows).1).2.2
    have latestEq : (wakeRead cursor ⟨n + 1, retained, latest⟩ after
        ((init ++ [row]).map eventOf)).latestEventId = some row.wakeEventId := by
      simp [wakeRead, eventOf, body]
    rw [latestEq]
    refine ⟨?_, ?_⟩
    · intro eventId isEvent
      simp only [Option.some.injEq] at isEvent
      exact ⟨row, inRows, isEvent⟩
    · rw [consistent.cursorSequence_row inRows, numbered.last, List.length_append,
        List.length_singleton]
      push_cast
      omega
  refine ⟨?_, ?_, ?_, cursorAt.1, ?_⟩
  · rw [lostEq, isAfter]
    change ((rows.map eventOf).map fun event => tables.cursorSequence (some event.eventId)) = _
    rw [consistent.page_sequences numbered members]
    change _ = (List.range (rows.map eventOf).length).map _
    rw [List.length_map]
    refine List.map_congr_left fun i _ => ?_
    omega
  · rw [lostEq, remainingEq, isAfter, count]
    change after + (lost : Int) + ((rows.map eventOf).length : Int) + _ = _
    rw [List.length_map]
    omega
  · intro event member
    obtain ⟨row, inRows, rfl⟩ := List.mem_map.mp member
    have body := (consistent.bodies row (mem_rowsOf.mp (members row inRows)).1).2.2
    exact ⟨row, members row inRows, body.symm⟩
  · rw [cursorAt.2, lostEq, isAfter]
    change _ = after + (lost : Int) + ((rows.map eventOf).length : Int)
    rw [List.length_map]

/-- A read of a stream with rows. -/
theorem Consistent.readStream (consistent : tables.Consistent)
    (valid : tables.ValidCursor root cursor) {stream : WakeStreamRow}
    (exists_ : streamOf (tables.rowsOf root) = some stream) :
    ∃ read, tables.readStream root cursor stream = .ok read ∧
      tables.HonestRead root cursor read := by
  obtain ⟨last, isLast, rfl⟩ := Option.map_eq_some_iff.mp exists_
  have nonempty : 0 < (tables.rowsOf root).length :=
    List.length_pos_of_mem (List.mem_of_getLast? isLast)
  obtain ⟨lower, upper⟩ := consistent.cursorSequence_le valid
  generalize count : (tables.rowsOf root).length = n at nonempty upper
  generalize isAfter : tables.cursorSequence cursor = after at lower upper
  -- The retention edge lies inside the stream, so losing events means that some follow.
  have edge : max ((n : Int) - MAX_WAKE_EVENTS_PER_ROOT + 1) 1 ≤ n ∧
      1 ≤ max ((n : Int) - MAX_WAKE_EVENTS_PER_ROOT + 1) 1 := by
    rw [MAX_WAKE_EVENTS_PER_ROOT]
    omega
  generalize isRetained : max ((n : Int) - MAX_WAKE_EVENTS_PER_ROOT + 1) 1 = retained at edge
  have bodies : (tables.page root (max (after + 1) retained)).mapM wakeEventFromObservationRow =
      .ok ((tables.page root (max (after + 1) retained)).map eventOf) := by
    refine consistent.mapM_wakeEvent fun row member => ?_
    rw [consistent.page] at member
    exact (mem_rowsOf.mp (List.mem_of_mem_drop (List.mem_of_mem_take member))).1
  have result : tables.readStream root cursor ⟨n + 1, retained, some last.wakeEventId⟩ =
      .ok (wakeRead cursor ⟨n + 1, retained, some last.wakeEventId⟩ after
        ((tables.page root (max (after + 1) retained)).map eventOf)) := by
    simp only [WakeTables.readStream, consistent.afterSequence valid, isAfter, bodies, bind,
      Except.bind, pure, Except.pure]
  subst isAfter count
  exact ⟨_, result, consistent.honest_wakeRead valid edge.1 edge.2⟩

theorem Consistent.readWakeEvents (consistent : tables.Consistent) (named : blank root = false)
    (valid : tables.ValidCursor root cursor) :
    ∃ read, tables.readWakeEvents root cursor = .ok read ∧ tables.HonestRead root cursor read := by
  unfold WakeTables.readWakeEvents
  rw [named, if_neg (by simp), consistent.streams root]
  cases stream : streamOf (tables.rowsOf root) with
  | some stream => exact consistent.readStream valid stream
  | none =>
    have noRows : tables.rowsOf root = [] := by
      rw [streamOf, Option.map_eq_none_iff] at stream
      exact List.getLast?_eq_none_iff.mp stream
    cases cursor with
    | some eventId =>
      obtain ⟨row, member, -⟩ := valid eventId rfl
      rw [noRows] at member
      cases member
    | none =>
      refine ⟨_, rfl, rfl, ?_, ?_, ?_, rfl⟩
      · simp [noRows, cursorSequence]
      · intro event member
        cases member
      · intro eventId isEvent
        cases isEvent

end WakeTables

/-- What can happen to the store, and a read of the observed consumer. -/
inductive WakeOperation where
  | append (rootSessionId : String) (observation : RuntimeObservation)
  | rebuild
  | rebuildIfNeeded
  | automaticCursor (rootSessionId consumingAgentPath : String) (now : Nat)
  | compareAndSwap (rootSessionId consumingAgentPath : String) (expected : Option WakeEventId)
      (next : WakeEventId) (deliveryJson : Option String) (now : Nat)
  | read
  deriving DecidableEq

open WakeTables

/-- The tables that a result leaves: a failed transaction is rolled back. -/
def committed (tables : WakeTables) : Except WakeError WakeTables → WakeTables
  | .ok next => next
  | .error _ => tables

namespace WakeOperation

def onTables (tables : WakeTables) : WakeOperation → WakeTables
  | append rootSessionId observation =>
      committed tables (tables.appendObservation rootSessionId observation)
  | rebuild => tables.rebuildWakeStreams
  | rebuildIfNeeded => tables.rebuildWakeStreamsIfNeeded
  | automaticCursor rootSessionId consumingAgentPath now =>
      committed tables
        ((tables.automaticWakeCursor rootSessionId consumingAgentPath now).map Prod.snd)
  | compareAndSwap rootSessionId consumingAgentPath expected next deliveryJson now =>
      committed tables ((tables.compareAndSwapAutomaticWakeCursor rootSessionId consumingAgentPath
        expected next deliveryJson now).map Prod.snd)
  | read => tables

end WakeOperation

/-- A cursor table in which one entry moved to a valid event, not backwards. -/
def CursorMoved (tables next : WakeTables) : Prop :=
  ∃ root path cursor, next =
      { tables with
        automaticWakeCursors := tables.automaticWakeCursors.insert (root, path) cursor } ∧
    tables.ValidCursor root cursor.eventId ∧
    ∀ old, tables.automaticWakeCursors.lookup (root, path) = some old →
      tables.cursorSequence old.eventId ≤ tables.cursorSequence cursor.eventId

variable {tables next : WakeTables} {root path : String} {now : Nat} {expected : Option WakeEventId}
   {event : WakeEventId} {delivery : Option String}

theorem automaticWakeCursor_ok {eventId : Option WakeEventId}
    (done : tables.automaticWakeCursor root path now = .ok (eventId, next)) :
    next = tables ∨ CursorMoved tables next := by
  unfold automaticWakeCursor at done
  split at done
  · cases done
  split at done
  · simp only [Except.ok.injEq, Prod.mk.injEq] at done
    exact .inl done.2.symm
  next absent =>
  simp only [Except.ok.injEq, Prod.mk.injEq] at done
  refine .inr ⟨root, path, _, done.2.symm, ?_, ?_⟩
  · intro event isEvent
    obtain ⟨row, found, same⟩ := Option.map_eq_some_iff.mp isEvent
    have member := List.mem_mergeSort.mp (List.mem_of_getElem? found)
    cases stream : tables.wakeStreams.lookup root with
    | none =>
      rw [stream] at member
      cases member
    | some stream' =>
      rw [stream] at member
      exact ⟨row, List.mem_of_mem_filter member, same⟩
  · intro old found
    rw [absent] at found
    cases found

/-- A swap that answers `false` changes nothing, and one that answers `true` moves the cursor. -/
theorem compareAndSwap_cases (consistent : tables.Consistent) {swapped : Bool}
    (done : tables.compareAndSwapAutomaticWakeCursor root path expected event delivery now =
      .ok (swapped, next)) :
    (swapped = false ∧ next = tables) ∨
    (swapped = true ∧ blank root = false ∧ blank path = false ∧
      (∃ old, tables.automaticWakeCursors.lookup (root, path) = some old ∧
        old.eventId = expected) ∧
      (∃ row ∈ tables.rowsOf root, row.wakeEventId = event) ∧
      next = { tables with
        automaticWakeCursors := tables.automaticWakeCursors.insert (root, path)
          ⟨some event, now, delivery⟩ } ∧
      tables.cursorSequence expected ≤ tables.cursorSequence (some event)) := by
  unfold compareAndSwapAutomaticWakeCursor at done
  split at done
  · cases done
  next named =>
  simp only [Bool.or_eq_true, not_or, Bool.not_eq_true] at named
  split at done
  · cases done
    exact .inl ⟨rfl, rfl⟩
  next old found =>
  split at done
  · cases done
    exact .inl ⟨rfl, rfl⟩
  next isExpected =>
  rw [not_not] at isExpected
  cases sequence : tables.wakeEventSequence root event with
  | error error =>
    rw [sequence] at done
    cases done
  | ok nextSequence =>
    obtain ⟨row, member, isEvent, isSequence⟩ := row_of_wakeEventSequence sequence
    have eventSequence : tables.cursorSequence (some event) = nextSequence := by
      rw [← isEvent, consistent.cursorSequence_row member, isSequence]
    rw [sequence] at done
    cases current : old.eventId with
    | none =>
      simp only [current, bind, Except.bind, pure, Except.pure, Except.ok.injEq,
        Prod.mk.injEq] at done
      refine .inr ⟨done.1.symm, named.1, named.2, ⟨old, found, isExpected⟩, ⟨row, member, isEvent⟩,
        done.2.symm, ?_⟩
      have bounds := (consistent.numbered root).le member
      rw [← isExpected, current, eventSequence, cursorSequence]
      omega
    | some stored =>
      simp only [current, bind, Except.bind, pure, Except.pure] at done
      cases storedSequence : tables.wakeEventSequence root stored with
      | error error =>
        rw [storedSequence] at done
        cases done
      | ok currentSequence =>
        rw [storedSequence] at done
        dsimp only at done
        split at done
        · cases done
        next notBackwards =>
        simp only [Except.ok.injEq, Prod.mk.injEq] at done
        refine .inr ⟨done.1.symm, named.1, named.2, ⟨old, found, isExpected⟩,
          ⟨row, member, isEvent⟩, done.2.symm, ?_⟩
        obtain ⟨source, inside, isStored, isCurrent⟩ :=
          row_of_wakeEventSequence storedSequence
        rw [← isExpected, current, eventSequence, ← isStored,
          consistent.cursorSequence_row inside, isCurrent]
        omega

/-- Cursors that exist stay, and do not move to an earlier event. -/
def CursorsKept (before after : WakeTables) : Prop :=
  ∀ key old, before.automaticWakeCursors.lookup key = some old →
    ∃ new, after.automaticWakeCursors.lookup key = some new ∧
      before.cursorSequence old.eventId ≤ after.cursorSequence new.eventId

/-- What a step of the store, or a run of steps, does to consistent tables. -/
structure Progress (before after : WakeTables) : Prop where
  consistent : after.Consistent
  grown : before.Extends after
  cursors : CursorsKept before after

theorem Progress.refl (consistent : tables.Consistent) :
    Progress tables tables :=
  ⟨consistent, Extends.refl tables, fun _ old found => ⟨old, found, le_refl _⟩⟩

theorem Progress.trans {first second third : WakeTables} (one : Progress first second)
    (two : Progress second third) : Progress first third := by
  refine ⟨two.consistent, one.grown.trans two.grown, ?_⟩
  intro key old found
  obtain ⟨middle, isMiddle, below⟩ := one.cursors key old found
  obtain ⟨new, isNew, above⟩ := two.cursors key middle isMiddle
  exact ⟨new, isNew, le_trans below above⟩

/-- A step that leaves the cursor table alone. -/
theorem Progress.of_sameCursors {before after : WakeTables} (consistent : before.Consistent)
    (later : after.Consistent) (grown : before.Extends after)
    (same : after.automaticWakeCursors = before.automaticWakeCursors) : Progress before after := by
  refine ⟨later, grown, ?_⟩
  rintro ⟨root, path⟩ old found
  have valid : before.ValidCursor root old.eventId := by
    intro eventId isEvent
    exact consistent.cursors root path old eventId found isEvent
  refine ⟨old, by rw [same, found], le_of_eq ?_⟩
  exact (grown.cursorSequence consistent later valid).symm

theorem CursorMoved.progress (moved : CursorMoved tables next)
    (consistent : tables.Consistent) : Progress tables next := by
  obtain ⟨root, path, cursor, rfl, valid, forward⟩ := moved
  refine ⟨consistent.setCursor valid, Extends.refl tables, ?_⟩
  intro key old found
  dsimp only
  by_cases here : key = (root, path)
  · subst here
    exact ⟨cursor, AList.lookup_insert _, forward old found⟩
  · exact ⟨old, by rw [AList.lookup_insert_ne here, found], le_refl _⟩

theorem compareAndSwap_progress (consistent : tables.Consistent) {swapped : Bool}
    (done : tables.compareAndSwapAutomaticWakeCursor root path expected event delivery now =
      .ok (swapped, next)) : Progress tables next := by
  rcases compareAndSwap_cases consistent done with ⟨-, rfl⟩ |
    ⟨-, -, -, ⟨old, found, isExpected⟩, isRow, isNext, forward⟩
  · exact Progress.refl consistent
  · refine CursorMoved.progress ⟨root, path, _, isNext, ?_, ?_⟩ consistent
    · intro eventId isEvent
      obtain ⟨row, member, same⟩ := isRow
      simp only [Option.some.injEq] at isEvent
      exact ⟨row, member, by rw [same, isEvent]⟩
    · intro other isOther
      rw [found, Option.some.injEq] at isOther
      rw [← isOther, isExpected]
      exact forward

theorem committed_map_progress {α : Type} {result : Except WakeError (α × WakeTables)}
    (consistent : tables.Consistent)
    (ok : ∀ answer next, result = .ok (answer, next) → Progress tables next) :
    Progress tables (committed tables (result.map Prod.snd)) := by
  cases result with
  | error error => exact Progress.refl consistent
  | ok pair => exact ok pair.1 pair.2 rfl

theorem WakeOperation.onTables_progress (consistent : tables.Consistent)
    (operation : WakeOperation) : Progress tables (operation.onTables tables) := by
  cases operation with
  | append rootSessionId observation =>
    rw [onTables]
    cases appended : tables.appendObservation rootSessionId observation with
    | error error => exact Progress.refl consistent
    | ok next =>
      obtain ⟨row, grew, facts⟩ := appendObservation_ok consistent appended
      exact Progress.of_sameCursors consistent (consistent.appendObservation appended)
        ⟨[row], grew⟩ facts.2.2.2.2.2.2.2.2.2
  | rebuild =>
    exact Progress.of_sameCursors consistent consistent.rebuildWakeStreams (Extends.refl tables)
      rfl
  | rebuildIfNeeded =>
    rw [onTables, rebuildWakeStreamsIfNeeded]
    by_cases current : tables.wakeStreamsAreCurrent = true
    · rw [if_pos current]
      exact Progress.refl consistent
    · rw [if_neg current]
      exact Progress.of_sameCursors consistent consistent.rebuildWakeStreams
        (Extends.refl tables) rfl
  | automaticCursor rootSessionId consumingAgentPath now =>
    refine committed_map_progress consistent fun answer next done => ?_
    rcases automaticWakeCursor_ok done with rfl | moved
    · exact Progress.refl consistent
    · exact moved.progress consistent
  | compareAndSwap rootSessionId consumingAgentPath expected event deliveryJson now =>
    exact committed_map_progress consistent fun answer next done =>
      compareAndSwap_progress consistent done
  | read => exact Progress.refl consistent

/-- The store after some operations. -/
def storeRun (tables : WakeTables) (operations : List WakeOperation) : WakeTables :=
  operations.foldl WakeOperation.onTables tables

theorem storeRun_progress (consistent : tables.Consistent)
    (operations : List WakeOperation) : Progress tables (storeRun tables operations) := by
  induction operations generalizing tables with
  | nil => exact Progress.refl consistent
  | cons operation operations ih =>
    have step := operation.onTables_progress consistent
    exact step.trans (ih step.consistent)

theorem consistent_storeRun (operations : List WakeOperation) :
    (storeRun WakeTables.empty operations).Consistent :=
  (storeRun_progress consistent_empty operations).consistent

/-- A swap that answers `true` and leaves the cursor at a later event than before. -/
def Advances (tables next : WakeTables) (root path : String) (expected : Option WakeEventId)
    (event : WakeEventId) : Prop :=
  ∃ delivery now, tables.compareAndSwapAutomaticWakeCursor root path expected event delivery now =
      .ok (true, next) ∧
    tables.cursorSequence expected < tables.cursorSequence (some event)

/-- After a swap advanced a cursor, no later swap finds the value that it expected. -/
theorem Advances.refuses {later : WakeTables} (consistent : tables.Consistent)
    (advanced : Advances tables next root path expected event) (progress : Progress next later)
    (other : WakeEventId) (delivery : Option String) (now : Nat) :
    later.compareAndSwapAutomaticWakeCursor root path expected other delivery now =
      .ok (false, later) := by
  obtain ⟨_, _, done, forward⟩ := advanced
  have step := compareAndSwap_progress consistent done
  obtain ⟨no, -⟩ | ⟨-, namedRoot, namedPath, ⟨old, found, isExpected⟩, -, isNext, -⟩ :=
    compareAndSwap_cases consistent done
  · cases no
  have sequences : next.cursorSequence (some event) = tables.cursorSequence (some event) := by
    rw [isNext]
    rfl
  obtain ⟨row, isRow, above⟩ := progress.cursors (root, path) _
    (by rw [isNext]; exact AList.lookup_insert _)
  dsimp only at above
  have validBefore : tables.ValidCursor root expected := by
    intro eventId isEvent
    exact consistent.cursors root path old eventId found (by rw [isExpected, isEvent])
  have kept : later.cursorSequence expected = tables.cursorSequence expected :=
    (step.trans progress).grown.cursorSequence consistent progress.consistent validBefore
  have differs : row.eventId ≠ expected := by
    intro same
    rw [same, kept] at above
    omega
  unfold compareAndSwapAutomaticWakeCursor
  rw [namedRoot, namedPath, if_neg (by simp), isRow]
  dsimp only
  rw [if_pos differs]

/-- A read that a consumer made: the tables it read, the cursor it passed and what it got. -/
structure Delivery where
  tables : WakeTables
  cursor : Option WakeEventId
  read : WakeRead

namespace Delivery

/-- The sequences that a read counts as lost. -/
def lost (delivery : Delivery) : List Int :=
  (List.range delivery.read.lostToRetentionCount).map fun i : Nat =>
    delivery.tables.cursorSequence delivery.cursor + 1 + (i : Int)

/-- The sequences of the events that a read returned. -/
def returned (delivery : Delivery) : List Int :=
  delivery.read.updatedAgents.map fun event => delivery.tables.cursorSequence (some event.eventId)

end Delivery

/-- A consumer of one root that starts without a cursor and passes the `latest_event_id` of its
    previous read. -/
structure Consumer where
  tables : WakeTables
  cursor : Option WakeEventId
  reads : List Delivery

namespace Consumer

def start : Consumer := ⟨WakeTables.empty, none, []⟩

/-- What the consumer keeps of the answer to a read. -/
def received (consumer : Consumer) : Except WakeError WakeRead → Consumer
  | .ok read => ⟨consumer.tables, read.latestEventId,
      consumer.reads ++ [⟨consumer.tables, consumer.cursor, read⟩]⟩
  | .error _ => consumer

def step (root : String) (consumer : Consumer) (operation : WakeOperation) : Consumer :=
  if operation = .read then
    consumer.received (consumer.tables.readWakeEvents root consumer.cursor)
  else { consumer with tables := operation.onTables consumer.tables }

def run (root : String) (operations : List WakeOperation) : Consumer :=
  operations.foldl (step root) start

end Consumer

/-- What a consumer's past reads add up to. -/
structure Accounted (root : String) (consumer : Consumer) : Prop where
  consistent : consumer.tables.Consistent
  valid : consumer.tables.ValidCursor root consumer.cursor
  honest : ∀ delivery ∈ consumer.reads, delivery.tables.Consistent ∧
    delivery.tables.Extends consumer.tables ∧
    delivery.tables.HonestRead root delivery.cursor delivery.read
  partition : (consumer.reads.flatMap fun delivery => delivery.lost ++ delivery.returned) =
    (List.range (consumer.tables.cursorSequence consumer.cursor).toNat).map fun i : Nat =>
      1 + (i : Int)

theorem accounted_start (root : String) : Accounted root Consumer.start where
  consistent := consistent_empty
  valid := by
    intro eventId isEvent
    cases isEvent
  honest := by
    intro delivery member
    cases member
  partition := rfl

theorem range_map_append (base : Int) (first second : Nat) :
    ((List.range first).map fun i : Nat => base + (i : Int)) ++
      ((List.range second).map fun i : Nat => base + first + (i : Int)) =
    (List.range (first + second)).map fun i : Nat => base + (i : Int) := by
  rw [List.range_add, List.map_append, List.map_map]
  congr 1
  refine List.map_congr_left fun i _ => ?_
  simp only [Function.comp_apply, Nat.cast_add]
  omega

/-- What a read accounts for is the stretch between its two cursors. -/
theorem accounted_sequences {cursor : Option WakeEventId} {read : WakeRead}
    (honest : tables.HonestRead root cursor read) :
    (⟨tables, cursor, read⟩ : Delivery).lost ++ (⟨tables, cursor, read⟩ : Delivery).returned =
      (List.range (read.lostToRetentionCount + read.updatedAgents.length)).map fun i : Nat =>
        tables.cursorSequence cursor + 1 + (i : Int) := by
  rw [Delivery.lost, Delivery.returned]
  dsimp only
  rw [honest.consecutive, range_map_append]

variable {consumer : Consumer}

theorem Accounted.read (accounted : Accounted root consumer) (result : Except WakeError WakeRead)
    (isResult : consumer.tables.readWakeEvents root consumer.cursor = result) :
    Accounted root (consumer.received result) := by
  cases result with
  | error error => exact accounted
  | ok read =>
    have named : blank root = false := by
      by_contra isBlank
      rw [Bool.not_eq_false] at isBlank
      simp [readWakeEvents, isBlank] at isResult
    obtain ⟨answer, isAnswer, honest⟩ :=
      accounted.consistent.readWakeEvents named accounted.valid
    rw [isResult, Except.ok.injEq] at isAnswer
    subst isAnswer
    obtain ⟨lower, -⟩ := accounted.consistent.cursorSequence_le accounted.valid
    refine ⟨accounted.consistent, honest.valid, ?_, ?_⟩
    · intro delivery member
      rcases List.mem_append.mp member with old | new
      · exact accounted.honest delivery old
      · obtain rfl := List.mem_singleton.mp new
        exact ⟨accounted.consistent, Extends.refl _, honest⟩
    simp only [Consumer.received, List.flatMap_append, List.flatMap_singleton]
    rw [accounted.partition, accounted_sequences honest, honest.advanced]
    generalize consumer.tables.cursorSequence consumer.cursor = after at lower
    obtain ⟨count, rfl⟩ := Int.eq_ofNat_of_zero_le lower
    have total : ((count : Int) + read.lostToRetentionCount + read.updatedAgents.length).toNat =
        count + (read.lostToRetentionCount + read.updatedAgents.length) := by omega
    rw [total, ← range_map_append 1 count, Int.toNat_natCast, add_comm (count : Int) 1]

theorem Accounted.step (accounted : Accounted root consumer)
    (operation : WakeOperation) : Accounted root (consumer.step root operation) := by
  rw [Consumer.step]
  by_cases isRead : operation = .read
  · rw [if_pos isRead]
    exact accounted.read _ rfl
  rw [if_neg isRead]
  have progress := operation.onTables_progress accounted.consistent
  have sequence := progress.grown.cursorSequence accounted.consistent progress.consistent
    accounted.valid
  refine ⟨progress.consistent, progress.grown.validCursor accounted.valid, ?_, ?_⟩
  · intro delivery member
    obtain ⟨consistent, grown, honest⟩ := accounted.honest delivery member
    exact ⟨consistent, grown.trans progress.grown, honest⟩
  · dsimp only
    rw [accounted.partition, sequence]

theorem accounted_run (root : String) (operations : List WakeOperation) :
    Accounted root (Consumer.run root operations) := by
  unfold Consumer.run
  generalize isStart : Consumer.start = consumer
  have accounted : Accounted root consumer := isStart ▸ accounted_start root
  clear isStart
  induction operations generalizing consumer with
  | nil => exact accounted
  | cons operation operations ih => exact ih _ (accounted.step operation)

theorem run_tables (root : String) (operations : List WakeOperation) :
    (Consumer.run root operations).tables = storeRun WakeTables.empty operations := by
  have steps : ∀ consumer : Consumer,
      (operations.foldl (Consumer.step root) consumer).tables =
        storeRun consumer.tables operations := by
    induction operations with
    | nil => exact fun _ => rfl
    | cons operation operations ih =>
      intro consumer
      rw [List.foldl_cons, ih, storeRun, storeRun, List.foldl_cons]
      congr 1
      rw [Consumer.step]
      by_cases isRead : operation = .read
      · subst isRead
        rw [if_pos rfl]
        cases consumer.tables.readWakeEvents root consumer.cursor with
        | error error => rfl
        | ok read => rfl
      · rw [if_neg isRead]
  exact steps Consumer.start

/-- The events that a consumer received, in order. -/
def Consumer.receivedEvents (consumer : Consumer) : List WakeEventId :=
  consumer.reads.flatMap fun delivery => delivery.read.updatedAgents.map WakeEvent.eventId

/-- The sequences of the received events, as the current tables have them. -/
theorem Accounted.received_sequences (accounted : Accounted root consumer) :
    (consumer.receivedEvents.map fun eventId => consumer.tables.cursorSequence (some eventId)) =
      consumer.reads.flatMap Delivery.returned := by
  rw [Consumer.receivedEvents, List.map_flatMap]
  refine List.flatMap_congr fun delivery member => ?_
  obtain ⟨consistent, grown, honest⟩ := accounted.honest delivery member
  rw [Delivery.returned, List.map_map]
  refine List.map_congr_left fun event inside => ?_
  have valid : delivery.tables.ValidCursor root (some event.eventId) := by
    intro eventId isEvent
    obtain ⟨row, inRows, same⟩ := honest.events event inside
    exact ⟨row, inRows, by rw [same]; simpa using isEvent⟩
  exact grown.cursorSequence consistent accounted.consistent valid

theorem flatMap_returned_sublist (reads : List Delivery) :
    (reads.flatMap Delivery.returned).Sublist
      (reads.flatMap fun delivery => delivery.lost ++ delivery.returned) := by
  induction reads with
  | nil => exact List.Sublist.refl _
  | cons delivery reads ih =>
    rw [List.flatMap_cons, List.flatMap_cons]
    exact (List.sublist_append_right _ _).append ih

theorem Accounted.returned_increasing (accounted : Accounted root consumer) :
    (consumer.receivedEvents.map fun eventId =>
      consumer.tables.cursorSequence (some eventId)).Pairwise (· < ·) := by
  rw [accounted.received_sequences]
  refine List.Pairwise.sublist (flatMap_returned_sublist consumer.reads) ?_
  rw [accounted.partition, List.pairwise_map]
  refine List.pairwise_lt_range.imp ?_
  intro first second less
  omega

theorem Accounted.receivedEvents_nodup
    (accounted : Accounted root consumer) : consumer.receivedEvents.Nodup :=
  List.Nodup.of_map _ (accounted.returned_increasing.imp fun less => ne_of_lt less)

/-- Stream rows are what a rebuild of the tables computes. -/
theorem WakeTables.Consistent.streams_rebuilt (consistent : tables.Consistent) (root : String) :
    tables.wakeStreams.lookup root = tables.rebuildWakeStreams.wakeStreams.lookup root := by
  rw [lookup_rebuildWakeStreams, expectedStream_eq (consistent.numbered root),
    consistent.streams root]

end Codex.AgentTaskStore
