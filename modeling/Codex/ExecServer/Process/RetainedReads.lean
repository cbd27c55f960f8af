import Codex.ExecServer.Process.Recovery

/-!
# Replaying a retained read

`replay_process_events` of `exec-server/src/client_recovery.rs` interprets an unbounded read with
the recovery of a session that starts after a sequence. What the server retains and what the
interpreter returns agree, and an interpreter that returns at all returns a whole range.
-/

namespace Codex.ExecServer.Process

namespace SessionState

/-- The session of a replay (`client_recovery.rs:78`). -/
def replayStart (afterSeq : Nat) (exitKnown : Bool) : SessionState :=
  { new with
    lastPublishedSeq := afterSeq
    exitPublished := exitKnown
    unlimitedBytes := true }

/-- The trigger waits if it lies past the start (`client_recovery.rs:86`). -/
def insertTrigger (session : SessionState) : Option ExecProcessEvent → Except String SessionState
  | none => .ok session
  | some event =>
      if event.seq.any fun seq => seq > session.lastPublishedSeq then session.insertPending event
      else .ok session

end SessionState

open SessionState

/-- The responses that a replay refuses (`client_recovery.rs:52`). -/
def replayRejected (response : ReadResponse) (trigger : Option ExecProcessEvent) (target : Nat) :
    Bool :=
  (response.closed && !response.exited) || response.exited != response.exitCode.isSome ||
    unordered response.chunks ||
    (response.chunks.any fun chunk => chunk.seq = 0 || chunk.seq > target) ||
    (trigger.bind ExecProcessEvent.seq).any fun seq => seq > target

/-- `ExecProcessEventLog::drain_owned` (`process.rs:164`) of a log that holds so many events. -/
def drainOwned (eventCapacity : Nat) (published : List ExecProcessEvent) : List ExecProcessEvent :=
  published.drop (published.length - eventCapacity)

/-- The end of a replay (`client_recovery.rs:93`). -/
def drainReplay (response : ReadResponse) (session : SessionState) :
    Except String (List ExecProcessEvent) :=
  if session.lastPublishedSeq < response.nextSeq - 1 then
    .error (recoveryGapError (response.nextSeq - 1))
  else .ok (drainOwned (response.chunks.length * 2 + 7) session.published)

/-- `replay_process_events` (`client_recovery.rs:42`). -/
def replayProcessEvents (afterSeq : Nat) (exitKnown : Bool) (response : ReadResponse)
    (trigger : Option ExecProcessEvent) : Except String (List ExecProcessEvent) :=
  if response.nextSeq = 0 then .error (recoveryGapError 0)
  else if replayRejected response trigger (response.nextSeq - 1) then
    .error (recoveryGapError (response.nextSeq - 1))
  else
    match (replayStart afterSeq exitKnown).insertTrigger trigger with
    | .error message => .error message
    | .ok session =>
        match session.recoverEvents response with
        | (.error message, _) => .error message
        | (.ok _, recovered) => drainReplay response recovered

/-! ## Any response -/

/-- The contract of a replay that knows nothing about the process: each event has a sequence up to
    the target. -/
def sequencedContract (afterSeq : Nat) (exitKnown : Bool) (target : Nat) : Contract where
  start := afterSeq
  exitKnown := exitKnown
  limit := max afterSeq target
  Genuine := fun event => ∃ seq, event.seq = some seq ∧ seq ≤ target
  Kept := fun _ => False
  bounded := by
    rintro event seq ⟨own, isOwn, below⟩ isSeq
    rw [isOwn, Option.some.injEq] at isSeq
    omega
  keeps := by
    intro event seq _ _ kept
    cases kept

theorem answers_sequenced (afterSeq : Nat) (exitKnown : Bool) (response : ReadResponse)
    (target : Nat) : Answers (sequencedContract afterSeq exitKnown target) response target where
  output := fun chunk _ inside => ⟨chunk.seq, rfl, inside⟩
  close := fun _ => ⟨target, rfl, le_refl _⟩
  assess := by
    rintro event ⟨seq, isSeq, below⟩
    exact ⟨seq, by rw [seq_assessExit, isSeq], below⟩
  exits := by
    rintro _ event seq ⟨own, isOwn, below⟩ _ isSeq
    rw [isOwn, Option.some.injEq] at isSeq
    omega
  exit := fun _ _ _ _ => .inl fun seq below => ⟨seq, rfl, below⟩

theorem faithful_replayStart (afterSeq : Nat) (exitKnown : Bool) {contract : Contract}
    (start : contract.start = afterSeq) (known : contract.exitKnown = exitKnown)
    (limit : afterSeq ≤ contract.limit) :
    Faithful contract 0 (replayStart afterSeq exitKnown) where
  waiting := by
    intro seq event found
    cases found
  tiles := start
  limited := limit
  pendingGenuine := by
    intro seq event found
    cases found
  publishedGenuine := by
    intro event member
    cases member
  kept := by
    intro seq _ inGap
    cases inGap
  exits := by
    rw [known]
    exact (Bool.or_false _).symm
  closes := rfl
  count := le_refl _

variable {session : SessionState} {afterSeq : Nat}

/-- The facts of a read do not touch the events. -/
theorem SessionState.Faithful.observe {contract : Contract} {budget : Nat}
    (faithful : Faithful contract budget session) (response : ReadResponse) :
    Faithful contract budget (session.observeReadFacts response) :=
  ⟨faithful.waiting, faithful.tiles, faithful.limited, faithful.pendingGenuine,
    faithful.publishedGenuine, faithful.kept, faithful.exits, faithful.closes, faithful.count⟩

/-- The session with its trigger. -/
theorem insertTrigger_spec {target : Nat} {exitKnown : Bool} {trigger : Option ExecProcessEvent}
    (inside : ((trigger.bind ExecProcessEvent.seq).any fun seq => seq > target) = false)
    (inserted : (replayStart afterSeq exitKnown).insertTrigger trigger = .ok session) :
    Faithful (sequencedContract afterSeq exitKnown target) 1 session ∧
      session.published = [] ∧ session.pending.length ≤ 1 ∧ session.outputGapThrough = 0 ∧
      session.closedPublished = false ∧
      ∀ seq event, session.pending.get seq = some event → seq ≤ target := by
  have start : Faithful (sequencedContract afterSeq exitKnown target) 0
      (replayStart afterSeq exitKnown) :=
    faithful_replayStart afterSeq exitKnown rfl rfl (le_max_left _ _)
  have idle : Faithful (sequencedContract afterSeq exitKnown target) 1
        (replayStart afterSeq exitKnown) ∧
      (replayStart afterSeq exitKnown).published = [] ∧
      (replayStart afterSeq exitKnown).pending.length ≤ 1 ∧
      (replayStart afterSeq exitKnown).outputGapThrough = 0 ∧
      (replayStart afterSeq exitKnown).closedPublished = false ∧
      ∀ seq event, (replayStart afterSeq exitKnown).pending.get seq = some event → seq ≤ target := by
    refine ⟨start.mono (by omega), rfl, Nat.zero_le _, rfl, rfl, ?_⟩
    intro seq event found
    cases found
  cases trigger with
  | none =>
    cases inserted
    exact idle
  | some event =>
    rw [insertTrigger] at inserted
    split at inserted
    · next beyond =>
      cases isSeq : event.seq with
      | none =>
        rw [isSeq] at beyond
        cases beyond
      | some seq =>
        rw [isSeq, Option.any_some, decide_eq_true_eq] at beyond
        have below : seq ≤ target := by simpa [isSeq] using inside
        have faithful := start.insertPending isSeq beyond ⟨seq, isSeq, below⟩ inserted
        rcases insertPending_ok isSeq inserted with ⟨rfl, present⟩ | ⟨-, rfl⟩
        · cases present
        refine ⟨faithful, rfl, OrderedMap.length_insert_le _ _ _, rfl, rfl, ?_⟩
        intro other waiting found
        dsimp only at found
        rw [OrderedMap.get_insert] at found
        split at found
        · next same => exact same ▸ below
        · cases found
    · cases inserted
      exact idle

theorem length_recoveredEvents_le (response : ReadResponse) (gap : ProcessOutputGap) (target : Nat)
    (exitCode : Int) :
    (recoveredEvents response gap target exitCode).length ≤ response.chunks.length + 2 := by
  rw [recoveredEvents, List.length_append, List.length_append, List.length_map]
  have exit : (gap.exitSeq.map fun seq =>
      (seq, ExecProcessEvent.exited seq exitCode (recoveredDenial response))).toList.length ≤ 1 := by
    cases gap.exitSeq <;> simp
  have close : (if response.closed = true then
      [(target, ExecProcessEvent.closed target (some response.sandboxDenied))] else []).length ≤
      1 := by
    split <;> simp
  omega

/-- A recovery of a replay keeps to sequenced events, and no more of them than the log holds. -/
theorem recoverEvents_sequenced {afterSeq : Nat} {exitKnown : Bool} {response : ReadResponse}
    {trigger : Option ExecProcessEvent} {session : SessionState}
    (inside : ((trigger.bind ExecProcessEvent.seq).any
      fun seq => seq > response.nextSeq - 1) = false)
    (inserted : (replayStart afterSeq exitKnown).insertTrigger trigger = .ok session) :
    Faithful (sequencedContract afterSeq exitKnown (response.nextSeq - 1))
      (response.chunks.length * 2 + 7) (session.recoverEvents response).2 := by
  obtain ⟨faithful, nothing, few, noGap, isOpen, pendingInside⟩ := insertTrigger_spec inside inserted
  have answers := answers_sequenced afterSeq exitKnown response (response.nextSeq - 1)
  unfold recoverEvents
  dsimp only
  have observed := faithful.observe response
  cases response.failure with
  | some message => exact observed.mono (by omega)
  | none =>
    dsimp only
    cases response.outputGap with
    | none =>
      dsimp only
      split
      · exact observed.mono (by omega)
      next unfinished =>
      simp only [Bool.or_eq_true, not_or, decide_eq_true_eq, not_le] at unfinished
      have passed : (session.observeReadFacts response).outputGapThrough ≤
          (session.observeReadFacts response).lastPublishedSeq := by
        change session.outputGapThrough ≤ _
        rw [noGap]
        exact Nat.zero_le _
      exact (observed.recoverThrough passed unfinished.2 answers).1.mono (by omega)
    | some gap =>
      dsimp only
      have rest : ((session.observeReadFacts response).pending.retain
          fun seq => decide (response.nextSeq - 1 < seq)).length = 0 := by
        rw [OrderedMap.length, OrderedMap.retain, List.length_eq_zero_iff, List.filter_eq_nil_iff]
        intro entry member
        have found := OrderedMap.get_eq_some_iff.mpr member
        have below := pendingInside entry.1 entry.2 found
        simpa using below
      have merged := length_mergeRecovered_le (session.observeReadFacts response)
        (response.nextSeq - 1)
        (recoveredEvents response gap (response.nextSeq - 1) (response.exitCode.getD 0))
      have recovered := length_recoveredEvents_le response gap (response.nextSeq - 1)
        (response.exitCode.getD 0)
      have samePending : (session.observeReadFacts response).pending = session.pending := rfl
      have samePublished : (session.observeReadFacts response).published.length = 0 := by
        change session.published.length = 0
        rw [nothing]
        rfl
      refine ((observed.mono (show 1 ≤ response.chunks.length * 2 + 7 by omega)).recoverOutputGap
        ?_ (le_max_right _ _) ?_ ?_ ?_).1
      · intro _
        change session.outputGapThrough ≤ _
        rw [noGap]
        exact Nat.zero_le _
      · intro accepted entry member
        obtain ⟨isSeq, below⟩ := recoveredEvents_own accepted member
        exact ⟨entry.1, isSeq, below⟩
      · intro _ seq kept
        cases kept
      · rw [rest, samePublished]
        rw [samePending] at merged
        omega

/-- A replay that returns covers the whole range. -/
theorem replayProcessEvents_tiles {exitKnown : Bool} {response : ReadResponse}
    {trigger : Option ExecProcessEvent} {events : List ExecProcessEvent}
    (replayed : replayProcessEvents afterSeq exitKnown response trigger = .ok events) :
    Tiles afterSeq events (max afterSeq (response.nextSeq - 1)) ∧
      ∀ event ∈ events, ∃ seq, event.seq = some seq := by
  unfold replayProcessEvents at replayed
  split at replayed
  · cases replayed
  split at replayed
  · cases replayed
  next accepted =>
  rw [Bool.not_eq_true] at accepted
  simp only [replayRejected, Bool.or_eq_false_iff] at accepted
  cases inserted : (replayStart afterSeq exitKnown).insertTrigger trigger with
  | error message =>
    rw [inserted] at replayed
    cases replayed
  | ok session =>
    rw [inserted] at replayed
    have faithful := @recoverEvents_sequenced _ _ response _ _ accepted.2 inserted
    dsimp only at replayed
    generalize session.recoverEvents response = result at replayed faithful
    obtain ⟨outcome, recovered⟩ := result
    cases outcome with
    | error message => cases replayed
    | ok closed =>
      dsimp only [drainReplay] at replayed
      split at replayed
      · cases replayed
      next reached =>
      have count := faithful.count
      have all : drainOwned (response.chunks.length * 2 + 7) recovered.published =
          recovered.published := by
        rw [drainOwned, show recovered.published.length - (response.chunks.length * 2 + 7) = 0
          by dsimp only at count; omega]
        rfl
      rw [all, Except.ok.injEq] at replayed
      subst replayed
      refine ⟨?_, ?_⟩
      · have atEnd : recovered.lastPublishedSeq = max afterSeq (response.nextSeq - 1) := by
          have limited : recovered.lastPublishedSeq ≤ max afterSeq (response.nextSeq - 1) :=
            faithful.limited
          have le : afterSeq ≤ recovered.lastPublishedSeq := faithful.tiles.le
          omega
        rw [← atEnd]
        exact faithful.tiles
      intro event member
      cases isGapEvent : isGap event with
      | true =>
        cases event with
        | outputGap throughSeq => exact ⟨throughSeq, rfl⟩
        | output _ | exited _ _ _ | closed _ _ | failed _ => cases isGapEvent
      | false =>
        obtain ⟨seq, isSeq, -⟩ := faithful.publishedGenuine event member isGapEvent
        exact ⟨seq, isSeq⟩

/-! ## What the server retains -/

namespace RunningProcess

variable {process : RunningProcess}

/-- The history has one event at each sequence. -/
theorem Recorded.eq_of_seq (recorded : process.Recorded) {first second : ExecProcessEvent}
    (isFirst : first ∈ process.history) (isSecond : second ∈ process.history)
    (same : first.seq = second.seq) : first = second := by
  have distinct : (process.history.map ExecProcessEvent.seq).Nodup := by
    rw [recorded.numbered]
    apply List.Nodup.map _ List.nodup_range
    intro i j equal
    simpa using equal
  exact List.inj_on_of_nodup_map distinct isFirst isSecond same

variable {seq : Nat}

theorem Recorded.exists_at (recorded : process.Recorded) (positive : 1 ≤ seq)
    (below : seq < process.nextSeq) : ∃ event ∈ process.history, event.seq = some seq := by
  have member : some seq ∈ process.history.map ExecProcessEvent.seq := by
    rw [recorded.numbered, List.mem_map]
    refine ⟨seq - 1, ?_, ?_⟩
    · rw [List.mem_range]
      have next := recorded.next
      omega
    · rw [Nat.sub_add_cancel positive]
  obtain ⟨event, isEvent, isSeq⟩ := List.mem_map.mp member
  exact ⟨event, isEvent, isSeq⟩

/-- The output of a sequence was evicted, or never captured. -/
def Lost (process : RunningProcess) (seq : Nat) : Prop :=
  ∃ event ∈ process.history, event.seq = some seq ∧
    (isGap event = true ∨ ∃ chunk, event = .output chunk ∧ chunk ∉ process.output)

/-- A sequence that the record still knows: retained output, the exit or the close. -/
def Known (process : RunningProcess) (seq : Nat) : Prop :=
  (∃ chunk ∈ process.output, chunk.seq = seq) ∨ process.exitSeq = some seq ∨
    (process.closed = true ∧ seq + 1 = process.nextSeq)

/-- The event of the history at a known sequence. -/
theorem Recorded.event_of_known (recorded : process.Recorded)
    (known : process.Known seq) : ∃ event ∈ process.history, event.seq = some seq ∧
      isGap event = false ∧ ∀ chunk, event = .output chunk → chunk ∈ process.output := by
  rcases known with ⟨chunk, member, rfl⟩ | isExit | ⟨closed, isLast⟩
  · refine ⟨.output chunk, recorded.mem_output member, rfl, rfl, ?_⟩
    intro other same
    cases same
    exact member
  · obtain ⟨exitCode, denied, member⟩ := recorded.exitHappened seq isExit
    refine ⟨_, member, rfl, rfl, ?_⟩
    intro chunk same
    cases same
  obtain ⟨denied, member⟩ := recorded.closeHappened closed
  refine ⟨_, member, ?_, rfl, ?_⟩
  · rw [ExecProcessEvent.seq_closed, Option.some.injEq]
    omega
  · intro chunk same
    cases same

/-- Every sequence that was assigned is known or lost, not both. -/
theorem Recorded.known_iff (recorded : process.Recorded) (positive : 1 ≤ seq)
    (below : seq < process.nextSeq) : process.Known seq ↔ ¬ process.Lost seq := by
  refine ⟨?_, ?_⟩
  · rintro known ⟨event, member, isSeq, lost⟩
    obtain ⟨other, isOther, otherSeq, notGap, retained⟩ := recorded.event_of_known known
    have same := recorded.eq_of_seq member isOther (isSeq.trans otherSeq.symm)
    subst same
    rcases lost with gap | ⟨chunk, rfl, missing⟩
    · rw [notGap] at gap
      cases gap
    · exact missing (retained chunk rfl)
  intro notLost
  obtain ⟨event, member, isSeq⟩ := recorded.exists_at positive below
  cases event with
  | output chunk =>
    left
    refine ⟨chunk, ?_, Option.some.inj isSeq⟩
    by_contra missing
    exact notLost ⟨_, member, isSeq, .inr ⟨chunk, rfl, missing⟩⟩
  | outputGap throughSeq => exact absurd ⟨_, member, isSeq, .inl rfl⟩ notLost
  | exited own exitCode denied =>
    right
    left
    rw [(recorded.exitRecorded own exitCode denied member).1]
    exact isSeq
  | closed own denied =>
    right
    right
    obtain ⟨closed, isLast⟩ := recorded.closeRecorded own denied member
    exact ⟨closed, by rw [← Option.some.inj isSeq]; exact isLast⟩
  | failed message => cases isSeq

/-- What is lost lies at or below the last evicted sequence. -/
theorem Recorded.le_lastEvicted (recorded : process.Recorded)
    (lost : process.Lost seq) : seq ≤ process.lastEvictedSeq := by
  obtain ⟨event, member, isSeq, isLost⟩ := lost
  cases event with
  | output chunk =>
    rcases isLost with gap | ⟨other, same, missing⟩
    · cases gap
    cases same
    obtain ⟨evicted, split, below⟩ := recorded.retained
    have inside : chunk ∈ outputsOf process.history :=
      List.mem_filterMap.mpr ⟨_, member, rfl⟩
    rw [split] at inside
    rw [← Option.some.inj isSeq]
    rcases List.mem_append.mp inside with isEvicted | retained
    · exact below chunk isEvicted
    · exact absurd retained missing
  | outputGap throughSeq =>
    rw [← Option.some.inj isSeq]
    exact recorded.lost throughSeq member
  | exited _ _ _ | closed _ _ =>
    rcases isLost with gap | ⟨_, same, _⟩
    · cases gap
    · cases same
  | failed _ => cases isSeq

/-- The retained output ascends. -/
theorem Recorded.output_ascending (recorded : process.Recorded) :
    (process.output.map ProcessOutputChunk.seq).Pairwise (· < ·) := by
  have ordered : (process.history.map ExecProcessEvent.seq).Pairwise fun a b =>
      ∀ first second, a = some first → b = some second → first < second := by
    rw [recorded.numbered, List.pairwise_map]
    apply List.pairwise_lt_range.imp
    intro i j less first second isFirst isSecond
    simp only [Option.some.injEq] at isFirst isSecond
    omega
  rw [List.pairwise_map] at ordered
  have outputs : (outputsOf process.history).Pairwise fun a b => a.seq < b.seq := by
    rw [outputsOf, List.pairwise_filterMap]
    apply ordered.imp
    intro first second less chunk isChunk other isOther
    cases first with
    | output _ =>
      cases second with
      | output _ =>
        cases isChunk
        cases isOther
        exact less _ _ rfl rfl
      | outputGap _ => cases isOther
      | exited _ _ _ => cases isOther
      | closed _ _ => cases isOther
      | failed _ => cases isOther
    | outputGap _ => cases isChunk
    | exited _ _ _ => cases isChunk
    | closed _ _ => cases isChunk
    | failed _ => cases isChunk
  obtain ⟨evicted, split, -⟩ := recorded.retained
  rw [split] at outputs
  rw [List.pairwise_map]
  exact (List.pairwise_append.mp outputs).2.1

/-- A read without a limit takes every retained chunk. -/
theorem takeChunks_all {maxBytes totalBytes : Nat} {chunks rest : List ProcessOutputChunk}
    (small : totalBytes + byteCount rest < maxBytes) :
    takeChunks maxBytes totalBytes chunks rest = chunks ++ rest := by
  induction rest generalizing totalBytes chunks with
  | nil => exact (List.append_nil _).symm
  | cons retained rest ih =>
    rw [byteCount, List.map_cons, List.sum_cons, ← byteCount] at small
    rw [takeChunks, if_neg, if_neg, ih (by omega), List.append_assoc]
    · rfl
    · omega
    · simp only [Bool.and_eq_true, decide_eq_true_eq, not_and]
      intro _
      omega

/-- The answer to a read without a limit. -/
def snapshot (process : RunningProcess) (afterSeq : Nat) : ReadResponse :=
  { chunks := process.output.dropWhile fun chunk => chunk.seq ≤ afterSeq
    nextSeq := process.nextSeq
    exited := process.exitCode.isSome
    exitCode := process.exitCode
    closed := process.closed
    failure := process.failure
    outputGap := if afterSeq < process.lastEvictedSeq then
      some ⟨process.lastEvictedSeq, process.exitSeq⟩ else none
    sandboxDenied := process.sandboxDenied }

theorem execRead_unbounded (recorded : process.Recorded) (inside : afterSeq < process.nextSeq) :
    process.execRead afterSeq none = .ok (process.snapshot afterSeq) := by
  have limited := recorded.limited
  rw [recorded.bytes, RETAINED_OUTPUT_BYTES_PER_PROCESS] at limited
  generalize isKept : (process.output.dropWhile fun chunk => decide (chunk.seq ≤ afterSeq)) = kept
  have fewer : byteCount kept ≤ byteCount process.output := by
    rw [← List.takeWhile_append_dropWhile (p := fun chunk => decide (chunk.seq ≤ afterSeq))
      (l := process.output), isKept, byteCount, byteCount, List.map_append, List.sum_append]
    exact Nat.le_add_left _ _
  have all : takeChunks (2 ^ 64 - 1) 0 [] kept = kept := takeChunks_all (by omega)
  rw [execRead, if_neg (not_le.mpr inside)]
  dsimp only [Option.getD_none, Option.isNone_none]
  rw [isKept, all, snapshot, isKept]
  rfl

/-- The chunks of the answer. -/
theorem mem_snapshot (recorded : process.Recorded) {chunk : ProcessOutputChunk} :
    chunk ∈ (process.snapshot afterSeq).chunks ↔ chunk ∈ process.output ∧ afterSeq < chunk.seq := by
  have ascending := recorded.output_ascending
  rw [snapshot]
  dsimp only
  generalize process.output = output at ascending
  induction output with
  | nil => simp
  | cons first rest ih =>
    obtain ⟨less, restAscending⟩ := List.pairwise_cons.mp ascending
    rw [List.dropWhile_cons]
    by_cases early : first.seq ≤ afterSeq
    · rw [if_pos (by simpa using early), List.mem_cons]
      refine (ih restAscending).trans ⟨fun facts => ⟨.inr facts.1, facts.2⟩, ?_⟩
      rintro ⟨rfl | later, beyond⟩
      · omega
      · exact ⟨later, beyond⟩
    rw [if_neg (by simpa using early)]
    refine ⟨fun member => ⟨member, ?_⟩, fun facts => facts.1⟩
    rcases List.mem_cons.mp member with rfl | later
    · exact not_le.mp early
    · have beyond := less chunk.seq (List.mem_map_of_mem later)
      omega

theorem snapshot_ascending (recorded : process.Recorded) (afterSeq : Nat) :
    ((process.snapshot afterSeq).chunks.map ProcessOutputChunk.seq).Pairwise (· < ·) := by
  apply List.Pairwise.sublist _ recorded.output_ascending
  exact (List.dropWhile_sublist _).map _

/-- The events that a replay of the answer may return. -/
def Retained (process : RunningProcess) (afterSeq : Nat) : ExecProcessEvent → Prop
  | .output chunk => chunk ∈ process.output
  | .outputGap _ => False
  | .exited seq exitCode denied => process.exitSeq = some seq ∧ process.exitCode = some exitCode ∧
      denied = recoveredDenial (process.snapshot afterSeq)
  | .closed seq denied => process.closed = true ∧ seq + 1 = process.nextSeq ∧
      denied = some process.sandboxDenied
  | .failed _ => False

/-- A retained event stands at a known sequence of the history. -/
theorem known_of_retained {seq : Nat} {event : ExecProcessEvent}
    (retained : process.Retained afterSeq event)
    (isSeq : event.seq = some seq) : process.Known seq := by
  cases event with
  | output chunk => exact .inl ⟨chunk, retained, Option.some.inj isSeq⟩
  | outputGap _ => cases retained
  | exited own exitCode denied => exact .inr (.inl (retained.1.trans isSeq))
  | closed own denied =>
    have same := Option.some.inj isSeq
    exact .inr (.inr ⟨retained.1, same ▸ retained.2.1⟩)
  | failed _ => cases retained

theorem Recorded.bounds_of_known (recorded : process.Recorded)
    (known : process.Known seq) : 1 ≤ seq ∧ seq < process.nextSeq := by
  obtain ⟨event, member, isSeq, -⟩ := recorded.event_of_known known
  obtain ⟨own, isOwn, facts⟩ := recorded.seq_le member
  rw [isSeq, Option.some.injEq] at isOwn
  rw [isOwn]
  exact facts

/-- The event of the history that a retained one stands for. -/
theorem Recorded.history_of_retained (recorded : process.Recorded) {event : ExecProcessEvent}
    (retained : process.Retained afterSeq event) :
    ∃ own ∈ process.history, own.seq = event.seq ∧ own.chunk = event.chunk ∧
      isExited own = isExited event := by
  cases event with
  | output chunk => exact ⟨_, recorded.mem_output retained, rfl, rfl, rfl⟩
  | outputGap _ => cases retained
  | exited seq exitCode denied =>
    obtain ⟨code, assessed, member⟩ := recorded.exitHappened seq retained.1
    exact ⟨_, member, rfl, rfl, rfl⟩
  | closed seq denied =>
    obtain ⟨closed, isLast, -⟩ := retained
    obtain ⟨assessed, member⟩ := recorded.closeHappened closed
    refine ⟨_, member, ?_, rfl, rfl⟩
    rw [← isLast]
    rfl
  | failed _ => cases retained

/-- There is one retained event at a sequence. -/
theorem Recorded.retained_unique (recorded : process.Recorded) {first second : ExecProcessEvent}
    (isFirst : process.Retained afterSeq first) (isSecond : process.Retained afterSeq second)
    (same : first.seq = second.seq) :
    first = second := by
  obtain ⟨own, member, isSeq, isChunk, isExit⟩ := recorded.history_of_retained isFirst
  obtain ⟨other, isOther, otherSeq, otherChunk, otherExit⟩ := recorded.history_of_retained isSecond
  have equal := recorded.eq_of_seq member isOther (isSeq.trans (same.trans otherSeq.symm))
  subst equal
  have sameChunk := isChunk.symm.trans otherChunk
  have sameExit := isExit.symm.trans otherExit
  cases first with
  | output chunk =>
    cases second with
    | output _ =>
      cases sameChunk
      rfl
    | outputGap _ => cases isSecond
    | exited _ _ _ => cases sameChunk
    | closed _ _ => cases sameChunk
    | failed _ => cases isSecond
  | outputGap _ => cases isFirst
  | exited seq exitCode denied =>
    cases second with
    | output _ => cases sameChunk
    | outputGap _ => cases isSecond
    | exited _ _ _ =>
      obtain ⟨firstSeq, firstCode, rfl⟩ := isFirst
      obtain ⟨secondSeq, secondCode, rfl⟩ := isSecond
      rw [Option.some.inj (firstSeq.symm.trans secondSeq),
        Option.some.inj (firstCode.symm.trans secondCode)]
    | closed _ _ => cases sameExit
    | failed _ => cases isSecond
  | closed seq denied =>
    cases second with
    | output _ => cases sameChunk
    | outputGap _ => cases isSecond
    | exited _ _ _ => cases sameExit
    | closed _ _ =>
      obtain ⟨-, -, rfl⟩ := isFirst
      obtain ⟨-, -, rfl⟩ := isSecond
      rw [Option.some.inj same]
    | failed _ => cases isSecond
  | failed _ => cases isFirst

/-- The contract of a replay of the answer. -/
def retainedContract (recorded : process.Recorded) (afterSeq : Nat) : Contract where
  start := afterSeq
  exitKnown := process.exitSeq.any fun seq => seq ≤ afterSeq
  limit := process.nextSeq - 1
  Genuine := process.Retained afterSeq
  Kept := process.Known
  bounded := by
    intro event seq retained isSeq
    have below := (recorded.bounds_of_known (known_of_retained retained isSeq)).2
    omega
  keeps := by
    intro event seq retained isSeq _
    cases event with
    | outputGap _ => cases retained
    | output _ => rfl
    | exited _ _ _ => rfl
    | closed _ _ => rfl
    | failed _ => rfl

theorem answers_retained (recorded : process.Recorded) (afterSeq : Nat) :
    Answers (retainedContract recorded afterSeq) (process.snapshot afterSeq)
      (process.nextSeq - 1) where
  output := fun chunk member _ => ((mem_snapshot recorded).mp member).1
  close := by
    intro closed
    refine ⟨closed, ?_, rfl⟩
    have next := recorded.next
    omega
  assess := by
    intro event retained
    cases event with
    | output _ => exact retained
    | outputGap _ => exact retained
    | exited seq exitCode denied =>
      refine ⟨retained.1, retained.2.1, ?_⟩
      rw [retained.2.2, recoveredDenial]
      split <;> simp
    | closed _ _ => exact retained
    | failed _ => exact retained
  exits := by
    intro _ event seq retained _ isSeq
    have below := (recorded.bounds_of_known (known_of_retained retained isSeq)).2
    omega
  exit := by
    intro exited unknown exitCode isCode
    right
    change process.exitCode.isSome = true at exited
    rw [recorded.exitKnown] at exited
    obtain ⟨seq, isExit⟩ := Option.isSome_iff_exists.mp exited
    have known : process.Known seq := .inr (.inl isExit)
    change (process.exitSeq.any fun seq => decide (seq ≤ afterSeq)) = false at unknown
    rw [isExit, Option.any_some, decide_eq_false_iff_not, not_le] at unknown
    have below := (recorded.bounds_of_known known).2
    refine ⟨seq, unknown, by omega, known, ⟨isExit, isCode, rfl⟩, ?_⟩
    intro event retained isSeq
    have own : process.Retained afterSeq
        (.exited seq exitCode (recoveredDenial (process.snapshot afterSeq))) := ⟨isExit, isCode, rfl⟩
    rw [recorded.retained_unique retained own isSeq]
    rfl

/-- The events are those after a sequence, in order: what is retained, the exit and the close at
    their sequences, and gaps over what is lost. -/
structure Returns (process : RunningProcess) (afterSeq : Nat) (events : List ExecProcessEvent) :
    Prop where
  tiles : Tiles afterSeq events (process.nextSeq - 1)
  output : ∀ chunk, ExecProcessEvent.output chunk ∈ events ↔
    chunk ∈ process.output ∧ afterSeq < chunk.seq
  exited : ∀ seq exitCode denied, ExecProcessEvent.exited seq exitCode denied ∈ events ↔
    process.exitSeq = some seq ∧ process.exitCode = some exitCode ∧ afterSeq < seq ∧
      denied = recoveredDenial (process.snapshot afterSeq)
  closed : ∀ seq denied, ExecProcessEvent.closed seq denied ∈ events ↔
    process.closed = true ∧ seq + 1 = process.nextSeq ∧ afterSeq < seq ∧
      denied = some process.sandboxDenied
  failed : ∀ message, ExecProcessEvent.failed message ∉ events
  gaps : ∀ seq, InGap afterSeq events seq ↔ afterSeq < seq ∧ process.Lost seq

/-- A faithful session that reached the end has published what the record retains. -/
theorem Recorded.returns (recorded : process.Recorded) {budget : Nat}
    (faithful : Faithful (retainedContract recorded afterSeq) budget session)
    (atEnd : session.lastPublishedSeq = process.nextSeq - 1) :
    process.Returns afterSeq session.published := by
  have tiles : Tiles afterSeq session.published (process.nextSeq - 1) := by
    rw [← atEnd]
    exact faithful.tiles
  have own : ∀ event seq, event.seq = some seq → isGap event = false →
      (event ∈ session.published ↔ process.Retained afterSeq event ∧ afterSeq < seq) := by
    intro event seq isSeq notGap
    refine ⟨fun member => ⟨faithful.publishedGenuine event member notGap,
      (tiles.bounds member isSeq).1⟩, ?_⟩
    rintro ⟨retained, above⟩
    have known := known_of_retained retained isSeq
    have below := (recorded.bounds_of_known known).2
    obtain ⟨other, member, otherSeq, otherGap⟩ :=
      faithful.published_of_kept known above (by omega)
    have genuine := faithful.publishedGenuine other member otherGap
    rw [recorded.retained_unique retained genuine (isSeq.trans otherSeq.symm)]
    exact member
  refine ⟨tiles, ?_, ?_, ?_, ?_, ?_⟩
  · intro chunk
    exact own _ chunk.seq rfl rfl
  · intro seq exitCode denied
    rw [own _ seq rfl rfl]
    change (_ ∧ _ ∧ _) ∧ _ ↔ _
    tauto
  · intro seq denied
    rw [own _ seq rfl rfl]
    change (_ ∧ _ ∧ _) ∧ _ ↔ _
    tauto
  · intro message member
    exact faithful.publishedGenuine _ member rfl
  intro seq
  refine ⟨?_, ?_⟩
  · intro inGap
    have above := tiles.inGap_above inGap
    have below := tiles.inGap_le inGap
    refine ⟨above, ?_⟩
    by_contra notLost
    have known := (recorded.known_iff (by omega) (by omega)).mpr notLost
    exact faithful.kept seq known inGap
  rintro ⟨above, lost⟩
  obtain ⟨event, member, isSeq, -⟩ := id lost
  obtain ⟨same, isSame, positive, below⟩ := recorded.seq_le member
  rw [isSeq, Option.some.injEq] at isSame
  subst isSame
  rcases tiles.covered above (by omega) with inGap | ⟨other, isOther, otherSeq, notGap⟩
  · exact inGap
  · have known := known_of_retained (faithful.publishedGenuine other isOther notGap) otherSeq
    exact absurd lost ((recorded.known_iff positive below).mp known)

/-! ## The answer is accepted -/

/-- Sequences of the answer. -/
theorem Recorded.chunk_apart (recorded : process.Recorded) {chunk : ProcessOutputChunk}
    (member : chunk ∈ process.output) : 1 ≤ chunk.seq ∧ chunk.seq < process.nextSeq ∧
      process.exitSeq ≠ some chunk.seq ∧
      (process.closed = true → chunk.seq + 1 ≠ process.nextSeq) := by
  have bounds := recorded.bounds_of_known (.inl ⟨chunk, member, rfl⟩)
  refine ⟨bounds.1, bounds.2, ?_, ?_⟩
  · intro isExit
    obtain ⟨exitCode, denied, isEvent⟩ := recorded.exitHappened _ isExit
    cases recorded.eq_of_seq (recorded.mem_output member) isEvent rfl
  · intro closed isLast
    obtain ⟨denied, isEvent⟩ := recorded.closeHappened closed
    rw [← isLast, Nat.add_sub_cancel] at isEvent
    cases recorded.eq_of_seq (recorded.mem_output member) isEvent rfl

theorem Recorded.exit_apart (recorded : process.Recorded)
    (isExit : process.exitSeq = some seq) : 1 ≤ seq ∧ seq < process.nextSeq ∧
      process.exitCode.isSome = true ∧ (process.closed = true → seq + 1 ≠ process.nextSeq) := by
  have bounds := recorded.bounds_of_known (.inr (.inl isExit))
  refine ⟨bounds.1, bounds.2, by rw [recorded.exitKnown, isExit]; rfl, ?_⟩
  intro closed isLast
  obtain ⟨exitCode, assessed, isEvent⟩ := recorded.exitHappened _ isExit
  obtain ⟨denied, isClose⟩ := recorded.closeHappened closed
  rw [← isLast, Nat.add_sub_cancel] at isClose
  cases recorded.eq_of_seq isEvent isClose rfl

theorem Recorded.exited_of_closed (recorded : process.Recorded) (closed : process.closed = true) :
    process.exitCode.isSome = true := by
  rw [recorded.exitKnown]
  exact (recorded.ended (.inl closed)).1

theorem ordered_of_pairwise {chunks : List ProcessOutputChunk}
    (ascending : (chunks.map ProcessOutputChunk.seq).Pairwise (· < ·)) :
    unordered chunks = false := by
  induction chunks with
  | nil => rfl
  | cons first rest ih =>
    obtain ⟨less, restAscending⟩ := List.pairwise_cons.mp ascending
    cases rest with
    | nil => rfl
    | cons second rest =>
      simp only [unordered, List.tail_cons, List.zip_cons_cons, List.any_cons,
        Bool.or_eq_false_iff, decide_eq_false_iff_not, not_le]
      exact ⟨less second.seq List.mem_cons_self, ih restAscending⟩

theorem Recorded.replay_accepted (recorded : process.Recorded) (afterSeq : Nat) :
    replayRejected (process.snapshot afterSeq) none (process.nextSeq - 1) = false := by
  simp only [replayRejected, Bool.or_eq_false_iff]
  refine ⟨⟨⟨⟨?_, ?_⟩, ordered_of_pairwise (snapshot_ascending recorded afterSeq)⟩, ?_⟩, rfl⟩
  · by_cases closed : process.closed = true
    · have exited := recorded.exited_of_closed closed
      simp [snapshot, exited]
    · simp [snapshot, closed]
  · simp [snapshot]
  · rw [List.any_eq_false]
    intro chunk member
    have facts := recorded.chunk_apart ((mem_snapshot recorded).mp member).1
    simp only [Bool.or_eq_true, decide_eq_true_eq, not_or, not_lt]
    omega

theorem Recorded.gap_accepted (recorded : process.Recorded) (afterSeq : Nat) :
    gapRejected (process.snapshot afterSeq) ⟨process.lastEvictedSeq, process.exitSeq⟩
      (process.nextSeq - 1) = false := by
  have evicted := recorded.evicted
  simp only [gapRejected, Bool.or_eq_false_iff]
  refine ⟨⟨⟨⟨⟨?_, ?_⟩, ?_⟩, ?_⟩, ordered_of_pairwise (snapshot_ascending recorded afterSeq)⟩, ?_⟩
  · rw [decide_eq_false_iff_not]
    omega
  · simp [snapshot, recorded.exitKnown]
  · cases isExit : process.exitSeq with
    | none => rfl
    | some seq =>
      have facts := recorded.exit_apart isExit
      have known : process.exitCode.isNone = false := by simpa using facts.2.2.1
      simp only [Option.any_some, snapshot, known, Bool.or_false, Bool.or_eq_false_iff,
        decide_eq_false_iff_not]
      omega
  · by_cases closed : process.closed = true
    · obtain ⟨seq, isExit⟩ := Option.isSome_iff_exists.mp (recorded.ended (.inl closed)).1
      have facts := recorded.exit_apart isExit
      have apart := facts.2.2.2 closed
      rw [isExit]
      simp only [Option.all_some, snapshot, closed, Bool.true_and, decide_eq_false_iff_not]
      omega
    · simp [snapshot, closed]
  rw [List.any_eq_false]
  intro chunk member
  have facts := recorded.chunk_apart ((mem_snapshot recorded).mp member).1
  simp only [Bool.or_eq_true, Bool.and_eq_true, decide_eq_true_eq, not_or, not_lt, snapshot]
  refine ⟨⟨by omega, fun same => facts.2.2.1 same.symm⟩, ?_⟩
  rintro ⟨closed, isLast⟩
  have apart := facts.2.2.2 closed
  omega

end RunningProcess

namespace SessionState

/-- The session of a replay limits no bytes and has no open gap. -/
structure Replaying (session : SessionState) : Prop where
  unlimited : session.unlimitedBytes = true
  noGap : session.outputGapThrough = 0

theorem Replaying.publishLoop {fuel : Nat} (replaying : session.Replaying) :
    (publishLoop fuel session).1.Replaying ∧
      session.lastPublishedSeq ≤ (publishLoop fuel session).1.lastPublishedSeq := by
  induction fuel generalizing session with
  | zero => exact ⟨replaying, le_refl _⟩
  | succ fuel ih =>
    rw [SessionState.publishLoop]
    split
    · split
      · next inside =>
        rw [replaying.noGap] at inside
        omega
      · exact ⟨replaying, le_refl _⟩
    next event _ =>
    have next : (session.publishEvent event).Replaying := ⟨replaying.unlimited, replaying.noGap⟩
    split
    · exact ⟨⟨replaying.unlimited, replaying.noGap⟩, Nat.le_succ _⟩
    · obtain ⟨still, le⟩ := ih next
      refine ⟨still, le_trans ?_ le⟩
      exact Nat.le_succ _

/-- The next event always fits when bytes are not limited. -/
theorem Replaying.insertPending (replaying : session.Replaying) (event : ExecProcessEvent)
    (isNext : event.seq = some (session.lastPublishedSeq + 1)) :
    ∃ after, session.insertPending event = .ok after ∧ after.Replaying := by
  rw [SessionState.insertPending, isNext]
  dsimp only
  split
  · exact ⟨session, rfl, replaying⟩
  · refine ⟨{ session with
      pending := session.pending.insert (session.lastPublishedSeq + 1) event
      pendingBytes := session.pendingBytes + event.bytes }, ?_, replaying.unlimited,
      replaying.noGap⟩
    rw [if_neg (by simp), if_neg (by simp [replaying.unlimited]), if_neg (by simp)]

variable {recovery : Recovery}

theorem Replaying.recoverMerged {entry : Nat × ExecProcessEvent}
    (replaying : recovery.session.Replaying) (unfailed : recovery.error = none)
    (own : entry.2.seq = some entry.1) :
    (recoverMerged entry recovery).error = none ∧
      (recoverMerged entry recovery).session.Replaying := by
  unfold SessionState.recoverMerged
  split
  · exact ⟨unfailed, replaying⟩
  next later =>
  dsimp only
  generalize isSession : (if entry.1 > recovery.session.lastPublishedSeq + 1 then
    recovery.session.skipTo (entry.1 - 1) else recovery.session) = session
  have facts : session.Replaying ∧ entry.1 = session.lastPublishedSeq + 1 := by
    rw [← isSession]
    split
    · refine ⟨⟨replaying.unlimited, replaying.noGap⟩, ?_⟩
      change entry.1 = entry.1 - 1 + 1
      omega
    · exact ⟨replaying, by omega⟩
  obtain ⟨after, inserted, still⟩ :=
    facts.1.insertPending entry.2 (by rw [own, facts.2])
  unfold Recovery.insert
  dsimp only
  rw [inserted]
  dsimp only [Recovery.andThen]
  rw [unfailed, if_neg (by simp)]
  exact ⟨rfl, still.publishLoop.1⟩

theorem Replaying.recoverAllMerged {recovery : Recovery} {entries : List (Nat × ExecProcessEvent)}
    (replaying : recovery.session.Replaying) (unfailed : recovery.error = none)
    (own : ∀ entry ∈ entries, entry.2.seq = some entry.1) :
    (recoverAllMerged entries recovery).error = none ∧
      (recoverAllMerged entries recovery).session.Replaying := by
  induction entries generalizing recovery with
  | nil => exact ⟨unfailed, replaying⟩
  | cons entry entries ih =>
    obtain ⟨next, still⟩ := replaying.recoverMerged unfailed (own entry List.mem_cons_self)
    rw [SessionState.recoverAllMerged, Recovery.andThen, next, if_neg (by simp)]
    exact ih still next fun other member => own other (List.mem_cons_of_mem _ member)

theorem Replaying.finishGap (replaying : recovery.session.Replaying)
    (target : Nat) : target ≤ (finishGap target recovery).session.lastPublishedSeq := by
  unfold SessionState.finishGap
  by_cases short : recovery.session.lastPublishedSeq < target
  · simp only [if_pos short]
    have next : (recovery.session.skipTo target).Replaying := ⟨replaying.unlimited, replaying.noGap⟩
    exact next.publishLoop.2
  · simp only [if_neg short]
    exact le_trans (not_lt.mp short) replaying.publishLoop.2

theorem Recovery.result_ok (unfailed : recovery.error = none) :
    recovery.result.1 = .ok recovery.publishedClosed := by
  rw [Recovery.result, unfailed]
  rfl

/-- Holes that the gap declares. -/
theorem holesDeclared_of {throughSeq target cursor : Nat} {seqs : List Nat}
    (ascending : (cursor :: seqs).Pairwise (· < ·)) (inside : ∀ seq ∈ seqs, seq ≤ target)
    (holes : ∀ seq, cursor < seq → seq ≤ target → seq ∉ seqs → seq ≤ throughSeq) :
    holesDeclared throughSeq target cursor seqs = true := by
  induction seqs generalizing cursor with
  | nil =>
    rw [holesDeclared, Bool.not_eq_true', Bool.and_eq_false_iff]
    by_cases short : cursor < target
    · right
      have declared := holes target short (le_refl _) List.not_mem_nil
      rw [decide_eq_false_iff_not]
      omega
    · exact .inl (decide_eq_false short)
  | cons seq seqs ih =>
    obtain ⟨less, rest⟩ := List.pairwise_cons.mp ascending
    obtain ⟨restLess, -⟩ := List.pairwise_cons.mp rest
    rw [holesDeclared, Bool.and_eq_true, Bool.not_eq_true', Bool.and_eq_false_iff]
    refine ⟨?_, ?_⟩
    · by_cases hole : seq > cursor + 1
      · right
        have declared := holes (seq - 1) (by omega)
          (le_trans (Nat.sub_le _ _) (inside seq List.mem_cons_self)) (by
            intro member
            rcases List.mem_cons.mp member with same | later
            · omega
            · have beyond := restLess _ later
              omega)
        rw [decide_eq_false_iff_not]
        omega
      · exact .inl (decide_eq_false hole)
    · apply ih rest fun other member => inside other (List.mem_cons_of_mem _ member)
      intro other above within absent
      apply holes other (lt_trans (less seq List.mem_cons_self) above) within
      intro member
      rcases List.mem_cons.mp member with same | later
      · omega
      · exact absent later

end SessionState

namespace RunningProcess

variable {process : RunningProcess}

/-- A known sequence past the start is in the answer. -/
theorem Recorded.recovered_of_known (recorded : process.Recorded) {afterSeq seq : Nat}
    {exitCode : Int} (known : process.Known seq) (above : afterSeq < seq) :
    seq ∈ (recoveredEvents (process.snapshot afterSeq) ⟨process.lastEvictedSeq, process.exitSeq⟩
      (process.nextSeq - 1) exitCode).map Prod.fst := by
  rw [recoveredEvents, List.map_append, List.map_append, List.mem_append, List.mem_append]
  rcases known with ⟨chunk, member, rfl⟩ | isExit | ⟨closed, isLast⟩
  · refine .inl (.inl ?_)
    rw [List.map_map]
    exact List.mem_map.mpr ⟨chunk, (mem_snapshot recorded).mpr ⟨member, above⟩, rfl⟩
  · refine .inl (.inr ?_)
    rw [isExit]
    exact List.mem_singleton_self _
  · right
    have isTarget : seq = process.nextSeq - 1 := by omega
    have isClosed : (process.snapshot afterSeq).closed = true := closed
    rw [if_pos isClosed, isTarget]
    exact List.mem_singleton_self _

/-- Events of the answer are retained. -/
theorem Recorded.retained_of_recovered (recorded : process.Recorded)
    {entry : Nat × ExecProcessEvent} (member : entry ∈ recoveredEvents (process.snapshot afterSeq)
      ⟨process.lastEvictedSeq, process.exitSeq⟩ (process.nextSeq - 1)
      (process.exitCode.getD 0)) : process.Retained afterSeq entry.2 := by
  rw [recoveredEvents, List.mem_append, List.mem_append] at member
  rcases member with (isChunk | isExit) | isClose
  · obtain ⟨chunk, inChunks, rfl⟩ := List.mem_map.mp isChunk
    exact ((mem_snapshot recorded).mp inChunks).1
  · rw [Option.mem_toList, Option.map_eq_some_iff] at isExit
    obtain ⟨seq, isSeq, rfl⟩ := isExit
    obtain ⟨code, isCode⟩ := Option.isSome_iff_exists.mp (recorded.exit_apart isSeq).2.2.1
    refine ⟨isSeq, ?_, rfl⟩
    rw [isCode]
    rfl
  split at isClose
  · next closed =>
    rw [List.mem_singleton.mp isClose]
    refine ⟨closed, ?_, rfl⟩
    have next := recorded.next
    omega
  · cases isClose

/-- The replay of an answer with a gap reaches the end. -/
theorem Recorded.recoverOutputGap_reaches (recorded : process.Recorded)
    (inside : afterSeq < process.nextSeq) (atStart : session.lastPublishedSeq = afterSeq)
    (replaying : session.Replaying) (idle : session.pending = OrderedMap.empty)
    (unfailed : session.failure = none) (isOpen : session.closedPublished = false) :
    ∃ closed, (session.recoverOutputGap (process.snapshot afterSeq)
        ⟨process.lastEvictedSeq, process.exitSeq⟩).1 = .ok closed ∧
      process.nextSeq - 1 ≤ (session.recoverOutputGap (process.snapshot afterSeq)
        ⟨process.lastEvictedSeq, process.exitSeq⟩).2.lastPublishedSeq := by
  unfold SessionState.recoverOutputGap
  dsimp only
  rw [show (process.snapshot afterSeq).nextSeq - 1 = process.nextSeq - 1 from rfl,
    if_neg (by rw [recorded.gap_accepted afterSeq]; exact Bool.false_ne_true),
    if_neg (by rw [unfailed, isOpen]; exact Bool.false_ne_true)]
  generalize isMerged : session.mergeRecovered (process.nextSeq - 1)
    (recoveredEvents (process.snapshot afterSeq) ⟨process.lastEvictedSeq, process.exitSeq⟩
      (process.nextSeq - 1) ((process.snapshot afterSeq).exitCode.getD 0)) = merged
  have own : ∀ seq event, merged.get seq = some event →
      event.seq = some seq ∧ seq ≤ process.nextSeq - 1 := by
    intro seq event found
    rw [← isMerged] at found
    rcases mergeRecovered_get found with fromRead | ⟨waiting, -⟩
    · exact recoveredEvents_own (recorded.gap_accepted afterSeq) fromRead
    · rw [idle] at waiting
      cases waiting
  have declared : holesDeclared process.lastEvictedSeq (process.nextSeq - 1)
      session.lastPublishedSeq
      (merged.keys.filter fun seq => decide (seq > session.lastPublishedSeq)) = true := by
    rw [atStart]
    apply holesDeclared_of
    · refine List.pairwise_cons.mpr ⟨?_, merged.sorted.filter _⟩
      intro seq member
      simpa using (List.mem_filter.mp member).2
    · intro seq member
      obtain ⟨event, found⟩ := Option.isSome_iff_exists.mp
        (OrderedMap.mem_keys_iff.mp (List.mem_filter.mp member).1)
      exact (own seq event found).2
    intro seq above within absent
    apply recorded.le_lastEvicted
    by_contra notLost
    have known := (recorded.known_iff (by omega) (by omega)).mpr notLost
    apply absent
    refine List.mem_filter.mpr ⟨OrderedMap.mem_keys_iff.mpr ?_, by simpa using above⟩
    rw [← isMerged]
    exact mergeRecovered_isSome (.inl (recorded.recovered_of_known known above))
  rw [if_neg (by rw [declared]; exact Bool.false_ne_true)]
  have start : SessionState.Replaying { session with
      pending := session.pending.retain fun seq => decide (seq > process.nextSeq - 1)
      pendingBytes := ((session.pending.retain fun seq =>
        decide (seq > process.nextSeq - 1)).values.map ExecProcessEvent.bytes).sum } :=
    ⟨replaying.unlimited, replaying.noGap⟩
  obtain ⟨finished, still⟩ := @Replaying.recoverAllMerged ⟨_, true, false, none⟩ merged.entries
    start rfl
    (fun entry member => (own entry.1 entry.2 (OrderedMap.get_eq_some_iff.mpr member)).1)
  unfold Recovery.andThen
  rw [finished, if_neg (by simp)]
  exact ⟨_, Recovery.result_ok finished, still.finishGap _⟩

end RunningProcess

/-! ## A read without a gap -/

namespace SessionState

/-- Nothing waits. -/
structure Idle (session : SessionState) : Prop where
  replaying : session.Replaying
  pending : session.pending = OrderedMap.empty
  isOpen : session.closedPublished = false

theorem publishLoop_take {fuel : Nat} {event : ExecProcessEvent}
    (found : session.pending.get (session.lastPublishedSeq + 1) = some event)
    (notClosed : isClosed event = false) :
    publishLoop (fuel + 1) session = publishLoop fuel (session.publishEvent event) := by
  rw [publishLoop, found]
  exact if_neg (by rw [notClosed]; exact Bool.false_ne_true)

theorem publishLoop_stop {fuel : Nat}
    (nothing : session.pending.get (session.lastPublishedSeq + 1) = none)
    (past : ¬ session.lastPublishedSeq + 1 ≤ session.outputGapThrough) :
    publishLoop (fuel + 1) session = (session, false) := by
  rw [publishLoop, nothing]
  exact if_neg past

/-- The next event passes through an idle session. -/
theorem Idle.next (idle : session.Idle) (event : ExecProcessEvent)
    (isNext : event.seq = some (session.lastPublishedSeq + 1))
    (notClosed : isClosed event = false) :
    ∃ after, session.insertPending event = .ok after ∧ after.publishReady.1.Idle ∧
      after.publishReady.1.lastPublishedSeq = session.lastPublishedSeq + 1 := by
  obtain ⟨after, inserted, replaying⟩ := idle.replaying.insertPending event isNext
  refine ⟨after, inserted, ?_⟩
  have nothing : session.pending.get (session.lastPublishedSeq + 1) = none := by
    rw [idle.pending]
    rfl
  rcases insertPending_ok isNext inserted with ⟨rfl, present⟩ | ⟨-, rfl⟩
  · rw [nothing] at present
    cases present
  -- One turn takes the event, the next finds nothing.
  have fuel : (session.pending.insert (session.lastPublishedSeq + 1) event).length +
      (session.outputGapThrough - session.lastPublishedSeq) + 1 = 2 := by
    rw [OrderedMap.length_insert nothing, idle.pending, idle.replaying.noGap, Nat.zero_sub]
    rfl
  have removed : (session.pending.insert (session.lastPublishedSeq + 1) event).remove
      (session.lastPublishedSeq + 1) = OrderedMap.empty := by
    apply OrderedMap.ext_get
    intro key
    rw [OrderedMap.get_remove]
    split
    · rfl
    · next different => rw [OrderedMap.get_insert, if_neg different, idle.pending]
  have ready : (session.pending.insert (session.lastPublishedSeq + 1) event).get
      (session.lastPublishedSeq + 1) = some event := by rw [OrderedMap.get_insert, if_pos rfl]
  unfold publishReady
  rw [fuel, publishLoop_take ready notClosed, publishLoop_stop]
  · refine ⟨⟨⟨idle.replaying.unlimited, idle.replaying.noGap⟩, removed, ?_⟩, rfl⟩
    change (session.closedPublished || isClosed event) = false
    rw [idle.isOpen, notClosed]
    rfl
  · change ((session.pending.insert (session.lastPublishedSeq + 1) event).remove
      (session.lastPublishedSeq + 1)).get _ = none
    rw [removed]
    rfl
  · change ¬ _ ≤ session.outputGapThrough
    rw [idle.replaying.noGap]
    omega

/-- A complete answer under way: what is left of it, with the close and an unknown exit, fills the
    way to the target. -/
structure Filling (response : ReadResponse) (targetSeq : Nat) (inferredExit : Option Nat)
    (rest : List ProcessOutputChunk) (recovery : Recovery) : Prop where
  idle : recovery.session.Idle
  unfailed : recovery.error = none
  before : recovery.session.lastPublishedSeq ≤ targetSeq
  ascending : (recovery.session.lastPublishedSeq :: rest.map ProcessOutputChunk.seq).Pairwise
    (· < ·)
  inside : ∀ chunk ∈ rest, chunk.seq ≤ targetSeq ∧ (response.closed = true → chunk.seq ≠ targetSeq)
  close : response.closed = true → recovery.session.lastPublishedSeq < targetSeq
  filled : ∀ seq, recovery.session.lastPublishedSeq < seq → seq ≤ targetSeq →
    seq ∈ rest.map ProcessOutputChunk.seq ∨ (response.closed = true ∧ seq = targetSeq) ∨
      (response.exited = true ∧ recovery.exitKnown = false ∧ inferredExit = some seq)
  exit : response.exited = true → recovery.exitKnown = false → ∃ seq, inferredExit = some seq ∧
    recovery.session.lastPublishedSeq < seq ∧ seq ≤ targetSeq ∧
    seq ∉ rest.map ProcessOutputChunk.seq ∧ (response.closed = true → seq ≠ targetSeq)
  code : response.exited = true → response.exitCode.isSome = true

variable {response : ReadResponse} {targetSeq : Nat} {inferredExit : Option Nat}
  {chunk : ProcessOutputChunk} {rest : List ProcessOutputChunk} {recovery : Recovery}

/-- An event passes through a recovery. -/
theorem Idle.recovery_next (idle : recovery.session.Idle) (unfailed : recovery.error = none)
    (event : ExecProcessEvent) (isNext : event.seq = some (recovery.session.lastPublishedSeq + 1))
    (notClosed : isClosed event = false) :
    ((recovery.insert event).andThen Recovery.publish).session.Idle ∧
      ((recovery.insert event).andThen Recovery.publish).session.lastPublishedSeq =
        recovery.session.lastPublishedSeq + 1 ∧
      ((recovery.insert event).andThen Recovery.publish).error = none ∧
      ((recovery.insert event).andThen Recovery.publish).exitKnown = recovery.exitKnown := by
  obtain ⟨after, inserted, next, moved⟩ := idle.next event isNext notClosed
  unfold Recovery.insert
  rw [inserted]
  dsimp only [Recovery.andThen]
  rw [unfailed, if_neg (by simp)]
  exact ⟨next, moved, rfl, rfl⟩

/-- The next chunk of a complete answer, when the exit is not before it. -/
theorem Filling.output (filling : Filling response targetSeq inferredExit (chunk :: rest) recovery)
    (isNext : chunk.seq = recovery.session.lastPublishedSeq + 1) :
    Filling response targetSeq inferredExit rest
      ((recovery.insert (.output chunk)).andThen Recovery.publish) := by
  obtain ⟨idle, moved, unfailed, known⟩ := filling.idle.recovery_next filling.unfailed
    (.output chunk) (congrArg some isNext) rfl
  obtain ⟨less, ascending⟩ := List.pairwise_cons.mp filling.ascending
  obtain ⟨inside, apart⟩ := filling.inside chunk List.mem_cons_self
  refine ⟨idle, unfailed, by omega, ?_, ?_, ?_, ?_, ?_, filling.code⟩
  · rw [moved, ← isNext]
    exact ascending
  · exact fun other member => filling.inside other (List.mem_cons_of_mem _ member)
  · intro closed
    have different := apart closed
    omega
  · intro seq above within
    rw [known]
    rcases filling.filled seq (by omega) within with member | others
    · rcases List.mem_cons.mp member with same | later
      · omega
      · exact .inl later
    · exact .inr others
  · intro exited unknown
    rw [known] at unknown
    obtain ⟨seq, isExit, above, within, absent, notClose⟩ := filling.exit exited unknown
    rw [List.map_cons, List.mem_cons, not_or] at absent
    exact ⟨seq, isExit, by omega, within, absent.2, notClose⟩

/-- The exit before the next chunk. -/
theorem Filling.exitFirst (filling : Filling response targetSeq inferredExit rest recovery)
    (exited : response.exited = true) (unknown : recovery.exitKnown = false)
    (isExit : inferredExit = some (recovery.session.lastPublishedSeq + 1)) :
    Filling response targetSeq inferredExit rest
        ((insertExit response (recovery.session.lastPublishedSeq + 1) recovery).andThen
          fun recovery => { recovery.publish with exitKnown := true }) ∧
      ((insertExit response (recovery.session.lastPublishedSeq + 1) recovery).andThen
        fun recovery => { recovery.publish with exitKnown := true }).session.lastPublishedSeq =
        recovery.session.lastPublishedSeq + 1 := by
  obtain ⟨exitCode, isCode⟩ := Option.isSome_iff_exists.mp (filling.code exited)
  obtain ⟨seq, isSeq, above, within, absent, notClose⟩ := filling.exit exited unknown
  rw [isExit, Option.some.injEq] at isSeq
  subst isSeq
  obtain ⟨idle, moved, unfailed, -⟩ := filling.idle.recovery_next filling.unfailed
    (.exited (recovery.session.lastPublishedSeq + 1) exitCode (recoveredDenial response))
    rfl rfl
  rw [insertExit, isCode]
  dsimp only
  have inserted : (recovery.insert (.exited (recovery.session.lastPublishedSeq + 1) exitCode
      (recoveredDenial response))).error = none := by
    obtain ⟨after, isAfter, -⟩ := filling.idle.next
      (.exited (recovery.session.lastPublishedSeq + 1) exitCode (recoveredDenial response))
      rfl rfl
    rw [Recovery.insert, isAfter]
    exact filling.unfailed
  rw [Recovery.andThen, inserted, if_neg (by simp)] at idle moved unfailed
  rw [Recovery.andThen, inserted, if_neg (by simp)]
  obtain ⟨less, ascending⟩ := List.pairwise_cons.mp filling.ascending
  generalize (recovery.insert (.exited (recovery.session.lastPublishedSeq + 1) exitCode
    (recoveredDenial response))).publish = published at idle moved unfailed ⊢
  refine ⟨⟨idle, unfailed, ?_, ?_, filling.inside, ?_, ?_, ?_, filling.code⟩, moved⟩
  · dsimp only
    omega
  · refine List.pairwise_cons.mpr ⟨?_, ascending⟩
    intro seq member
    have beyond := less seq member
    have different : seq ≠ recovery.session.lastPublishedSeq + 1 := by
      intro same
      exact absent (same ▸ member)
    dsimp only
    omega
  · intro closed
    have different := notClose closed
    dsimp only
    omega
  · intro seq above within
    dsimp only at above
    rcases filling.filled seq (by omega) within with member | close | ⟨-, -, same⟩
    · exact .inl member
    · exact .inr (.inl close)
    · rw [isExit, Option.some.injEq] at same
      omega
  · intro _ known
    cases known

/-- One chunk of a complete answer. -/
theorem Filling.step (filling : Filling response targetSeq inferredExit (chunk :: rest) recovery) :
    Filling response targetSeq inferredExit rest
      (recoverChunk response targetSeq inferredExit chunk recovery) := by
  obtain ⟨less, ascending⟩ := List.pairwise_cons.mp filling.ascending
  have later := less chunk.seq List.mem_cons_self
  obtain ⟨inside, apart⟩ := filling.inside chunk List.mem_cons_self
  have restLater : ∀ seq ∈ rest.map ProcessOutputChunk.seq, chunk.seq < seq :=
    (List.pairwise_cons.mp ascending).1
  have output : ∀ {other : Recovery},
      Filling response targetSeq inferredExit (chunk :: rest) other →
      chunk.seq = other.session.lastPublishedSeq + 1 →
      Filling response targetSeq inferredExit rest (other.andThen fun recovery =>
        if chunk.seq > recovery.session.lastPublishedSeq then
          (recovery.insert (.output chunk)).andThen Recovery.publish
        else recovery) := by
    intro other current isNext
    rw [Recovery.andThen, current.unfailed, if_neg (by simp), if_pos (by omega)]
    exact current.output isNext
  unfold recoverChunk
  rw [if_neg (not_lt.mpr inside)]
  dsimp only
  by_cases isNext : chunk.seq = recovery.session.lastPublishedSeq + 1
  · rw [if_neg (by simp only [Bool.and_eq_true, decide_eq_true_eq, not_and]; intro _; omega)]
    exact output filling isNext
  -- The sequence before the chunk is free for nothing but the exit.
  have free : ∀ seq, recovery.session.lastPublishedSeq < seq → seq < chunk.seq →
      response.exited = true ∧ recovery.exitKnown = false ∧ inferredExit = some seq := by
    intro seq above below
    rcases filling.filled seq above (by omega) with member | ⟨-, isTarget⟩ | exit
    · rcases List.mem_cons.mp member with same | beyond
      · omega
      · have less := restLater seq beyond
        omega
    · omega
    · exact exit
  obtain ⟨exited, unknown, isExit⟩ := free (recovery.session.lastPublishedSeq + 1) (by omega)
    (by omega)
  have alone : chunk.seq = recovery.session.lastPublishedSeq + 2 := by
    by_contra further
    obtain ⟨-, -, same⟩ := free (recovery.session.lastPublishedSeq + 2) (by omega) (by omega)
    rw [isExit, Option.some.injEq] at same
    omega
  have infer : (!recovery.exitKnown &&
      decide (inferredExit = some (recovery.session.lastPublishedSeq + 1)) &&
      decide (chunk.seq > recovery.session.lastPublishedSeq + 1)) = true := by
    simp only [Bool.and_eq_true, Bool.not_eq_true', decide_eq_true_eq]
    exact ⟨⟨unknown, isExit⟩, by omega⟩
  rw [if_pos infer]
  obtain ⟨next, moved⟩ := filling.exitFirst exited unknown isExit
  apply output next
  omega

theorem Filling.steps
    (filling : Filling response targetSeq inferredExit rest recovery) :
    Filling response targetSeq inferredExit []
      (recoverChunks response targetSeq inferredExit rest recovery) := by
  induction rest generalizing recovery with
  | nil => exact filling
  | cons chunk rest ih =>
    have next := filling.step
    rw [recoverChunks, Recovery.andThen, next.unfailed, if_neg (by simp)]
    exact ih next

/-- Publishing reaches the target when everything up to it waits and no close comes before. -/
theorem reaches_of_waiting (waiting : session.Waiting)
    (full : ∀ seq, session.lastPublishedSeq < seq → seq ≤ targetSeq →
      (session.pending.get seq).isSome = true)
    (closes : ∀ seq event, session.pending.get seq = some event → isClosed event = true →
      targetSeq ≤ seq) : targetSeq ≤ session.publishReady.1.lastPublishedSeq := by
  obtain ⟨new, published, isClose, stops⟩ := publishReady_spec waiting
  by_contra short
  have le := published.tiles.le
  have unclosed : new.any isClosed = false := by
    rw [List.any_eq_false]
    intro event member closed
    rcases published.source event member with gap | ⟨seq, found⟩
    · cases event with
      | closed _ _ => cases gap
      | output _ => cases closed
      | outputGap _ => cases closed
      | exited _ _ _ => cases closed
      | failed _ => cases closed
    · have beyond := closes seq event found closed
      have bounds := published.tiles.bounds member (waiting seq event found).1
      omega
  have stopped : session.publishReady.2 = false := by
    by_contra closed
    rw [Bool.not_eq_false, isClose, unclosed] at closed
    cases closed
  obtain ⟨event, found⟩ := Option.isSome_iff_exists.mp
    (full (session.publishReady.1.lastPublishedSeq + 1) (by omega) (by omega))
  have still := published.kept unclosed _ event found (Nat.lt_succ_self _)
  rw [(stops stopped).1] at still
  cases still

/-- The close is inserted into the idle session, if there is one. -/
theorem Filling.closing (filling : Filling response targetSeq inferredExit [] recovery)
    {closing : Recovery}
    (isClosing : (if (response.closed && !recovery.session.closedPublished &&
      !((recovery.session.pending.get targetSeq).any isClosed)) = true then
        recovery.insert (.closed targetSeq (some response.sandboxDenied))
      else recovery) = closing) :
    closing.error = none ∧ closing.exitKnown = recovery.exitKnown ∧ closing.session.Replaying ∧
      closing.session.lastPublishedSeq = recovery.session.lastPublishedSeq ∧
      closing.session.Waiting ∧
      (∀ seq, (closing.session.pending.get seq).isSome = true ↔
        response.closed = true ∧ seq = targetSeq) := by
  have nothing : ∀ seq, recovery.session.pending.get seq = none := by
    intro seq
    rw [filling.idle.pending]
    rfl
  rw [nothing, filling.idle.isOpen, Option.any_none, Bool.not_false, Bool.and_true,
    Bool.and_true] at isClosing
  by_cases closed : response.closed = true
  · rw [if_pos closed] at isClosing
    have inserted : recovery.session.insertPending
        (.closed targetSeq (some response.sandboxDenied)) = .ok { recovery.session with
          pending := recovery.session.pending.insert targetSeq
            (.closed targetSeq (some response.sandboxDenied))
          pendingBytes := recovery.session.pendingBytes } := by
      have room : ¬ recovery.session.pending.length ≥ MAX_PENDING_PROCESS_EVENTS := by
        rw [filling.idle.pending]
        decide
      rw [insertPending]
      dsimp only [ExecProcessEvent.seq_closed]
      rw [nothing, if_neg (by simp), if_neg (by simp [room]),
        if_neg (by simp [filling.idle.replaying.unlimited]),
        if_neg (by simp [filling.idle.replaying.unlimited])]
      rfl
    rw [Recovery.insert, inserted] at isClosing
    subst isClosing
    refine ⟨filling.unfailed, rfl,
      ⟨filling.idle.replaying.unlimited, filling.idle.replaying.noGap⟩, rfl, ?_, ?_⟩
    · intro seq event found
      dsimp only at found
      rw [OrderedMap.get_insert] at found
      split at found
      · next same =>
        cases found
        exact ⟨congrArg some same.symm, same ▸ filling.close closed⟩
      · rw [nothing] at found
        cases found
    intro seq
    dsimp only
    rw [OrderedMap.get_insert]
    split
    · next same => exact ⟨fun _ => ⟨closed, same⟩, fun _ => rfl⟩
    · next different =>
      rw [nothing]
      exact ⟨fun none => (by cases none), fun facts => absurd facts.2 different⟩
  · rw [if_neg closed] at isClosing
    subst isClosing
    refine ⟨filling.unfailed, rfl, filling.idle.replaying, rfl, ?_, ?_⟩
    · intro seq event found
      rw [nothing] at found
      cases found
    · intro seq
      rw [nothing]
      exact ⟨fun none => (by cases none), fun facts => absurd facts.1 closed⟩

/-- A recovery while no exit waits. -/
theorem recoverThrough_idle (noExit : session.pendingExit targetSeq = none)
    (fits : ¬ session.closeConflict response targetSeq = true)
    (inference : session.inferExit response targetSeq session.exitPublished = .ok inferredExit) :
    session.recoverThrough response targetSeq =
      ((recoverChunks response targetSeq inferredExit response.chunks
        ⟨session, session.exitPublished, false, none⟩).andThen
          (finishRecovery response targetSeq)).result := by
  unfold recoverThrough
  simp only [noExit, Option.elim_none, Option.isSome_none, Bool.or_false, if_neg fits, inference]

/-- How many sequences up to the target are missing. -/
theorem missing_eq_card {session : SessionState} :
    targetSeq - session.lastPublishedSeq - (session.pending.keys.filter fun seq =>
        session.lastPublishedSeq + 1 ≤ seq && seq ≤ targetSeq).length =
      (absent (session.lastPublishedSeq + 1) (targetSeq + 1) (session.pending.keys.filter
        fun seq => session.lastPublishedSeq + 1 ≤ seq && seq ≤ targetSeq)).card := by
  have ascending : session.pending.keys.Pairwise (· < ·) := session.pending.sorted
  rw [card_absent (ascending.filter _)]
  · omega
  · exact fun seq member => (mem_waiting.mp member).2.1
  · exact fun seq member => Nat.lt_succ_of_le (mem_waiting.mp member).2.2

theorem mem_absent_waiting {seq : Nat} :
    seq ∈ absent (session.lastPublishedSeq + 1) (targetSeq + 1) (session.pending.keys.filter
        fun seq => session.lastPublishedSeq + 1 ≤ seq && seq ≤ targetSeq) ↔
      session.lastPublishedSeq < seq ∧ seq ≤ targetSeq ∧
        ¬ (session.pending.get seq).isSome = true := by
  rw [absent, Finset.mem_filter, Finset.mem_Ico, mem_waiting, Nat.lt_succ_iff, Nat.succ_le_iff]
  tauto

/-- The end of a complete answer is published. -/
theorem Filling.finish (filling : Filling response targetSeq inferredExit [] recovery) :
    (finishRecovery response targetSeq recovery).error = none ∧
      targetSeq ≤ (finishRecovery response targetSeq recovery).session.lastPublishedSeq := by
  unfold finishRecovery
  generalize isClosing : (if (response.closed && !recovery.session.closedPublished &&
      !((recovery.session.pending.get targetSeq).any isClosed)) = true then
    recovery.insert (.closed targetSeq (some response.sandboxDenied))
  else recovery) = closing
  obtain ⟨unfailed, known, replaying, sameLast, waiting, held⟩ := filling.closing isClosing
  have before := filling.before
  have filled : ∀ seq, closing.session.lastPublishedSeq < seq → seq ≤ targetSeq →
      (closing.session.pending.get seq).isSome = true ∨
        (response.exited = true ∧ closing.exitKnown = false ∧ inferredExit = some seq) := by
    intro seq above within
    rw [held, known]
    rcases filling.filled seq (by omega) within with member | isClose | isExit
    · cases member
    · exact .inl isClose
    · exact .inr isExit
  have closesLast : ∀ seq event, closing.session.pending.get seq = some event →
      isClosed event = true → targetSeq ≤ seq := by
    intro seq event found _
    have isTarget := ((held seq).mp (by rw [found]; rfl)).2
    omega
  rw [Recovery.andThen, unfailed, if_neg (by simp)]
  dsimp only
  by_cases unknown : (response.exited && !closing.exitKnown) = true
  · rw [if_pos unknown]
    simp only [Bool.and_eq_true, Bool.not_eq_true'] at unknown
    obtain ⟨seq, isExit, above, within, -, notClose⟩ :=
      filling.exit unknown.1 (known ▸ unknown.2)
    have single : absent (closing.session.lastPublishedSeq + 1) (targetSeq + 1)
        (closing.session.pending.keys.filter fun seq =>
          closing.session.lastPublishedSeq + 1 ≤ seq && seq ≤ targetSeq) = {seq} := by
      ext other
      rw [mem_absent_waiting, Finset.mem_singleton]
      refine ⟨?_, ?_⟩
      · rintro ⟨later, inside, missing⟩
        rcases filled other later inside with waits | ⟨-, -, same⟩
        · exact absurd waits missing
        · rw [isExit, Option.some.injEq] at same
          exact same.symm
      · rintro rfl
        refine ⟨by omega, within, ?_⟩
        intro waits
        have isClose := (held other).mp waits
        exact notClose isClose.1 isClose.2
    have alone := @missing_eq_card targetSeq closing.session
    rw [single, Finset.card_singleton] at alone
    obtain ⟨lower, upper, missing, others⟩ := firstMissing_alone alone rfl
    rw [if_neg (by rw [alone]; simp)]
    generalize firstMissing (closing.session.lastPublishedSeq + 1)
      (closing.session.pending.keys.filter fun seq =>
        closing.session.lastPublishedSeq + 1 ≤ seq && seq ≤ targetSeq) = place
      at lower upper missing others
    have isPlace : place = seq := by
      by_contra different
      have waits := others seq (by omega) within (Ne.symm different)
      have isClose := (held seq).mp waits
      exact notClose isClose.1 isClose.2
    subst isPlace
    -- Only the exit can come next: a close that comes next would be the whole rest.
    have isNext : place = closing.session.lastPublishedSeq + 1 := by
      by_contra different
      have waits := others (closing.session.lastPublishedSeq + 1) (by omega) (by omega)
        (Ne.symm different)
      have isClose := ((held _).mp waits).2
      omega
    obtain ⟨exitCode, isCode⟩ := Option.isSome_iff_exists.mp (filling.code unknown.1)
    obtain ⟨after, inserted, -⟩ := replaying.insertPending
      (.exited place exitCode (recoveredDenial response)) (congrArg some isNext)
    rw [insertExit, isCode]
    dsimp only
    rw [Recovery.insert, inserted]
    dsimp only
    rw [Recovery.andThen, unfailed, if_neg (by simp)]
    refine ⟨rfl, ?_⟩
    rcases insertPending_ok rfl inserted with ⟨-, present⟩ | ⟨-, rfl⟩
    · rw [missing] at present
      cases present
    apply reaches_of_waiting
    · intro other event found
      dsimp only at found ⊢
      rw [OrderedMap.get_insert] at found
      split at found
      · next same =>
        cases found
        exact ⟨congrArg some same.symm, by omega⟩
      · exact waiting other event found
    · intro other later inside
      dsimp only at later ⊢
      rw [OrderedMap.get_insert]
      split
      · rfl
      · next different => exact others other later inside different
    intro other event found closed
    dsimp only at found
    rw [OrderedMap.get_insert] at found
    split at found
    · cases found
      cases closed
    · exact closesLast other event found closed
  · rw [if_neg unknown]
    have full : ∀ seq, closing.session.lastPublishedSeq < seq → seq ≤ targetSeq →
        (closing.session.pending.get seq).isSome = true := by
      intro seq above within
      rcases filled seq above within with waits | ⟨exited, notKnown, -⟩
      · exact waits
      · rw [exited, notKnown] at unknown
        exact absurd rfl unknown
    have noneMissing := @missing_eq_card targetSeq closing.session
    have empty : absent (closing.session.lastPublishedSeq + 1) (targetSeq + 1)
        (closing.session.pending.keys.filter fun seq =>
          closing.session.lastPublishedSeq + 1 ≤ seq && seq ≤ targetSeq) = ∅ := by
      apply Finset.eq_empty_of_forall_notMem
      intro seq member
      obtain ⟨above, within, missing⟩ := mem_absent_waiting.mp member
      exact missing (full seq above within)
    rw [empty, Finset.card_empty] at noneMissing
    rw [if_neg (by rw [noneMissing]; simp), Recovery.andThen, unfailed, if_neg (by simp)]
    exact ⟨unfailed, reaches_of_waiting waiting full closesLast⟩

end SessionState

namespace RunningProcess

variable {process : RunningProcess}

/-- Past the last evicted sequence, output, the exit and the close fill every sequence. -/
theorem Recorded.taken (recorded : process.Recorded) {seq : Nat}
    (complete : process.lastEvictedSeq ≤ afterSeq) (above : afterSeq < seq)
    (within : seq ≤ process.nextSeq - 1) :
    (∃ chunk ∈ (process.snapshot afterSeq).chunks, chunk.seq = seq) ∨
      (process.closed = true ∧ seq = process.nextSeq - 1) ∨ process.exitSeq = some seq := by
  have known : process.Known seq := by
    apply (recorded.known_iff (by omega) (by omega)).mpr
    intro lost
    have early := recorded.le_lastEvicted lost
    omega
  rcases known with ⟨chunk, member, rfl⟩ | isExit | ⟨closed, isLast⟩
  · exact .inl ⟨chunk, (mem_snapshot recorded).mpr ⟨member, above⟩, rfl⟩
  · exact .inr (.inr isExit)
  · exact .inr (.inl ⟨closed, by omega⟩)

/-- The exit that the answer leaves to be inferred. -/
def openExit (process : RunningProcess) (afterSeq : Nat) : Option Nat :=
  process.exitSeq.filter fun seq => afterSeq < seq

theorem Recorded.inferExit_open (recorded : process.Recorded)
    (complete : process.lastEvictedSeq ≤ afterSeq) (short : afterSeq < process.nextSeq - 1)
    (atStart : session.lastPublishedSeq = afterSeq) (idle : session.pending = OrderedMap.empty) :
    session.inferExit (process.snapshot afterSeq) (process.nextSeq - 1)
      (process.exitSeq.any fun seq => seq ≤ afterSeq) = .ok (process.openExit afterSeq) := by
  unfold inferExit
  cases isExit : process.exitSeq with
  | none =>
    have running : (process.snapshot afterSeq).exited = false := by
      change process.exitCode.isSome = false
      rw [recorded.exitKnown, isExit]
      rfl
    rw [running, openExit, isExit]
    rfl
  | some seq =>
    have exited : (process.snapshot afterSeq).exited = true := by
      change process.exitCode.isSome = true
      rw [recorded.exitKnown, isExit]
      rfl
    by_cases early : seq ≤ afterSeq
    · rw [openExit, isExit, if_neg (by simp [early]), Option.filter_some, if_neg (by simpa using early)]
    obtain ⟨positive, below, -, notClose⟩ := recorded.exit_apart isExit
    have ordered := ordered_of_pairwise (snapshot_ascending recorded afterSeq)
    have inside : ∀ chunk ∈ (process.snapshot afterSeq).chunks,
        chunk.seq ≤ process.nextSeq - 1 := by
      intro chunk member
      have facts := recorded.chunk_apart ((mem_snapshot recorded).mp member).1
      omega
    have single : absent (session.lastPublishedSeq + 1) (process.nextSeq - 1 + 1)
        (recoveredSeqs (session.lastPublishedSeq + 1) (process.nextSeq - 1)
          (process.snapshot afterSeq) ++ session.pendingSeqs (process.nextSeq - 1)) = {seq} := by
      ext other
      rw [absent, Finset.mem_filter, Finset.mem_Ico, List.mem_append, mem_recoveredSeqs,
        Finset.mem_singleton, pendingSeqs, idle, atStart]
      refine ⟨?_, ?_⟩
      · rintro ⟨⟨above, within⟩, free⟩
        rcases recorded.taken complete above (by omega) with held | isClose | same
        · exact absurd (.inl (.inl ⟨above, held⟩)) free
        · exact absurd (.inl (.inr isClose)) free
        · rw [isExit, Option.some.injEq] at same
          exact same.symm
      rintro rfl
      refine ⟨by omega, ?_⟩
      rintro ((⟨-, chunk, member, same⟩ | ⟨closed, isLast⟩) | waiting)
      · have facts := recorded.chunk_apart ((mem_snapshot recorded).mp member).1
        exact facts.2.2.1 (same ▸ isExit)
      · have different := notClose closed
        omega
      · cases waiting
    obtain ⟨count, isSingle⟩ := @scan_recovered (process.snapshot afterSeq) (process.nextSeq - 1)
      session (by omega) ordered inside
    rw [if_pos (by simp [exited, early])]
    have fits : ¬ (unordered (process.snapshot afterSeq).chunks ||
        (process.snapshot afterSeq).chunks.any fun chunk =>
          decide (chunk.seq > process.nextSeq - 1)) = true := by
      rw [ordered, Bool.false_or, Bool.not_eq_true, List.any_eq_false]
      intro chunk member
      simpa using inside chunk member
    rw [if_neg fits]
    dsimp only
    rw [← recoveredSeqs, ← pendingSeqs, count, single, Finset.card_singleton, if_neg (by simp),
      isSingle seq single, openExit, isExit, Option.filter_some, if_pos (by simpa using early)]

/-- The replay of an answer without a gap reaches the end. -/
theorem Recorded.recoverThrough_reaches (recorded : process.Recorded)
    (complete : process.lastEvictedSeq ≤ afterSeq) (short : afterSeq < process.nextSeq - 1)
    (atStart : session.lastPublishedSeq = afterSeq) (idle : session.Idle)
    (flag : session.exitPublished = process.exitSeq.any fun seq => seq ≤ afterSeq) :
    ∃ closed, (session.recoverThrough (process.snapshot afterSeq) (process.nextSeq - 1)).1 =
        .ok closed ∧
      process.nextSeq - 1 ≤ (session.recoverThrough (process.snapshot afterSeq)
        (process.nextSeq - 1)).2.lastPublishedSeq := by
  have noExit : session.pendingExit (process.nextSeq - 1) = none := by
    rw [pendingExit, idle.pending]
    rfl
  have fits : ¬ session.closeConflict (process.snapshot afterSeq) (process.nextSeq - 1) = true := by
    rw [closeConflict, idle.pending, Bool.and_eq_true, not_and, Bool.or_eq_true, not_or]
    intro closed
    refine ⟨Bool.false_ne_true, ?_⟩
    rw [Bool.not_eq_true, List.any_eq_false]
    intro chunk member
    have apart := (recorded.chunk_apart ((mem_snapshot recorded).mp member).1).2.2.2 closed
    rw [decide_eq_true_eq]
    omega
  have inference := recorded.inferExit_open complete short atStart idle.pending
  rw [← flag] at inference
  rw [recoverThrough_idle noExit fits inference, flag]
  have filling : Filling (process.snapshot afterSeq) (process.nextSeq - 1)
      (process.openExit afterSeq) (process.snapshot afterSeq).chunks
      ⟨session, process.exitSeq.any fun seq => seq ≤ afterSeq, false, none⟩ := by
    refine ⟨idle, rfl, by dsimp only; omega, ?_, ?_, ?_, ?_, ?_, ?_⟩
    · refine List.pairwise_cons.mpr ⟨?_, snapshot_ascending recorded afterSeq⟩
      intro seq member
      obtain ⟨chunk, isChunk, rfl⟩ := List.mem_map.mp member
      dsimp only
      rw [atStart]
      exact ((mem_snapshot recorded).mp isChunk).2
    · intro chunk member
      obtain ⟨-, below, -, apart⟩ := recorded.chunk_apart ((mem_snapshot recorded).mp member).1
      refine ⟨by omega, ?_⟩
      intro closed
      have different := apart closed
      omega
    · intro _
      dsimp only
      omega
    · intro seq above within
      dsimp only at above
      rw [atStart] at above
      rcases recorded.taken complete above within with ⟨chunk, member, same⟩ | isClose | isExit
      · exact .inl (List.mem_map.mpr ⟨chunk, member, same⟩)
      · exact .inr (.inl isClose)
      right
      right
      refine ⟨?_, ?_, ?_⟩
      · exact (recorded.exit_apart isExit).2.2.1
      · dsimp only
        rw [isExit]
        simpa using above
      · rw [openExit, isExit, Option.filter_some, if_pos (by simpa using above)]
    · intro exited unknown
      change process.exitCode.isSome = true at exited
      rw [recorded.exitKnown] at exited
      obtain ⟨seq, isExit⟩ := Option.isSome_iff_exists.mp exited
      dsimp only at unknown
      rw [isExit, Option.any_some, decide_eq_false_iff_not, not_le] at unknown
      obtain ⟨-, below, -, apart⟩ := recorded.exit_apart isExit
      refine ⟨seq, ?_, ?_, by omega, ?_, ?_⟩
      · rw [openExit, isExit, Option.filter_some, if_pos (by simpa using unknown)]
      · dsimp only
        omega
      · intro member
        obtain ⟨chunk, isChunk, same⟩ := List.mem_map.mp member
        exact (recorded.chunk_apart ((mem_snapshot recorded).mp isChunk).1).2.2.1 (same ▸ isExit)
      · intro closed
        have different := apart closed
        omega
    · exact fun exited => exited
  have steps := filling.steps
  obtain ⟨unfailed, reached⟩ := steps.finish
  unfold Recovery.andThen
  rw [steps.unfailed, if_neg (by simp)]
  exact ⟨_, Recovery.result_ok unfailed, reached⟩

/-- The replay of an answer keeps to what the record retains. -/
theorem Recorded.faithful_recover (recorded : process.Recorded)
    (inside : afterSeq < process.nextSeq) :
    ∃ budget, Faithful (retainedContract recorded afterSeq) budget
      ((replayStart afterSeq (process.exitSeq.any fun seq => seq ≤ afterSeq)).recoverEvents
        (process.snapshot afterSeq)).2 := by
  have start : Faithful (retainedContract recorded afterSeq) 0 (replayStart afterSeq
      (process.exitSeq.any fun seq => seq ≤ afterSeq)) := by
    apply faithful_replayStart afterSeq _ rfl rfl
    change afterSeq ≤ process.nextSeq - 1
    omega
  have observed := start.observe (process.snapshot afterSeq)
  unfold recoverEvents
  dsimp only
  cases (process.snapshot afterSeq).failure with
  | some message => exact ⟨0, observed⟩
  | none =>
    dsimp only
    cases isGap : (process.snapshot afterSeq).outputGap with
    | none =>
      dsimp only
      split
      · exact ⟨0, observed⟩
      · next unfinished =>
        simp only [Bool.or_eq_true, not_or, decide_eq_true_eq, not_le] at unfinished
        exact ⟨_, (observed.recoverThrough (Nat.zero_le _) unfinished.2
          (answers_retained recorded afterSeq)).1⟩
    | some gap =>
      have isRecord : gap = ⟨process.lastEvictedSeq, process.exitSeq⟩ := by
        change (if afterSeq < process.lastEvictedSeq then
          some (⟨process.lastEvictedSeq, process.exitSeq⟩ : ProcessOutputGap) else none) =
          some gap at isGap
        split at isGap
        · exact (Option.some.inj isGap).symm
        · cases isGap
      subst isRecord
      refine ⟨_, ((observed.mono (Nat.zero_le _)).recoverOutputGap (fun _ => Nat.zero_le _)
        (le_refl _) ?_ ?_ (le_refl _)).1⟩
      · intro _ entry member
        exact recorded.retained_of_recovered member
      intro _ seq known above _
      left
      obtain ⟨entry, member, isSeq⟩ := List.mem_map.mp
        (@Recorded.recovered_of_known _ recorded _ _
          ((process.snapshot afterSeq).exitCode.getD 0) known above)
      exact ⟨entry.2, isSeq ▸ member⟩

/-- The replay of an answer reaches the end. -/
theorem Recorded.recover_reaches (recorded : process.Recorded) (unlost : process.failure = none)
    (inside : afterSeq < process.nextSeq) :
    ∃ closed, ((replayStart afterSeq (process.exitSeq.any fun seq => seq ≤ afterSeq)).recoverEvents
        (process.snapshot afterSeq)).1 = .ok closed ∧
      process.nextSeq - 1 ≤
        ((replayStart afterSeq (process.exitSeq.any fun seq => seq ≤ afterSeq)).recoverEvents
          (process.snapshot afterSeq)).2.lastPublishedSeq := by
  have unfailed : (process.snapshot afterSeq).failure = none := unlost
  unfold recoverEvents
  rw [unfailed]
  dsimp only
  by_cases evicted : afterSeq < process.lastEvictedSeq
  · have isGap : (process.snapshot afterSeq).outputGap =
        some ⟨process.lastEvictedSeq, process.exitSeq⟩ := if_pos evicted
    rw [isGap]
    exact recorded.recoverOutputGap_reaches inside rfl ⟨rfl, rfl⟩ rfl rfl rfl
  have noGap : (process.snapshot afterSeq).outputGap = none := if_neg evicted
  rw [noGap]
  dsimp only
  by_cases short : afterSeq < process.nextSeq - 1
  · rw [if_neg]
    · exact recorded.recoverThrough_reaches (not_lt.mp evicted) short rfl ⟨⟨rfl, rfl⟩, rfl, rfl⟩ rfl
    · simp only [Bool.or_eq_true, not_or, decide_eq_true_eq, not_le]
      exact ⟨⟨Bool.false_ne_true, Bool.false_ne_true⟩, short⟩
  · have done : (process.snapshot afterSeq).nextSeq - 1 ≤ afterSeq := not_lt.mp short
    rw [if_pos]
    · exact ⟨false, rfl, done⟩
    · rw [Bool.or_eq_true, decide_eq_true_eq]
      exact .inr done

/-- Replaying the answer to a read returns what the record retains. -/
theorem Recorded.replay (recorded : process.Recorded) (unlost : process.failure = none)
    (inside : afterSeq < process.nextSeq) :
    ∃ events, replayProcessEvents afterSeq (process.exitSeq.any fun seq => seq ≤ afterSeq)
        (process.snapshot afterSeq) none = .ok events ∧
      process.Returns afterSeq events := by
  obtain ⟨budget, faithful⟩ := recorded.faithful_recover inside
  obtain ⟨closed, isOk, reached⟩ := recorded.recover_reaches unlost inside
  have bounded := @recoverEvents_sequenced afterSeq
    (process.exitSeq.any fun seq => seq ≤ afterSeq) (process.snapshot afterSeq) none _ rfl rfl
  have count := bounded.count
  have limited : _ ≤ process.nextSeq - 1 := faithful.limited
  unfold replayProcessEvents
  have assigned : ¬ (process.snapshot afterSeq).nextSeq = 0 := by
    change ¬ process.nextSeq = 0
    omega
  have accepted : ¬ replayRejected (process.snapshot afterSeq) none
      ((process.snapshot afterSeq).nextSeq - 1) = true := by
    rw [Bool.not_eq_true]
    exact recorded.replay_accepted afterSeq
  rw [if_neg assigned, if_neg accepted]
  dsimp only [insertTrigger]
  generalize (replayStart afterSeq (process.exitSeq.any fun seq =>
    decide (seq ≤ afterSeq))).recoverEvents (process.snapshot afterSeq) = result
    at faithful isOk reached count limited
  obtain ⟨outcome, recovered⟩ := result
  dsimp only at isOk faithful reached count limited
  subst isOk
  dsimp only [drainReplay]
  have done : ¬ recovered.lastPublishedSeq < (process.snapshot afterSeq).nextSeq - 1 :=
    not_lt.mpr reached
  rw [if_neg done, drainOwned, Nat.sub_eq_zero_of_le (by omega)]
  exact ⟨_, rfl, recorded.returns faithful (le_antisymm limited reached)⟩

end RunningProcess

open RunningProcess

/-- Retained reads and their interpreter agree. For every state of a process whose exit observation
    is not lost, the unbounded read after a sequence and its replay succeed and return what is
    retained after it; and a replay of any response that succeeds returns events that ascend and
    with their gaps cover the range. -/
theorem retained_reads_replayed :
    (∀ (tty sandboxed : Bool) (steps : List ProcessStep) (afterSeq : Nat),
      ((spawned tty sandboxed).run steps).failure = none →
      afterSeq < ((spawned tty sandboxed).run steps).nextSeq →
      ∃ response events,
        ((spawned tty sandboxed).run steps).execRead afterSeq none = .ok response ∧
        replayProcessEvents afterSeq
          (((spawned tty sandboxed).run steps).exitSeq.any fun seq => seq ≤ afterSeq)
          response none = .ok events ∧
        ((spawned tty sandboxed).run steps).Returns afterSeq events) ∧
    (∀ (afterSeq : Nat) (exitKnown : Bool) (response : ReadResponse)
      (trigger : Option ExecProcessEvent) (events : List ExecProcessEvent),
      replayProcessEvents afterSeq exitKnown response trigger = .ok events →
      (events.filterMap ExecProcessEvent.seq).Pairwise (· < ·) ∧
      (∀ event ∈ events, ∃ seq, event.seq = some seq ∧ afterSeq < seq ∧
        seq ≤ response.nextSeq - 1) ∧
      ∀ seq, afterSeq < seq → seq ≤ response.nextSeq - 1 →
        (InGap afterSeq events seq ↔
          ¬ ∃ event ∈ events, event.seq = some seq ∧ isGap event = false)) := by
  refine ⟨?_, ?_⟩
  · intro tty sandboxed steps afterSeq unlost inside
    have recorded := (recorded_spawned tty sandboxed).run steps
    obtain ⟨events, replayed, returns⟩ := recorded.replay unlost inside
    exact ⟨_, events, execRead_unbounded recorded inside, replayed, returns⟩
  intro afterSeq exitKnown response trigger events replayed
  obtain ⟨tiles, sequenced⟩ := replayProcessEvents_tiles replayed
  refine ⟨tiles.ascending, ?_, ?_⟩
  · intro event member
    obtain ⟨seq, isSeq⟩ := sequenced event member
    have bounds := tiles.bounds member isSeq
    exact ⟨seq, isSeq, bounds.1, by omega⟩
  intro seq above within
  refine ⟨?_, ?_⟩
  · rintro inGap ⟨event, member, isSeq, notGap⟩
    exact tiles.not_inGap member isSeq notGap inGap
  · intro uncovered
    rcases tiles.covered above (le_trans within (le_max_right _ _)) with inGap | covered
    · exact inGap
    · exact absurd covered uncovered

/-- A process that exits between two chunks and loses the end of its second stream. -/
def lossySteps : List ProcessStep :=
  [.output false [104], .exit (some 0), .output true [105], .finish false true,
    .finish true false, .beginClose false, .finishClose false]

theorem retained_reads_replayed_lossy :
    ((spawned false false).run lossySteps).failure = none ∧
      1 < ((spawned false false).run lossySteps).nextSeq ∧
      ∃ response events,
        ((spawned false false).run lossySteps).execRead 1 none = .ok response ∧
        replayProcessEvents 1
          (((spawned false false).run lossySteps).exitSeq.any fun seq => seq ≤ 1)
          response none = .ok events ∧
        ((spawned false false).run lossySteps).Returns 1 events :=
  ⟨by decide, by decide,
    retained_reads_replayed.1 false false lossySteps 1 (by decide) (by decide)⟩

end Codex.ExecServer.Process
