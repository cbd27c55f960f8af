import Codex.Lib.CharBoundary
import Codex.Lib.JsonCompact

/-!
# The storage of a thread queue

`app-server-handlers/src/request_processors/thread_queue.rs`: the persisted queue and
`Queue::encode_with_budget`. The JSON of strings and of a user input is a parameter.
-/

namespace Codex.ThreadQueue

open JsonText Text

variable {UserInput : Type}

/-- `QueuedSubmission` (`protocol/v2/thread_queue.rs:12`). -/
structure QueuedSubmission (UserInput : Type) where
  id : String
  clientUserMessageId : Option String
  input : List UserInput

structure QueueTaskObservation where
  version : Nat
  acceptedAtUnixMs : Nat
  executionStartedAtUnixMs : Option Nat

structure PendingStart where
  submissionId : String
  turnId : String

structure AcceptedSubmission (UserInput : Type) where
  submission : QueuedSubmission UserInput
  turnId : String

/-- `Queue` (`thread_queue.rs:64`). -/
structure Queue (UserInput : Type) where
  version : Nat
  revision : Nat
  submissions : List (QueuedSubmission UserInput)
  paused : Bool
  pendingStart : Option PendingStart
  accepted : List (AcceptedSubmission UserInput)
  /-- Immutable execution inputs; submissions retain the original input. -/
  executionInputs : AList (fun _ : String => List UserInput)
  taskObservations : AList (fun _ : String => QueueTaskObservation)

variable [StringWriter]

def stringText (text : String) : List UInt8 := string (utf8 text)

def observationText (observation : QueueTaskObservation) : List UInt8 :=
  object [member "version" (decimal observation.version),
    member "acceptedAtUnixMs" (decimal observation.acceptedAtUnixMs),
    member "executionStartedAtUnixMs" (nullable decimal observation.executionStartedAtUnixMs)]

def pendingStartText (pending : PendingStart) : List UInt8 :=
  object [member "submissionId" (stringText pending.submissionId),
    member "turnId" (stringText pending.turnId)]

section Encoding

variable (inputText : UserInput → List UInt8)

def submissionText (submission : QueuedSubmission UserInput) : List UInt8 :=
  object [member "id" (stringText submission.id),
    member "clientUserMessageId" (nullable stringText submission.clientUserMessageId),
    member "input" (array (submission.input.map inputText))]

def acceptedText (accepted : AcceptedSubmission UserInput) : List UInt8 :=
  object [member "submission" (submissionText inputText accepted.submission),
    member "turnId" (stringText accepted.turnId)]

/-- A `HashMap`, in the order in which it is iterated. -/
def mapText {β : Type} (text : β → List UInt8) (map : AList (fun _ : String => β)) : List UInt8 :=
  object (map.entries.map fun entry => member entry.1 (text entry.2))

/-- `serde_json::to_string` of a queue. -/
def queueText (queue : Queue UserInput) : List UInt8 :=
  object [member "version" (decimal queue.version),
    member "revision" (decimal queue.revision),
    member "submissions" (array (queue.submissions.map (submissionText inputText))),
    member "paused" (bool queue.paused),
    member "pendingStart" (nullable pendingStartText queue.pendingStart),
    member "accepted" (array (queue.accepted.map (acceptedText inputText))),
    member "executionInputs"
      (mapText (fun inputs => array (inputs.map inputText)) queue.executionInputs),
    member "taskObservations" (mapText observationText queue.taskObservations)]

/-- The loop over the accepted submissions (`thread_queue.rs:126`): the bytes that are left, the
    number of evicted submissions, and the observations that are left. -/
def evictLoop (maxBytes total : Nat) : List (AcceptedSubmission UserInput) → Nat → Nat →
    AList (fun _ : String => QueueTaskObservation) →
    Option (Nat × Nat × AList (fun _ : String => QueueTaskObservation))
  | [], bytes, evicted, observations => some (bytes, evicted, observations)
  | accepted :: rest, bytes, evicted, observations =>
      if bytes ≤ maxBytes then some (bytes, evicted, observations)
      else
        (checkedSub bytes ((acceptedText inputText accepted).length +
          if 1 < total - evicted then 1 else 0)).bind fun bytes =>
          let id := accepted.submission.id
          ((observations.lookup id).elim (some bytes) fun observation =>
            checkedSub bytes ((stringText id).length + 1 + (observationText observation).length +
              if 1 < observations.entries.length then 1 else 0)).bind fun bytes =>
            evictLoop maxBytes total rest bytes (evicted + 1) (observations.erase id)

inductive QueueError where
  | invalidParams (message : String)
  deriving DecidableEq, Repr

/-- `Queue::encode_with_budget` (`thread_queue.rs:122`): the text or the error, and the queue that
    is left. It is `none` where the count of bytes underflows. -/
def encodeWithBudget (queue : Queue UserInput) (maxBytes : Nat) :
    Option (Except QueueError (List UInt8) × Queue UserInput) :=
  let payload := queueText inputText queue
  (evictLoop inputText maxBytes queue.accepted.length queue.accepted payload.length 0
    queue.taskObservations).map fun left =>
    let evictedQueue : Queue UserInput :=
      { queue with accepted := queue.accepted.drop left.2.1, taskObservations := left.2.2 }
    if maxBytes < left.1 then
      (.error (.invalidParams "thread queue exceeds its storage limit"), evictedQueue)
    else if left.2.1 = 0 then (.ok payload, evictedQueue)
    else (.ok (queueText inputText evictedQueue), evictedQueue)

end Encoding

/-- The observations without those of evicted submissions. -/
def eraseAll (evicted : List (AcceptedSubmission UserInput))
    (observations : AList (fun _ : String => QueueTaskObservation)) :
    AList (fun _ : String => QueueTaskObservation) :=
  evicted.foldl (fun left accepted => left.erase accepted.submission.id) observations

/-- The queue without a prefix of its accepted submissions and their observations. -/
def Queue.evict (queue : Queue UserInput) (count : Nat) : Queue UserInput :=
  { queue with
    accepted := queue.accepted.drop count
    taskObservations := eraseAll (queue.accepted.take count) queue.taskObservations }

omit [StringWriter] in
theorem lookup_eraseAll (evicted : List (AcceptedSubmission UserInput))
    (observations : AList (fun _ : String => QueueTaskObservation)) (id : String) :
    (eraseAll evicted observations).lookup id =
      if id ∈ evicted.map (·.submission.id) then none else observations.lookup id := by
  induction evicted generalizing observations with
  | nil => simp only [eraseAll, List.foldl_nil, List.map_nil, List.not_mem_nil, if_false]
  | cons accepted evicted ih =>
    rw [eraseAll, List.foldl_cons, ← eraseAll, ih, Machine.lookup_erase_eq, List.map_cons]
    by_cases same : id = accepted.submission.id
    · simp only [same, if_true, ite_self, List.mem_cons, true_or]
    · simp only [same, if_false, List.mem_cons, false_or]

section Lengths

variable (inputText : UserInput → List UInt8)

/-- What the two containers of a queue contribute to the length of its JSON. -/
theorem length_queueText (queue : Queue UserInput) (accepted : List (AcceptedSubmission UserInput))
    (observations : AList (fun _ : String => QueueTaskObservation)) :
    (queueText inputText queue).length +
        ((array (accepted.map (acceptedText inputText))).length +
          (mapText observationText observations).length) =
      (queueText inputText
          { queue with accepted := accepted, taskObservations := observations }).length +
        ((array (queue.accepted.map (acceptedText inputText))).length +
          (mapText observationText queue.taskObservations).length) := by
  simp only [queueText, length_object, length_commaJoin, List.map_cons, List.map_nil,
    List.sum_cons, List.sum_nil, List.length_cons, List.length_nil, length_member]
  omega

theorem length_array_cons (accepted : AcceptedSubmission UserInput)
    (rest : List (AcceptedSubmission UserInput)) :
    (array ((accepted :: rest).map (acceptedText inputText))).length =
      (array (rest.map (acceptedText inputText))).length +
        ((acceptedText inputText accepted).length + if 1 < rest.length + 1 then 1 else 0) := by
  rw [length_array, length_array, List.map_cons, length_commaJoin_cons]
  cases rest with
  | nil =>
    simp only [List.map_nil, if_true, List.length_nil, Nat.zero_add, lt_irrefl, if_false]
    omega
  | cons next rest =>
    simp only [List.map_cons, List.cons_ne_nil, if_false, List.length_cons]
    rw [if_pos (by omega)]
    omega

theorem length_mapText_erase {β : Type} (text : β → List UInt8) {map : AList (fun _ : String => β)}
    {key : String} {value : β} (found : map.lookup key = some value) :
    (mapText text map).length = (mapText text (map.erase key)).length +
      ((stringText key).length + 1 + (text value).length +
        if 1 < map.entries.length then 1 else 0) := by
  have permuted := (Machine.entries_perm_erase found).map fun entry => member entry.1 (text entry.2)
  have count := Machine.length_erase found
  rw [mapText, mapText, length_object, length_object, length_commaJoin_perm permuted,
    List.map_cons, length_commaJoin_cons, length_member, stringText]
  by_cases only : (map.erase key).entries = []
  · rw [only, List.length_nil] at count
    rw [only, count]
    simp
    omega
  · have more : 0 < (map.erase key).entries.length := List.length_pos_of_ne_nil only
    rw [if_neg (by simpa using only), if_pos (by omega)]
    dsimp only
    omega

/-- The bytes of the observation of an accepted submission. -/
def observationBytes (id : String) (observations : AList (fun _ : String => QueueTaskObservation)) :
    Nat :=
  ((observations.lookup id).map fun observation =>
    (stringText id).length + 1 + (observationText observation).length +
      if 1 < observations.entries.length then 1 else 0).getD 0

/-- An evicted submission takes its own bytes and those of its observation. -/
theorem length_evict_one {queue : Queue UserInput} {accepted : AcceptedSubmission UserInput}
    {rest : List (AcceptedSubmission UserInput)} (isAccepted : queue.accepted = accepted :: rest) :
    (queueText inputText queue).length = (queueText inputText (queue.evict 1)).length +
      ((acceptedText inputText accepted).length + if 1 < rest.length + 1 then 1 else 0) +
      observationBytes accepted.submission.id queue.taskObservations := by
  have lengths := length_queueText inputText queue rest
    (queue.taskObservations.erase accepted.submission.id)
  rw [isAccepted, length_array_cons] at lengths
  have evicted : queue.evict 1 = { queue with
      accepted := rest
      taskObservations := queue.taskObservations.erase accepted.submission.id } := by
    rw [Queue.evict, isAccepted]
    rfl
  rw [evicted]
  cases found : queue.taskObservations.lookup accepted.submission.id with
  | none =>
    rw [Machine.erase_of_absent found] at lengths ⊢
    rw [observationBytes, found, Option.map_none, Option.getD_none]
    omega
  | some observation =>
    rw [length_mapText_erase observationText found] at lengths
    rw [observationBytes, found, Option.map_some, Option.getD_some]
    omega

omit [StringWriter] in
theorem evict_add (queue : Queue UserInput) (count more : Nat) :
    queue.evict (count + more) = (queue.evict count).evict more := by
  simp only [Queue.evict, List.drop_drop, List.take_add, eraseAll, List.foldl_append]

omit [StringWriter] in
theorem evict_zero (queue : Queue UserInput) : queue.evict 0 = queue := rfl

theorem length_evict_le (queue : Queue UserInput) (count : Nat) :
    (queueText inputText (queue.evict count)).length ≤ (queueText inputText queue).length := by
  induction count generalizing queue with
  | zero => exact Nat.le_refl _
  | succ count ih =>
    rw [Nat.add_comm, evict_add]
    apply (ih (queue.evict 1)).trans
    cases isAccepted : queue.accepted with
    | nil =>
      have same : queue.evict 1 = queue := by
        rw [Queue.evict, isAccepted]
        cases queue
        cases isAccepted
        rfl
      rw [same]
    | cons accepted rest =>
      rw [length_evict_one inputText isAccepted, Nat.add_assoc]
      exact Nat.le_add_right _ _

theorem elim_checkedSub (id : String)
    (observations : AList (fun _ : String => QueueTaskObservation)) (bytes : Nat) :
    ((observations.lookup id).elim (some bytes) fun observation =>
      checkedSub bytes ((stringText id).length + 1 + (observationText observation).length +
        if 1 < observations.entries.length then 1 else 0)) =
      checkedSub bytes (observationBytes id observations) := by
  unfold observationBytes
  cases observations.lookup id with
  | none =>
    rw [Option.map_none, Option.getD_none, checkedSub, if_pos (Nat.zero_le bytes)]
    rfl
  | some observation => rfl

/-- The loop stops at the first queue that fits. -/
theorem evictLoop_spec {maxBytes total evicted : Nat} (queue : Queue UserInput)
    (size : total = evicted + queue.accepted.length) :
    ∃ count ≤ queue.accepted.length,
      evictLoop inputText maxBytes total queue.accepted (queueText inputText queue).length evicted
          queue.taskObservations =
        some ((queueText inputText (queue.evict count)).length, evicted + count,
          (queue.evict count).taskObservations) ∧
      (∀ fewer < count, maxBytes < (queueText inputText (queue.evict fewer)).length) ∧
      ((queueText inputText (queue.evict count)).length ≤ maxBytes ∨
        count = queue.accepted.length) := by
  generalize isAccepted : queue.accepted = pending at *
  induction pending generalizing queue evicted with
  | nil =>
    refine ⟨0, Nat.le_refl _, ?_, fun _ less => absurd less (Nat.not_lt_zero _), .inr rfl⟩
    rw [evictLoop, evict_zero, Nat.add_zero]
  | cons accepted rest ih =>
    rw [evictLoop]
    by_cases fits : (queueText inputText queue).length ≤ maxBytes
    · refine ⟨0, Nat.zero_le _, ?_, fun _ less => absurd less (Nat.not_lt_zero _), .inl fits⟩
      rw [if_pos fits, evict_zero, Nat.add_zero]
    have bytes := length_evict_one inputText isAccepted
    have left : total - evicted = rest.length + 1 := by
      rw [size, List.length_cons, Nat.add_sub_cancel_left]
    have next : (queue.evict 1).accepted = rest := by
      rw [Queue.evict, isAccepted]
      rfl
    have observations : (queue.evict 1).taskObservations =
        queue.taskObservations.erase accepted.submission.id := by
      rw [Queue.evict, isAccepted]
      rfl
    obtain ⟨count, le, looped, before, stops⟩ := @ih (evicted + 1) (queue.evict 1) next
      (by rw [size, List.length_cons]; omega)
    refine ⟨1 + count, by rw [List.length_cons]; omega, ?_, ?_, ?_⟩
    · rw [if_neg fits, left, bytes, Nat.add_assoc, Nat.add_left_comm, checkedSub_add,
        Option.bind_some]
      dsimp only
      rw [elim_checkedSub, Nat.add_comm, checkedSub_add, Option.bind_some, ← observations,
        looped, evict_add, Nat.add_assoc]
    · intro fewer less
      cases fewer with
      | zero => exact Nat.not_le.mp fits
      | succ fewer =>
        rw [Nat.add_comm, evict_add]
        exact before fewer (by omega)
    · rw [evict_add, List.length_cons]
      exact stops.imp_right fun same => by omega

/-- The budget decides whether the queue is stored, and only the evicted submissions and their
    observations are lost. -/
theorem encodeWithBudget_exact (queue : Queue UserInput) (maxBytes : Nat) :
    ∃ outcome, encodeWithBudget inputText queue maxBytes = some outcome ∧
      ((∃ text, outcome.1 = .ok text) ↔
        (queueText inputText (queue.evict queue.accepted.length)).length ≤ maxBytes) ∧
      ∀ text, outcome.1 = .ok text → ∃ count ≤ queue.accepted.length,
        outcome.2 = queue.evict count ∧ text = queueText inputText (queue.evict count) ∧
        text.length ≤ maxBytes ∧
        (∀ fewer < count, maxBytes < (queueText inputText (queue.evict fewer)).length) ∧
        outcome.2.accepted = queue.accepted.drop count ∧
        outcome.2.submissions = queue.submissions ∧
        outcome.2.executionInputs = queue.executionInputs ∧
        ∀ id, outcome.2.taskObservations.lookup id =
          if id ∈ (queue.accepted.take count).map (·.submission.id) then none
          else queue.taskObservations.lookup id := by
  obtain ⟨count, le, looped, before, stops⟩ :=
    @evictLoop_spec _ _ inputText maxBytes queue.accepted.length 0 queue (Nat.zero_add _).symm
  rw [encodeWithBudget]
  dsimp only
  rw [looped, Option.map_some, Nat.zero_add]
  refine ⟨_, rfl, ?_⟩
  dsimp only
  have evicted : ({ queue with
      accepted := queue.accepted.drop count
      taskObservations := (queue.evict count).taskObservations } : Queue UserInput) =
      queue.evict count := rfl
  rw [evicted]
  by_cases exceeds : maxBytes < (queueText inputText (queue.evict count)).length
  · rw [if_pos exceeds]
    have all := stops.resolve_left (Nat.not_le.mpr exceeds)
    rw [all] at exceeds
    refine ⟨iff_of_false ?_ (Nat.not_le.mpr exceeds), ?_⟩
    · rintro ⟨text, isText⟩
      cases isText
    · intro text isText
      cases isText
  have fits := Nat.not_lt.mp exceeds
  have stored : (if count = 0 then (Except.ok (queueText inputText queue), queue.evict count)
      else (.ok (queueText inputText (queue.evict count)), queue.evict count) :
        Except QueueError (List UInt8) × Queue UserInput) =
      (.ok (queueText inputText (queue.evict count)), queue.evict count) := by
    by_cases zero : count = 0
    · rw [if_pos zero, zero, evict_zero]
    · rw [if_neg zero]
  rw [if_neg exceeds, stored]
  refine ⟨iff_of_true ⟨_, rfl⟩ ?_, ?_⟩
  · obtain ⟨more, isMore⟩ := Nat.exists_eq_add_of_le le
    rw [isMore, evict_add]
    exact (length_evict_le inputText _ more).trans fits
  · intro text isText
    cases isText
    exact ⟨count, le, rfl, rfl, fits, before, rfl, rfl, rfl, lookup_eraseAll _ _⟩

end Lengths

end Codex.ThreadQueue
