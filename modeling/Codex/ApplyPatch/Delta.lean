import Codex.Lib.Journal
import Codex.ApplyPatch.Apply

/-!
# What the delta says while hunks are written

The changes of a delta are edits of endpoints. While no write has failed, they are a journal of
the run: replaying them over the files that the run started from gives the files it has left.
The lemmas of this module follow the write path of `apply_hunks_to_files`
(`apply-patch/src/lib.rs:857`) and say in which of three ways a failed write can leave it.
-/

namespace Codex.ApplyPatch

open Codex.Hoare

variable {PathUri Endpoint : Type}

section Edits

variable (host : Host PathUri Endpoint)

/-- The writes of a change, in order. -/
def AppliedPatchChange.edits (applied : AppliedPatchChange PathUri) :
    List (Edit Endpoint (Option Text)) :=
  let path := host.endpoint applied.pathUri
  match applied.change with
  | .add content overwrittenContent => [⟨path, overwrittenContent, some content⟩]
  | .delete content => [⟨path, some content, none⟩]
  | .update none oldContent _ newContent => [⟨path, some oldContent, some newContent⟩]
  | .update (some dest) oldContent overwrittenMoveContent newContent =>
      [⟨host.endpoint dest, overwrittenMoveContent, some newContent⟩,
        ⟨path, some oldContent, none⟩]

def changeEdits (changes : List (AppliedPatchChange PathUri)) :
    List (Edit Endpoint (Option Text)) :=
  changes.flatMap (·.edits host)

theorem changeEdits_append (first second : List (AppliedPatchChange PathUri)) :
    changeEdits host (first ++ second) = changeEdits host first ++ changeEdits host second :=
  List.flatMap_append

theorem changeEdits_snoc (changes : List (AppliedPatchChange PathUri))
    (applied : AppliedPatchChange PathUri) :
    changeEdits host (changes ++ [applied]) = changeEdits host changes ++ applied.edits host := by
  rw [changeEdits_append]
  simp [changeEdits]

/-- A recorded move carries the URI of its destination. -/
def AppliedPatchChange.Whole (applied : AppliedPatchChange PathUri) : Prop :=
  match applied.change with
  | .update (some dest) _ _ _ => applied.movePathUri = some dest
  | _ => True

/-- A missing file is neither a conflict nor an unfinished recovery. -/
theorem isNotFound_plain {failure : Failure PathUri} (notFound : failure.isNotFound = true) :
    failure.recoveryPath = none ∧ failure.isNoWriteConflict = false := by
  unfold Failure.isNotFound at notFound
  unfold Failure.recoveryPath Failure.isNoWriteConflict
  split at notFound
  next root => exact ⟨by rw [root], by rw [root]⟩
  next => cases notFound

theorem createParent_holds {schedule : Schedule} {state : RunState PathUri Endpoint} (index : Nat) (path : PathUri) :
    Holds (fun _ next => next = state)
      (fun failure next => failure.recoveryPath = none ∧ failure.isNoWriteConflict = false ∧
        next = state)
      ((createParent host schedule index path).from state) := by
  unfold createParent
  split
  · exact ⟨rfl, rfl, rfl⟩
  · rfl

end Edits

section Replay

variable [DecidableEq Endpoint] (host : Host PathUri Endpoint)

/-- The files after one change: an addition sets the content, a deletion removes it, an update
    sets the new content, and a move sets the destination and removes the source. -/
def replayChange (files : Files Endpoint) (applied : AppliedPatchChange PathUri) :
    Files Endpoint :=
  match applied.change with
  | .add content _ => Function.update files (host.endpoint applied.pathUri) (some content)
  | .delete _ => Function.update files (host.endpoint applied.pathUri) none
  | .update none _ _ newContent =>
      Function.update files (host.endpoint applied.pathUri) (some newContent)
  | .update (some dest) _ _ newContent =>
      Function.update (Function.update files (host.endpoint dest) (some newContent))
        (host.endpoint applied.pathUri) none

def replayChanges (files : Files Endpoint) (changes : List (AppliedPatchChange PathUri)) :
    Files Endpoint :=
  changes.foldl (replayChange host) files

theorem replayChange_edits (files : Files Endpoint) (applied : AppliedPatchChange PathUri) :
    replayChange host files applied = replay files (applied.edits host) := by
  unfold replayChange AppliedPatchChange.edits
  split <;> rfl

/-- Replaying changes is replaying their writes. -/
theorem replayChanges_edits (files : Files Endpoint) (changes : List (AppliedPatchChange PathUri)) :
    replayChanges host files changes = replay files (changeEdits host changes) := by
  induction changes generalizing files with
  | nil => rfl
  | cons applied changes ih =>
    show replayChanges host (replayChange host files applied) changes = _
    rw [ih, replayChange_edits, ← replay_append]
    rfl

end Replay

namespace MutationStep

def Succeeded (step : MutationStep) : Prop :=
  step.outcome = .ok .committed ∨ step.outcome = .ok .unchanged

/-- An error or a conflict that left the content as it was. -/
def FailedCleanly (step : MutationStep) : Prop :=
  step.after = step.before ∧ (step.outcome = .ok .conflict ∨ step.outcome.isOk = false)

/-- A forward mutation succeeds or fails without effect; a rollback mutation succeeds. -/
def Clean (step : MutationStep) : Prop :=
  step.Succeeded ∨ (step.phase ≠ .rollback ∧ step.FailedCleanly)

/-- A retry that reports a conflict found the expected content: its first attempt left none
    of its own. -/
def Meets (step : MutationStep) : Prop :=
  step.phase = .retry → step.outcome = .ok .conflict → step.before = step.expected

instance (step : MutationStep) : Decidable step.Clean :=
  inferInstanceAs (Decidable ((_ ∨ _) ∨ (_ ∧ _ ∧ (_ ∨ _))))

instance (step : MutationStep) : Decidable step.Meets :=
  inferInstanceAs (Decidable (_ → _ → _))

end MutationStep

section Specs

variable [DecidableEq Endpoint] {host : Host PathUri Endpoint} {schedule : Schedule}
  {state : RunState PathUri Endpoint}

/-- The state after a mutation step. -/
def RunState.mutated (host : Host PathUri Endpoint) (state : RunState PathUri Endpoint)
    (path : PathUri) (step : MutationStep) (exact : Bool) : RunState PathUri Endpoint :=
  { files := Function.update state.files (host.endpoint path) step.after
    log := state.log ++ [step]
    delta := { state.delta with exact } }

/-- The five ways in which a mutation ends. It fails only under a fault or over another content
    than the expected one. -/
theorem mutationEffect_cases (fault : Fault) (content expected replacement : Option Text) :
    (mutationEffect fault content expected replacement = (replacement, .ok .committed) ∧
        content = expected ∧ expected ≠ replacement) ∨
      (mutationEffect fault content expected replacement = (replacement, .ok .unchanged) ∧
        content = expected ∧ expected = replacement) ∨
      (fault ≠ .none ∨ content ≠ expected) ∧
        (mutationEffect fault content expected replacement = (content, .ok .conflict) ∨
          (∃ left retainedPath message, mutationEffect fault content expected replacement =
            (left, .ok (.recoveryRequired retainedPath message))) ∨
          (∃ left error, mutationEffect fault content expected replacement =
            (left, .error error))) := by
  cases fault with
  | none =>
    simp only [mutationEffect]
    by_cases same : content = expected
    · by_cases unchanged : expected = replacement
      · exact .inr (.inl ⟨by simp [same, unchanged], same, unchanged⟩)
      · exact .inl ⟨by simp [same, unchanged], same, unchanged⟩
    · exact .inr (.inr ⟨.inr same, .inl (by simp [same])⟩)
  | conflict => exact .inr (.inr ⟨.inl nofun, .inl rfl⟩)
  | recoveryRequired left retainedPath message =>
    exact .inr (.inr ⟨.inl nofun, .inr (.inl ⟨left, retainedPath, message, rfl⟩)⟩)
  | io error left => exact .inr (.inr ⟨.inl nofun, .inr (.inr ⟨left.getD content, error, rfl⟩)⟩)

/-- What a mutation step that failed did, and the error that it raises. -/
structure StepFailed (step : MutationStep) (failure : Failure PathUri) : Prop where
  failed : ¬ step.Succeeded
  conflict : failure.isNoWriteConflict = true →
    step.outcome = .ok .conflict ∧ step.after = step.before
  noConflict : failure.isNoWriteConflict = false → step.outcome ≠ .ok .conflict
  recovery : failure.recoveryPath ≠ none → ¬ step.FailedCleanly

variable {step : MutationStep} {path : PathUri} {expected : Option Text} {failure : Failure PathUri}
   {next : RunState PathUri Endpoint} {steps : List MutationStep}

theorem MutationStep.not_succeeded (step : MutationStep)
    (uncommitted : step.outcome ≠ .ok .committed) (changed : step.outcome ≠ .ok .unchanged) :
    ¬ step.Succeeded :=
  not_or.mpr ⟨uncommitted, changed⟩

theorem stepFailed_conflict (outcome : step.outcome = .ok .conflict)
    (kept : step.after = step.before) (path : PathUri) :
    StepFailed step (.noWriteConflict path) where
  failed := step.not_succeeded (by simp [outcome]) (by simp [outcome])
  conflict _ := ⟨outcome, kept⟩
  noConflict other := by cases other
  recovery none := absurd rfl none

theorem stepFailed_recovery {retainedPath message : Text}
    (outcome : step.outcome = .ok (.recoveryRequired retainedPath message)) (path : PathUri) :
    StepFailed step (.recoveryRequired path retainedPath message) where
  failed := step.not_succeeded (by simp [outcome]) (by simp [outcome])
  conflict other := by cases other
  noConflict _ conflict := by cases outcome.symm.trans conflict
  recovery _ clean := by
    rcases clean.2 with conflict | failed
    · cases outcome.symm.trans conflict
    · rw [outcome] at failed
      cases failed

theorem stepFailed_io {error : IoError}
    (outcome : step.outcome = .error error) : StepFailed step (.io error : Failure PathUri) where
  failed := step.not_succeeded (by simp [outcome]) (by simp [outcome])
  conflict other := by cases other
  noConflict _ conflict := by cases outcome.symm.trans conflict
  recovery none := absurd rfl none

/-- What a conditional mutation makes of the outcome of its call. -/
def settleMutation (host : Host PathUri Endpoint) (path : PathUri) (replacement : Option Text) :
    Except IoError FileMutationOutcome → Apply PathUri Endpoint (Option WriteReceipt)
  | .error error => throw (.io error)
  | .ok .committed => return replacement.map (fun text => ⟨host.sha256 text, Text.utf8Len text⟩)
  | .ok .unchanged => return none
  | .ok .conflict => throw (.noWriteConflict path)
  | .ok (.recoveryRequired retainedPath message) => do
      setExact (fun _ => false)
      throw (.recoveryRequired path retainedPath message)

/-- One conditional mutation: it replaces the expected content, or it raises an error. -/
theorem conditionalMutation_holds (phase : Phase) (path : PathUri)
    (expected replacement : Option Text) :
    Holds
      (fun receipt next => state.files (host.endpoint path) = expected ∧
        (receipt = none → replacement = none ∨ expected = replacement) ∧
        (receipt.isSome → expected ≠ replacement) ∧
        ∃ step : MutationStep, step.phase = phase ∧ step.after = replacement ∧ step.Succeeded ∧
          next = state.mutated host path step state.delta.exact)
      (fun failure next => ∃ step : MutationStep, step.phase = phase ∧ step.expected = expected ∧
        step.before = state.files (host.endpoint path) ∧ StepFailed step failure ∧
        (schedule.mutation state.log.length ≠ .none ∨
          state.files (host.endpoint path) ≠ expected) ∧
        next = state.mutated host path step
          (state.delta.exact && failure.recoveryPath.isNone))
      ((conditionalMutation host schedule phase path expected replacement).from state) := by
  let content := state.files (host.endpoint path)
  generalize ends : mutationEffect (schedule.mutation state.log.length) content expected
    replacement = effect
  let step : MutationStep := ⟨phase, expected, content, effect.1, effect.2⟩
  have run : (conditionalMutation host schedule phase path expected replacement).from state =
      (settleMutation host path replacement effect.2).from
        (state.mutated host path step state.delta.exact) := by
    subst ends
    rfl
  have kept : (state.delta.exact && Option.isNone (none : Option PathUri)) = state.delta.exact :=
    Bool.and_true _
  rw [run]
  rcases mutationEffect_cases (schedule.mutation state.log.length) content expected replacement with
    ⟨committed, same, changes⟩ | ⟨unchanged, same, equal⟩ | ⟨disturbed, conflict |
    ⟨left, retainedPath, message, recovery⟩ | ⟨left, error, failed⟩⟩
  · obtain rfl := ends.symm.trans committed
    refine ⟨same, ?_, fun _ => changes, step, rfl, rfl, .inl rfl, rfl⟩
    intro none
    exact .inl (Option.map_eq_none_iff.mp none)
  · obtain rfl := ends.symm.trans unchanged
    exact ⟨same, fun _ => .inr equal, fun present => absurd present Bool.false_ne_true, step, rfl, rfl,
      .inr rfl, rfl⟩
  · obtain rfl := ends.symm.trans conflict
    refine ⟨step, rfl, rfl, rfl, stepFailed_conflict rfl rfl path, disturbed, ?_⟩
    rw [show (Failure.noWriteConflict path).recoveryPath = none from rfl, kept]
  · obtain rfl := ends.symm.trans recovery
    refine ⟨step, rfl, rfl, rfl, stepFailed_recovery rfl path, disturbed, ?_⟩
    rw [show (Failure.recoveryRequired path retainedPath message).recoveryPath = some path from rfl,
      Option.isNone_some, Bool.and_false]
    rfl
  · obtain rfl := ends.symm.trans failed
    refine ⟨step, rfl, rfl, rfl, stepFailed_io rfl, disturbed, ?_⟩
    rw [show (Failure.io error : Failure PathUri).recoveryPath = none from rfl, kept]

/-- A write that succeeded, with one attempt or two. -/
structure Written (host : Host PathUri Endpoint) (path : PathUri)
    (expected replacement : Option Text) (state : RunState PathUri Endpoint)
    (receipt : Option WriteReceipt) (next : RunState PathUri Endpoint) : Prop where
  files : next.files = Function.update state.files (host.endpoint path) replacement
  delta : next.delta = state.delta
  log : ∃ steps, next.log = state.log ++ steps ∧ ∀ step ∈ steps, step.Meets
  noReceipt : receipt = none → replacement = none ∨ expected = replacement
  someReceipt : receipt.isSome → expected ≠ replacement

/-- A write that failed: only its endpoint can have changed. A conflict is reported over
    another content than the expected one only by a retry. -/
structure WriteFailed (host : Host PathUri Endpoint) (path : PathUri) (expected : Option Text)
    (retries : Prop) (state : RunState PathUri Endpoint) (failure : Failure PathUri)
    (next : RunState PathUri Endpoint) (steps : List MutationStep) : Prop where
  files : next.files =
    Function.update state.files (host.endpoint path) (next.files (host.endpoint path))
  delta : next.delta =
    { state.delta with exact := state.delta.exact && failure.recoveryPath.isNone }
  log : next.log = state.log ++ steps
  clean : (∀ step ∈ steps, step.Clean) →
    next.files (host.endpoint path) = state.files (host.endpoint path) ∧
      failure.recoveryPath = none
  meets : failure.isNoWriteConflict = false ∨ next.files (host.endpoint path) = expected →
    ∀ step ∈ steps, step.Meets
  stray : failure.isNoWriteConflict = true → next.files (host.endpoint path) ≠ expected →
    retries ∧ ¬ ∀ step ∈ steps, step.Meets

theorem mutated_endpoint (path : PathUri) (step : MutationStep) (exact : Bool) :
    (state.mutated host path step exact).files (host.endpoint path) = step.after :=
  Function.update_self _ _ _

/-- A conditional mutation of the write path. -/
theorem conditionalMutation_writes (phase : Phase) (path : PathUri)
    (expected replacement : Option Text) (notRollback : phase ≠ .rollback)
    (known : phase = .forward → state.files (host.endpoint path) = expected) :
    Holds (Written host path expected replacement state)
      (fun failure next => ∃ steps, WriteFailed host path expected (phase = .retry) state failure
        next steps)
      ((conditionalMutation host schedule phase path expected replacement).from state) := by
  refine (conditionalMutation_holds phase path expected replacement).mono ?_ ?_
  · rintro receipt next ⟨-, noReceipt, someReceipt, step, isPhase, after, succeeded, rfl⟩
    refine ⟨?_, rfl, ⟨[step], rfl, ?_⟩, noReceipt, someReceipt⟩
    · rw [← after]
      rfl
    · intro other member _ conflict
      obtain rfl := List.mem_singleton.mp member
      rcases succeeded with committed | unchanged
      · cases committed.symm.trans conflict
      · cases unchanged.symm.trans conflict
  rintro failure next ⟨step, rfl, rfl, before, failed, -, rfl⟩
  refine ⟨[step], ?_, rfl, rfl, ?_, ?_, ?_⟩
  · rw [mutated_endpoint]
    rfl
  · intro clean
    have cleanly := ((clean step (List.mem_singleton_self _)).resolve_left failed.failed).2
    refine ⟨?_, by_contra (fun recovery => failed.recovery recovery cleanly)⟩
    rw [mutated_endpoint, cleanly.1, before]
  · intro known' other member _ conflict
    obtain rfl := List.mem_singleton.mp member
    rw [mutated_endpoint] at known'
    rcases known' with noConflict | same
    · exact absurd conflict (failed.noConflict noConflict)
    · cases isConflict : failure.isNoWriteConflict with
      | false => exact absurd conflict (failed.noConflict isConflict)
      | true => rw [← (failed.conflict isConflict).2, same]
  intro isConflict other
  obtain ⟨conflict, unchanged⟩ := failed.conflict isConflict
  rw [mutated_endpoint, unchanged] at other
  have retries : step.phase = .retry := by
    cases isPhase : step.phase with
    | forward => exact absurd (before.trans (known isPhase)) other
    | retry => rfl
    | rollback => exact absurd isPhase notRollback
  exact ⟨retries, fun meets => other (meets step (List.mem_singleton_self _) retries conflict)⟩

/-- The errors under a context, and those that a retry follows, are seen through it. -/
theorem WriteFailed.withFailure {retries retries' : Prop} {failure' : Failure PathUri}
    (failed : WriteFailed host path expected retries state failure next steps)
    (recovery : failure'.recoveryPath = failure.recoveryPath)
    (conflict : failure'.isNoWriteConflict = failure.isNoWriteConflict)
    (weakens : retries → retries') :
    WriteFailed host path expected retries' state failure' next steps := by
  refine ⟨failed.files, ?_, failed.log, ?_, ?_, ?_⟩
  · rw [recovery]
    exact failed.delta
  · rw [recovery]
    exact failed.clean
  · rw [conflict]
    exact failed.meets
  · rw [conflict]
    exact fun isConflict other => (failed.stray isConflict other).imp weakens id

/-- A retry after a failed first attempt. -/
theorem WriteFailed.retried {first second : Prop} {failure' : Failure PathUri}
    {middle : RunState PathUri Endpoint} {steps' : List MutationStep}
    (failed : WriteFailed host path expected first state failure middle steps)
    (noRecovery : failure.recoveryPath = none) (noConflict : failure.isNoWriteConflict = false)
    (again : WriteFailed host path expected second middle failure' next steps') :
    WriteFailed host path expected True state failure' next (steps ++ steps') := by
  have earlier : ∀ step ∈ steps, step.Meets := failed.meets (.inl noConflict)
  refine ⟨?_, ?_, ?_, ?_, ?_, ?_⟩
  · rw [again.files, failed.files, Function.update_idem, Function.update_self]
  · rw [again.delta, failed.delta, noRecovery, Option.isNone_none, Bool.and_true]
  · rw [again.log, failed.log, List.append_assoc]
  · intro clean
    obtain ⟨unchanged, -⟩ := failed.clean (fun step member =>
      clean step (List.mem_append_left _ member))
    obtain ⟨unchanged', noRecovery'⟩ := again.clean (fun step member =>
      clean step (List.mem_append_right _ member))
    exact ⟨unchanged'.trans unchanged, noRecovery'⟩
  · intro known step member
    rcases List.mem_append.mp member with inFirst | inSecond
    · exact earlier step inFirst
    · exact again.meets known step inSecond
  · intro conflict other
    refine ⟨trivial, fun meets => (again.stray conflict other).2 ?_⟩
    exact fun step member => meets step (List.mem_append_right _ member)

theorem Written.retried {replacement : Option Text} {first : Prop} {receipt : Option WriteReceipt}
    {middle : RunState PathUri Endpoint}
    (failed : WriteFailed host path expected first state failure middle steps)
    (noRecovery : failure.recoveryPath = none) (noConflict : failure.isNoWriteConflict = false)
    (again : Written host path expected replacement middle receipt next) :
    Written host path expected replacement state receipt next := by
  obtain ⟨steps', log, meets⟩ := again.log
  refine ⟨?_, ?_, ⟨steps ++ steps', ?_, ?_⟩, again.noReceipt, again.someReceipt⟩
  · rw [again.files, failed.files, Function.update_idem]
  · rw [again.delta, failed.delta, noRecovery, Option.isNone_none, Bool.and_true]
  · rw [log, failed.log, List.append_assoc]
  · intro step member
    rcases List.mem_append.mp member with inFirst | inSecond
    · exact failed.meets (.inl noConflict) step inFirst
    · exact meets step inSecond

/-- A write that creates missing parent directories. -/
theorem writeFileWithMissingParentRetry_writes (index : Nat) (path : PathUri)
    (expected : Option Text) (contents : Text)
    (known : state.files (host.endpoint path) = expected) :
    Holds (Written host path expected (some contents) state)
      (fun failure next => ∃ steps, WriteFailed host path expected True state failure next steps)
      ((writeFileWithMissingParentRetry host schedule index path expected contents).from
        state) := by
  refine Holds.handle (conditionalMutation_writes .forward path expected (some contents)
    (by decide) (fun _ => known)) ?_
  intro failure middle ⟨steps, failed⟩
  by_cases notFound : failure.isNotFound = true
  · obtain ⟨noRecovery, noConflict⟩ := isNotFound_plain notFound
    rw [if_pos notFound]
    refine Holds.bind ((createParent_holds host index path).mono (fun _ _ same => same) ?_) ?_
    · rintro failure' _ ⟨noRecovery', noConflict', rfl⟩
      exact ⟨steps, failed.withFailure (noRecovery'.trans noRecovery.symm)
        (noConflict'.trans noConflict.symm) nofun⟩
    rintro _ _ rfl
    refine Holds.handle ((conditionalMutation_writes .retry path expected (some contents)
      (by decide) nofun).mono ?_ (fun _ _ fails => fails)) ?_
    · exact fun receipt next again => again.retried failed noRecovery noConflict
    · rintro failure' next ⟨steps', again⟩
      exact ⟨_, (failed.retried noRecovery noConflict again).withFailure rfl rfl (fun _ => trivial)⟩
  · rw [if_neg notFound]
    exact ⟨steps, failed.withFailure rfl rfl (fun _ => trivial)⟩

end Specs

/-- An action that leaves the state as it is. -/
def Reads {α : Type} (action : Apply PathUri Endpoint α) (state : RunState PathUri Endpoint)
    (post : α → Prop) : Prop :=
  Holds (fun value next => next = state ∧ post value)
    (fun failure next => next = state ∧ failure.recoveryPath = none) (action.from state)

section Reads

variable {host : Host PathUri Endpoint} {state : RunState PathUri Endpoint} {α β : Type}

theorem Reads.bind {action : Apply PathUri Endpoint α} {rest : α → Apply PathUri Endpoint β}
    {middle : α → Prop} {post : β → Prop} (first : Reads action state middle)
    (next : ∀ value, middle value → Reads (rest value) state post) :
    Reads (action >>= rest) state post :=
  Holds.bind first (fun value _ ⟨same, holds⟩ => same ▸ next value holds)

theorem raise_reads (result : Except ApplyPatchError α) :
    Reads (raise result : Apply PathUri Endpoint α) state (fun value => result = .ok value) := by
  cases result with
  | ok value => exact ⟨rfl, rfl⟩
  | error error => exact ⟨rfl, rfl⟩

theorem ensure_reads (condition : Bool) (text : Text) :
    Reads (ensure condition text : Apply PathUri Endpoint Unit) state (fun _ => condition = true) := by
  cases condition with
  | false => exact ⟨rfl, rfl⟩
  | true => exact ⟨rfl, rfl⟩

theorem cancelIf_reads (cancelled : Bool) (text : Text) :
    Reads (cancelIf cancelled text : Apply PathUri Endpoint Unit) state (fun _ => True) := by
  cases cancelled with
  | false => exact ⟨rfl, trivial⟩
  | true => exact ⟨rfl, rfl⟩

theorem orFail_reads (text : Text) (value : Option α) :
    Reads (orFail text value : Apply PathUri Endpoint α) state (fun found => value = some found) := by
  cases value with
  | none => exact ⟨rfl, rfl⟩
  | some value => exact ⟨rfl, rfl⟩

theorem currentFiles_reads :
    Reads (currentFiles : Apply PathUri Endpoint (Files Endpoint)) state (· = state.files) :=
  ⟨rfl, rfl⟩

theorem readText_reads (path : PathUri) :
    Reads (readText host path) state (fun text => state.files (host.endpoint path) = some text) := by
  refine Reads.bind currentFiles_reads ?_
  rintro _ rfl
  unfold readFileText
  cases found : state.files (host.endpoint path) with
  | none => exact ⟨rfl, rfl⟩
  | some text => exact ⟨rfl, rfl⟩

theorem ensureNotDirectory_reads (path : PathUri) (failed : Text) :
    Reads (ensureNotDirectory host path failed) state (fun _ => True) := by
  refine Reads.bind currentFiles_reads ?_
  rintro _ rfl
  cases found : state.files (host.endpoint path) with
  | none => exact ⟨rfl, rfl⟩
  | some text => exact ⟨rfl, trivial⟩

theorem deriveNewContentsFromChunks_reads (path : PathUri) (chunks : List UpdateFileChunk)
    (ordinal : Nat) :
    Reads (deriveNewContentsFromChunks host path chunks ordinal) state (fun _ => True) := by
  refine Reads.bind currentFiles_reads (fun files _ => ?_)
  refine Reads.bind (raise_reads _) (fun originalContents _ => ?_)
  refine Reads.bind (raise_reads _) (fun newContents _ => ?_)
  split
  · exact ⟨rfl, rfl⟩
  · exact ⟨rfl, trivial⟩

/-- The update that a hunk writes was derived from the current content. -/
theorem currentUpdate_reads (index : Nat) (path : PathUri) (chunks : List UpdateFileChunk)
    (prepared : Option AppliedPatch) (verifiedSites : Bool) :
    Reads (currentUpdate host index path chunks prepared verifiedSites) state
      (fun update => state.files (host.endpoint path) = some update.originalContents) := by
  refine Reads.bind (orFail_reads _ _) (fun update _ => ?_)
  refine Reads.bind (readText_reads path) (fun source isSource => ?_)
  by_cases same : source = update.originalContents
  · rw [if_pos same]
    exact ⟨rfl, isSource.trans (congrArg some same)⟩
  rw [if_neg same]
  refine Reads.bind (ensure_reads _ _) (fun _ _ => ?_)
  refine Reads.bind (deriveNewContentsFromChunks_reads path chunks _) (fun derived _ => ?_)
  refine Reads.bind (readText_reads path) (fun confirmed isConfirmed => ?_)
  refine Reads.bind (ensure_reads _ _) (fun _ equal => ?_)
  exact ⟨rfl, isConfirmed.trans (congrArg some (eq_of_beq equal))⟩

end Reads

section Sound

variable [DecidableEq Endpoint] {host : Host PathUri Endpoint} {schedule : Schedule}
  {start : Files Endpoint} {state : RunState PathUri Endpoint}

/-- While no write has failed, the delta is an exact journal of the files. -/
structure Sound (host : Host PathUri Endpoint) (start : Files Endpoint)
    (state : RunState PathUri Endpoint) : Prop where
  exact : state.delta.exact = true
  journal : Journal start (changeEdits host state.delta.changes)
  files : state.files = replay start (changeEdits host state.delta.changes)
  meets : ∀ step ∈ state.log, step.Meets
  whole : ∀ applied ∈ state.delta.changes, applied.Whole
  identities : ∀ pair ∈ state.delta.endpointIdentities, pair.2 = host.endpoint pair.1

/-- How a failure leaves the run: with the journal as it was, with a delta that says it is
    inexact, or with an endpoint that changed and that no recorded change names. -/
inductive Stopped (host : Host PathUri Endpoint) (start : Files Endpoint)
    (failure : Failure PathUri) (state : RunState PathUri Endpoint) : Prop
  | clean (sound : Sound host start state) (noRecovery : failure.recoveryPath = none)
  | uncertain (inexact : state.delta.exact = false)
      (whole : ∀ applied ∈ state.delta.changes, applied.Whole)
      (unclean : ¬ ∀ step ∈ state.log, step.Clean)
  | stray (endpoint : Endpoint) (changed : state.files endpoint ≠ start endpoint)
      (unnamed : ∀ edit ∈ changeEdits host state.delta.changes, edit.key ≠ endpoint)
      (whole : ∀ applied ∈ state.delta.changes, applied.Whole)
      (violates : ¬ ∀ step ∈ state.log, step.Meets)
      (unclean : ¬ ∀ step ∈ state.log, step.Clean)

theorem Sound.reads {α β : Type} {action : Apply PathUri Endpoint α}
    {rest : α → Apply PathUri Endpoint β} {middle : α → Prop}
    {post : β → RunState PathUri Endpoint → Prop} (sound : Sound host start state)
    (first : Reads action state middle)
    (next : ∀ value, middle value →
      Holds post (Stopped host start) ((rest value).from state)) :
    Holds post (Stopped host start) ((action >>= rest).from state) := by
  refine Holds.bind (first.mono (fun _ _ holds => holds) ?_) ?_
  · rintro failure _ ⟨rfl, noRecovery⟩
    exact .clean sound noRecovery
  · rintro value _ ⟨rfl, holds⟩
    exact next value holds

/-- Steps that write back what was there keep the journal. -/
theorem Sound.unchanged (sound : Sound host start state) {next : RunState PathUri Endpoint}
    {steps : List MutationStep} (files : next.files = state.files)
    (delta : next.delta = state.delta) (log : next.log = state.log ++ steps)
    (meets : ∀ step ∈ steps, step.Meets) : Sound host start next := by
  refine ⟨?_, ?_, ?_, ?_, ?_, ?_⟩
  · rw [delta]
    exact sound.exact
  · rw [delta]
    exact sound.journal
  · rw [delta, files]
    exact sound.files
  · intro step member
    rw [log] at member
    rcases List.mem_append.mp member with earlier | later
    · exact sound.meets step earlier
    · exact meets step later
  · rw [delta]
    exact sound.whole
  · rw [delta]
    exact sound.identities

/-- A failed write, after `try_write!` has looked at its endpoint. -/
theorem tryWrite_holds {α : Type} {path : PathUri} {expected : Option Text} {retries : Prop}
    {action : Apply PathUri Endpoint α} {post : α → RunState PathUri Endpoint → Prop}
    (sound : Sound host start state) (known : state.files (host.endpoint path) = expected)
    (fresh : retries → ∀ edit ∈ changeEdits host state.delta.changes,
      edit.key ≠ host.endpoint path)
    (writes : Holds post (fun failure next => ∃ steps, WriteFailed host path expected retries state
      failure next steps) (action.from state)) :
    Holds post (Stopped host start) ((tryWrite host path expected action).from state) := by
  refine Holds.handle writes ?_
  rintro failure next ⟨steps, failed⟩
  have restored : next.files (host.endpoint path) = expected → next.files = state.files := by
    intro same
    rw [failed.files, same, ← known, Function.update_eq_self]
  have unclean : next.files (host.endpoint path) ≠ expected ∨ failure.recoveryPath ≠ none →
      ¬ ∀ step ∈ next.log, step.Clean := by
    intro bad clean
    rw [failed.log] at clean
    obtain ⟨same, noRecovery⟩ := failed.clean (fun step member =>
      clean step (List.mem_append_right _ member))
    exact bad.elim (fun other => other (same.trans known)) (fun recovery => recovery noRecovery)
  have whole : ∀ applied ∈ next.delta.changes, applied.Whole := by
    rw [failed.delta]
    exact sound.whole
  cases isConflict : failure.isNoWriteConflict with
  | true =>
    -- a conflict is taken for a write that did nothing, and its endpoint is not looked at
    show Stopped host start failure next
    have noRecovery : failure.recoveryPath = none := by
      unfold Failure.isNoWriteConflict at isConflict
      unfold Failure.recoveryPath
      split at isConflict
      next root => rw [root]
      next => cases isConflict
    have delta : next.delta = state.delta := by
      rw [failed.delta, noRecovery, Option.isNone_none, Bool.and_true]
    by_cases same : next.files (host.endpoint path) = expected
    · exact .clean (sound.unchanged (restored same) delta failed.log (failed.meets (.inr same)))
        noRecovery
    obtain ⟨retried, violates⟩ := failed.stray isConflict same
    have untouched := fresh retried
    refine .stray (host.endpoint path) ?_ ?_ ?_ ?_ (unclean (.inl same))
    · rw [← known, sound.files, replay_of_notMem untouched] at same
      exact same
    · rw [delta]
      exact untouched
    · exact whole
    · intro meets
      rw [failed.log] at meets
      exact violates (fun step member => meets step (List.mem_append_right _ member))
  | false =>
    let looked : RunState PathUri Endpoint := { next with delta := { next.delta with
      exact := next.delta.exact && removeFailureWasSideEffectFree host next.files path expected } }
    show Stopped host start failure looked
    by_cases same : next.files (host.endpoint path) = expected
    · have looks : removeFailureWasSideEffectFree host next.files path expected = true :=
        beq_iff_eq.mpr same
      by_cases recovery : failure.recoveryPath = none
      · refine .clean (sound.unchanged (restored same) ?_ failed.log
          (failed.meets (.inl isConflict))) recovery
        simp only [looked, failed.delta, looks, recovery, Option.isNone_none, Bool.and_true]
      · refine .uncertain ?_ whole (unclean (.inr recovery))
        show (next.delta.exact && _) = false
        rw [failed.delta, Option.isNone_eq_false_iff.mpr (Option.isSome_iff_ne_none.mpr recovery),
          Bool.and_false, Bool.false_and]
    · refine .uncertain ?_ whole (unclean (.inl same))
      show (next.delta.exact && _) = false
      rw [show removeFailureWasSideEffectFree host next.files path expected = false from
        beq_eq_false_iff_ne.mpr same, Bool.and_false]

end Sound

end Codex.ApplyPatch
