import Codex.ApplyPatch.Verify

/-!
# Approved changes are the applied changes

A verified action is applied by `apply_verified_patch_with_cancellation`
(`apply-patch/src/lib.rs:591`), which parses, checks and prepares the patch again and then
writes hunk by hunk. While the files are those of the verification and no mutation is
disturbed, every check passes and the files end up as announced.
-/

namespace Codex.ApplyPatch

open Codex.Hoare

variable {PathUri Endpoint : Type}

/-- A run without faults that nobody cancels, with its endpoints admitted and its output
    written. -/
structure Undisturbed (schedule : Schedule) : Prop where
  mutation : ∀ index, schedule.mutation index = .none
  before : ∀ index, schedule.cancelledBefore index = false
  duringMove : ∀ index, schedule.cancelledDuringMove index = false
  admission : schedule.admission = none
  stdout : schedule.stdout = none

/-! ## Writes that commit -/

section Writes

variable {host : Host PathUri Endpoint} {schedule : Schedule}
  {state : RunState PathUri Endpoint}

/-- An action that returns and leaves these files. -/
def Reaches {α : Type} (action : Apply PathUri Endpoint α) (state : RunState PathUri Endpoint)
    (files : Files Endpoint) : Prop :=
  Holds (fun _ next => next.files = files) (fun _ _ => False) (action.from state)

variable {α : Type} {action : Apply PathUri Endpoint α} {files : Files Endpoint}
   {path cwd : PathUri} {content : Text} {index : Nat} {update : AppliedPatch} {hunk : Hunk}
   {prepared : Option AppliedPatch}

theorem Reaches.bind {β : Type} {rest : α → Apply PathUri Endpoint β} {middle : Files Endpoint}
    (first : Reaches action state middle)
    (next : ∀ value state, state.files = middle → Reaches (rest value) state files) :
    Reaches (action >>= rest) state files :=
  Holds.bind first next

theorem Reaches.handle {handler : Failure PathUri → Apply PathUri Endpoint α}
    (first : Reaches action state files) : Reaches (tryCatch action handler) state files :=
  Holds.handle first (fun _ _ impossible => impossible.elim)

theorem from_raise {result : Except ApplyPatchError α} {value : α} (ok : result = .ok value) :
    Effect.from (raise result : Apply PathUri Endpoint α) state = (.ok value, state) := by
  rw [ok]
  rfl

theorem from_liftFailure {result : Except (Failure PathUri) α} {value : α}
    (ok : result = .ok value) :
    Effect.from (liftFailure result : Apply PathUri Endpoint α) state = (.ok value, state) := by
  rw [ok]
  rfl

theorem from_currentFiles :
    Effect.from (currentFiles : Apply PathUri Endpoint (Files Endpoint)) state =
      (.ok state.files, state) := rfl

theorem from_acquire (undisturbed : Undisturbed schedule) :
    Effect.from (acquire schedule : Apply PathUri Endpoint Unit) state = (.ok (), state) := by
  unfold acquire
  rw [undisturbed.admission]
  rfl

theorem from_ensure {condition : Bool} (text : Text) (holds : condition = true) :
    Effect.from (ensure condition text : Apply PathUri Endpoint Unit) state = (.ok (), state) := by
  rw [ensure, holds]
  rfl

theorem from_cancelIf {cancelled : Bool} (text : Text) (goesOn : cancelled = false) :
    Effect.from (cancelIf cancelled text : Apply PathUri Endpoint Unit) state =
      (.ok (), state) := by
  rw [cancelIf, goesOn]
  rfl

theorem from_readText (found : state.files (host.endpoint path) = some content) :
    (readText host path).from state = (.ok content, state) := by
  unfold readText
  rw [from_bind, from_currentFiles]
  dsimp only [readFileText]
  rw [found]
  rfl

theorem from_ensureNotDirectory (failed : Text)
    (found : state.files (host.endpoint path) = some content) :
    (ensureNotDirectory host path failed).from state = (.ok (), state) := by
  unfold ensureNotDirectory
  rw [from_bind, from_currentFiles]
  dsimp only
  rw [found]
  rfl

theorem from_orFail (text : Text) (value : α) :
    Effect.from (orFail text (some value) : Apply PathUri Endpoint α) state =
      (.ok value, state) := rfl

theorem tryWrite_reaches {before : Option Text}
    (first : Reaches action state files) : Reaches (tryWrite host path before action) state files :=
  first.handle

theorem pushChange_reaches (change : AppliedPatchChange PathUri) (same : state.files = files) :
    Reaches (pushChange change : Apply PathUri Endpoint Unit) state files := same

theorem recordDestination_reaches (receipt : Option WriteReceipt)
    (change : AppliedPatchChange PathUri) (same : state.files = files) :
    Reaches (recordDestination receipt change : Apply PathUri Endpoint Unit) state files := by
  cases receipt with
  | none => exact same
  | some receipt => exact same

variable [DecidableEq Endpoint]

/-- A mutation without a fault replaces the content that it expects. -/
theorem conditionalMutation_reaches (undisturbed : Undisturbed schedule) {phase : Phase}
    {expected replacement : Option Text} (known : state.files (host.endpoint path) = expected) :
    Reaches (conditionalMutation host schedule phase path expected replacement) state
      (Function.update state.files (host.endpoint path) replacement) := by
  refine (conditionalMutation_holds phase path expected replacement).mono ?_ ?_
  · rintro receipt next ⟨_, _, _, step, _, after, _, rfl⟩
    rw [← after]
    rfl
  · rintro failure next ⟨step, _, _, _, _, disturbed, _⟩
    exact disturbed.elim (fun fault => fault (undisturbed.mutation _)) (fun other => other known)

theorem writeFileWithMissingParentRetry_reaches (undisturbed : Undisturbed schedule)
    {expected : Option Text} {contents : Text}
    (known : state.files (host.endpoint path) = expected) :
    Reaches (writeFileWithMissingParentRetry host schedule index path expected contents) state
      (Function.update state.files (host.endpoint path) (some contents)) :=
  (conditionalMutation_reaches undisturbed known).handle

theorem applyDelete_reaches (undisturbed : Undisturbed schedule) {prepared : AppliedPatch}
    (known : state.files (host.endpoint path) = some content)
    (isPrepared : prepared.originalContents = content) :
    Reaches (applyDelete host schedule path (some prepared)) state
      (Function.update state.files (host.endpoint path) none) := by
  refine Holds.after (from_ensureNotDirectory _ known) ?_
  refine Holds.after (from_readText known) ?_
  refine Holds.after (from_ensure _ (by simp [isPrepared])) ?_
  refine Reaches.bind (tryWrite_reaches (conditionalMutation_reaches undisturbed known).handle) ?_
  intro receipt next files
  exact pushChange_reaches _ files

theorem applyInPlace_reaches (undisturbed : Undisturbed schedule)
    (known : state.files (host.endpoint path) = some update.originalContents) :
    Reaches (applyInPlace host schedule path update) state
      (Function.update state.files (host.endpoint path) (some update.newContents)) := by
  refine Reaches.bind (tryWrite_reaches (conditionalMutation_reaches undisturbed known).handle) ?_
  intro receipt next files
  cases receipt with
  | none => exact files
  | some receipt => exact pushChange_reaches _ files

theorem removeMoveSource_reaches (undisturbed : Undisturbed schedule)
    (known : state.files (host.endpoint path) = some update.originalContents) :
    Reaches (removeMoveSource host schedule index path update) state
      (Function.update state.files (host.endpoint path) none) := by
  refine Holds.after (from_cancelIf _ (undisturbed.duringMove index)) ?_
  refine Holds.after (from_ensureNotDirectory _ known) ?_
  refine Holds.after (from_readText known) ?_
  refine Holds.after (from_ensure _ (beq_self_eq_true _)) ?_
  refine Reaches.bind (tryWrite_reaches (conditionalMutation_reaches undisturbed known).handle) ?_
  exact fun receipt next files => files

variable [DecidableEq PathUri] {destinations : Destinations PathUri}

theorem applyAdd_reaches (undisturbed : Undisturbed schedule) {contents : Text}
    (known : state.files (host.endpoint path) = none)
    (captured : destinations.lookup path = some none) :
    Reaches (applyAdd host schedule index path contents destinations) state
      (Function.update state.files (host.endpoint path) (some contents)) := by
  unfold applyAdd
  rw [captured]
  refine Holds.after (from_orFail _ none) ?_
  refine Holds.after (from_ensure _ rfl) ?_
  refine Reaches.bind (tryWrite_reaches (writeFileWithMissingParentRetry_reaches undisturbed known)) ?_
  intro receipt next files
  exact pushChange_reaches _ files

theorem applyMove_reaches (undisturbed : Undisturbed schedule) {dest : PathUri}
    (separate : host.endpoint path ≠ host.endpoint dest)
    (known : state.files (host.endpoint path) = some update.originalContents)
    (captured : destinations.lookup dest = some (state.files (host.endpoint dest))) :
    Reaches (applyMove host schedule index path dest update destinations) state
      (Function.update (Function.update state.files (host.endpoint dest) (some update.newContents))
        (host.endpoint path) none) := by
  unfold applyMove
  rw [captured]
  have noted : Reaches (recordIdentity host dest) state state.files := rfl
  refine Reaches.bind noted ?_
  intro _ started sameFiles
  simp only [separate]
  refine Holds.after (from_orFail _ _) ?_
  refine Reaches.bind (tryWrite_reaches (writeFileWithMissingParentRetry_reaches undisturbed
    (by rw [sameFiles]))) ?_
  intro receipt written writtenFiles
  rw [sameFiles] at writtenFiles
  refine Holds.after (from_get written) ?_
  refine Reaches.bind (recordDestination_reaches receipt _ writtenFiles) ?_
  intro _ published publishedFiles
  have source : published.files (host.endpoint path) = some update.originalContents := by
    rw [publishedFiles, Function.update_of_ne separate, known]
  refine Reaches.bind (removeMoveSource_reaches undisturbed source) ?_
  intro _ last lastFiles
  rw [publishedFiles] at lastFiles
  exact lastFiles

omit [DecidableEq Endpoint] [DecidableEq PathUri] in
theorem from_currentUpdate {chunks : List UpdateFileChunk} {verifiedSites : Bool}
    (known : state.files (host.endpoint path) = some update.originalContents) :
    (currentUpdate host index path chunks (some update) verifiedSites).from state =
      (.ok update, state) := by
  unfold currentUpdate
  rw [from_bind, from_orFail]
  dsimp only
  rw [from_bind, from_readText known]
  dsimp only
  rw [if_pos rfl]
  rfl

/-- The files after a hunk. -/
def hunkEffect (host : Host PathUri Endpoint) (files : Files Endpoint) (path : PathUri)
    (dest : Option PathUri) (prepared : Option AppliedPatch) : Hunk → Files Endpoint
  | .addFile _ contents => Function.update files (host.endpoint path) (some contents)
  | .deleteFile _ => Function.update files (host.endpoint path) none
  | .updateFile _ _ _ =>
      match dest with
      | none => Function.update files (host.endpoint path) (prepared.map (·.newContents))
      | some dest => Function.update (Function.update files (host.endpoint dest)
          (prepared.map (·.newContents))) (host.endpoint path) none

/-- The files are as a hunk was prepared for them. -/
def Ready (host : Host PathUri Endpoint) (cwd : PathUri) (destinations : Destinations PathUri)
    (files : Files Endpoint) (path : PathUri) (prepared : Option AppliedPatch) : Hunk → Prop
  | .addFile _ _ => files (host.endpoint path) = none ∧ destinations.lookup path = some none
  | .deleteFile _ => ∃ source, prepared = some source ∧
      files (host.endpoint path) = some source.originalContents
  | .updateFile _ movePath _ => ∃ source, prepared = some source ∧
      files (host.endpoint path) = some source.originalContents ∧
      ∀ text, movePath = some text → ∃ dest, joinPath host cwd text = .ok dest ∧
        host.endpoint path ≠ host.endpoint dest ∧
        destinations.lookup dest = some (files (host.endpoint dest))

theorem applyHunk_reaches (undisturbed : Undisturbed schedule) {verifiedSites : Bool}
    (resolved : hunk.resolvePath host cwd = .ok path)
    (ready : Ready host cwd destinations state.files path prepared hunk) :
    Reaches (applyHunk host schedule cwd index hunk prepared destinations verifiedSites) state
      (hunkEffect host state.files path (hunk.dest host cwd) prepared hunk) := by
  unfold applyHunk
  rw [resolved]
  refine Holds.after (from_cancelIf _ (undisturbed.before index)) ?_
  refine Holds.after rfl ?_
  have noted : Reaches (noteIdentity host path) state state.files := rfl
  refine Reaches.bind noted ?_
  intro _ started sameFiles
  rw [← sameFiles] at ready ⊢
  cases hunk with
  | addFile text contents => exact applyAdd_reaches undisturbed ready.1 ready.2
  | deleteFile text =>
    obtain ⟨source, rfl, known⟩ := ready
    exact applyDelete_reaches undisturbed known rfl
  | updateFile text movePath chunks =>
    obtain ⟨source, rfl, known, moves⟩ := ready
    refine Holds.after (from_currentUpdate known) ?_
    cases movePath with
    | none =>
      rw [dest_of_stays rfl]
      exact applyInPlace_reaches undisturbed known
    | some movePath =>
      obtain ⟨dest, joined, separate, captured⟩ := moves movePath rfl
      rw [dest_of_moves rfl joined]
      dsimp only
      rw [joined]
      refine Holds.after rfl ?_
      exact applyMove_reaches undisturbed separate known captured

/-! ## What the files show -/

/-- The files show the result of a hunk. -/
def Shows (host : Host PathUri Endpoint) (files : Files Endpoint) (path : PathUri)
    (dest : Option PathUri) (prepared : Option AppliedPatch) : Hunk → Prop
  | .addFile _ contents => files (host.endpoint path) = some contents
  | .deleteFile _ => files (host.endpoint path) = none
  | .updateFile _ _ _ =>
      match dest with
      | none => files (host.endpoint path) = prepared.map (·.newContents)
      | some dest => files (host.endpoint dest) = prepared.map (·.newContents) ∧
          files (host.endpoint path) = none

omit [DecidableEq PathUri] in
theorem hunkEffect_shows {dest : Option PathUri}
    (separate : ∀ target, dest = some target → host.endpoint path ≠ host.endpoint target) :
    Shows host (hunkEffect host files path dest prepared hunk) path dest prepared hunk := by
  cases hunk with
  | addFile text contents => exact Function.update_self _ _ _
  | deleteFile text => exact Function.update_self _ _ _
  | updateFile text movePath chunks =>
    cases dest with
    | none => exact Function.update_self _ _ _
    | some dest =>
      refine ⟨?_, Function.update_self _ _ _⟩
      exact (Function.update_of_ne (separate dest rfl).symm _ _).trans (Function.update_self _ _ _)

omit [DecidableEq PathUri] in
theorem hunkEffect_other {endpoint : Endpoint} (resolved : hunk.resolvePath host cwd = .ok path)
    (untouched : endpoint ∉ hunk.touches host cwd) :
    hunkEffect host files path (hunk.dest host cwd) prepared hunk endpoint = files endpoint := by
  rw [mem_touches resolved, not_or] at untouched
  obtain ⟨notSource, notDest⟩ := untouched
  cases hunk with
  | addFile text contents => exact Function.update_of_ne notSource _ _
  | deleteFile text => exact Function.update_of_ne notSource _ _
  | updateFile text movePath chunks =>
    unfold hunkEffect
    cases target : Hunk.dest host cwd (.updateFile text movePath chunks) with
    | none => exact Function.update_of_ne notSource _ _
    | some dest =>
      have other : endpoint ≠ host.endpoint dest := fun same => notDest ⟨dest, target, same⟩
      dsimp only
      rw [Function.update_of_ne notSource, Function.update_of_ne other]

omit [DecidableEq PathUri] [DecidableEq Endpoint] in
/-- What the files show of a hunk depends on its endpoints. -/
theorem Shows.congr {files' : Files Endpoint}
    (shows : Shows host files path (hunk.dest host cwd) prepared hunk)
    (resolved : hunk.resolvePath host cwd = .ok path)
    (same : ∀ endpoint ∈ hunk.touches host cwd, files' endpoint = files endpoint) :
    Shows host files' path (hunk.dest host cwd) prepared hunk := by
  have source := same _ (source_touched resolved)
  cases hunk with
  | addFile text contents => exact source.trans shows
  | deleteFile text => exact source.trans shows
  | updateFile text movePath chunks =>
    unfold Shows at shows ⊢
    cases target : Hunk.dest host cwd (.updateFile text movePath chunks) with
    | none =>
      rw [target] at shows
      exact source.trans shows
    | some dest =>
      rw [target] at shows
      have atDest := same (host.endpoint dest)
        ((mem_touches resolved).mpr (.inr ⟨dest, target, rfl⟩))
      exact ⟨atDest.trans shows.1, source.trans shows.2⟩

end Writes

section Loop

variable [DecidableEq PathUri] [DecidableEq Endpoint] {host : Host PathUri Endpoint}
  {schedule : Schedule} {cwd : PathUri} {hunks : List Hunk}
  {previousUpdates : List (Option Nat)} {prepared : List (Option AppliedPatch)}
  {start : Files Endpoint} {destinations : Destinations PathUri}

/-- What the files show of the hunks below a bound: the last hunk of each chain. -/
structure Applied (host : Host PathUri Endpoint) (cwd : PathUri) (hunks : List Hunk)
    (previousUpdates : List (Option Nat)) (prepared : List (Option AppliedPatch))
    (start : Files Endpoint) (bound : Nat) (files : Files Endpoint) : Prop where
  untouched : ∀ endpoint, (∀ (index : Nat) hunk, index < bound → hunks[index]? = some hunk →
    endpoint ∉ hunk.touches host cwd) → files endpoint = start endpoint
  shows : ∀ (index : Nat) hunk path, index < bound → hunks[index]? = some hunk →
    hunk.resolvePath host cwd = .ok path → LastOf hunks previousUpdates bound index →
    Shows host files path (hunk.dest host cwd) prepared[index]?.join hunk

variable {bound index : Nat} {files : Files Endpoint} {hunk : Hunk} {path : PathUri}
   {endpoint : Endpoint} {action : ApplyPatchAction PathUri}

omit [DecidableEq PathUri] in
/-- One more hunk. -/
theorem Applied.step (validated : Validated host cwd hunks previousUpdates)
    (applied : Applied host cwd hunks previousUpdates prepared start bound files)
    (isHunk : hunks[bound]? = some hunk) (resolved : hunk.resolvePath host cwd = .ok path) :
    Applied host cwd hunks previousUpdates prepared start (bound + 1)
      (hunkEffect host files path (hunk.dest host cwd) prepared[bound]?.join hunk) := by
  constructor
  · intro endpoint untouched
    rw [hunkEffect_other resolved (untouched bound hunk (Nat.lt_succ_self _) isHunk)]
    exact applied.untouched endpoint (fun index other inside => untouched index other
      (Nat.lt_succ_of_lt inside))
  intro index other path' inside isOther resolved' last
  rcases Nat.lt_succ_iff_lt_or_eq.mp inside with earlier | rfl
  · refine (applied.shows index other path' earlier isOther resolved'
      (last.mono (Nat.le_succ _))).congr resolved' ?_
    intro endpoint touched
    refine hunkEffect_other resolved (fun touches => ?_)
    exact last bound hunk earlier (Nat.lt_succ_self _) isHunk
      (validated.meet isHunk isOther touches touched).1
  cases isHunk.symm.trans isOther
  cases resolved.symm.trans resolved'
  apply hunkEffect_shows
  intro target isTarget
  obtain ⟨_, resolved'', separate⟩ := (validated.accepts index hunk isHunk).resolves
  cases resolved.symm.trans resolved''
  cases moves : hunk.movePath with
  | none =>
    rw [dest_of_stays moves] at isTarget
    cases isTarget
  | some movePath =>
    obtain ⟨dest, joined, differs⟩ := separate movePath moves
    rw [dest_of_moves moves joined] at isTarget
    cases isTarget
    exact differs

omit [DecidableEq PathUri] [DecidableEq Endpoint] in
/-- A hunk that repeats none finds its endpoints as they were at the start. -/
theorem Applied.fresh (validated : Validated host cwd hunks previousUpdates)
    (applied : Applied host cwd hunks previousUpdates prepared start bound files)
    (isHunk : hunks[bound]? = some hunk) (fresh : previousUpdates[bound]?.join = none)
    (touched : endpoint ∈ hunk.touches host cwd) : files endpoint = start endpoint :=
  applied.untouched endpoint (fun _ _ inside isOther =>
    validated.fresh isHunk fresh inside isOther touched)

omit [DecidableEq PathUri] [DecidableEq Endpoint] in
/-- A hunk finds its source as it was prepared. -/
theorem Applied.source (validated : Validated host cwd hunks previousUpdates)
    {update : AppliedPatch}
    (applied : Applied host cwd hunks previousUpdates prepared start bound files)
    (isHunk : hunks[bound]? = some hunk) (resolved : hunk.resolvePath host cwd = .ok path)
    (source : match previousUpdates[bound]?.join with
      | none => start (host.endpoint path) = some update.originalContents
      | some previous => (prepared[previous]?.join).map (·.newContents) =
          some update.originalContents) :
    files (host.endpoint path) = some update.originalContents := by
  cases repeats : previousUpdates[bound]?.join with
  | none =>
    rw [repeats] at source
    rw [applied.fresh validated isHunk repeats (source_touched resolved)]
    exact source
  | some previous =>
    rw [repeats] at source
    obtain ⟨_, earlier, found, isEarlier, before, inPlace, wasInPlace, touches⟩ :=
      validated.previous repeats
    cases isHunk.symm.trans found
    obtain ⟨earlierPath, earlierResolved, _⟩ :=
      (validated.accepts previous earlier isEarlier).resolves
    have shows := applied.shows previous earlier earlierPath before isEarlier earlierResolved
      (validated.previous_last repeats)
    have noDest := @dest_of_stays _ _ host cwd _ (movePath_of_inPlace wasInPlace)
    have same : host.endpoint path = host.endpoint earlierPath := by
      have inEarlier := (touches _ (source_touched resolved)).1
      rw [mem_touches earlierResolved, noDest] at inEarlier
      simpa using inEarlier
    rw [noDest] at shows
    cases earlier with
    | addFile text contents => cases wasInPlace
    | deleteFile text => cases wasInPlace
    | updateFile text movePath chunks =>
      rw [same, ← source]
      exact shows

/-- Every publication endpoint was captured as it was at the start. -/
def Captured (host : Host PathUri Endpoint) (cwd : PathUri) (start : Files Endpoint)
    (hunks : List Hunk) (destinations : Destinations PathUri) : Prop :=
  ∀ hunk ∈ hunks, ∀ path, publication host cwd hunk = .ok (some path) →
    destinations.lookup path = some (start (host.endpoint path))

omit [DecidableEq Endpoint] in
theorem Applied.ready (validated : Validated host cwd hunks previousUpdates)
    (all : PreparedAll host cwd start hunks previousUpdates prepared hunks.length)
    (captured : Captured host cwd start hunks destinations)
    (applied : Applied host cwd hunks previousUpdates prepared start bound files)
    (isHunk : hunks[bound]? = some hunk) (resolved : hunk.resolvePath host cwd = .ok path) :
    Ready host cwd destinations files path prepared[bound]?.join hunk := by
  have inside := (List.getElem?_eq_some_iff.mp isHunk).1
  have member := List.mem_of_getElem? isHunk
  have isPrepared := all bound hunk path inside isHunk resolved
  cases hunk with
  | addFile text contents =>
    have fresh := validated.not_repeated isHunk rfl
    have publishes : publication host cwd (.addFile text contents) = .ok (some path) := by
      show some <$> joinPath host cwd text = _
      rw [show joinPath host cwd text = .ok path from resolved]
      rfl
    refine ⟨?_, ?_⟩
    · rw [applied.fresh validated isHunk fresh (source_touched resolved)]
      exact isPrepared.1
    · rw [captured _ member path publishes, isPrepared.1]
  | deleteFile text =>
    have fresh := validated.not_repeated isHunk rfl
    obtain ⟨content, present, isSource⟩ := isPrepared
    refine ⟨_, isSource, ?_⟩
    rw [applied.fresh validated isHunk fresh (source_touched resolved)]
    exact present
  | updateFile text movePath chunks =>
    obtain ⟨update, isUpdate, source⟩ := isPrepared
    refine ⟨update, isUpdate, applied.source validated isHunk resolved source, ?_⟩
    rintro movePath rfl
    obtain ⟨_, resolved', joins⟩ := (validated.accepts bound _ isHunk).resolves
    cases resolved.symm.trans resolved'
    obtain ⟨dest, joined, separate⟩ := joins movePath rfl
    have publishes : publication host cwd (.updateFile text (some movePath) chunks) =
        .ok (some dest) := by
      show some <$> joinPath host cwd movePath = _
      rw [joined]
      rfl
    refine ⟨dest, joined, separate, ?_⟩
    rw [captured _ member dest publishes, applied.fresh validated isHunk
      (validated.not_repeated isHunk rfl)
      ((mem_touches resolved).mpr (.inr ⟨dest, dest_of_moves rfl joined, rfl⟩))]

/-- The write loop returns, and its files show every hunk. -/
theorem applyHunks_applied (undisturbed : Undisturbed schedule)
    (validated : Validated host cwd hunks previousUpdates)
    (all : PreparedAll host cwd start hunks previousUpdates prepared hunks.length)
    (captured : Captured host cwd start hunks destinations) {verifiedSites : Bool}
    {state : RunState PathUri Endpoint} (inside : bound ≤ hunks.length)
    (applied : Applied host cwd hunks previousUpdates prepared start bound state.files) :
    Holds (fun _ next =>
        Applied host cwd hunks previousUpdates prepared start hunks.length next.files)
      (fun _ _ => False)
      ((applyHunks host schedule cwd prepared destinations verifiedSites bound
        (hunks.drop bound)).from state) := by
  generalize rest : hunks.drop bound = remaining
  induction remaining generalizing bound state with
  | nil =>
    have short : hunks.length ≤ bound := List.drop_eq_nil_iff.mp rest
    rw [Nat.le_antisymm short inside]
    exact applied
  | cons hunk remaining ih =>
    obtain ⟨isHunk, next⟩ := drop_cons rest
    obtain ⟨path, resolved, _⟩ := (validated.accepts bound hunk isHunk).resolves
    refine Holds.bind (applyHunk_reaches undisturbed resolved
      (applied.ready validated all captured isHunk resolved)) ?_
    intro _ after files
    refine ih (List.getElem?_eq_some_iff.mp isHunk).1 ?_ next
    rw [files]
    exact applied.step validated isHunk resolved

/-! ## Checks that pass again -/

omit [DecidableEq Endpoint] in
theorem captureDestinationPreimages_captured {destinations' : Destinations PathUri}
    (ok : captureDestinationPreimages host cwd start hunks destinations = .ok destinations') :
    (∀ path, destinations.lookup path = some (start (host.endpoint path)) →
        destinations'.lookup path = some (start (host.endpoint path))) ∧
      Captured host cwd start hunks destinations' := by
  induction hunks generalizing destinations with
  | nil =>
    cases ok
    exact ⟨fun _ found => found, nofun⟩
  | cons hunk hunks ih =>
    obtain ⟨published, publishes, ok⟩ := bind_ok.mp ok
    cases published with
    | none =>
      obtain ⟨kept, captured⟩ := ih ok
      refine ⟨kept, fun other member path publishes' => ?_⟩
      rcases List.mem_cons.mp member with rfl | later
      · cases publishes.symm.trans publishes'
      · exact captured other later path publishes'
    | some path =>
      obtain ⟨kept, captured⟩ := ih ok
      refine ⟨fun other found => kept other ?_, fun other member path' publishes' => ?_⟩
      · by_cases same : other = path
        · rw [same, AList.lookup_insert]
        · rw [AList.lookup_insert_ne same]
          exact found
      · rcases List.mem_cons.mp member with rfl | later
        · cases publishes.symm.trans publishes'
          exact kept path (AList.lookup_insert _)
        · exact captured other later path' publishes'

theorem Destinations.same_self (destinations : Destinations PathUri) :
    Destinations.same destinations destinations = true := by
  unfold Destinations.same
  rw [beq_self_eq_true, Bool.true_and, List.all_eq_true]
  intro entry member
  exact beq_iff_eq.mpr (List.mem_dlookup destinations.nodupKeys member)

omit [DecidableEq PathUri] [DecidableEq Endpoint] in
theorem readFileText_found {content : Text} (found : start (host.endpoint path) = some content) :
    readFileText host start path = .ok content := by
  unfold readFileText
  rw [found]

omit [DecidableEq PathUri] [DecidableEq Endpoint] in
theorem recheckSource_unchanged (validated : Validated host cwd hunks previousUpdates)
    {current : AppliedPatch} (isHunk : hunks[index]? = some hunk)
    (isCurrent : prepared[index]?.join = some current)
    (isPrepared : PreparedAt host start previousUpdates prepared index path hunk) :
    recheckSource host start path previousUpdates[index]?.join prepared =
      .ok current.originalContents := by
  cases hunk with
  | addFile text contents => cases isCurrent.symm.trans isPrepared.2
  | deleteFile text =>
    obtain ⟨content, present, isSource⟩ := isPrepared
    cases isCurrent.symm.trans isSource
    rw [validated.not_repeated isHunk rfl, recheckSource, readFileText_found present]
    rfl
  | updateFile text movePath chunks =>
    obtain ⟨update, isUpdate, source⟩ := isPrepared
    cases isCurrent.symm.trans isUpdate
    unfold recheckSource
    cases repeats : previousUpdates[index]?.join with
    | none =>
      rw [repeats] at source
      dsimp only
      rw [readFileText_found source]
      rfl
    | some previous =>
      rw [repeats] at source
      obtain ⟨earlier, isEarlier, same⟩ := Option.map_eq_some_iff.mp source
      simp only [isEarlier, same]

omit [DecidableEq PathUri] [DecidableEq Endpoint] in
/-- While the files are those of the preflight, the read-set check changes nothing. -/
theorem recheckHunks_unchanged (validated : Validated host cwd hunks previousUpdates)
    (all : PreparedAll host cwd start hunks previousUpdates prepared hunks.length)
    {verifiedSites : Bool} :
    recheckHunks host cwd start previousUpdates verifiedSites bound (hunks.drop bound) prepared =
      .ok prepared := by
  generalize rest : hunks.drop bound = remaining
  induction remaining generalizing bound with
  | nil => rfl
  | cons hunk remaining ih =>
    obtain ⟨isHunk, next⟩ := drop_cons rest
    have inside := (List.getElem?_eq_some_iff.mp isHunk).1
    obtain ⟨path, resolved, _⟩ := (validated.accepts bound hunk isHunk).resolves
    unfold recheckHunks
    cases isCurrent : prepared[bound]?.join with
    | none => exact ih next
    | some current =>
      have source := recheckSource_unchanged validated isHunk isCurrent
        (all bound hunk path inside isHunk resolved)
      have same : prepared.set bound (some current) = prepared := by
        have present := Option.join_eq_some_iff.mp isCurrent
        obtain ⟨bounded, isThere⟩ := List.getElem?_eq_some_iff.mp present
        rw [← isThere, List.set_getElem_self]
      have rechecked : recheckHunk host start bound hunk path previousUpdates prepared verifiedSites
          current = .ok current := bind_ok.mpr ⟨_, source, if_pos rfl⟩
      refine bind_ok.mpr ⟨path, by rw [resolved]; rfl, bind_ok.mpr ⟨current, rechecked, ?_⟩⟩
      rw [same]
      exact ih next

/-! ## The checks of the approval -/

omit [DecidableEq Endpoint] in
/-- A deletion is the first hunk with its path. -/
theorem hunkPosition_delete (validated : Validated host cwd hunks previousUpdates)
    (isHunk : hunks[index]? = some hunk) (notInPlace : hunk.inPlace = false)
    (resolved : hunk.resolvePath host cwd = .ok path) :
    hunkPosition host cwd hunks path = some index := by
  have inside := (List.getElem?_eq_some_iff.mp isHunk).1
  refine List.findIdx?_eq_some_iff_getElem.mpr ⟨inside, ?_, ?_⟩
  · rw [(List.getElem?_eq_some_iff.mp isHunk).2, resolved]
    exact beq_self_eq_true _
  intro earlier before
  have isOther := List.getElem?_eq_getElem (before.trans inside)
  obtain ⟨otherPath, otherResolved, _⟩ := (validated.accepts earlier _ isOther).resolves
  rw [otherResolved]
  have differs : otherPath ≠ path := by
    rintro rfl
    have inPlace := ((validated.meet isHunk isOther (source_touched resolved)
      (source_touched otherResolved)).2 (Nat.ne_of_gt before)).1
    cases notInPlace.symm.trans inPlace
  simp [differs]

variable {changes : AList (fun _ : PathUri => ApplyPatchFileChange PathUri)}

omit [DecidableEq Endpoint] in
/-- The announced update of a chain: it goes under the path of its first hunk and ends with
    the result of its last one. -/
theorem Announced.chain (validated : Validated host cwd hunks previousUpdates)
    (announced : Announced host cwd hunks previousUpdates prepared changes)
    (isHunk : hunks[index]? = some hunk) (isUpdate : hunk.isUpdate = true) :
    ∃ last other first path diff newContents, hunks[last]? = some other ∧
      other.isUpdate = true ∧ other.dest host cwd = hunk.dest host cwd ∧
      firstUpdate previousUpdates last = firstUpdate previousUpdates index ∧
      LastOf hunks previousUpdates hunks.length last ∧
      hunks[firstUpdate previousUpdates index]? = some first ∧
      first.resolvePath host cwd = .ok path ∧
      (prepared[last]?.join).map (·.newContents) = some newContents ∧
      changes.lookup path = some (.update diff (hunk.dest host cwd) newContents) := by
  obtain ⟨last, other, after, isOther, chain, isLast⟩ :=
    @exists_last hunks previousUpdates index hunk isHunk
  have both : other.isUpdate = true ∧ other.dest host cwd = hunk.dest host cwd := by
    by_cases same : index = last
    · subst same
      cases isHunk.symm.trans isOther
      exact ⟨isUpdate, rfl⟩
    · obtain ⟨inPlace, otherInPlace⟩ :=
        validated.inPlace_of_chain isHunk isOther after chain same
      refine ⟨isUpdate_of_inPlace otherInPlace, ?_⟩
      rw [dest_of_stays (movePath_of_inPlace inPlace),
        dest_of_stays (movePath_of_inPlace otherInPlace)]
  obtain ⟨first, path, diff, newContents, isFirst, resolved, isNew, found⟩ :=
    announced.update last other isOther both.1 isLast
  rw [chain] at isFirst
  rw [both.2] at found
  exact ⟨last, other, first, path, diff, newContents, isOther, both.1, both.2, chain, isLast,
    isFirst, resolved, isNew, found⟩

omit [DecidableEq Endpoint] in
theorem ensureDeleteUnchanged_passes (validated : Validated host cwd hunks previousUpdates)
    (all : PreparedAll host cwd start hunks previousUpdates prepared hunks.length)
    (announced : Announced host cwd hunks previousUpdates prepared changes)
    {change : ApplyPatchFileChange PathUri} (found : changes.lookup path = some change) :
    ensureDeleteUnchanged host cwd start hunks prepared path change = .ok () := by
  cases change with
  | add content => rfl
  | update diff dest newContent => rfl
  | delete content =>
    obtain ⟨index, hunk, isHunk, resolved, plain | ⟨isUpdate, own⟩⟩ := announced.only path _ found
    · have inside := (List.getElem?_eq_some_iff.mp isHunk).1
      have isPrepared := all index hunk path inside isHunk resolved
      cases hunk with
      | addFile text contents => cases plain
      | updateFile text movePath chunks => cases plain
      | deleteFile text =>
        obtain ⟨source, present, isSource⟩ := isPrepared
        rw [isSource] at plain
        cases plain
        refine bind_ok.mpr ⟨source, by rw [readFileText_found present]; rfl, ?_⟩
        rw [if_neg (not_not_intro rfl), hunkPosition_delete validated isHunk rfl resolved]
        dsimp only
        rw [isSource, Option.map_some, if_pos rfl]
        rfl
    · obtain ⟨_, _, first, path', diff, _, _, _, _, _, _, isFirst, resolved', _, updated⟩ :=
        announced.chain validated isHunk isUpdate
      rw [own] at isFirst
      cases isHunk.symm.trans isFirst
      cases resolved.symm.trans resolved'
      cases found.symm.trans updated

theorem find_last {last : Nat} {property : Nat → Bool} (inside : last < bound)
    (holds : property last = true)
    (isLast : ∀ later, last < later → later < bound → property later = false) :
    (List.range bound).reverse.find? property = some last := by
  induction bound with
  | zero => exact absurd inside (Nat.not_lt_zero _)
  | succ bound ih =>
    rw [List.range_succ, List.reverse_append, List.reverse_singleton, List.singleton_append]
    rcases Nat.lt_succ_iff_lt_or_eq.mp inside with below | rfl
    · rw [List.find?_cons_of_neg (by simp [isLast bound below (Nat.lt_succ_self _)])]
      exact ih below (fun later isLater before => isLast later isLater (Nat.lt_succ_of_lt before))
    · exact List.find?_cons_of_pos holds

/-- The last update of a chain. -/
theorem lastUpdate_eq {last first : Nat} (isHunk : hunks[last]? = some hunk)
    (isUpdate : hunk.isUpdate = true) (chain : firstUpdate previousUpdates last = first)
    (isLast : LastOf hunks previousUpdates hunks.length last) :
    lastUpdate hunks previousUpdates first = some last := by
  apply find_last (List.getElem?_eq_some_iff.mp isHunk).1
  · rw [isHunk]
    cases hunk with
    | addFile text contents => cases isUpdate
    | deleteFile text => cases isUpdate
    | updateFile text movePath chunks => exact beq_iff_eq.mpr chain
  intro later isLater inside
  have isOther := List.getElem?_eq_getElem inside
  have differs := isLast later _ isLater inside isOther
  rw [isOther]
  split
  · rw [chain] at differs
    exact beq_eq_false_iff_ne.mpr differs
  · rfl

omit [DecidableEq Endpoint] in
/-- A site that leads to the announced content needs no other check. -/
theorem ensureKeepsSite_passes (validated : Validated host cwd hunks previousUpdates)
    (announced : Announced host cwd hunks previousUpdates prepared action.changes)
    (isHunk : hunks[index]? = some hunk) :
    ensureKeepsSite host cwd hunks previousUpdates prepared action index hunk = .ok () := by
  cases hunk with
  | addFile text contents => rfl
  | deleteFile text => rfl
  | updateFile text movePath chunks =>
    obtain ⟨last, other, first, path, diff, newContents, isOther, isUpdate, _, chain, isLast,
      isFirst, resolved, isNew, found⟩ := announced.chain validated isHunk rfl
    have isPath : resolveHunkAt host cwd hunks (firstUpdate previousUpdates index) = .ok path := by
      unfold resolveHunkAt
      rw [isFirst]
      dsimp only
      rw [resolved]
      rfl
    refine bind_ok.mpr ⟨path, isPath, ?_⟩
    have verified : action.verifiedContent path = some newContents := by
      unfold ApplyPatchAction.verifiedContent
      rw [found]
    dsimp only
    rw [verified, lastUpdate_eq isOther isUpdate chain isLast, Option.bind_some, isNew,
      if_pos (by simp)]
    rfl

omit [DecidableEq Endpoint] in
theorem ensureRebasedUpdatesKeepTheirSites_passes
    (validated : Validated host cwd hunks previousUpdates)
    (announced : Announced host cwd hunks previousUpdates prepared action.changes) :
    ensureRebasedUpdatesKeepTheirSites host cwd hunks previousUpdates prepared action bound
      (hunks.drop bound) = .ok () := by
  generalize rest : hunks.drop bound = remaining
  induction remaining generalizing bound with
  | nil => rfl
  | cons hunk remaining ih =>
    obtain ⟨isHunk, next⟩ := drop_cons rest
    exact bind_ok.mpr ⟨(), ensureKeepsSite_passes validated announced isHunk, ih next⟩

omit [DecidableEq Endpoint] in
theorem ensureVerified_passes (validated : Validated host cwd hunks previousUpdates)
    (all : PreparedAll host cwd start hunks previousUpdates prepared hunks.length)
    (announced : Announced host cwd hunks previousUpdates prepared action.changes) :
    ensureVerified host cwd start hunks previousUpdates prepared (some action) = .ok () := by
  refine bind_ok.mpr ⟨(), ?_, ensureRebasedUpdatesKeepTheirSites_passes validated announced⟩
  have passes : ∀ entry ∈ action.changes.entries,
      ensureDeleteUnchanged host cwd start hunks prepared entry.1 entry.2 = .ok () :=
    fun entry member => ensureDeleteUnchanged_passes validated all announced
      (List.mem_dlookup action.changes.nodupKeys member)
  generalize action.changes.entries = entries at passes
  induction entries with
  | nil => rfl
  | cons entry entries ih =>
    exact bind_ok.mpr ⟨(), passes entry List.mem_cons_self,
      ih (fun other member => passes other (List.mem_cons_of_mem _ member))⟩

/-! ## Approved patches -/

/-- The attempt of a verified patch over the files of its verification returns, and the files
    show every hunk. -/
theorem applyAttempt_applied (undisturbed : Undisturbed schedule)
    {revisionGuards : List FileRevisionGuard}
    (verified : Verified host start hunks revisionGuards action previousUpdates prepared)
    (nonempty : hunks ≠ []) :
    Holds (fun _ next => Applied host action.cwd hunks previousUpdates prepared start hunks.length
        next.files)
      (fun _ _ => False)
      ((applyAttempt host schedule action.cwd hunks revisionGuards (some action)).from
        { files := start }) := by
  have validated := validateMutationEndpoints_validated verified.validates
  have all := (preflightHunks_prepares validated verified.preflight).2
  have captured := (captureDestinationPreimages_captured verified.captures).2
  have initial : Applied host action.cwd hunks previousUpdates prepared start 0 start :=
    ⟨fun _ _ => rfl, fun index _ _ inside => absurd inside (Nat.not_lt_zero index)⟩
  unfold applyAttempt
  refine Holds.after (from_ensure _ (by simpa using nonempty)) ?_
  refine Holds.after (from_raise verified.validates) ?_
  refine Holds.after (from_acquire undisturbed) ?_
  refine Holds.after from_currentFiles ?_
  refine Holds.after (from_raise verified.guards) ?_
  refine Holds.after (from_raise verified.captures) ?_
  refine Holds.after (from_ensure _ (Destinations.same_self _)) ?_
  refine Holds.after (from_raise verified.preflight) ?_
  refine Holds.after (from_liftFailure (ensureVerified_passes validated all verified.announced)) ?_
  unfold applyHunksToFiles
  refine Holds.after (from_raise verified.validates) ?_
  refine Holds.after from_currentFiles ?_
  refine Holds.after (from_raise verified.captures) ?_
  refine Holds.after (from_ensure _ (Destinations.same_self _)) ?_
  refine Holds.after (from_liftFailure (recheckHunks_unchanged validated all)) ?_
  refine Holds.after (from_raise verified.guards) ?_
  exact applyHunks_applied undisturbed validated all captured (Nat.zero_le _) initial

/-- What an announced change says of the files. -/
def ApplyPatchFileChange.Shown (host : Host PathUri Endpoint) (files : Files Endpoint)
    (path : PathUri) : ApplyPatchFileChange PathUri → Prop
  | .add content => files (host.endpoint path) = some content
  | .delete _ => files (host.endpoint path) = none
  | .update _ none newContent => files (host.endpoint path) = some newContent
  | .update _ (some dest) newContent => files (host.endpoint dest) = some newContent ∧
      files (host.endpoint path) = none

/-- The endpoints of an announced change: its path and the destination of a move. -/
def ApplyPatchFileChange.names (host : Host PathUri Endpoint) (path : PathUri) :
    ApplyPatchFileChange PathUri → List Endpoint
  | .update _ (some dest) _ => [host.endpoint path, host.endpoint dest]
  | _ => [host.endpoint path]

omit [DecidableEq PathUri] [DecidableEq Endpoint] in
/-- A hunk that is no update in place is the last of its chain. -/
theorem Validated.alone (validated : Validated host cwd hunks previousUpdates)
    (isHunk : hunks[index]? = some hunk) (notInPlace : hunk.inPlace = false)
    (bound : Nat) : LastOf hunks previousUpdates bound index := by
  intro later other isLater _ isOther same
  have inPlace := (validated.inPlace_of_chain isHunk isOther (Nat.le_of_lt isLater) same
    (Nat.ne_of_lt isLater)).1
  cases notInPlace.symm.trans inPlace

omit [DecidableEq Endpoint] in
/-- The files show every announced change. -/
theorem Applied.announced (validated : Validated host cwd hunks previousUpdates)
    (announced : Announced host cwd hunks previousUpdates prepared changes)
    (applied : Applied host cwd hunks previousUpdates prepared start hunks.length files)
    {change : ApplyPatchFileChange PathUri}
    (found : changes.lookup path = some change) : change.Shown host files path := by
  obtain ⟨index, hunk, isHunk, resolved, plain | ⟨isUpdate, own⟩⟩ := announced.only path _ found
  · have inside := (List.getElem?_eq_some_iff.mp isHunk).1
    cases hunk with
    | addFile text contents =>
      cases plain
      exact applied.shows index _ path inside isHunk resolved (validated.alone isHunk rfl _)
    | deleteFile text =>
      have shows := applied.shows index _ path inside isHunk resolved
        (validated.alone isHunk rfl _)
      cases isPrepared : prepared[index]?.join with
      | none =>
        rw [isPrepared] at plain
        cases plain
      | some source =>
        rw [isPrepared] at plain
        cases plain
        exact shows
    | updateFile text movePath chunks => cases plain
  · obtain ⟨last, other, first, path', diff, newContents, isOther, otherIsUpdate, sameDest, chain,
      isLast, isFirst, resolved', isNew, updated⟩ := announced.chain validated isHunk isUpdate
    obtain ⟨otherPath, otherResolved, _⟩ := (validated.accepts last other isOther).resolves
    have inside := (List.getElem?_eq_some_iff.mp isOther).1
    have shows := applied.shows last other otherPath inside isOther otherResolved isLast
    have isFirst' := isFirst
    rw [← chain] at isFirst'
    have source := validated.chain_endpoint isOther otherResolved isFirst' resolved'
    rw [own] at isFirst
    cases isHunk.symm.trans isFirst
    cases resolved.symm.trans resolved'
    cases found.symm.trans updated
    rw [sameDest] at shows
    cases other with
    | addFile text contents => cases otherIsUpdate
    | deleteFile text => cases otherIsUpdate
    | updateFile text movePath chunks =>
      unfold Shows at shows
      rw [isNew, source] at shows
      cases target : hunk.dest host cwd with
      | none | some dest =>
        rw [target] at shows
        exact shows

omit [DecidableEq PathUri] [DecidableEq Endpoint] in
/-- The endpoints of a hunk with these paths. -/
theorem names_update {firstPath : PathUri} {diff newContents : Text}
    (resolved : hunk.resolvePath host cwd = .ok path)
    (source : host.endpoint path = host.endpoint firstPath)
    (touched : endpoint ∈ hunk.touches host cwd) :
    endpoint ∈ (ApplyPatchFileChange.update diff (hunk.dest host cwd) newContents).names host
      firstPath := by
  rw [mem_touches resolved, source] at touched
  cases target : hunk.dest host cwd with
  | none | some dest =>
    rw [target] at touched
    simpa [ApplyPatchFileChange.names] using touched

omit [DecidableEq Endpoint] in
/-- Endpoints that no announced change names stay as they were. -/
theorem Applied.unannounced (validated : Validated host cwd hunks previousUpdates)
    (all : PreparedAll host cwd start hunks previousUpdates prepared hunks.length)
    (announced : Announced host cwd hunks previousUpdates prepared changes)
    (applied : Applied host cwd hunks previousUpdates prepared start hunks.length files)
    (unnamed : ∀ path change, changes.lookup path = some change →
      endpoint ∉ change.names host path) : files endpoint = start endpoint := by
  apply applied.untouched
  intro index hunk inside isHunk touched
  obtain ⟨path, resolved, _⟩ := (validated.accepts index hunk isHunk).resolves
  have isPrepared := all index hunk path inside isHunk resolved
  have sourceOnly : hunk.movePath = none → endpoint = host.endpoint path := by
    intro stays
    rw [mem_touches resolved, dest_of_stays stays] at touched
    simpa using touched
  cases hunk with
  | addFile text contents =>
    refine unnamed path _ (announced.plain index _ path _ isHunk resolved rfl) ?_
    exact List.mem_singleton.mpr (sourceOnly rfl)
  | deleteFile text =>
    obtain ⟨content, _, isSource⟩ := isPrepared
    refine unnamed path (.delete content) (announced.plain index _ path _ isHunk resolved ?_) ?_
    · rw [isSource]
      rfl
    · exact List.mem_singleton.mpr (sourceOnly rfl)
  | updateFile text movePath chunks =>
    obtain ⟨last, other, first, firstPath, diff, newContents, _, _, _, _, _, isFirst, firstResolved,
      _, updated⟩ := announced.chain validated isHunk rfl
    have source := validated.chain_endpoint isHunk resolved isFirst firstResolved
    exact unnamed firstPath _ updated (names_update resolved source touched)

/-- A patch with hunks that was verified is applied, over the files of its verification and
    without disturbance, and the files end up as announced. -/
theorem approved_changes_are_applied (host : Host PathUri Endpoint) (schedule : Schedule)
    (cwd : PathUri) (files : Files Endpoint) (text : Text) (args : ApplyPatchArgs)
    (workdir : Option Text) (action : ApplyPatchAction PathUri)
    (parses : parsePatch text = .ok args) (nonempty : args.hunks ≠ [])
    (verifies : tryVerifyApplyPatchArgs host cwd files args workdir = .ok action)
    (undisturbed : Undisturbed schedule) :
    let run := applyVerifiedPatchWithCancellation host schedule action files
    (∃ delta, run.1 = .ok delta) ∧
      (∀ path change, action.changes.lookup path = some change →
        change.Shown host run.2.files path) ∧
      ∀ endpoint, (∀ path change, action.changes.lookup path = some change →
        endpoint ∉ change.names host path) → run.2.files endpoint = files endpoint := by
  obtain ⟨samePatch, previousUpdates, prepared, verified⟩ :=
    tryVerifyApplyPatchArgs_verified verifies
  obtain ⟨again, reparses, sameHunks, sameGuards, _⟩ := parsePatch_reparse parses
  have attempt := applyAttempt_applied undisturbed verified nonempty
  have validated := validateMutationEndpoints_validated verified.validates
  have all := (preflightHunks_prepares validated verified.preflight).2
  unfold applyVerifiedPatchWithCancellation
  rw [samePatch, reparses]
  dsimp only
  rw [sameHunks, sameGuards]
  unfold applyHunksWithVerifiedAction
  generalize (applyAttempt host schedule action.cwd args.hunks args.revisionGuards
    (some action)).from { files } = attempted at attempt ⊢
  obtain ⟨outcome, state⟩ := attempted
  cases outcome with
  | error failure => exact attempt.elim
  | ok _ =>
    dsimp only
    rw [undisturbed.stdout]
    refine ⟨⟨state.delta, rfl⟩, ?_, ?_⟩
    · exact fun path change found => Applied.announced validated verified.announced attempt found
    · exact fun endpoint unnamed => Applied.unannounced validated all verified.announced attempt unnamed

/-- A result that passes a check is there. -/
theorem exists_ok_of_any {Error Value : Type} {result : Except Error Value}
    {check : Value → Bool} (passes : result.toOption.any check = true) :
    ∃ value, result = .ok value ∧ check value = true := by
  cases result with
  | error _ => cases passes
  | ok value => exact ⟨value, rfl, passes⟩

/-- A file that is updated twice, under two spellings, and a file that is added. -/
theorem approved_changes_are_applied_repeated_update :
    let files : Files Text := fun path =>
      if path = "/w/one".toList then some "text\n".toList else none
    ∃ args action, parsePatch ("*** Begin Patch\n*** Update File: one\n@@\n-text\n+more\n" ++
        "*** Update File: /w/one\n@@\n-more\n+line\n" ++
        "*** Add File: two\n+text\n*** End Patch\n").toList = .ok args ∧
      args.hunks.length = 3 ∧
      tryVerifyApplyPatchArgs flatHost "/w".toList files args none = .ok action ∧
      action.changes.keys = ["/w/one".toList, "/w/two".toList] ∧
      let run := applyVerifiedPatchWithCancellation flatHost (.ofFaults []) action files
      (∃ delta, run.1 = .ok delta) ∧ run.2.files "/w/one".toList = some "line\n".toList ∧
        run.2.files "/w/two".toList = some "text\n".toList := by
  intro files
  obtain ⟨args, parses, verified⟩ := exists_ok_of_any (show
    (parsePatch ("*** Begin Patch\n*** Update File: one\n@@\n-text\n+more\n" ++
      "*** Update File: /w/one\n@@\n-more\n+line\n" ++
      "*** Add File: two\n+text\n*** End Patch\n").toList).toOption.any (fun args =>
        args.hunks.length = 3 && (tryVerifyApplyPatchArgs flatHost "/w".toList files args
          none).toOption.any (fun action =>
            action.changes.keys = ["/w/one".toList, "/w/two".toList] &&
            action.changes.lookup "/w/one".toList = some (.update
              "@@ -1 +1 @@\n-text\n+line\n".toList none "line\n".toList) &&
            action.changes.lookup "/w/two".toList = some (.add "text\n".toList))) = true by
      decide +kernel)
  rw [Bool.and_eq_true, decide_eq_true_iff] at verified
  obtain ⟨three, verified⟩ := verified
  obtain ⟨action, verifies, announces⟩ := exists_ok_of_any verified
  simp only [Bool.and_eq_true, decide_eq_true_iff] at announces
  obtain ⟨⟨keys, one⟩, two⟩ := announces
  obtain ⟨returns, shows, _⟩ := approved_changes_are_applied flatHost (.ofFaults []) "/w".toList
    files _ args none action parses (List.ne_nil_of_length_eq_add_one three) verifies
    ⟨fun _ => rfl, fun _ => rfl, fun _ => rfl, rfl, rfl⟩
  exact ⟨args, action, parses, three, verifies, keys, returns, shows _ _ one, shows _ _ two⟩

/-- A patch without hunks is approved and refused. An approved addition returns an error too when
    the caller cancels it, when its endpoint is not admitted and when the summary cannot be
    written. -/
theorem approved_changes_refused :
    let files : Files Text := fun _ => none
    (∃ args action, parsePatch "*** Begin Patch\n*** End Patch".toList = .ok args ∧
      tryVerifyApplyPatchArgs flatHost "/w".toList files args none = .ok action ∧
      (applyVerifiedPatchWithCancellation flatHost (.ofFaults []) action files).1.isOk = false) ∧
    ∃ args action,
      parsePatch "*** Begin Patch\n*** Add File: one\n+text\n*** End Patch".toList = .ok args ∧
      tryVerifyApplyPatchArgs flatHost "/w".toList files args none = .ok action ∧
      ∀ schedule ∈ [{ Schedule.ofFaults [] with cancelledBefore := fun _ => true },
          { Schedule.ofFaults [] with admission := some ⟨.wouldBlock, "busy".toList⟩ },
          { Schedule.ofFaults [] with stdout := some ⟨.other, "closed".toList⟩ }],
        (applyVerifiedPatchWithCancellation flatHost schedule action files).1.isOk = false := by
  intro files
  constructor
  · obtain ⟨args, parses, verified⟩ := exists_ok_of_any (show
      (parsePatch "*** Begin Patch\n*** End Patch".toList).toOption.any (fun args =>
        (tryVerifyApplyPatchArgs flatHost "/w".toList files args none).toOption.any (fun action =>
          !(applyVerifiedPatchWithCancellation flatHost (.ofFaults []) action files).1.isOk)) =
        true by decide +kernel)
    obtain ⟨action, verifies, fails⟩ := exists_ok_of_any verified
    exact ⟨args, action, parses, verifies, by simpa using fails⟩
  obtain ⟨args, parses, verified⟩ := exists_ok_of_any (show
    (parsePatch "*** Begin Patch\n*** Add File: one\n+text\n*** End Patch".toList).toOption.any
      (fun args => (tryVerifyApplyPatchArgs flatHost "/w".toList files args none).toOption.any
        (fun action => [{ Schedule.ofFaults [] with cancelledBefore := fun _ => true },
          { Schedule.ofFaults [] with admission := some ⟨.wouldBlock, "busy".toList⟩ },
          { Schedule.ofFaults [] with stdout := some ⟨.other, "closed".toList⟩ }].all
            (fun schedule => !(applyVerifiedPatchWithCancellation flatHost schedule action
              files).1.isOk))) = true by decide +kernel)
  obtain ⟨action, verifies, fails⟩ := exists_ok_of_any verified
  refine ⟨args, action, parses, verifies, ?_⟩
  intro schedule member
  simpa using List.all_eq_true.mp fails schedule member

end Loop

end Codex.ApplyPatch
