import Codex.TurnDiff.Tracker

/-!
# The turn diff is the net change of the turn

A turn records the deltas of its patches in order. Each change is committed to the file system
and tracked; the fragments that are left at the end of a delta say how the files of the turn
differ from what they were when it started.
-/

namespace Codex.TurnDiff

open Codex.ApplyPatch (FileChange)

variable {Path Uri : Type} [DecidableEq Path]

/-- The texts of the files of all environments. -/
abbrev Files (Path : Type) := TrackedPath Path → Option Text

/-! ## Turns -/

/-- A change as the executor commits it. -/
def commit (environmentId : Text) (files : Files Path) (change : AppliedPatchChange Path Uri) :
    Files Path :=
  match change.change with
  | .add content _ => Function.update files ⟨environmentId, change.path⟩ (some content)
  | .delete _ => Function.update files ⟨environmentId, change.path⟩ none
  | .update none _ _ content => Function.update files ⟨environmentId, change.path⟩ (some content)
  | .update (some path) _ _ content =>
      Function.update (Function.update files ⟨environmentId, change.path⟩ none)
        ⟨environmentId, path⟩ (some content)

/-- The preimages that a change records are the actual contents. -/
def ActualPreimages (environmentId : Text) (files : Files Path)
    (change : AppliedPatchChange Path Uri) : Prop :=
  match change.change with
  | .add _ overwritten => overwritten = files ⟨environmentId, change.path⟩
  | .delete content => files ⟨environmentId, change.path⟩ = some content
  | .update movePath old overwritten _ =>
      files ⟨environmentId, change.path⟩ = some old ∧
        ∀ path ∈ movePath, overwritten = files ⟨environmentId, path⟩

/-- A recorded patch: `track_delta_for_call` and its environment. -/
structure Call (Path Uri : Type) where
  environmentId : Text
  delta : AppliedPatchDelta Path Uri

/-- No other writer, and spellings that are endpoints: what a change says is what happened. The
    two forms of a move path agree in every change that `apply_hunks_to_files` builds. -/
structure Accurate (host : UriHost Path Uri) (call : Call Path Uri) (files : Files Path)
    (original : AppliedPatchChange Path Uri) : Prop where
  spelled : call.delta.endpointChange host original = original
  moved : original.movePathUri.map host.toPathBuf = original.movePath
  actual : ActualPreimages call.environmentId files original

/-- The change is not a second move away from a path: a move whose source existed when the turn
    started, holds no renamed file, and is still the recorded origin of another file than the
    destination. A move of such a path onto itself, which `apply_hunks_to_files` never builds,
    counts as one. -/
def SingleRename (call : Call Path Uri) (tracker : TurnDiffTracker Path Uri)
    (original : AppliedPatchChange Path Uri) : Prop :=
  ∀ path ∈ original.movePath,
    tracker.originByCurrentPath ⟨call.environmentId, original.path⟩ = none →
    (tracker.baselineByPath ⟨call.environmentId, original.path⟩).isSome →
    ∀ earlier ∈ tracker.destinationByOrigin ⟨call.environmentId, original.path⟩,
      earlier = ⟨call.environmentId, path⟩

/-- Something holds before each of the changes that are left of a delta. -/
def ThroughoutDelta (host : UriHost Path Uri) (call : Call Path Uri)
    (holds : TurnDiffTracker Path Uri → Files Path → AppliedPatchChange Path Uri → Prop) :
    TurnDiffTracker Path Uri × Finset (TrackedPath Path) → Files Path →
      List (AppliedPatchChange Path Uri) → Prop
  | _, _, [] => True
  | state, files, change :: rest =>
      holds state.1 files change ∧
        ThroughoutDelta host call holds
          (TurnDiffTracker.trackChange host call.environmentId call.delta state change)
          (commit call.environmentId files change) rest

/-- The file system after a recorded delta. -/
def commitDelta (files : Files Path) (call : Call Path Uri) : Files Path :=
  call.delta.changes.foldl (commit call.environmentId) files

/-- The tracker after a recorded delta. -/
def track (host : UriHost Path Uri) (tracker : TurnDiffTracker Path Uri) (call : Call Path Uri) :
    TurnDiffTracker Path Uri :=
  tracker.trackDelta host call.environmentId call.delta

/-- Something holds before each change of each delta of a turn. -/
def Throughout (host : UriHost Path Uri)
    (holds : Call Path Uri → TurnDiffTracker Path Uri → Files Path →
      AppliedPatchChange Path Uri → Prop) :
    TurnDiffTracker Path Uri → Files Path → List (Call Path Uri) → Prop
  | _, _, [] => True
  | tracker, files, call :: rest =>
      ThroughoutDelta host call (holds call)
          (tracker.setPatchModes call.environmentId call.delta.preimageModes, ∅) files
          call.delta.changes ∧
        Throughout host holds (track host tracker call) (commitDelta files call) rest

/-- The files that the changes of a turn touch. -/
def touchedFiles (calls : List (Call Path Uri)) : List (TrackedPath Path) :=
  calls.flatMap fun call => call.delta.changes.flatMap (·.paths call.environmentId)

/-! ## Reading the diff -/

namespace Fragment

/-- The files that a fragment touches. -/
def files (fragment : Fragment Path) : List (TrackedPath Path) :=
  [fragment.leftPath, fragment.rightPath]

/-- Replace the left content of a fragment by its right content, where the left content is
    found. -/
def apply (fragment : Fragment Path) (files : Files Path) : Option (Files Path) :=
  if files fragment.leftPath = text fragment.leftContent then
    some (Function.update (Function.update files fragment.leftPath none) fragment.rightPath
      (text fragment.rightContent))
  else none

end Fragment

/-- Apply fragments one after the other. -/
def applyFragments : List (Fragment Path) → Files Path → Option (Files Path)
  | [], files => some files
  | fragment :: rest, files => (fragment.apply files).bind (applyFragments rest)

/-- The paths of the rendered fragments, each of them once. -/
structure Lists (order : List (TrackedPath Path))
    (rendered : TrackedPath Path → Option (Fragment Path)) : Prop where
  nodup : order.Nodup
  mem_iff : ∀ path, path ∈ order ↔ (rendered path).isSome

/-- What the tracker of a turn says about its files. -/
structure NetChange (initial files : Files Path) (touched : List (TrackedPath Path))
    (tracker : TurnDiffTracker Path Uri) : Prop where
  valid : tracker.valid = true
  available : tracker.unavailablePaths = ∅
  baseline : ∀ path, text (tracker.baselineByPath path) =
    if path ∈ touched then initial path else none
  current : ∀ path, text (tracker.currentByPath path) =
    if path ∈ touched then files path else none
  sides : ∀ path, ∀ fragment ∈ tracker.renderedDiffs path, fragment.leftPath = path ∧
    fragment.leftContent = tracker.baselineByPath fragment.leftPath ∧
    fragment.rightContent = tracker.currentByPath fragment.rightPath
  disjoint : ∀ path other, path ≠ other → ∀ fragment ∈ tracker.renderedDiffs path,
    ∀ otherFragment ∈ tracker.renderedDiffs other, ∀ file ∈ fragment.files,
      file ∉ otherFragment.files
  listed : ∃ order, Lists order tracker.renderedDiffs
  together : ∀ order, Lists order tracker.renderedDiffs →
    applyFragments (order.filterMap tracker.renderedDiffs) initial = some files
  changed_iff : ∀ file, initial file ≠ files file ↔
    ∃ path, ∃ fragment ∈ tracker.renderedDiffs path, file ∈ fragment.files

namespace TurnDiffTracker

/-! ## Fields -/

/-- The fields that applying a change leaves alone. -/
def frame (tracker : TurnDiffTracker Path Uri) : Bool ×
    (TrackedPath Path → Option (Fragment Path)) × Finset (TrackedPath Path) ×
    (TrackedPath Path → Option Uri) × (TrackedPath Path → Option (TrackedPath Path)) :=
  (tracker.valid, tracker.renderedDiffs, tracker.unavailablePaths, tracker.executorPaths,
    tracker.endpointBySpelling)

section Fields

variable (tracker : TurnDiffTracker Path Uri) (path other : TrackedPath Path)

omit [DecidableEq Path] in
@[simp] theorem text_eq_none (content : Option TrackedContent) :
    text content = none ↔ content = none := by
  cases content <;> simp [text]

@[simp] theorem frame_recordBaseline (content : Option Text) :
    (tracker.recordBaseline path content).frame = tracker.frame := by
  unfold recordBaseline
  repeat' split
  all_goals rfl

@[simp] theorem frame_insertCurrent (content : Text) :
    (tracker.insertCurrent path content).frame = tracker.frame := rfl

@[simp] theorem frame_removeCurrent : (tracker.removeCurrent path).frame = tracker.frame := rfl

@[simp] theorem frame_removeOrigin : (tracker.removeOrigin path).frame = tracker.frame := by
  unfold removeOrigin
  split <;> rfl

@[simp] theorem frame_insertRename :
    (tracker.insertRename path other).frame = tracker.frame := rfl

@[simp] theorem recordBaseline_origin (content : Option Text) :
    (tracker.recordBaseline path content).originByCurrentPath = tracker.originByCurrentPath := by
  unfold recordBaseline
  repeat' split
  all_goals rfl

@[simp] theorem recordBaseline_destination (content : Option Text) :
    (tracker.recordBaseline path content).destinationByOrigin = tracker.destinationByOrigin := by
  unfold recordBaseline
  repeat' split
  all_goals rfl

@[simp] theorem recordBaseline_current (content : Option Text) :
    (tracker.recordBaseline path content).currentByPath = tracker.currentByPath := by
  unfold recordBaseline
  repeat' split
  all_goals rfl

theorem recordBaseline_baseline_of_ne (content : Option Text) (ne : other ≠ path) :
    (tracker.recordBaseline path content).baselineByPath other = tracker.baselineByPath other := by
  unfold recordBaseline
  repeat' split
  · exact Function.update_of_ne ne _ _
  · rfl
  · rfl

theorem recordBaseline_of_recorded (content : Option Text)
    (recorded : tracker.unrecorded path = false) : tracker.recordBaseline path content = tracker := by
  unfold recordBaseline
  split
  · rw [if_neg (by simp [recorded])]
  · rfl

theorem text_recordBaseline_self (content : Option Text) :
    text ((tracker.recordBaseline path content).baselineByPath path) =
      if tracker.unrecorded path then content else text (tracker.baselineByPath path) := by
  cases content with
  | none =>
    by_cases unrecorded : tracker.unrecorded path
    · rw [if_pos unrecorded]
      simp only [Bool.and_eq_true, Option.isNone_iff_eq_none,
        TurnDiffTracker.unrecorded] at unrecorded
      simpa [recordBaseline] using unrecorded.2
    · rw [if_neg unrecorded]
      rfl
  | some content =>
    by_cases unrecorded : tracker.unrecorded path
    · simp [recordBaseline, unrecorded, text, trackedContent]
    · simp [recordBaseline, unrecorded]

@[simp] theorem insertCurrent_current (content : Text) :
    text ((tracker.insertCurrent path content).currentByPath other) =
      if other = path then some content else text (tracker.currentByPath other) := by
  by_cases same : other = path
  · simp [insertCurrent, same, text, trackedContent]
  · simp [insertCurrent, same]

theorem insertCurrent_current_of_ne (content : Text) (ne : other ≠ path) :
    (tracker.insertCurrent path content).currentByPath other = tracker.currentByPath other :=
  Function.update_of_ne ne _ _

@[simp] theorem removeOrigin_baseline :
    (tracker.removeOrigin path).baselineByPath = tracker.baselineByPath := by
  unfold removeOrigin
  split <;> rfl

@[simp] theorem removeOrigin_current :
    (tracker.removeOrigin path).currentByPath = tracker.currentByPath := by
  unfold removeOrigin
  split <;> rfl

theorem removeOrigin_origin : (tracker.removeOrigin path).originByCurrentPath other =
    if other = path then none else tracker.originByCurrentPath other := by
  unfold removeOrigin
  split
  next absent =>
    split
    next same => rw [same, absent]
    next => rfl
  next => exact Function.update_apply _ _ _ _

theorem removeOrigin_destination : (tracker.removeOrigin path).destinationByOrigin other =
    if tracker.originByCurrentPath path = some other then none
    else tracker.destinationByOrigin other := by
  unfold removeOrigin
  split
  next absent => simp [absent]
  next origin found => simp [found, Function.update_apply, eq_comm]

end Fields

/-! ## Renames -/

/-- The two rename maps: a destination is a present file other than its origin; the origin of a
    destination leads back to it, always from the origin's side and, where the origin existed
    when the turn started, also from the destination's side. -/
structure Renames (tracker : TurnDiffTracker Path Uri) (touched : TrackedPath Path → Prop) :
    Prop where
  present : ∀ {path origin}, tracker.originByCurrentPath path = some origin →
    (tracker.currentByPath path).isSome
  ne : ∀ {path origin}, tracker.originByCurrentPath path = some origin → path ≠ origin
  touched : ∀ {path origin}, tracker.originByCurrentPath path = some origin → touched origin
  back : ∀ {path origin}, tracker.destinationByOrigin origin = some path →
    tracker.originByCurrentPath path = some origin
  forth : ∀ {path origin}, (tracker.baselineByPath origin).isSome →
    tracker.originByCurrentPath path = some origin →
      tracker.destinationByOrigin origin = some path

section Renames

variable {tracker : TurnDiffTracker Path Uri} {touched : TrackedPath Path → Prop}

omit [DecidableEq Path] in
theorem Renames.mono {more : TrackedPath Path → Prop} (renames : Renames tracker touched)
    (le : ∀ path, touched path → more path) : Renames tracker more where
  present := renames.present
  ne := renames.ne
  touched := fun found => le _ (renames.touched found)
  back := renames.back
  forth := renames.forth

theorem Renames.removeOrigin (renames : Renames tracker touched) (path : TrackedPath Path) :
    Renames (tracker.removeOrigin path) touched := by
  have kept : ∀ {other origin}, (tracker.removeOrigin path).originByCurrentPath other =
      some origin → other ≠ path ∧ tracker.originByCurrentPath other = some origin := by
    intro other origin found
    rw [removeOrigin_origin] at found
    split at found
    · cases found
    · exact ⟨‹_›, found⟩
  refine ⟨?_, fun found => renames.ne (kept found).2, fun found => renames.touched (kept found).2,
    ?_, ?_⟩
  · intro other origin found
    rw [removeOrigin_current]
    exact renames.present (kept found).2
  · intro other origin found
    rw [removeOrigin_destination] at found
    split at found
    · cases found
    next different =>
      have back := renames.back found
      rw [removeOrigin_origin, if_neg, back]
      rintro rfl
      exact different back
  intro other origin based found
  obtain ⟨ne, found⟩ := kept found
  rw [removeOrigin_baseline] at based
  have forth := renames.forth based found
  rw [removeOrigin_destination, if_neg, forth]
  intro same
  have other := renames.forth based same
  rw [forth, Option.some_inj] at other
  exact ne other

theorem Renames.recordBaseline (renames : Renames tracker touched) (path : TrackedPath Path)
    (content : Option Text)
    (fresh : tracker.unrecorded path → content ≠ none → ¬ touched path) :
    Renames (tracker.recordBaseline path content) touched := by
  refine ⟨?_, ?_, ?_, ?_, ?_⟩
  · intro other origin found
    rw [recordBaseline_origin] at found
    rw [recordBaseline_current]
    exact renames.present found
  · intro other origin found
    rw [recordBaseline_origin] at found
    exact renames.ne found
  · intro other origin found
    rw [recordBaseline_origin] at found
    exact renames.touched found
  · intro other origin found
    rw [recordBaseline_destination] at found
    rw [recordBaseline_origin]
    exact renames.back found
  intro other origin based found
  rw [recordBaseline_origin] at found
  rw [recordBaseline_destination]
  refine renames.forth ?_ found
  by_cases same : origin = path
  · subst same
    by_cases unrecorded : tracker.unrecorded origin
    · cases content with
      | none => exact based
      | some content => exact absurd (renames.touched found) (fresh unrecorded (by simp))
    · rwa [recordBaseline_of_recorded _ _ _ (by simpa using unrecorded)] at based
  · rwa [recordBaseline_baseline_of_ne _ _ _ _ same] at based

theorem Renames.insertCurrent (renames : Renames tracker touched) (path : TrackedPath Path)
    (content : Text) : Renames (tracker.insertCurrent path content) touched where
  present := by
    intro other origin found
    by_cases same : other = path
    · subst same
      simp [TurnDiffTracker.insertCurrent]
    · rw [insertCurrent_current_of_ne _ _ _ _ same]
      exact renames.present found
  ne := renames.ne
  touched := renames.touched
  back := renames.back
  forth := renames.forth

theorem Renames.removeCurrent (renames : Renames tracker touched) {path : TrackedPath Path}
    (plain : tracker.originByCurrentPath path = none) :
    Renames (tracker.removeCurrent path) touched where
  present := by
    intro other origin found
    have ne : other ≠ path := by
      rintro rfl
      exact absurd (plain.symm.trans found) (by simp)
    have kept : (tracker.removeCurrent path).currentByPath other = tracker.currentByPath other :=
      Function.update_of_ne ne _ _
    rw [kept]
    exact renames.present found
  ne := renames.ne
  touched := renames.touched
  back := renames.back
  forth := renames.forth

theorem Renames.insertRename (renames : Renames tracker touched)
    {origin destination : TrackedPath Path} (ne : destination ≠ origin)
    (present : (tracker.currentByPath destination).isSome) (known : touched origin)
    (plain : tracker.originByCurrentPath destination = none)
    (single : (tracker.baselineByPath origin).isSome →
      ∀ path, tracker.originByCurrentPath path ≠ some origin) :
    Renames (tracker.insertRename origin destination) touched := by
  have split : ∀ {path found}, (tracker.insertRename origin destination).originByCurrentPath path =
      some found → (path = destination ∧ found = origin) ∨
        (path ≠ destination ∧ tracker.originByCurrentPath path = some found) := by
    intro path found located
    by_cases same : path = destination
    · subst same
      simp only [TurnDiffTracker.insertRename, Function.update_self, Option.some_inj] at located
      exact .inl ⟨rfl, located.symm⟩
    · simp only [TurnDiffTracker.insertRename, Function.update_of_ne same] at located
      exact .inr ⟨same, located⟩
  refine ⟨?_, ?_, ?_, ?_, ?_⟩
  · intro path found located
    rcases split located with ⟨rfl, rfl⟩ | ⟨_, located⟩
    · exact present
    · exact renames.present located
  · intro path found located
    rcases split located with ⟨rfl, rfl⟩ | ⟨_, located⟩
    · exact ne
    · exact renames.ne located
  · intro path found located
    rcases split located with ⟨rfl, rfl⟩ | ⟨_, located⟩
    · exact known
    · exact renames.touched located
  · intro path found located
    by_cases same : found = origin
    · subst same
      simp only [TurnDiffTracker.insertRename, Function.update_self, Option.some_inj] at located
      subst located
      simp [TurnDiffTracker.insertRename]
    simp only [TurnDiffTracker.insertRename, Function.update_of_ne same] at located
    have back := renames.back located
    have other : path ≠ destination := by
      rintro rfl
      exact absurd (plain.symm.trans back) (by simp)
    simpa only [TurnDiffTracker.insertRename, Function.update_of_ne other] using back
  · intro path found based located
    rcases split located with ⟨rfl, rfl⟩ | ⟨_, older⟩
    · simp [TurnDiffTracker.insertRename]
    · have other : found ≠ origin := by
        rintro rfl
        exact single based path older
      simpa only [TurnDiffTracker.insertRename, Function.update_of_ne other] using
        renames.forth based older

end Renames

/-! ## Contents -/

/-- The recorded contents: of a touched file its contents at the start of the turn and now, of
    another file nothing. -/
structure Contents (initial files : Files Path) (tracker : TurnDiffTracker Path Uri)
    (touched : TrackedPath Path → Prop) : Prop where
  baseline : ∀ {path}, touched path → text (tracker.baselineByPath path) = initial path
  current : ∀ {path}, touched path → text (tracker.currentByPath path) = files path
  untouched : ∀ {path}, ¬ touched path → tracker.baselineByPath path = none ∧
    tracker.currentByPath path = none ∧ files path = initial path

section Contents

variable {initial files : Files Path} {tracker : TurnDiffTracker Path Uri}
  {touched : TrackedPath Path → Prop}

omit [DecidableEq Path] in
theorem unrecorded_iff (path : TrackedPath Path) : tracker.unrecorded path = true ↔
    tracker.currentByPath path = none ∧ tracker.baselineByPath path = none := by
  simp [unrecorded]

omit [DecidableEq Path] in
/-- A file with a content that the tracker has nothing of is not touched. -/
theorem Contents.not_touched (contents : Contents initial files tracker touched)
    {path : TrackedPath Path} (unrecorded : tracker.unrecorded path) (exists_ : files path ≠ none) :
    ¬ touched path := by
  intro known
  rw [unrecorded_iff] at unrecorded
  rw [← contents.current known, unrecorded.1] at exists_
  exact exists_ rfl

/-- Recording the actual content leaves the content of the start of the turn. -/
theorem Contents.recordBaseline_self (contents : Contents initial files tracker touched)
    (path : TrackedPath Path) :
    text ((tracker.recordBaseline path (files path)).baselineByPath path) = initial path := by
  rw [text_recordBaseline_self]
  by_cases known : touched path
  · split
    next unrecorded =>
      rw [unrecorded_iff] at unrecorded
      rw [← contents.current known, ← contents.baseline known, unrecorded.1, unrecorded.2]
    next => exact contents.baseline known
  · obtain ⟨noBaseline, noCurrent, same⟩ := contents.untouched known
    rw [if_pos ((unrecorded_iff path).mpr ⟨noCurrent, noBaseline⟩), same]

/-- Contents of a file system that changed at some paths only. -/
theorem Contents.extend (contents : Contents initial files tracker touched)
    {after : TurnDiffTracker Path Uri} {files' : Files Path} {paths : List (TrackedPath Path)}
    (elsewhere : ∀ path ∉ paths, after.baselineByPath path = tracker.baselineByPath path ∧
      after.currentByPath path = tracker.currentByPath path ∧ files' path = files path)
    (here : ∀ path ∈ paths, text (after.baselineByPath path) = initial path ∧
      text (after.currentByPath path) = files' path) :
    Contents initial files' after (fun path => touched path ∨ path ∈ paths) := by
  refine ⟨?_, ?_, ?_⟩
  · intro path known
    by_cases member : path ∈ paths
    · exact (here path member).1
    · rw [(elsewhere path member).1]
      exact contents.baseline (known.resolve_right member)
  · intro path known
    by_cases member : path ∈ paths
    · exact (here path member).2
    · rw [(elsewhere path member).2.1, (elsewhere path member).2.2]
      exact contents.current (known.resolve_right member)
  · intro path unknown
    rw [not_or] at unknown
    obtain ⟨sameBaseline, sameCurrent, sameFile⟩ := elsewhere path unknown.2
    rw [sameBaseline, sameCurrent, sameFile]
    exact contents.untouched unknown.1

end Contents

/-! ## Applying a change -/

/-- What applying a change to some paths does to the tracker. -/
structure Applied (initial files files' : Files Path) (touched : TrackedPath Path → Prop)
    (paths : List (TrackedPath Path)) (tracker after : TurnDiffTracker Path Uri) : Prop where
  frame : after.frame = tracker.frame
  elsewhere : ∀ path ∉ paths, after.baselineByPath path = tracker.baselineByPath path ∧
    after.currentByPath path = tracker.currentByPath path ∧ files' path = files path
  origins : ∀ path ∉ paths, after.originByCurrentPath path = tracker.originByCurrentPath path
  destinations : ∀ origin, after.destinationByOrigin origin = tracker.destinationByOrigin origin ∨
    ∃ path ∈ paths, tracker.originByCurrentPath path = some origin ∨
      after.originByCurrentPath path = some origin
  here : ∀ path ∈ paths, text (after.baselineByPath path) = initial path ∧
    text (after.currentByPath path) = files' path
  renames : Renames after (fun path => touched path ∨ path ∈ paths)

section Applied

variable {initial files : Files Path} {tracker : TurnDiffTracker Path Uri}
  {touched : TrackedPath Path → Prop}

theorem Contents.removeOrigin (contents : Contents initial files tracker touched)
    (path : TrackedPath Path) : Contents initial files (tracker.removeOrigin path) touched := by
  refine ⟨?_, ?_, ?_⟩
  · rw [removeOrigin_baseline]
    exact contents.baseline
  · rw [removeOrigin_current]
    exact contents.current
  · rw [removeOrigin_baseline, removeOrigin_current]
    exact contents.untouched

theorem applyAdd_applied (contents : Contents initial files tracker touched)
    (renames : Renames tracker touched) (path : TrackedPath Path) (content : Text) :
    Applied initial files (Function.update files path (some content)) touched [path] tracker
      (tracker.applyAdd path content (files path)) := by
  refine ⟨by simp [applyAdd], ?_, ?_, ?_, ?_, ?_⟩
  · intro other ne
    rw [List.mem_singleton] at ne
    refine ⟨?_, ?_, Function.update_of_ne ne _ _⟩
    · exact (recordBaseline_baseline_of_ne _ _ _ _ ne).trans (by rw [removeOrigin_baseline])
    · rw [applyAdd, insertCurrent_current_of_ne _ _ _ _ ne, recordBaseline_current,
        removeOrigin_current]
  · intro other ne
    rw [List.mem_singleton] at ne
    change ((tracker.removeOrigin path).recordBaseline path _).originByCurrentPath other = _
    rw [recordBaseline_origin, removeOrigin_origin, if_neg ne]
  · intro origin
    change ((tracker.removeOrigin path).recordBaseline path _).destinationByOrigin origin = _ ∨ _
    rw [recordBaseline_destination, removeOrigin_destination]
    split
    next found => exact .inr ⟨path, by simp, .inl found⟩
    next => exact .inl rfl
  · intro other same
    rw [List.mem_singleton] at same
    subst same
    exact ⟨(contents.removeOrigin other).recordBaseline_self other, by simp [applyAdd]⟩
  · refine Renames.mono ?_ (fun _ known => .inl known)
    apply Renames.insertCurrent
    apply (renames.removeOrigin path).recordBaseline path
    exact (contents.removeOrigin path).not_touched

variable {path : TrackedPath Path}

theorem applyDelete_applied (contents : Contents initial files tracker touched)
    (renames : Renames tracker touched) {content : Text} (actual : files path = some content) :
    Applied initial files (Function.update files path none) touched [path] tracker
      (tracker.applyDelete path content) := by
  rw [applyDelete, ← actual]
  refine ⟨by simp, ?_, ?_, ?_, ?_, ?_⟩
  · intro other ne
    rw [List.mem_singleton] at ne
    rw [removeOrigin_baseline, removeOrigin_current]
    refine ⟨recordBaseline_baseline_of_ne _ _ _ _ ne, ?_, Function.update_of_ne ne _ _⟩
    rw [removeCurrent, recordBaseline_current]
    exact Function.update_of_ne ne _ _
  · intro other ne
    rw [List.mem_singleton] at ne
    rw [removeOrigin_origin, if_neg ne]
    exact congrFun (recordBaseline_origin _ _ _) other
  · intro origin
    rw [removeOrigin_destination, removeCurrent, recordBaseline_origin,
      recordBaseline_destination]
    split
    next found => exact .inr ⟨path, by simp, .inl found⟩
    next => exact .inl rfl
  · intro other same
    rw [List.mem_singleton] at same
    subst same
    rw [removeOrigin_baseline, removeOrigin_current]
    exact ⟨contents.recordBaseline_self other, by simp [removeCurrent]⟩
  -- The rename is removed after the content; the maps meet the invariant in between only
  -- without the rename.
  have swapped : ∀ tracker : TurnDiffTracker Path Uri,
      (tracker.removeCurrent path).removeOrigin path =
        (tracker.removeOrigin path).removeCurrent path := by
    intro tracker
    unfold TurnDiffTracker.removeOrigin
    split <;> simp_all [removeCurrent]
  rw [swapped]
  refine Renames.mono ?_ (fun _ known => .inl known)
  apply Renames.removeCurrent
  · apply Renames.removeOrigin
    exact renames.recordBaseline path _ contents.not_touched
  · rw [removeOrigin_origin, if_pos rfl]

theorem update_applied (contents : Contents initial files tracker touched)
    (renames : Renames tracker touched) {old : Text} (new : Text) (actual : files path = some old) :
    Applied initial files (Function.update files path (some new)) touched [path] tracker
      ((tracker.recordBaseline path (some old)).insertCurrent path new) := by
  rw [← actual]
  refine ⟨by simp, ?_, ?_, ?_, ?_, ?_⟩
  · intro other ne
    rw [List.mem_singleton] at ne
    refine ⟨recordBaseline_baseline_of_ne _ _ _ _ ne, ?_, Function.update_of_ne ne _ _⟩
    rw [insertCurrent_current_of_ne _ _ _ _ ne, recordBaseline_current]
  · intro other ne
    exact congrFun (recordBaseline_origin _ _ _) other
  · intro origin
    exact .inl (congrFun (recordBaseline_destination _ _ _) origin)
  · intro other same
    rw [List.mem_singleton] at same
    subst same
    exact ⟨contents.recordBaseline_self other, by simp⟩
  · refine Renames.mono ?_ (fun _ known => .inl known)
    apply Renames.insertCurrent
    exact renames.recordBaseline path _ contents.not_touched

/-! ### Moves -/

theorem unrecorded_recordBaseline_self (path : TrackedPath Path) (content : Text) :
    (tracker.recordBaseline path (some content)).unrecorded path = false := by
  by_cases unrecorded : tracker.unrecorded path
  · have recorded := text_recordBaseline_self tracker path (some content)
    rw [if_pos unrecorded] at recorded
    cases found : (tracker.recordBaseline path (some content)).baselineByPath path with
    | none => simp [found, text] at recorded
    | some baseline => simp [TurnDiffTracker.unrecorded, found]
  · rw [recordBaseline_of_recorded _ _ _ (by simpa using unrecorded)]
    simpa using unrecorded

theorem unrecorded_recordBaseline_of_ne {other : TrackedPath Path} (content : Option Text)
    (ne : other ≠ path) :
    (tracker.recordBaseline path content).unrecorded other = tracker.unrecorded other := by
  rw [unrecorded, unrecorded, recordBaseline_current, recordBaseline_baseline_of_ne _ _ _ _ ne]

/-- The tracker of a move once its two contents of the start of the turn are recorded. -/
def recordMove (tracker : TurnDiffTracker Path Uri) (source destination : TrackedPath Path)
    (old : Text) (overwritten : Option Text) : TurnDiffTracker Path Uri :=
  (tracker.recordBaseline source (some old)).recordBaseline destination overwritten

/-- The tracker of a move before its rename is recorded. -/
def moveContent (tracker : TurnDiffTracker Path Uri) (source destination : TrackedPath Path)
    (new : Text) : TurnDiffTracker Path Uri :=
  (((tracker.removeOrigin source).removeCurrent source).insertCurrent destination
    new).removeOrigin destination

section Move

variable {source destination : TrackedPath Path} {old : Text}

theorem applyUpdate_move (overwritten : Option Text) (new : Text) :
    tracker.applyUpdate source (some destination) old overwritten new =
      if destination = (tracker.originByCurrentPath source).getD source then
        (tracker.recordMove source destination old overwritten).moveContent source destination new
      else ((tracker.recordMove source destination old overwritten).moveContent source destination
        new).insertRename ((tracker.originByCurrentPath source).getD source) destination := by
  simp only [applyUpdate, applyMove, recordMove, moveContent, recordBaseline_origin]

@[simp] theorem recordMove_origin (overwritten : Option Text) :
    (tracker.recordMove source destination old overwritten).originByCurrentPath =
      tracker.originByCurrentPath := by
  simp [recordMove]

@[simp] theorem recordMove_destination (overwritten : Option Text) :
    (tracker.recordMove source destination old overwritten).destinationByOrigin =
      tracker.destinationByOrigin := by
  simp [recordMove]

@[simp] theorem recordMove_current (overwritten : Option Text) :
    (tracker.recordMove source destination old overwritten).currentByPath =
      tracker.currentByPath := by
  simp [recordMove]

theorem recordMove_baseline_of_notMem (overwritten : Option Text)
    (absent : path ∉ [source, destination]) :
    (tracker.recordMove source destination old overwritten).baselineByPath path =
      tracker.baselineByPath path := by
  simp only [List.mem_cons, List.not_mem_nil, or_false, not_or] at absent
  rw [recordMove, recordBaseline_baseline_of_ne _ _ _ _ absent.2,
    recordBaseline_baseline_of_ne _ _ _ _ absent.1]

theorem Contents.recordMove_baseline (contents : Contents initial files tracker touched)
    (actual : files source = some old) (member : path ∈ [source, destination]) :
    text ((tracker.recordMove source destination old (files destination)).baselineByPath path) =
      initial path := by
  have recordedSource := contents.recordBaseline_self source
  rw [actual] at recordedSource
  by_cases same : destination = source
  · subst same
    simp only [List.mem_cons, List.not_mem_nil, or_false, or_self] at member
    subst member
    rwa [recordMove, recordBaseline_of_recorded _ _ _ (unrecorded_recordBaseline_self _ _)]
  simp only [List.mem_cons, List.not_mem_nil, or_false] at member
  rcases member with rfl | rfl
  · rwa [recordMove, recordBaseline_baseline_of_ne _ _ _ _ (Ne.symm same)]
  · have recordedDestination := contents.recordBaseline_self path
    rw [text_recordBaseline_self] at recordedDestination
    rwa [recordMove, text_recordBaseline_self, unrecorded_recordBaseline_of_ne _ same,
      recordBaseline_baseline_of_ne _ _ _ _ same]

theorem Contents.recordMove_renames (contents : Contents initial files tracker touched)
    (renames : Renames tracker touched) (actual : files source = some old) :
    Renames (tracker.recordMove source destination old (files destination)) touched := by
  rw [recordMove, ← actual]
  apply (renames.recordBaseline source _ contents.not_touched).recordBaseline
  intro unrecorded found
  refine contents.not_touched ?_ found
  by_cases same : destination = source
  · subst same
    rw [actual, unrecorded_recordBaseline_self] at unrecorded
    cases unrecorded
  · rwa [unrecorded_recordBaseline_of_ne _ same] at unrecorded

/-- A move only records the contents of files that were not touched. -/
theorem Contents.recordMove_isSome (contents : Contents initial files tracker touched)
    (actual : files source = some old) (known : touched path) :
    ((tracker.recordMove source destination old (files destination)).baselineByPath path).isSome =
      (tracker.baselineByPath path).isSome := by
  have same : text ((tracker.recordMove source destination old
      (files destination)).baselineByPath path) = text (tracker.baselineByPath path) := by
    rw [contents.baseline known]
    by_cases member : path ∈ [source, destination]
    · exact contents.recordMove_baseline actual member
    · rw [recordMove_baseline_of_notMem _ member, contents.baseline known]
  simpa [text] using congrArg Option.isSome same

theorem moveContent_origin (new : Text) (path : TrackedPath Path) :
    (tracker.moveContent source destination new).originByCurrentPath path =
      if path = destination ∨ path = source then none
      else tracker.originByCurrentPath path := by
  rw [moveContent, removeOrigin_origin]
  by_cases atDestination : path = destination
  · simp [atDestination]
  · rw [if_neg atDestination]
    change (tracker.removeOrigin source).originByCurrentPath path = _
    rw [removeOrigin_origin]
    simp [atDestination]

/-- The move of contents removes the destinations of the origins of both paths. -/
theorem moveContent_destination (new : Text) (origin : TrackedPath Path) :
    (tracker.moveContent source destination new).destinationByOrigin origin =
        tracker.destinationByOrigin origin ∨
      ∃ path ∈ [source, destination], tracker.originByCurrentPath path = some origin := by
  rw [moveContent, removeOrigin_destination]
  change (if (tracker.removeOrigin source).originByCurrentPath destination = some origin then none
    else (tracker.removeOrigin source).destinationByOrigin origin) = _ ∨ _
  rw [removeOrigin_origin, removeOrigin_destination]
  by_cases ofSource : tracker.originByCurrentPath source = some origin
  · exact .inr ⟨source, by simp, ofSource⟩
  by_cases ofDestination : tracker.originByCurrentPath destination = some origin
  · exact .inr ⟨destination, by simp, ofDestination⟩
  · left
    rw [if_neg, if_neg ofSource]
    split
    · simp
    · exact ofDestination

theorem moveContent_current (new : Text) (path : TrackedPath Path) :
    text ((tracker.moveContent source destination new).currentByPath path) =
      if path = destination then some new
      else if path = source then none else text (tracker.currentByPath path) := by
  rw [moveContent, removeOrigin_current, insertCurrent_current]
  split
  next => rfl
  next =>
    rw [removeCurrent, removeOrigin_current]
    by_cases atSource : path = source
    · simp [atSource]
    · simp [atSource]

theorem moveContent_current_of_notMem (new : Text) (absent : path ∉ [source, destination]) :
    (tracker.moveContent source destination new).currentByPath path =
      tracker.currentByPath path := by
  simp only [List.mem_cons, List.not_mem_nil, or_false, not_or] at absent
  rw [moveContent, removeOrigin_current, insertCurrent_current_of_ne _ _ _ _ absent.2,
    removeCurrent, removeOrigin_current]
  exact Function.update_of_ne absent.1 _ _

@[simp] theorem moveContent_baseline (new : Text) :
    (tracker.moveContent source destination new).baselineByPath = tracker.baselineByPath := by
  rw [moveContent, removeOrigin_baseline]
  change (tracker.removeOrigin source).baselineByPath = _
  rw [removeOrigin_baseline]

theorem Renames.moveContent (renames : Renames tracker touched) (new : Text) :
    Renames (tracker.moveContent source destination new) touched := by
  apply Renames.removeOrigin
  apply Renames.insertCurrent
  apply (renames.removeOrigin source).removeCurrent
  rw [removeOrigin_origin, if_pos rfl]

/-- Where no second file is recorded as moved away from the source, no file but the moved one
    is recorded under the origin of the source. -/
theorem Renames.single (renames : Renames tracker touched)
    (single : tracker.originByCurrentPath source = none →
      (tracker.baselineByPath source).isSome →
      ∀ earlier ∈ tracker.destinationByOrigin source, earlier = destination)
    (new : Text)
    (based : (tracker.baselineByPath
      ((tracker.originByCurrentPath source).getD source)).isSome) (path : TrackedPath Path) :
    (tracker.moveContent source destination new).originByCurrentPath path ≠
      some ((tracker.originByCurrentPath source).getD source) := by
  rw [moveContent_origin]
  split
  · simp
  next other =>
    intro found
    rw [not_or] at other
    have forth := renames.forth based found
    cases located : tracker.originByCurrentPath source with
    | none =>
      rw [located, Option.getD_none] at forth based
      exact other.1 (single located based path forth)
    | some origin =>
      rw [located, Option.getD_some] at forth based
      have moved := renames.forth based located
      rw [forth, Option.some_inj] at moved
      exact other.2 moved

theorem move_applied (contents : Contents initial files tracker touched)
    (renames : Renames tracker touched) (actual : files source = some old) (new : Text)
    (single : tracker.originByCurrentPath source = none →
      (tracker.baselineByPath source).isSome →
      ∀ earlier ∈ tracker.destinationByOrigin source, earlier = destination) :
    Applied initial files
      (Function.update (Function.update files source none) destination (some new)) touched
      [source, destination] tracker
      (tracker.applyUpdate source (some destination) old (files destination) new) := by
  have recorded : Renames (tracker.recordMove source destination old (files destination))
      touched := contents.recordMove_renames renames actual
  rw [applyUpdate_move]
  generalize beforeEq : tracker.recordMove source destination old (files destination) = before
    at recorded ⊢
  have origins : before.originByCurrentPath = tracker.originByCurrentPath := by simp [← beforeEq]
  have destinations : before.destinationByOrigin = tracker.destinationByOrigin := by
    simp [← beforeEq]
  have moved : Renames (before.moveContent source destination new) touched :=
    recorded.moveContent new
  have elsewhere : ∀ path ∉ [source, destination],
      (before.moveContent source destination new).baselineByPath path =
          tracker.baselineByPath path ∧
        (before.moveContent source destination new).currentByPath path =
          tracker.currentByPath path ∧
        Function.update (Function.update files source none) destination (some new) path =
          files path := by
    intro path absent
    refine ⟨?_, ?_, ?_⟩
    · rw [moveContent_baseline, ← beforeEq, recordMove_baseline_of_notMem _ absent]
    · rw [moveContent_current_of_notMem _ absent, ← beforeEq, recordMove_current]
    · simp only [List.mem_cons, List.not_mem_nil, or_false, not_or] at absent
      rw [Function.update_of_ne absent.2, Function.update_of_ne absent.1]
  have here : ∀ path ∈ [source, destination],
      text ((before.moveContent source destination new).baselineByPath path) = initial path ∧
        text ((before.moveContent source destination new).currentByPath path) =
          Function.update (Function.update files source none) destination (some new) path := by
    intro path member
    constructor
    · rw [moveContent_baseline, ← beforeEq, contents.recordMove_baseline actual member]
    · rw [moveContent_current, Function.update_apply, Function.update_apply]
      simp only [List.mem_cons, List.not_mem_nil, or_false] at member
      rcases member with rfl | rfl <;> simp
  have movedOrigins : ∀ path ∉ [source, destination],
      (before.moveContent source destination new).originByCurrentPath path =
        tracker.originByCurrentPath path := by
    intro path absent
    simp only [List.mem_cons, List.not_mem_nil, or_false, not_or] at absent
    rw [moveContent_origin, if_neg (by simp [absent]), origins]
  have movedDestinations : ∀ origin,
      (before.moveContent source destination new).destinationByOrigin origin =
          tracker.destinationByOrigin origin ∨
        ∃ path ∈ [source, destination], tracker.originByCurrentPath path = some origin := by
    intro origin
    rw [← destinations, ← origins]
    exact moveContent_destination new origin
  have frame : (before.moveContent source destination new).frame = tracker.frame := by
    simp [← beforeEq, recordMove, moveContent]
  have more : ∀ path, touched path → touched path ∨ path ∈ [source, destination] :=
    fun _ known => .inl known
  split
  · refine ⟨frame, elsewhere, movedOrigins, ?_, here, moved.mono more⟩
    intro origin
    rcases movedDestinations origin with same | ⟨path, member, found⟩
    · exact .inl same
    · exact .inr ⟨path, member, .inl found⟩
  next ne =>
    refine ⟨frame, elsewhere, ?_, ?_, here, ?_⟩
    · intro path absent
      have other : path ≠ destination := by
        rintro rfl
        simp at absent
      rw [← movedOrigins path absent]
      exact Function.update_of_ne other _ _
    · intro origin
      by_cases same : origin = (tracker.originByCurrentPath source).getD source
      · refine .inr ⟨destination, by simp, .inr ?_⟩
        rw [same]
        exact Function.update_self _ _ _
      · rcases movedDestinations origin with kept | ⟨path, member, found⟩
        · left
          rw [← kept]
          exact Function.update_of_ne same _ _
        · exact .inr ⟨path, member, .inl found⟩
    refine (moved.mono more).insertRename ne ?_ ?_ ?_ ?_
    · have present : text ((before.moveContent source destination new).currentByPath
          destination) = some new := by
        rw [moveContent_current, if_pos rfl]
      simpa [text] using congrArg Option.isSome present
    · cases found : tracker.originByCurrentPath source with
      | none => simp
      | some origin => exact .inl (renames.touched found)
    · simp [moveContent_origin]
    intro based path
    rw [← origins] at based ⊢
    apply recorded.single
    · intro plain recordedSource earlier found
      rw [destinations] at found
      rw [origins] at plain
      have known : touched source := renames.touched (renames.back found)
      rw [← beforeEq, contents.recordMove_isSome actual known] at recordedSource
      exact single plain recordedSource earlier found
    · rwa [moveContent_baseline] at based

end Move

theorem applyChange_applied {call : Call Path Uri} {change : AppliedPatchChange Path Uri}
    (contents : Contents initial files tracker touched) (renames : Renames tracker touched)
    (actual : ActualPreimages call.environmentId files change)
    (single : SingleRename call tracker change) :
    Applied initial files (commit call.environmentId files change) touched
      (change.paths call.environmentId) tracker
      (tracker.applyChange call.environmentId change) := by
  obtain ⟨path, fileChange, uri, moveUri⟩ := change
  cases fileChange with
  | add content overwritten =>
    obtain rfl : overwritten = files ⟨call.environmentId, path⟩ := actual
    exact applyAdd_applied contents renames _ content
  | delete content => exact applyDelete_applied contents renames actual
  | update movePath old overwritten new =>
    obtain ⟨found, moved⟩ :
        files ⟨call.environmentId, path⟩ = some old ∧
          ∀ other ∈ movePath, overwritten = files ⟨call.environmentId, other⟩ := actual
    cases movePath with
    | none => exact update_applied contents renames new found
    | some destination =>
      obtain rfl := moved destination rfl
      exact move_applied contents renames found new (single destination rfl)

end Applied

/-! ## Fragments -/

section Fragments

variable {tracker after : TurnDiffTracker Path Uri} {touched : TrackedPath Path → Prop}

omit [DecidableEq Path] in
theorem renameDestination_eq_some {origin destination : TrackedPath Path} :
    tracker.renameDestination origin = some destination ↔
      tracker.destinationByOrigin origin = some destination ∧
        tracker.currentByPath origin = none ∧ (tracker.currentByPath destination).isSome ∧
        (tracker.baselineByPath origin).isSome ∧ tracker.baselineByPath destination = none := by
  simp [renameDestination, and_assoc]

omit [DecidableEq Path] in
/-- A file is rendered with its origin where the origin, but not the file, existed when the turn
    started, and the origin does not exist any more. -/
theorem Renames.pairedDestination_iff (renames : Renames tracker touched)
    (path : TrackedPath Path) : tracker.pairedDestination path = true ↔
      ∃ origin, tracker.originByCurrentPath path = some origin ∧
        (tracker.baselineByPath origin).isSome ∧ tracker.currentByPath origin = none ∧
        tracker.baselineByPath path = none := by
  simp only [pairedDestination, Option.isSome_bind, Option.any_eq_true]
  constructor
  · rintro ⟨origin, found, paired⟩
    obtain ⟨destination, renamed⟩ := Option.isSome_iff_exists.mp paired
    rw [renameDestination_eq_some] at renamed
    obtain ⟨leads, gone, _, based, new⟩ := renamed
    have forth := renames.forth based found
    rw [leads, Option.some_inj] at forth
    subst forth
    exact ⟨origin, found, based, gone, new⟩
  · rintro ⟨origin, found, based, gone, new⟩
    refine ⟨origin, found, Option.isSome_iff_exists.mpr ⟨path, ?_⟩⟩
    exact renameDestination_eq_some.mpr
      ⟨renames.forth based found, gone, renames.present found, based, new⟩

variable {other : TrackedPath Path}

theorem mem_collectDiffPartners {path : TrackedPath Path} {changed : Finset (TrackedPath Path)} :
    other ∈ tracker.collectDiffPartners path changed ↔
      other ∈ changed ∨ other = path ∨ tracker.originByCurrentPath path = some other ∨
        tracker.destinationByOrigin path = some other := by
  simp only [collectDiffPartners, Finset.mem_union, Finset.mem_insert, Option.mem_toFinset,
    Option.mem_def]
  tauto

theorem mem_collectAll {paths : List (TrackedPath Path)} {changed : Finset (TrackedPath Path)} :
    other ∈ tracker.collectAll paths changed ↔
      other ∈ changed ∨ ∃ path ∈ paths, other = path ∨
        tracker.originByCurrentPath path = some other ∨
        tracker.destinationByOrigin path = some other := by
  induction paths generalizing changed with
  | nil => simp [collectAll]
  | cons path rest ih =>
    have unfolded : tracker.collectAll (path :: rest) changed =
      tracker.collectAll rest (tracker.collectDiffPartners path changed) := rfl
    rw [unfolded, ih, mem_collectDiffPartners]
    simp only [List.mem_cons, exists_eq_or_imp, or_assoc]

/-- The partners of a change do not include a path, before or after it. -/
structure Unrelated (tracker after : TurnDiffTracker Path Uri) (paths : List (TrackedPath Path))
    (path : TrackedPath Path) : Prop where
  absent : path ∉ paths
  origin : ∀ other ∈ paths, tracker.originByCurrentPath other ≠ some path
  origin_after : ∀ other ∈ paths, after.originByCurrentPath other ≠ some path
  destination : ∀ other ∈ paths, tracker.destinationByOrigin other ≠ some path

theorem Unrelated.of_notMem {paths : List (TrackedPath Path)} {path : TrackedPath Path}
    (before : path ∉ tracker.collectAll paths ∅) (later : path ∉ after.collectAll paths ∅) :
    Unrelated tracker after paths path := by
  rw [mem_collectAll] at before later
  refine ⟨?_, ?_, ?_, ?_⟩
  · intro member
    exact before (.inr ⟨path, member, .inl rfl⟩)
  · intro other member found
    exact before (.inr ⟨other, member, .inr (.inl found)⟩)
  · intro other member found
    exact later (.inr ⟨other, member, .inr (.inl found)⟩)
  · intro other member found
    exact before (.inr ⟨other, member, .inr (.inr found)⟩)

section Elsewhere

variable {initial files files' : Files Path} {paths : List (TrackedPath Path)}
  {path : TrackedPath Path}

theorem Applied.baseline_eq_none
    (applied : Applied initial files files' touched paths tracker after)
    (contents : Contents initial files tracker touched) (known : touched other) :
    after.baselineByPath other = none ↔ tracker.baselineByPath other = none := by
  rw [← text_eq_none, ← text_eq_none, contents.baseline known]
  by_cases member : other ∈ paths
  · rw [(applied.here other member).1]
  · rw [(applied.elsewhere other member).1, contents.baseline known]

theorem Applied.pairedDestination (applied : Applied initial files files' touched paths tracker after)
    (contents : Contents initial files tracker touched) (renames : Renames tracker touched)
    (unrelated : Unrelated tracker after paths path) :
    after.pairedDestination path = tracker.pairedDestination path := by
  have sameOrigin := applied.origins path unrelated.absent
  have sameBaseline := (applied.elsewhere path unrelated.absent).1
  rw [Bool.eq_iff_iff, applied.renames.pairedDestination_iff, renames.pairedDestination_iff,
    sameOrigin, sameBaseline]
  apply exists_congr
  intro origin
  apply and_congr_right
  intro found
  have based : (after.baselineByPath origin).isSome ↔ (tracker.baselineByPath origin).isSome := by
    rw [← Option.ne_none_iff_isSome, ← Option.ne_none_iff_isSome]
    exact not_congr (applied.baseline_eq_none contents (renames.touched found))
  rw [based]
  apply and_congr_right
  intro based
  have absent : origin ∉ paths := by
    intro member
    exact unrelated.destination origin member (renames.forth based found)
  rw [(applied.elsewhere origin absent).2.1]

omit [DecidableEq Path] in
theorem Applied.destination_absent
    (renames : Renames tracker touched) (unrelated : Unrelated tracker after paths path)
    {destination : TrackedPath Path}
    (leads : tracker.destinationByOrigin path = some destination) : destination ∉ paths := by
  intro member
  exact unrelated.origin destination member (renames.back leads)

omit [DecidableEq Path] in
theorem Applied.renameDestination (applied : Applied initial files files' touched paths tracker after)
    (renames : Renames tracker touched) (unrelated : Unrelated tracker after paths path) :
    after.renameDestination path = tracker.renameDestination path := by
  have sameDestination : after.destinationByOrigin path = tracker.destinationByOrigin path := by
    rcases applied.destinations path with same | ⟨other, member, found | found⟩
    · exact same
    · exact absurd found (unrelated.origin other member)
    · exact absurd found (unrelated.origin_after other member)
  obtain ⟨sameBaseline, sameCurrent, _⟩ := applied.elsewhere path unrelated.absent
  ext destination
  rw [renameDestination_eq_some, renameDestination_eq_some, sameDestination, sameBaseline, sameCurrent]
  apply and_congr_right
  intro leads
  have absent := Applied.destination_absent renames unrelated leads
  rw [(applied.elsewhere destination absent).1, (applied.elsewhere destination absent).2.1]

/-- The fragment of a path changes only with a path of the change or one of its partners, before
    or after it. -/
theorem Applied.freshFragment (applied : Applied initial files files' touched paths tracker after)
    (contents : Contents initial files tracker touched) (renames : Renames tracker touched)
    (unrelated : Unrelated tracker after paths path) :
    after.freshFragment path = tracker.freshFragment path := by
  have sameUnavailable : after.unavailablePaths = tracker.unavailablePaths :=
    congrArg (fun frame => frame.2.2.1) applied.frame
  have sameBaseline := (applied.elsewhere path unrelated.absent).1
  have sameRight : after.currentByPath ((tracker.renameDestination path).getD path) =
      tracker.currentByPath ((tracker.renameDestination path).getD path) := by
    cases renamed : tracker.renameDestination path with
    | none => exact (applied.elsewhere path unrelated.absent).2.1
    | some destination =>
      have leads := (renameDestination_eq_some.mp renamed).1
      have absent := Applied.destination_absent renames unrelated leads
      exact (applied.elsewhere destination absent).2.1
  rw [TurnDiffTracker.freshFragment, TurnDiffTracker.freshFragment, sameUnavailable,
    applied.pairedDestination contents renames unrelated,
    applied.renameDestination renames unrelated, sameBaseline]
  dsimp only
  rw [sameRight]

end Elsewhere

end Fragments

/-! ## One change of a turn -/

/-- The tracker inside a delta: only the fragments of the paths that are still to be refreshed
    may be out of date. -/
structure Tracked (initial files : Files Path) (touched : TrackedPath Path → Prop)
    (tracker : TurnDiffTracker Path Uri) (changed : Finset (TrackedPath Path)) : Prop where
  valid : tracker.valid = true
  available : tracker.unavailablePaths = ∅
  spelled : ∀ {spelling endpoint}, tracker.endpointBySpelling spelling = some endpoint →
    endpoint = spelling
  known : ∀ {path}, (tracker.executorPaths path).isSome → touched path
  contents : Contents initial files tracker touched
  renames : Renames tracker touched
  rendered : ∀ path ∉ changed, tracker.renderedDiffs path = tracker.freshFragment path

section Step

variable {host : UriHost Path Uri} {call : Call Path Uri} {initial files : Files Path}
  {touched : TrackedPath Path → Prop} {tracker : TurnDiffTracker Path Uri}
  {changed : Finset (TrackedPath Path)} {original : AppliedPatchChange Path Uri}

theorem Tracked.preimageMatches (tracked : Tracked initial files touched tracker changed)
    (path : TrackedPath Path) : tracker.preimageMatches path (files path) = true := by
  simp only [TurnDiffTracker.preimageMatches, Bool.or_eq_true, Bool.not_eq_true', beq_iff_eq]
  by_cases known : touched path
  · exact .inr (tracked.contents.current known)
  left
  obtain ⟨noBaseline, noCurrent, _⟩ := tracked.contents.untouched known
  have notExecutor : (tracker.executorPaths path).isSome = false := by
    rw [Bool.eq_false_iff]
    exact fun found => known (tracked.known found)
  simp [noBaseline, noCurrent, notExecutor]

theorem Tracked.patchPreimagesMatch (tracked : Tracked initial files touched tracker changed)
    (actual : ActualPreimages call.environmentId files original) :
    tracker.patchPreimagesMatch call.environmentId original = true := by
  obtain ⟨path, fileChange, uri, moveUri⟩ := original
  cases fileChange with
  | add content overwritten =>
    obtain rfl : overwritten = files ⟨call.environmentId, path⟩ := actual
    exact tracked.preimageMatches _
  | delete content =>
    have found : files ⟨call.environmentId, path⟩ = some content := actual
    simp only [TurnDiffTracker.patchPreimagesMatch, ← found]
    exact tracked.preimageMatches _
  | update movePath old overwritten new =>
    obtain ⟨found, moved⟩ :
        files ⟨call.environmentId, path⟩ = some old ∧
          ∀ other ∈ movePath, overwritten = files ⟨call.environmentId, other⟩ := actual
    simp only [TurnDiffTracker.patchPreimagesMatch, ← found, Bool.and_eq_true]
    refine ⟨tracked.preimageMatches _, ?_⟩
    cases movePath with
    | none => rfl
    | some destination =>
      obtain rfl := moved destination rfl
      exact tracked.preimageMatches _

/-- Registering a change whose spelling is its endpoint makes nothing unavailable. -/
theorem Tracked.register_unavailable (tracked : Tracked initial files touched tracker changed) :
    (tracker.register host call.environmentId ⟨call.environmentId, original.path⟩
      original).unavailablePaths = ∅ := by
  have none : (tracker.endpointBySpelling ⟨call.environmentId, original.path⟩).filter
      (· ≠ ⟨call.environmentId, original.path⟩) = none := by
    rw [Option.filter_eq_none_iff]
    intro endpoint found
    simpa using tracked.spelled found
  simp only [TurnDiffTracker.register, none, tracked.available]
  rfl

theorem register_executorPaths (moved : original.movePathUri.map host.toPathBuf = original.movePath)
    {path : TrackedPath Path}
    (found : ((tracker.register host call.environmentId ⟨call.environmentId, original.path⟩
      original).executorPaths path).isSome) :
    (tracker.executorPaths path).isSome ∨ path ∈ original.paths call.environmentId := by
  by_cases member : path ∈ original.paths call.environmentId
  · exact .inr member
  left
  simp only [AppliedPatchChange.paths, List.mem_cons, not_or, ← moved] at member
  cases uri : original.movePathUri with
  | none =>
    simp only [register, uri] at found
    rwa [Function.update_of_ne member.1] at found
  | some destination =>
    simp only [uri, Option.map_some, Option.toList_some, List.map_cons, List.map_nil,
      List.mem_singleton] at member
    simp only [register, uri] at found
    rwa [Function.update_of_ne member.2, Function.update_of_ne member.1] at found

/-- An accurate change, tracked. -/
theorem Tracked.trackChange_eq (tracked : Tracked initial files touched tracker changed)
    (accurate : Accurate host call files original) :
    trackChange host call.environmentId call.delta (tracker, changed) original =
      let registered := tracker.register host call.environmentId
        ⟨call.environmentId, original.path⟩ original
      let after := registered.applyChange call.environmentId original
      (after, after.collectAll (original.paths call.environmentId)
        (registered.collectAll (original.paths call.environmentId) changed)) := by
  simp only [trackChange, accurate.spelled, tracked.patchPreimagesMatch accurate.actual, withhold,
    tracked.register_unavailable]
  simp

/-- One accurate change that is no second move away from a path keeps the tracker right. -/
theorem Tracked.trackChange (tracked : Tracked initial files touched tracker changed)
    (accurate : Accurate host call files original) (single : SingleRename call tracker original) :
    Tracked initial (commit call.environmentId files original)
      (fun path => touched path ∨ path ∈ original.paths call.environmentId)
      (trackChange host call.environmentId call.delta (tracker, changed) original).1
      (trackChange host call.environmentId call.delta (tracker, changed) original).2 := by
  rw [tracked.trackChange_eq accurate]
  have unavailable : (tracker.register host call.environmentId
      ⟨call.environmentId, original.path⟩ original).unavailablePaths = ∅ :=
    tracked.register_unavailable
  have spellings : (tracker.register host call.environmentId
      ⟨call.environmentId, original.path⟩ original).endpointBySpelling =
      Function.update tracker.endpointBySpelling ⟨call.environmentId, original.path⟩
        (some ⟨call.environmentId, original.path⟩) := rfl
  have executors : ∀ path, ((tracker.register host call.environmentId
      ⟨call.environmentId, original.path⟩ original).executorPaths path).isSome →
      (tracker.executorPaths path).isSome ∨ path ∈ original.paths call.environmentId :=
    fun _ => register_executorPaths accurate.moved
  have contents : Contents initial files (tracker.register host call.environmentId
      ⟨call.environmentId, original.path⟩ original) touched :=
    ⟨tracked.contents.baseline, tracked.contents.current, tracked.contents.untouched⟩
  have renames : Renames (tracker.register host call.environmentId
      ⟨call.environmentId, original.path⟩ original) touched :=
    ⟨tracked.renames.present, tracked.renames.ne, tracked.renames.touched, tracked.renames.back,
      tracked.renames.forth⟩
  have applied := applyChange_applied contents renames accurate.actual single
  have valid : (tracker.register host call.environmentId
      ⟨call.environmentId, original.path⟩ original).valid = true := tracked.valid
  have fragments : ∀ path ∉ changed, (tracker.register host call.environmentId
      ⟨call.environmentId, original.path⟩ original).renderedDiffs path =
      (tracker.register host call.environmentId ⟨call.environmentId, original.path⟩
        original).freshFragment path := by
    intro path outside
    refine (tracked.rendered path outside).trans ?_
    rw [freshFragment, freshFragment, unavailable, tracked.available]
    rfl
  generalize tracker.register host call.environmentId ⟨call.environmentId, original.path⟩
    original = registered at *
  dsimp only
  generalize registered.applyChange call.environmentId original = after at *
  have frame := applied.frame
  simp only [TurnDiffTracker.frame, Prod.mk.injEq] at frame
  obtain ⟨sameValid, sameRendered, sameUnavailable, sameExecutor, sameSpelling⟩ := frame
  refine ⟨by rw [sameValid, valid], by rw [sameUnavailable, unavailable], ?_, ?_,
    contents.extend applied.elsewhere applied.here, applied.renames, ?_⟩
  · intro spelling endpoint found
    rw [sameSpelling, spellings] at found
    by_cases same : spelling = ⟨call.environmentId, original.path⟩
    · rw [same, Function.update_self, Option.some_inj] at found
      rw [same, found]
    · rw [Function.update_of_ne same] at found
      exact tracked.spelled found
  · intro path found
    rw [sameExecutor] at found
    exact (executors path found).imp tracked.known id
  intro path outside
  rw [mem_collectAll, mem_collectAll, not_or, not_or] at outside
  obtain ⟨⟨notChanged, before⟩, later⟩ := outside
  have unrelated : Unrelated registered after (original.paths call.environmentId) path := by
    apply Unrelated.of_notMem
    · rw [mem_collectAll]
      exact fun member => before (member.resolve_left (Finset.notMem_empty _))
    · rw [mem_collectAll]
      exact fun member => later (member.resolve_left (Finset.notMem_empty _))
  rw [sameRendered, fragments path notChanged, applied.freshFragment contents renames unrelated]

/-- The changes of a delta that are left keep the tracker right. -/
theorem Tracked.trackChanges {changes : List (AppliedPatchChange Path Uri)}
    (tracked : Tracked initial files touched tracker changed)
    (accurate : ThroughoutDelta host call (fun _ => Accurate host call) (tracker, changed) files
      changes)
    (single : ThroughoutDelta host call (fun tracker _ => SingleRename call tracker)
      (tracker, changed) files changes) :
    Tracked initial (changes.foldl (commit call.environmentId) files)
      (fun path => touched path ∨ path ∈ changes.flatMap (·.paths call.environmentId))
      (changes.foldl (TurnDiffTracker.trackChange host call.environmentId call.delta)
        (tracker, changed)).1
      (changes.foldl (TurnDiffTracker.trackChange host call.environmentId call.delta)
        (tracker, changed)).2 := by
  induction changes generalizing files tracker changed touched with
  | nil => simpa using tracked
  | cons change rest ih =>
    have next := ih (tracked.trackChange accurate.1 single.1) accurate.2 single.2
    simpa only [List.foldl_cons, List.flatMap_cons, List.mem_append, or_assoc] using next

end Step

section Turn

variable {host : UriHost Path Uri} {initial files : Files Path}
  {touched : TrackedPath Path → Prop} {tracker : TurnDiffTracker Path Uri}
  {changed : Finset (TrackedPath Path)}

/-- The tracker does not read the modes of a patch for its contents and renames. -/
theorem Tracked.withModes
    (tracked : Tracked initial files touched tracker changed)
    (modes : TrackedPath Path → Option Text) :
    Tracked initial files touched { tracker with patchModes := modes } changed where
  valid := tracked.valid
  available := tracked.available
  spelled := tracked.spelled
  known := tracked.known
  contents := ⟨tracked.contents.baseline, tracked.contents.current, tracked.contents.untouched⟩
  renames := ⟨tracked.renames.present, tracked.renames.ne, tracked.renames.touched,
    tracked.renames.back, tracked.renames.forth⟩
  rendered := tracked.rendered

theorem Tracked.refresh (tracked : Tracked initial files touched tracker changed) :
    Tracked initial files touched (tracker.refreshUnifiedDiff changed) ∅ := by
  rw [refreshUnifiedDiff, if_pos tracked.valid]
  refine ⟨tracked.valid, tracked.available, tracked.spelled, tracked.known,
    ⟨tracked.contents.baseline, tracked.contents.current, tracked.contents.untouched⟩,
    ⟨tracked.renames.present, tracked.renames.ne, tracked.renames.touched, tracked.renames.back,
      tracked.renames.forth⟩, ?_⟩
  intro path _
  dsimp only
  split
  next => rfl
  next outside => exact tracked.rendered path outside

theorem Tracked.trackDelta {call : Call Path Uri} (tracked : Tracked initial files touched tracker ∅)
    (exact_ : call.delta.exact = true)
    (accurate : ThroughoutDelta host call (fun _ => Accurate host call)
      (tracker.setPatchModes call.environmentId call.delta.preimageModes, ∅) files
      call.delta.changes)
    (single : ThroughoutDelta host call (fun tracker _ => SingleRename call tracker)
      (tracker.setPatchModes call.environmentId call.delta.preimageModes, ∅) files
      call.delta.changes) :
    Tracked initial (commitDelta files call)
      (fun path => touched path ∨ path ∈ call.delta.changes.flatMap (·.paths call.environmentId))
      (track host tracker call) ∅ := by
  have started := tracked.withModes (fun path =>
    if path.environmentId = call.environmentId then call.delta.preimageModes path.path else none)
  have finished := (started.trackChanges accurate single).refresh.withModes (fun _ => none)
  rw [track, TurnDiffTracker.trackDelta, if_neg (by simp [tracked.valid]),
    if_neg (by simp [exact_])]
  exact finished

/-- A turn keeps its tracker right. -/
theorem Tracked.turn {calls : List (Call Path Uri)}
    (tracked : Tracked initial files touched tracker ∅)
    (exact_ : ∀ call ∈ calls, call.delta.exact = true)
    (accurate : Throughout host (fun call _ => Accurate host call) tracker files calls)
    (single : Throughout host (fun call tracker _ => SingleRename call tracker) tracker files
      calls) :
    Tracked initial (calls.foldl commitDelta files)
      (fun path => touched path ∨ path ∈ touchedFiles calls)
      (calls.foldl (track host) tracker) ∅ := by
  induction calls generalizing files tracker touched with
  | nil => simpa [touchedFiles] using tracked
  | cons call rest ih =>
    have step := tracked.trackDelta (exact_ call (by simp)) accurate.1 single.1
    have next := ih step (fun other member => exact_ other (List.mem_cons_of_mem _ member))
      accurate.2 single.2
    simpa only [List.foldl_cons, touchedFiles, List.flatMap_cons, List.mem_append, or_assoc]
      using next

theorem tracked_new : Tracked initial initial (fun _ => False)
    (new : TurnDiffTracker Path Uri) ∅ := by
  refine ⟨rfl, rfl, ?_, ?_, ?_, ?_, ?_⟩
  · intro spelling endpoint found
    simp [new] at found
  · intro path found
    simp [new] at found
  · exact ⟨fun known => known.elim, fun known => known.elim, fun _ => ⟨rfl, rfl, rfl⟩⟩
  · constructor <;> simp [new]
  · intro path _
    simp [new, freshFragment, renderDiff, pairedDestination, renameDestination]

end Turn

/-! ## The fragments of a turn -/

section Net

variable {initial files : Files Path} {touched : TrackedPath Path → Prop}
  {tracker : TurnDiffTracker Path Uri} {path other : TrackedPath Path}
  {fragment otherFragment : Fragment Path}

omit [DecidableEq Path] in
theorem Contents.changed_iff (contents : Contents initial files tracker touched)
    (path : TrackedPath Path) : initial path ≠ files path ↔
      text (tracker.baselineByPath path) ≠ text (tracker.currentByPath path) := by
  by_cases known : touched path
  · rw [contents.baseline known, contents.current known]
  · obtain ⟨noBaseline, noCurrent, same⟩ := contents.untouched known
    simp [noBaseline, noCurrent, same]

/-- A rendered fragment: its sides, and why it is rendered. -/
structure Rendered (tracker : TurnDiffTracker Path Uri) (path : TrackedPath Path)
    (fragment : Fragment Path) : Prop where
  left : fragment.leftPath = path
  leftContent : fragment.leftContent = tracker.baselineByPath path
  right : fragment.rightPath = (tracker.renameDestination path).getD path
  rightContent : fragment.rightContent = tracker.currentByPath fragment.rightPath
  unpaired : tracker.pairedDestination path = false
  differs : text (tracker.baselineByPath path) = text (tracker.currentByPath fragment.rightPath) →
    fragment.rightPath ≠ path

theorem Tracked.mem_rendered_iff (tracked : Tracked initial files touched tracker ∅) :
    tracker.renderedDiffs path = some fragment ↔
      tracker.pairedDestination path = false ∧
        renderDiff path (tracker.baselineByPath path) ((tracker.renameDestination path).getD path)
          (tracker.currentByPath ((tracker.renameDestination path).getD path)) = some fragment := by
  rw [tracked.rendered path (Finset.notMem_empty _), freshFragment, tracked.available,
    if_neg (Finset.notMem_empty _)]
  cases tracker.pairedDestination path <;> simp

theorem Tracked.rendered_of_mem (tracked : Tracked initial files touched tracker ∅)
    (found : tracker.renderedDiffs path = some fragment) : Rendered tracker path fragment := by
  obtain ⟨unpaired, drawn⟩ := tracked.mem_rendered_iff.mp found
  rw [renderDiff] at drawn
  split at drawn
  · cases drawn
  next differs =>
    rw [Option.some_inj] at drawn
    subst drawn
    refine ⟨rfl, rfl, rfl, rfl, unpaired, ?_⟩
    intro same back
    exact differs ⟨same, .inl back.symm⟩

omit [DecidableEq Path] in
/-- A fragment is about one file, or about a file and the one that it was renamed to. -/
theorem Rendered.cases (rendered : Rendered tracker path fragment) :
    fragment.rightPath = path ∨ tracker.renameDestination path = some fragment.rightPath := by
  have right := rendered.right
  cases renamed : tracker.renameDestination path with
  | none =>
    rw [renamed, Option.getD_none] at right
    exact .inl right
  | some destination =>
    rw [renamed, Option.getD_some] at right
    exact .inr (congrArg some right.symm)

variable {file : TrackedPath Path}

/-- The fragments of a turn only touch changed files. -/
theorem Tracked.changed_of_mem (tracked : Tracked initial files touched tracker ∅)
    (found : tracker.renderedDiffs path = some fragment)
    (member : file ∈ fragment.files) : initial file ≠ files file := by
  have rendered := tracked.rendered_of_mem found
  rw [tracked.contents.changed_iff]
  simp only [Fragment.files, List.mem_cons, List.not_mem_nil, or_false, rendered.left] at member
  rcases rendered.cases with same | renamed
  · rw [same, or_self] at member
    subst member
    intro equal
    exact rendered.differs (same ▸ equal) same
  obtain ⟨_, gone, present, based, new⟩ := renameDestination_eq_some.mp renamed
  rcases member with rfl | rfl
  · rw [gone]
    simpa [text, ← Option.isSome_iff_ne_none] using based
  · rw [new]
    intro equal
    have := congrArg Option.isSome equal
    simp [text, present] at this

/-- Every changed file is in a fragment of the turn. -/
theorem Tracked.mem_of_changed (tracked : Tracked initial files touched tracker ∅)
    (changed : initial file ≠ files file) :
    ∃ path, ∃ fragment ∈ tracker.renderedDiffs path, file ∈ fragment.files := by
  rw [tracked.contents.changed_iff] at changed
  by_cases paired : tracker.pairedDestination file
  · -- The file is the right side of the fragment of its origin.
    obtain ⟨origin, leads, based, gone, new⟩ :=
      (tracked.renames.pairedDestination_iff file).mp paired
    have renamed : tracker.renameDestination origin = some file :=
      renameDestination_eq_some.mpr ⟨tracked.renames.forth based leads, gone,
        tracked.renames.present leads, based, new⟩
    have unpaired : tracker.pairedDestination origin = false := by
      rw [Bool.eq_false_iff]
      intro paired
      obtain ⟨further, leads, _⟩ := (tracked.renames.pairedDestination_iff origin).mp paired
      have present := tracked.renames.present leads
      simp [gone] at present
    refine ⟨origin, ⟨origin, tracker.baselineByPath origin, file, tracker.currentByPath file⟩,
      tracked.mem_rendered_iff.mpr ⟨unpaired, ?_⟩, by simp [Fragment.files]⟩
    rw [renamed, Option.getD_some, renderDiff, if_neg]
    rintro ⟨_, same | empty⟩
    · exact tracked.renames.ne leads same.symm
    · rw [text_eq_none] at empty
      simp [empty] at based
  · have unpaired : tracker.pairedDestination file = false := by simpa using paired
    refine ⟨file, ⟨file, tracker.baselineByPath file, (tracker.renameDestination file).getD file,
      tracker.currentByPath ((tracker.renameDestination file).getD file)⟩,
      tracked.mem_rendered_iff.mpr ⟨unpaired, ?_⟩, by simp [Fragment.files]⟩
    rw [renderDiff, if_neg]
    cases renamed : tracker.renameDestination file with
    | none => exact fun equal => changed equal.1
    | some destination =>
      obtain ⟨leads, _, _, based, _⟩ := renameDestination_eq_some.mp renamed
      rintro ⟨_, same | empty⟩
      · exact tracked.renames.ne (tracked.renames.back leads) same.symm
      · rw [text_eq_none] at empty
        simp [empty] at based

/-- Two fragments of a turn touch different files. -/
theorem Tracked.disjoint (tracked : Tracked initial files touched tracker ∅) (ne : path ≠ other)
    (found : tracker.renderedDiffs path = some fragment)
    (otherFound : tracker.renderedDiffs other = some otherFragment)
    (member : file ∈ fragment.files) : file ∉ otherFragment.files := by
  have rendered := tracked.rendered_of_mem found
  have otherRendered := tracked.rendered_of_mem otherFound
  -- The right side of a rename has no fragment of its own.
  have notLeft : ∀ {origin destination : TrackedPath Path}, tracker.renameDestination origin =
      some destination → tracker.pairedDestination destination = true := by
    intro origin destination renamed
    obtain ⟨leads, gone, _, based, new⟩ := renameDestination_eq_some.mp renamed
    exact (tracked.renames.pairedDestination_iff destination).mpr
      ⟨origin, tracked.renames.back leads, based, gone, new⟩
  intro otherMember
  simp only [Fragment.files, List.mem_cons, List.not_mem_nil, or_false, rendered.left,
    otherRendered.left] at member otherMember
  have unpaired := rendered.unpaired
  have otherUnpaired := otherRendered.unpaired
  rcases rendered.cases with same | renamed
  · rw [same, or_self] at member
    subst member
    rcases otherRendered.cases with otherSame | otherRenamed
    · rw [otherSame, or_self] at otherMember
      exact ne otherMember
    · rcases otherMember with equal | equal
      · exact ne equal
      · rw [← equal] at otherRenamed
        rw [notLeft otherRenamed] at unpaired
        cases unpaired
  rcases otherRendered.cases with otherSame | otherRenamed
  · rw [otherSame, or_self] at otherMember
    subst otherMember
    rcases member with equal | equal
    · exact ne equal.symm
    · rw [← equal] at renamed
      rw [notLeft renamed] at otherUnpaired
      cases otherUnpaired
  rcases member with equal | equal <;> rcases otherMember with otherEqual | otherEqual
  · exact ne (equal.symm.trans otherEqual)
  · rw [← otherEqual, equal] at otherRenamed
    rw [notLeft otherRenamed] at unpaired
    cases unpaired
  · rw [← equal, otherEqual] at renamed
    rw [notLeft renamed] at otherUnpaired
    cases otherUnpaired
  · have leads := tracked.renames.back (renameDestination_eq_some.mp renamed).1
    have otherLeads := tracked.renames.back (renameDestination_eq_some.mp otherRenamed).1
    rw [← equal] at leads
    rw [← otherEqual, leads, Option.some_inj] at otherLeads
    exact ne otherLeads

end Net

/-- Fragments about different files can be applied one after the other. -/
theorem applyFragments_eq_some {fragments : List (Fragment Path)} {initial files : Files Path}
    (disjoint : fragments.Pairwise fun fragment other => ∀ file ∈ fragment.files,
      file ∉ other.files)
    (left : ∀ fragment ∈ fragments, initial fragment.leftPath = text fragment.leftContent)
    (right : ∀ fragment ∈ fragments, files fragment.rightPath = text fragment.rightContent)
    (removed : ∀ fragment ∈ fragments, fragment.leftPath ≠ fragment.rightPath →
      files fragment.leftPath = none)
    (others : ∀ file, (∀ fragment ∈ fragments, file ∉ fragment.files) →
      files file = initial file) :
    applyFragments fragments initial = some files := by
  induction fragments generalizing initial with
  | nil =>
    rw [applyFragments, Option.some_inj]
    funext file
    exact (others file (by simp)).symm
  | cons fragment rest ih =>
    rw [List.pairwise_cons] at disjoint
    rw [applyFragments, Fragment.apply, if_pos (left fragment (by simp)), Option.bind_some]
    have untouched : ∀ file ∉ fragment.files, Function.update
        (Function.update initial fragment.leftPath none) fragment.rightPath
        (text fragment.rightContent) file = initial file := by
      intro file absent
      simp only [Fragment.files, List.mem_cons, List.not_mem_nil, or_false, not_or] at absent
      rw [Function.update_of_ne absent.2, Function.update_of_ne absent.1]
    apply ih disjoint.2
    · intro other member
      rw [untouched, left other (List.mem_cons_of_mem _ member)]
      intro shared
      exact disjoint.1 other member _ shared (by simp [Fragment.files])
    · exact fun other member => right other (List.mem_cons_of_mem _ member)
    · exact fun other member => removed other (List.mem_cons_of_mem _ member)
    intro file absent
    by_cases atRight : file = fragment.rightPath
    · rw [atRight, Function.update_self, right fragment (by simp)]
    rw [Function.update_of_ne atRight]
    by_cases atLeft : file = fragment.leftPath
    · subst atLeft
      rw [Function.update_self, removed fragment (by simp) atRight]
    rw [Function.update_of_ne atLeft]
    apply others
    intro other member
    rcases List.mem_cons.mp member with rfl | member
    · simp [Fragment.files, atLeft, atRight]
    · exact absent other member

theorem Tracked.netChange {initial files : Files Path} {paths : List (TrackedPath Path)}
    {tracker : TurnDiffTracker Path Uri}
    (tracked : Tracked initial files (· ∈ paths) tracker ∅) :
    NetChange initial files paths tracker := by
  have changed_iff : ∀ file, initial file ≠ files file ↔
      ∃ path, ∃ fragment ∈ tracker.renderedDiffs path, file ∈ fragment.files := by
    intro file
    constructor
    · exact tracked.mem_of_changed
    · rintro ⟨path, fragment, found, member⟩
      exact tracked.changed_of_mem found member
  have touched : ∀ {path fragment}, tracker.renderedDiffs path = some fragment →
      ∀ file ∈ fragment.files, file ∈ paths := by
    intro path fragment found file member
    by_contra absent
    exact tracked.changed_of_mem found member (tracked.contents.untouched absent).2.2.symm
  refine ⟨tracked.valid, tracked.available, ?_, ?_, ?_, ?_, ?_, ?_, changed_iff⟩
  · intro path
    split
    next known => exact tracked.contents.baseline known
    next unknown => rw [(tracked.contents.untouched unknown).1, text, Option.map_none]
  · intro path
    split
    next known => exact tracked.contents.current known
    next unknown => rw [(tracked.contents.untouched unknown).2.1, text, Option.map_none]
  · intro path fragment found
    have rendered := tracked.rendered_of_mem found
    exact ⟨rendered.left, rendered.left ▸ rendered.leftContent, rendered.rightContent⟩
  · intro path other ne fragment found otherFragment otherFound file member
    exact tracked.disjoint ne found otherFound member
  · refine ⟨paths.dedup.filter fun path => (tracker.renderedDiffs path).isSome,
      (List.nodup_dedup _).filter _, ?_⟩
    intro path
    simp only [List.mem_filter, List.mem_dedup, and_iff_right_iff_imp]
    intro some
    obtain ⟨fragment, found⟩ := Option.isSome_iff_exists.mp some
    apply touched found
    simp [Fragment.files, (tracked.rendered_of_mem found).left]
  intro order lists
  have located : ∀ fragment ∈ order.filterMap tracker.renderedDiffs,
      tracker.renderedDiffs fragment.leftPath = some fragment := by
    intro fragment member
    obtain ⟨path, _, found⟩ := List.mem_filterMap.mp member
    rw [(tracked.rendered_of_mem found).left, found]
  apply applyFragments_eq_some
  · rw [List.pairwise_filterMap]
    refine lists.nodup.imp ?_
    intro path other ne fragment found otherFragment otherFound file member
    exact tracked.disjoint ne found otherFound member
  · intro fragment member
    have found := located fragment member
    rw [(tracked.rendered_of_mem found).leftContent, tracked.contents.baseline]
    exact touched found _ (by simp [Fragment.files])
  · intro fragment member
    have found := located fragment member
    rw [(tracked.rendered_of_mem found).rightContent, tracked.contents.current]
    exact touched found _ (by simp [Fragment.files])
  · intro fragment member ne
    have found := located fragment member
    rcases (tracked.rendered_of_mem found).cases with same | renamed
    · exact absurd same.symm ne
    · rw [← tracked.contents.current (touched found _ (by simp [Fragment.files])),
        (renameDestination_eq_some.mp renamed).2.1, text, Option.map_none]
  · intro file absent
    by_contra changed
    obtain ⟨path, fragment, found, member⟩ := tracked.mem_of_changed (Ne.symm changed)
    refine absent fragment (List.mem_filterMap.mpr ⟨path, ?_, found⟩) member
    exact (lists.mem_iff path).mpr (Option.isSome_iff_exists.mpr ⟨fragment, found⟩)

end TurnDiffTracker

open TurnDiffTracker

/-- In a turn of exact deltas without another writer, where no path that existed at its start is
    moved away from a second time while the first file is still tracked under it, the tracker
    holds the contents of the touched files and its fragments are the net change. -/
theorem turnDiff_netChange (host : UriHost Path Uri) (initial : Files Path)
    (calls : List (Call Path Uri)) (exact_ : ∀ call ∈ calls, call.delta.exact = true)
    (accurate : Throughout host (fun call _ => Accurate host call) new initial calls)
    (single : Throughout host (fun call tracker _ => SingleRename call tracker) new initial
      calls) :
    NetChange initial (calls.foldl commitDelta initial) (touchedFiles calls)
      (calls.foldl (track host) new) := by
  have tracked := tracked_new.turn exact_ accurate single
  simp only [false_or] at tracked
  exact tracked.netChange

/-! ### A second move away from a path -/

namespace SecondMove

/-- Paths as they are spelled. -/
def host : UriHost Text Text := ⟨fun _ => none, id⟩

def fileA : TrackedPath Text := ⟨['l'], ['a']⟩

def fileB : TrackedPath Text := ⟨['l'], ['b']⟩

def fileC : TrackedPath Text := ⟨['l'], ['c']⟩

/-- The file a, alone. -/
def initial : Files Text := fun path => if path = fileA then some ['1'] else none

/-- A patch of one change. -/
def patch (change : AppliedPatchChange Text Text) : Call Text Text :=
  ⟨['l'], ⟨[change], true, fun _ => none, fun _ => none⟩⟩

/-- The file a moves to b and is added again. -/
def recreated : List (Call Text Text) :=
  [patch ⟨['a'], .update (some ['b']) ['1'] none ['1'], ['a'], some ['b']⟩,
    patch ⟨['a'], .add ['2'] none, ['a'], none⟩]

/-- The file a moves to b, is added again and moves to c. -/
def calls : List (Call Text Text) :=
  recreated ++ [patch ⟨['a'], .update (some ['c']) ['2'] none ['2'], ['a'], some ['c']⟩]

end SecondMove

/-- A file that moves away and is added again is a rename and a modification. -/
theorem turnDiff_netChange_recreated :
    NetChange SecondMove.initial (SecondMove.recreated.foldl commitDelta SecondMove.initial)
      (touchedFiles SecondMove.recreated) (SecondMove.recreated.foldl (track SecondMove.host) new) := by
  apply turnDiff_netChange SecondMove.host SecondMove.initial SecondMove.recreated
  · decide
  · refine ⟨⟨⟨rfl, rfl, rfl, ?_⟩, trivial⟩, ⟨⟨rfl, rfl, rfl⟩, trivial⟩, trivial⟩
    rintro path ⟨rfl⟩
    rfl
  · refine ⟨⟨?_, trivial⟩, ⟨?_, trivial⟩, trivial⟩
    · rintro path - - - earlier ⟨⟩
    · rintro path ⟨⟩

/-- After a second move away from a path, the file of the first move is missing from the diff. -/
theorem second_move_hides_file :
    (∀ call ∈ SecondMove.calls, call.delta.exact = true) ∧
      Throughout SecondMove.host (fun call _ => Accurate SecondMove.host call) new
        SecondMove.initial SecondMove.calls ∧
      ¬ NetChange SecondMove.initial (SecondMove.calls.foldl commitDelta SecondMove.initial)
        (touchedFiles SecondMove.calls) (SecondMove.calls.foldl (track SecondMove.host) new) := by
  refine ⟨by decide, ?_, ?_⟩
  · refine ⟨⟨⟨rfl, rfl, rfl, ?_⟩, trivial⟩, ⟨⟨rfl, rfl, rfl⟩, trivial⟩,
      ⟨⟨rfl, rfl, rfl, ?_⟩, trivial⟩, trivial⟩
    · rintro path ⟨rfl⟩
      rfl
    · rintro path ⟨rfl⟩
      rfl
  intro net
  have missing : SecondMove.initial SecondMove.fileB ≠
      SecondMove.calls.foldl commitDelta SecondMove.initial SecondMove.fileB := by
    decide
  obtain ⟨path, fragment, found, member⟩ := (net.changed_iff _).mp missing
  have changed := (net.changed_iff path).mpr
    ⟨path, fragment, found, by simp [Fragment.files, (net.sides path fragment found).1]⟩
  have located : path = SecondMove.fileA ∨ path = SecondMove.fileB ∨
      path = SecondMove.fileC := by
    by_contra absent
    simp only [not_or] at absent
    obtain ⟨notA, notB, notC⟩ := absent
    rw [SecondMove.fileA] at notA
    rw [SecondMove.fileB] at notB
    rw [SecondMove.fileC] at notC
    apply changed
    simp [SecondMove.calls, SecondMove.recreated, SecondMove.patch, commitDelta, commit,
      notA, notB, notC]
  rcases located with rfl | rfl | rfl
  · have rendered : (SecondMove.calls.foldl (track SecondMove.host) new).renderedDiffs
        SecondMove.fileA = some ⟨SecondMove.fileA, some ⟨['1'], none⟩, SecondMove.fileC,
          some ⟨['2'], none⟩⟩ := by
      decide +kernel
    rw [Option.mem_def, rendered, Option.some_inj] at found
    subst found
    revert member
    decide
  · have rendered : (SecondMove.calls.foldl (track SecondMove.host) new).renderedDiffs
        SecondMove.fileB = none := by
      decide +kernel
    rw [Option.mem_def, rendered] at found
    cases found
  · have rendered : (SecondMove.calls.foldl (track SecondMove.host) new).renderedDiffs
        SecondMove.fileC = none := by
      decide +kernel
    rw [Option.mem_def, rendered] at found
    cases found

end Codex.TurnDiff
