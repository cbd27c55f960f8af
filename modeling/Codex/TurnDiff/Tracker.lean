import Codex.ApplyPatch.Executor

/-!
# The turn diff tracker

`core/src/turn_diff_tracker.rs`: the contents that the files touched by patches had when the turn
started and have now, the renames among them, and the fragments of the net diff. A hash map is a
function to `Option`. A rendered diff is kept as the fragment that is printed, under its path
alone: the display key next to the path is computed once and cached per path.
-/

namespace Codex.TurnDiff

open Codex.ApplyPatch (FileChange)

variable {Path Uri : Type} [DecidableEq Path]

/-- `TrackedPath` (`turn_diff_tracker.rs:33`). -/
structure TrackedPath (Path : Type) where
  environmentId : Text
  path : Path
  deriving DecidableEq, Repr

/-- `TrackedContent` (`turn_diff_tracker.rs:26`) without its cached blob id. -/
structure TrackedContent where
  content : Text
  mode : Option Text
  deriving DecidableEq, Repr

/-- `AppliedPatchChange` (`apply-patch/src/lib.rs:446`) with both forms of its paths; the write
    receipt is not read here. -/
structure AppliedPatchChange (Path Uri : Type) where
  path : Path
  change : FileChange Path
  pathUri : Uri
  movePathUri : Option Uri

/-- `AppliedPatchDelta` (`apply-patch/src/lib.rs:311`). -/
structure AppliedPatchDelta (Path Uri : Type) where
  changes : List (AppliedPatchChange Path Uri)
  exact : Bool
  endpointIdentities : Path → Option Text
  preimageModes : Path → Option Text

/-- `PathUri::parse` and `PathUri::to_path_buf`. -/
structure UriHost (Path Uri : Type) where
  parse : Text → Option Uri
  toPathBuf : Uri → Path

namespace AppliedPatchChange

/-- The `move_path` of an update. -/
def movePath (change : AppliedPatchChange Path Uri) : Option Path :=
  match change.change with
  | .update movePath _ _ _ => movePath
  | _ => none

/-- The paths of a change (`turn_diff_tracker.rs:303`). -/
def paths (environmentId : Text) (change : AppliedPatchChange Path Uri) :
    List (TrackedPath Path) :=
  ⟨environmentId, change.path⟩ :: change.movePath.toList.map (⟨environmentId, ·⟩)

end AppliedPatchChange

namespace AppliedPatchDelta

variable (host : UriHost Path Uri)

/-- The parsed identity of a path. -/
def identity (delta : AppliedPatchDelta Path Uri) (path : Path) : Option Uri :=
  (delta.endpointIdentities path).bind host.parse

/-- The `endpoint` closure of `endpoint_change`. -/
def endpoint (delta : AppliedPatchDelta Path Uri) (path : Path) : Path :=
  ((delta.identity host path).map host.toPathBuf).getD path

/-- `endpoint_change` (`apply-patch/src/lib.rs:352`). -/
def endpointChange (delta : AppliedPatchDelta Path Uri) (change : AppliedPatchChange Path Uri) :
    AppliedPatchChange Path Uri :=
  let result := { change with
    pathUri := (delta.identity host change.path).getD change.pathUri
    path := delta.endpoint host change.path }
  match change.change with
  | .update (some path) old overwritten new =>
      { result with
        change := .update (some (delta.endpoint host path)) old overwritten new
        movePathUri := change.movePathUri.map fun uri =>
          (delta.identity host (host.toPathBuf uri)).getD uri }
  | _ => result

end AppliedPatchDelta

/-- What `render_diff_named` (`turn_diff_tracker.rs:1016`) prints: its two sides. -/
structure Fragment (Path : Type) where
  leftPath : TrackedPath Path
  leftContent : Option TrackedContent
  rightPath : TrackedPath Path
  rightContent : Option TrackedContent
  deriving DecidableEq, Repr

/-- The text of a tracked content. -/
def text (content : Option TrackedContent) : Option Text := content.map TrackedContent.content

/-- `render_diff` (`turn_diff_tracker.rs:1004`): nothing is printed when the texts agree, unless
    a file moved. -/
def renderDiff (leftPath : TrackedPath Path) (leftContent : Option TrackedContent)
    (rightPath : TrackedPath Path) (rightContent : Option TrackedContent) :
    Option (Fragment Path) :=
  if text leftContent = text rightContent ∧ (leftPath = rightPath ∨ text leftContent = none) then
    none
  else some ⟨leftPath, leftContent, rightPath, rightContent⟩

/-- `TurnDiffTracker` (`turn_diff_tracker.rs:89`): the fields that the diff depends on. -/
structure TurnDiffTracker (Path Uri : Type) where
  valid : Bool
  baselineByPath : TrackedPath Path → Option TrackedContent
  currentByPath : TrackedPath Path → Option TrackedContent
  originByCurrentPath : TrackedPath Path → Option (TrackedPath Path)
  destinationByOrigin : TrackedPath Path → Option (TrackedPath Path)
  renderedDiffs : TrackedPath Path → Option (Fragment Path)
  unavailablePaths : Finset (TrackedPath Path)
  unattributedPaths : Finset (TrackedPath Path)
  endpointBySpelling : TrackedPath Path → Option (TrackedPath Path)
  executorPaths : TrackedPath Path → Option Uri
  patchModes : TrackedPath Path → Option Text

namespace TurnDiffTracker

/-- `TurnDiffTracker::new`. -/
def new : TurnDiffTracker Path Uri where
  valid := true
  baselineByPath := fun _ => none
  currentByPath := fun _ => none
  originByCurrentPath := fun _ => none
  destinationByOrigin := fun _ => none
  renderedDiffs := fun _ => none
  unavailablePaths := ∅
  unattributedPaths := ∅
  endpointBySpelling := fun _ => none
  executorPaths := fun _ => none
  patchModes := fun _ => none

/-- `tracked_content` (`turn_diff_tracker.rs:976`). -/
def trackedContent (tracker : TurnDiffTracker Path Uri) (path : TrackedPath Path)
    (content : Text) : TrackedContent where
  content := content
  mode := ((tracker.currentByPath path).bind TrackedContent.mode).or
    (((tracker.baselineByPath path).bind TrackedContent.mode).or (tracker.patchModes path))

/-- Neither the present nor the turn-start content of a path is recorded. -/
def unrecorded (tracker : TurnDiffTracker Path Uri) (path : TrackedPath Path) : Bool :=
  (tracker.currentByPath path).isNone && (tracker.baselineByPath path).isNone

/-- The first content seen of a path is its baseline. -/
def recordBaseline (tracker : TurnDiffTracker Path Uri) (path : TrackedPath Path)
    (content : Option Text) : TurnDiffTracker Path Uri :=
  match content with
  | some content =>
      if tracker.unrecorded path then
        { tracker with
          baselineByPath := Function.update tracker.baselineByPath path
            (some (tracker.trackedContent path content)) }
      else tracker
  | none => tracker

/-- `current_by_path.insert` of a new content. -/
def insertCurrent (tracker : TurnDiffTracker Path Uri) (path : TrackedPath Path)
    (content : Text) : TurnDiffTracker Path Uri :=
  { tracker with
    currentByPath := Function.update tracker.currentByPath path
      (some (tracker.trackedContent path content)) }

/-- `current_by_path.remove`. -/
def removeCurrent (tracker : TurnDiffTracker Path Uri) (path : TrackedPath Path) :
    TurnDiffTracker Path Uri :=
  { tracker with currentByPath := Function.update tracker.currentByPath path none }

/-- `remove_origin` (`turn_diff_tracker.rs:796`), without the origin that it returns. -/
def removeOrigin (tracker : TurnDiffTracker Path Uri) (path : TrackedPath Path) :
    TurnDiffTracker Path Uri :=
  match tracker.originByCurrentPath path with
  | none => tracker
  | some origin =>
      { tracker with
        originByCurrentPath := Function.update tracker.originByCurrentPath path none
        destinationByOrigin := Function.update tracker.destinationByOrigin origin none }

/-- Record the rename of an origin to a destination. -/
def insertRename (tracker : TurnDiffTracker Path Uri) (origin destination : TrackedPath Path) :
    TurnDiffTracker Path Uri :=
  { tracker with
    destinationByOrigin := Function.update tracker.destinationByOrigin origin (some destination)
    originByCurrentPath := Function.update tracker.originByCurrentPath destination (some origin) }

/-- `apply_add` (`turn_diff_tracker.rs:904`). -/
def applyAdd (tracker : TurnDiffTracker Path Uri) (path : TrackedPath Path) (content : Text)
    (overwrittenContent : Option Text) : TurnDiffTracker Path Uri :=
  ((tracker.removeOrigin path).recordBaseline path overwrittenContent).insertCurrent path content

/-- `apply_delete` (`turn_diff_tracker.rs:918`). The content is only recorded where none was
    removed, so it is recorded first here. -/
def applyDelete (tracker : TurnDiffTracker Path Uri) (path : TrackedPath Path) (content : Text) :
    TurnDiffTracker Path Uri :=
  ((tracker.recordBaseline path (some content)).removeCurrent path).removeOrigin path

/-- The move of `apply_update` (`turn_diff_tracker.rs:944`). -/
def applyMove (tracker : TurnDiffTracker Path Uri) (sourcePath destPath : TrackedPath Path)
    (overwrittenMoveContent : Option Text) (newContent : Text) : TurnDiffTracker Path Uri :=
  let tracker := tracker.recordBaseline destPath overwrittenMoveContent
  let origin := (tracker.originByCurrentPath sourcePath).getD sourcePath
  let moved := (((tracker.removeOrigin sourcePath).removeCurrent sourcePath).insertCurrent
    destPath newContent).removeOrigin destPath
  if destPath = origin then moved else moved.insertRename origin destPath

/-- `apply_update` (`turn_diff_tracker.rs:928`). -/
def applyUpdate (tracker : TurnDiffTracker Path Uri) (sourcePath : TrackedPath Path)
    (movePath : Option (TrackedPath Path)) (oldContent : Text)
    (overwrittenMoveContent : Option Text) (newContent : Text) : TurnDiffTracker Path Uri :=
  let tracker := tracker.recordBaseline sourcePath (some oldContent)
  match movePath with
  | some destPath => tracker.applyMove sourcePath destPath overwrittenMoveContent newContent
  | none => tracker.insertCurrent sourcePath newContent

/-- `apply_change` (`turn_diff_tracker.rs:876`). -/
def applyChange (tracker : TurnDiffTracker Path Uri) (environmentId : Text)
    (change : AppliedPatchChange Path Uri) : TurnDiffTracker Path Uri :=
  match change.change with
  | .add content overwritten => tracker.applyAdd ⟨environmentId, change.path⟩ content overwritten
  | .delete content => tracker.applyDelete ⟨environmentId, change.path⟩ content
  | .update movePath old overwritten new =>
      tracker.applyUpdate ⟨environmentId, change.path⟩ (movePath.map (⟨environmentId, ·⟩)) old
        overwritten new

/-- `collect_diff_partners` (`turn_diff_tracker.rs:716`). -/
def collectDiffPartners (tracker : TurnDiffTracker Path Uri) (path : TrackedPath Path)
    (changed : Finset (TrackedPath Path)) : Finset (TrackedPath Path) :=
  insert path changed ∪ (tracker.originByCurrentPath path).toFinset ∪
    (tracker.destinationByOrigin path).toFinset

/-- The partners of several paths. -/
def collectAll (tracker : TurnDiffTracker Path Uri) (paths : List (TrackedPath Path))
    (changed : Finset (TrackedPath Path)) : Finset (TrackedPath Path) :=
  paths.foldl (fun changed path => tracker.collectDiffPartners path changed) changed

/-- `rename_destination` (`turn_diff_tracker.rs:994`). -/
def renameDestination (tracker : TurnDiffTracker Path Uri) (origin : TrackedPath Path) :
    Option (TrackedPath Path) :=
  (tracker.destinationByOrigin origin).filter fun destination =>
    (tracker.currentByPath origin).isNone && (tracker.currentByPath destination).isSome &&
      (tracker.baselineByPath origin).isSome && (tracker.baselineByPath destination).isNone

/-- A path that the fragment of its origin renders (`paired_destination`). -/
def pairedDestination (tracker : TurnDiffTracker Path Uri) (path : TrackedPath Path) : Bool :=
  ((tracker.originByCurrentPath path).bind tracker.renameDestination).isSome

/-- What `refresh_unified_diff` leaves at a path: a fragment, or none. -/
def freshFragment (tracker : TurnDiffTracker Path Uri) (path : TrackedPath Path) :
    Option (Fragment Path) :=
  if path ∈ tracker.unavailablePaths then none
  else if tracker.pairedDestination path then none
  else
    let rightPath := (tracker.renameDestination path).getD path
    renderDiff path (tracker.baselineByPath path) rightPath (tracker.currentByPath rightPath)

/-- `refresh_unified_diff` (`turn_diff_tracker.rs:745`). A path is refreshed from the contents
    and renames alone, so the order of the set does not matter. -/
def refreshUnifiedDiff (tracker : TurnDiffTracker Path Uri)
    (changed : Finset (TrackedPath Path)) : TurnDiffTracker Path Uri :=
  if tracker.valid then
    { tracker with renderedDiffs := fun path =>
        if path ∈ changed then tracker.freshFragment path else tracker.renderedDiffs path }
  else tracker

/-- The `matches` closure of `patch_preimages_match`. -/
def preimageMatches (tracker : TurnDiffTracker Path Uri) (path : TrackedPath Path)
    (incoming : Option Text) : Bool :=
  let known := (tracker.executorPaths path).isSome || (tracker.baselineByPath path).isSome ||
    (tracker.currentByPath path).isSome
  !known || text (tracker.currentByPath path) == incoming

/-- `patch_preimages_match` (`turn_diff_tracker.rs:846`). -/
def patchPreimagesMatch (tracker : TurnDiffTracker Path Uri) (environmentId : Text)
    (change : AppliedPatchChange Path Uri) : Bool :=
  let source : TrackedPath Path := ⟨environmentId, change.path⟩
  match change.change with
  | .add _ overwritten => tracker.preimageMatches source overwritten
  | .delete content => tracker.preimageMatches source (some content)
  | .update movePath old overwritten _ =>
      tracker.preimageMatches source (some old) &&
        movePath.all fun path => tracker.preimageMatches ⟨environmentId, path⟩ overwritten

/-- The registrations of a change before it is applied (`turn_diff_tracker.rs:285`): its executor
    paths, its endpoint and the mode of its preimage. -/
def register (host : UriHost Path Uri) (tracker : TurnDiffTracker Path Uri)
    (environmentId : Text) (spelling : TrackedPath Path) (change : AppliedPatchChange Path Uri) :
    TurnDiffTracker Path Uri :=
  let endpoint : TrackedPath Path := ⟨environmentId, change.path⟩
  let executorPaths := Function.update tracker.executorPaths endpoint (some change.pathUri)
  let executorPaths := match change.movePathUri with
    | some destination => Function.update executorPaths
        ⟨environmentId, host.toPathBuf destination⟩ (some destination)
    | none => executorPaths
  let respelled := ((tracker.endpointBySpelling spelling).filter (· ≠ endpoint)).toFinset.biUnion
    fun previous => {previous, endpoint}
  let patchModes := match tracker.patchModes spelling with
    | some mode =>
        Function.update (Function.update tracker.patchModes spelling none) endpoint (some mode)
    | none => tracker.patchModes
  { tracker with
    executorPaths := executorPaths
    endpointBySpelling := Function.update tracker.endpointBySpelling spelling (some endpoint)
    unavailablePaths := tracker.unavailablePaths ∪ respelled
    unattributedPaths := tracker.unattributedPaths ∪ respelled
    patchModes := patchModes }

/-- A change that does not continue the tracked contents makes its paths and their partners
    unavailable (`turn_diff_tracker.rs:314`). -/
def withhold (tracker : TurnDiffTracker Path Uri) (continuous : Bool)
    (paths : List (TrackedPath Path)) : TurnDiffTracker Path Uri :=
  let partners := tracker.collectAll paths ∅
  let alreadyUnavailable := paths.all fun path => decide (path ∈ tracker.unavailablePaths)
  if continuous = false ∨ ∃ path ∈ partners, path ∈ tracker.unavailablePaths then
    { tracker with
      unavailablePaths := tracker.unavailablePaths ∪ partners
      unattributedPaths :=
        if continuous = false ∧ alreadyUnavailable = false then
          tracker.unattributedPaths ∪ paths.toFinset
        else tracker.unattributedPaths }
  else tracker

/-- One round of the loop of `track_delta_for_call` (`turn_diff_tracker.rs:278`): the tracker and
    the paths whose fragments have to be refreshed. -/
def trackChange (host : UriHost Path Uri) (environmentId : Text)
    (delta : AppliedPatchDelta Path Uri)
    (state : TurnDiffTracker Path Uri × Finset (TrackedPath Path))
    (original : AppliedPatchChange Path Uri) :
    TurnDiffTracker Path Uri × Finset (TrackedPath Path) :=
  let (tracker, changed) := state
  let change := delta.endpointChange host original
  let continuous := tracker.patchPreimagesMatch environmentId change
  let tracker := tracker.register host environmentId ⟨environmentId, original.path⟩ change
  let paths := change.paths environmentId
  let changed := tracker.collectAll paths changed
  let tracker := (tracker.withhold continuous paths).applyChange environmentId change
  (tracker, tracker.collectAll paths changed)

/-- `record_unavailable_delta_paths` (`turn_diff_tracker.rs:341`). -/
def recordUnavailableDeltaPaths (host : UriHost Path Uri) (tracker : TurnDiffTracker Path Uri)
    (environmentId : Text) (delta : AppliedPatchDelta Path Uri) : TurnDiffTracker Path Uri :=
  { tracker with unavailablePaths := tracker.unavailablePaths ∪
      (delta.changes.flatMap fun original =>
        (delta.endpointChange host original).paths environmentId).toFinset }

/-- `invalidate` (`turn_diff_tracker.rs:368`). -/
def invalidate (tracker : TurnDiffTracker Path Uri) : TurnDiffTracker Path Uri :=
  { tracker with valid := false, renderedDiffs := fun _ => none }

/-- `set_patch_modes` (`turn_diff_tracker.rs:357`). -/
def setPatchModes (tracker : TurnDiffTracker Path Uri) (environmentId : Text)
    (modes : Path → Option Text) : TurnDiffTracker Path Uri :=
  { tracker with patchModes := fun path =>
      if path.environmentId = environmentId then modes path.path else none }

/-- `track_delta_for_call` (`turn_diff_tracker.rs:239`). -/
def trackDelta (host : UriHost Path Uri) (tracker : TurnDiffTracker Path Uri)
    (environmentId : Text) (delta : AppliedPatchDelta Path Uri) : TurnDiffTracker Path Uri :=
  if tracker.valid = false then tracker.recordUnavailableDeltaPaths host environmentId delta
  else if delta.exact = false then
    (tracker.recordUnavailableDeltaPaths host environmentId delta).invalidate
  else
    let (tracker, changed) := delta.changes.foldl (trackChange host environmentId delta)
      (tracker.setPatchModes environmentId delta.preimageModes, ∅)
    { tracker.refreshUnifiedDiff changed with patchModes := fun _ => none }

end TurnDiffTracker

end Codex.TurnDiff
