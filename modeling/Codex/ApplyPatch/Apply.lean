import Codex.ApplyPatch.Preflight

/-!
# Applying a patch

`apply_hunks_with_verified_action` (`apply-patch/src/lib.rs:610`) and what it calls: the checks
before the first write, the writes of the hunks with the delta they record, and the rollback of
a failed application. Reads of present files succeed and every present file is a regular one;
the manifest and the file modes, which nothing here reads, are left out.
-/

namespace Codex.ApplyPatch

open Codex.Hoare

variable {PathUri Endpoint : Type} [DecidableEq PathUri] [DecidableEq Endpoint]

/-- `ApplyPatchFileChange` (`lib.rs:244`). -/
inductive ApplyPatchFileChange (PathUri : Type) where
  | add (content : Text)
  | delete (content : Text)
  | update (unifiedDiff : Text) (movePath : Option PathUri) (newContent : Text)
  deriving DecidableEq, Repr

/-- `ApplyPatchAction` (`lib.rs:277`). -/
structure ApplyPatchAction (PathUri : Type) where
  changes : AList (fun _ : PathUri => ApplyPatchFileChange PathUri)
  destinationPreimages : Destinations PathUri
  patch : Text
  cwd : PathUri

/-- The content that a verified update announces for a path (`lib.rs:1591`). -/
def ApplyPatchAction.verifiedContent (action : ApplyPatchAction PathUri) (path : PathUri) :
    Option Text :=
  match action.changes.lookup path with
  | some (.update _ _ newContent) => some newContent
  | _ => none

/-- Equality of two hash maps. -/
def Destinations.same (first second : Destinations PathUri) : Bool :=
  first.entries.length == second.entries.length &&
    first.entries.all (fun entry => second.lookup entry.1 == some entry.2)

section

variable (host : Host PathUri Endpoint) (schedule : Schedule)

/-- An error of an earlier check, raised in a run. -/
def raise {α : Type} : Except ApplyPatchError α → Apply PathUri Endpoint α
  | .ok value => pure value
  | .error error => throw (.patch error)

/-- `anyhow::ensure!`. -/
def ensure (condition : Bool) (text : Text) : Apply PathUri Endpoint Unit :=
  if condition then pure () else throw (.message text)

/-- `with_context`. -/
def withContext {α : Type} (text : Text) (action : Apply PathUri Endpoint α) :
    Apply PathUri Endpoint α :=
  tryCatch action (fun failure => throw (.context text failure))

def currentFiles : Apply PathUri Endpoint (Files Endpoint) := do
  let state : RunState PathUri Endpoint ← get
  return state.files

/-- `fs.read_file_text(..).await?`. -/
def readText (path : PathUri) : Apply PathUri Endpoint Text := do
  let files ← currentFiles
  match readFileText host files path with
  | .ok text => return text
  | .error error => throw (.io error)

def setExact (update : Bool → Bool) : Apply PathUri Endpoint Unit :=
  modify (fun state => { state with delta := { state.delta with exact := update state.delta.exact } })

def pushChange (change : AppliedPatchChange PathUri) : Apply PathUri Endpoint Unit :=
  modify (fun state => { state with
    delta := { state.delta with changes := state.delta.changes ++ [change] } })

/-- `conditional_mutation` (`lib.rs:1785`). -/
def conditionalMutation (phase : Phase) (path : PathUri) (expected replacement : Option Text) :
    Apply PathUri Endpoint (Option WriteReceipt) := do
  let outcome ← mutateFileIfMatches host schedule phase path expected replacement
  match outcome with
  | .error error => throw (.io error)
  | .ok .committed => return replacement.map (fun text => ⟨host.sha256 text, Text.utf8Len text⟩)
  | .ok .unchanged => return none
  | .ok .conflict => throw (.noWriteConflict path)
  | .ok (.recoveryRequired retainedPath message) => do
      setExact (fun _ => false)
      throw (.recoveryRequired path retainedPath message)

/-- `remove_failure_was_side_effect_free` (`lib.rs:1677`). -/
def removeFailureWasSideEffectFree (files : Files Endpoint) (path : PathUri)
    (expected : Option Text) : Bool :=
  files (host.endpoint path) == expected

/-- `reconcile_failed_mutation` (`lib.rs:1695`). -/
def reconcileFailedMutation (path : PathUri) (expected : Option Text) :
    Apply PathUri Endpoint Unit := do
  let files ← currentFiles
  setExact (fun exact => exact && removeFailureWasSideEffectFree host files path expected)

/-- The `try_write!` macro (`lib.rs:948`), which also the deletion of a file and of a moved
    source spell out. -/
def tryWrite {α : Type} (path : PathUri) (before : Option Text)
    (action : Apply PathUri Endpoint α) : Apply PathUri Endpoint α :=
  tryCatch action (fun failure => do
    if !failure.isNoWriteConflict then reconcileFailedMutation host path before
    throw failure)

/-- The directory creation of a retry (`lib.rs:1742`). -/
def createParent (index : Nat) (path : PathUri) : Apply PathUri Endpoint Unit :=
  match host.parent path, schedule.createDirectory index with
  | some _, some error => throw (.context
      ("Failed to create parent directories for ".toList ++ host.nativeString path) (.io error))
  | _, _ => pure ()

def failedToWrite (path : PathUri) : Text := "Failed to write file ".toList ++ host.nativeString path

/-- `write_file_with_missing_parent_retry` (`lib.rs:1725`). -/
def writeFileWithMissingParentRetry (index : Nat) (path : PathUri) (expected : Option Text)
    (contents : Text) : Apply PathUri Endpoint (Option WriteReceipt) :=
  tryCatch (conditionalMutation host schedule .forward path expected (some contents))
    (fun failure =>
      if failure.isNotFound then do
        createParent host schedule index path
        withContext (failedToWrite host path)
          (conditionalMutation host schedule .retry path expected (some contents))
      else throw (.context (failedToWrite host path) failure))

/-- The identity of a path is recorded before it is mutated; a path that changed its identity
    makes the delta inexact (`lib.rs:974`). -/
def noteIdentity (path : PathUri) : Apply PathUri Endpoint Unit :=
  modify (fun state => { state with delta := { state.delta with
    exact := state.delta.exact && (state.delta.endpointIdentities.lookup path).all
      (· == host.endpoint path)
    endpointIdentities := (path, host.endpoint path) :: state.delta.endpointIdentities } })

/-- The identity of a move destination, which replaces an earlier one (`lib.rs:1106`). -/
def recordIdentity (path : PathUri) : Apply PathUri Endpoint Unit :=
  modify (fun state => { state with delta := { state.delta with
    endpointIdentities := (path, host.endpoint path) :: state.delta.endpointIdentities } })

/-- `anyhow::Context::context` on an option. -/
def orFail {α : Type} (text : Text) : Option α → Apply PathUri Endpoint α
  | some value => pure value
  | none => throw (.message text)

def cancelIf (cancelled : Bool) (text : Text) : Apply PathUri Endpoint Unit :=
  if cancelled then throw (.io ⟨.interrupted, text⟩) else pure ()

/-- An addition (`lib.rs:981`). -/
def applyAdd (index : Nat) (path : PathUri) (contents : Text)
    (destinations : Destinations PathUri) : Apply PathUri Endpoint Unit := do
  let overwrittenContent ← orFail "addition destination was not prepared".toList
    (destinations.lookup path)
  ensure overwrittenContent.isNone ("Add File is create-only; ".toList ++ host.nativeString path ++
    (" already exists. Use Update File with a current codex-range source hash for a " ++
      "whole-file replacement.").toList)
  let writeReceipt ← tryWrite host path overwrittenContent
    (writeFileWithMissingParentRetry host schedule index path overwrittenContent contents)
  pushChange { pathUri := path, writeReceipt, change := .add contents overwrittenContent }

/-- `ensure_not_directory`: a present file is no directory, and an absent one has no
    metadata (`lib.rs:1662`). -/
def ensureNotDirectory (path : PathUri) (failed : Text) : Apply PathUri Endpoint Unit := do
  let files ← currentFiles
  match files (host.endpoint path) with
  | some _ => pure ()
  | none => throw (.context failed (.io .missing))

/-- A deletion (`lib.rs:1019`). -/
def applyDelete (path : PathUri) (prepared : Option AppliedPatch) : Apply PathUri Endpoint Unit := do
  let failed := "Failed to delete file ".toList ++ host.nativeString path
  ensureNotDirectory host path failed
  let deletedContent ← readText host path
  ensure ((prepared.map (·.originalContents)) == some deletedContent)
    ("source changed after patch preparation; refusing to delete ".toList ++ host.nativeString path)
  let _ ← tryWrite host path (some deletedContent) (withContext failed
    (conditionalMutation host schedule .forward path (some deletedContent) none))
  pushChange { pathUri := path, change := .delete deletedContent }

/-- `derive_new_contents_from_chunks` (`lib.rs:1857`). -/
def deriveNewContentsFromChunks (path : PathUri) (chunks : List UpdateFileChunk) (ordinal : Nat) :
    Apply PathUri Endpoint AppliedPatch := do
  let files ← currentFiles
  let originalContents ← raise ((readFileText host files path).mapError (.ioError
    ("Failed to read file to update ".toList ++ host.nativeString path)))
  let newContents ← raise (host.newContents path originalContents chunks ordinal)
  match host.invalidJsonCandidate (host.nativeString path) originalContents newContents with
  | some error => throw (.patch (.computeReplacements (host.nativeString path ++
      " was valid JSON before this patch; candidate is invalid: ".toList ++ error)))
  | none => return ⟨originalContents, newContents⟩

def refusesReselect (path : PathUri) : Text :=
  ("source changed after verified edit-site preparation; refusing to reselect an " ++
    "update in ").toList ++ host.nativeString path

/-- The update that a hunk writes: the prepared one while its source is unchanged, else one
    derived again, unless the sites were verified (`lib.rs:1073`). -/
def currentUpdate (index : Nat) (path : PathUri) (chunks : List UpdateFileChunk)
    (prepared : Option AppliedPatch) (verifiedSites : Bool) :
    Apply PathUri Endpoint AppliedPatch := do
  let update ← orFail ("update was not prepared before writes: ".toList ++ host.nativeString path)
    prepared
  let source ← readText host path
  if source = update.originalContents then return update
  else do
    ensure (!verifiedSites) (refusesReselect host path)
    let derived ← deriveNewContentsFromChunks host path chunks (index + 1)
    let confirmed ← readText host path
    ensure (confirmed == derived.originalContents)
      ("source changed after patch preparation: ".toList ++ host.nativeString path)
    return derived

/-- The write of an update in place (`lib.rs:1214`). -/
def applyInPlace (path : PathUri) (update : AppliedPatch) : Apply PathUri Endpoint Unit := do
  let writeReceipt ← tryWrite host path (some update.originalContents)
    (withContext (failedToWrite host path) (conditionalMutation host schedule .forward path
      (some update.originalContents) (some update.newContents)))
  match writeReceipt with
  | none => pure ()
  | some receipt =>
      pushChange
        { pathUri := path
          writeReceipt := some receipt
          change := .update none update.originalContents none update.newContents }

/-- The change that replaces the destination write of a move (`lib.rs:1198`). -/
def replaceChange (at' : Nat) (change : AppliedPatchChange PathUri) :
    Apply PathUri Endpoint Unit :=
  modify (fun state => { state with delta := { state.delta with
    changes := if at' < state.delta.changes.length then state.delta.changes.set at' change
      else state.delta.changes ++ [change] } })

/-- A destination write is recorded when it wrote something (`lib.rs:1134`). -/
def recordDestination (writeReceipt : Option WriteReceipt)
    (change : AppliedPatchChange PathUri) : Apply PathUri Endpoint Unit :=
  if writeReceipt.isSome then pushChange change else pure ()

/-- The removal of a moved source, unless the caller cancels before it (`lib.rs:1146`). -/
def removeMoveSource (index : Nat) (path : PathUri) (update : AppliedPatch) :
    Apply PathUri Endpoint Unit := do
  cancelIf (schedule.cancelledDuringMove index)
    "Patch application cancelled after move destination publication".toList
  let failed := "Failed to remove original ".toList ++ host.nativeString path
  ensureNotDirectory host path failed
  let source ← readText host path
  ensure (source == update.originalContents)
    ("move source changed during destination publication; refusing to remove ".toList ++
      host.nativeString path)
  let _ ← tryWrite host path (some update.originalContents) (withContext failed
    (conditionalMutation host schedule .forward path (some update.originalContents) none))

/-- The write of a move: first its destination, then the removal of its source
    (`lib.rs:1100`). -/
def applyMove (index : Nat) (path dest : PathUri) (update : AppliedPatch)
    (destinations : Destinations PathUri) : Apply PathUri Endpoint Unit := do
  recordIdentity host dest
  if host.endpoint path = host.endpoint dest then
    throw (.patch (.parseError (.invalidPatchError
      ("move source and destination identify the same path: ".toList ++ host.nativeString path))))
  let overwrittenMoveContent ← orFail "move destination was not prepared".toList
    (destinations.lookup dest)
  let writeReceipt ← tryWrite host dest overwrittenMoveContent
    (writeFileWithMissingParentRetry host schedule index dest overwrittenMoveContent
      update.newContents)
  let state : RunState PathUri Endpoint ← get
  let destWriteChangeIndex := state.delta.changes.length
  recordDestination writeReceipt
    { pathUri := dest, writeReceipt, change := .add update.newContents overwrittenMoveContent }
  removeMoveSource host schedule index path update
  replaceChange destWriteChangeIndex
    { pathUri := path
      movePathUri := some dest
      writeReceipt
      change := .update (some dest) update.originalContents overwrittenMoveContent
        update.newContents }

/-- One hunk of the write loop (`lib.rs:962`). -/
def applyHunk (cwd : PathUri) (index : Nat) (hunk : Hunk) (prepared : Option AppliedPatch)
    (destinations : Destinations PathUri) (verifiedSites : Bool) :
    Apply PathUri Endpoint Unit := do
  cancelIf (schedule.cancelledBefore index) "Patch application cancelled before the next hunk".toList
  let path ← raise (hunk.resolvePath host cwd)
  noteIdentity host path
  match hunk with
  | .addFile _ contents => applyAdd host schedule index path contents destinations
  | .deleteFile _ => applyDelete host schedule path prepared
  | .updateFile _ movePath chunks => do
      let update ← currentUpdate host index path chunks prepared verifiedSites
      match movePath with
      | none => applyInPlace host schedule path update
      | some dest => do
          let dest ← raise (joinPath host cwd dest)
          applyMove host schedule index path dest update destinations

/-- The write loop from the hunk at `index`. -/
def applyHunks (cwd : PathUri) (prepared : List (Option AppliedPatch))
    (destinations : Destinations PathUri) (verifiedSites : Bool) :
    Nat → List Hunk → Apply PathUri Endpoint Unit
  | _, [] => pure ()
  | index, hunk :: hunks => do
      applyHunk host schedule cwd index hunk prepared[index]?.join destinations verifiedSites
      applyHunks cwd prepared destinations verifiedSites (index + 1) hunks

/-- The current source of a prepared hunk: the result of the update that it repeats, or its
    file (`lib.rs:893`). -/
def recheckSource (files : Files Endpoint) (path : PathUri) (previousUpdate : Option Nat)
    (prepared : List (Option AppliedPatch)) : Except (Failure PathUri) Text :=
  match previousUpdate with
  | some previous =>
      match prepared[previous]?.join with
      | some update => .ok update.newContents
      | none => .error (.message ("update was not prepared before writes: ".toList ++
          host.nativeString path))
  | none => (readFileText host files path).mapError .io

/-- One prepared hunk of the read-set check: a changed source is rejected, or its update is
    derived again (`lib.rs:885`). -/
def recheckHunk (files : Files Endpoint) (index : Nat) (hunk : Hunk) (path : PathUri)
    (previousUpdates : List (Option Nat)) (prepared : List (Option AppliedPatch))
    (verifiedSites : Bool) (current : AppliedPatch) : Except (Failure PathUri) AppliedPatch := do
  let previousUpdate := previousUpdates[index]?.join
  let source ← recheckSource host files path previousUpdate prepared
  if source = current.originalContents then return current
  else if verifiedSites then throw (.message (refusesReselect host path))
  else
    match hunk with
    | .updateFile _ _ chunks =>
        let newContents ← (host.newContents path source chunks (index + 1)).mapError
          (fun error => .patch (markChainedMismatch previousUpdate error))
        let update : AppliedPatch := ⟨source, newContents⟩
        match updateJsonRegression host hunk.path index previousUpdates prepared update with
        | some error => throw (.patch (.computeReplacements (host.nativeString path ++
            " was valid JSON before this patch; candidate is invalid: ".toList ++ error)))
        | none => return update
    | _ => throw (.message ("source changed during patch preparation: ".toList ++
        host.nativeString path))

/-- The loop of the read-set check from the hunk at `index`. -/
def recheckHunks (cwd : PathUri) (files : Files Endpoint) (previousUpdates : List (Option Nat))
    (verifiedSites : Bool) : Nat → List Hunk → List (Option AppliedPatch) →
    Except (Failure PathUri) (List (Option AppliedPatch))
  | _, [], prepared => .ok prepared
  | index, hunk :: hunks, prepared =>
      match prepared[index]?.join with
      | none => recheckHunks cwd files previousUpdates verifiedSites (index + 1) hunks prepared
      | some current => do
          let path ← (hunk.resolvePath host cwd).mapError .patch
          let update ← recheckHunk host files index hunk path previousUpdates prepared
            verifiedSites current
          recheckHunks cwd files previousUpdates verifiedSites (index + 1) hunks
            (prepared.set index (some update))

/-- An error of a pure part of a run. -/
def liftFailure {α : Type} : Except (Failure PathUri) α → Apply PathUri Endpoint α
  | .ok value => pure value
  | .error failure => throw failure

/-- `apply_hunks_to_files` (`lib.rs:857`). -/
def applyHunksToFiles (cwd : PathUri) (hunks : List Hunk) (revisionGuards : List FileRevisionGuard)
    (prepared : List (Option AppliedPatch)) (destinations : Destinations PathUri)
    (verifiedSites : Bool) : Apply PathUri Endpoint Unit := do
  let previousUpdates ← raise (validateMutationEndpoints host cwd hunks)
  let files ← currentFiles
  let captured ← raise (captureDestinationPreimages host cwd files hunks ∅)
  ensure (Destinations.same captured destinations)
    "patch destination changed during preparation; no files were changed".toList
  let prepared ← liftFailure
    (recheckHunks host cwd files previousUpdates verifiedSites 0 hunks prepared)
  raise (validateRevisionGuards host cwd files revisionGuards)
  applyHunks host schedule cwd prepared destinations verifiedSites 0 hunks

/-- Moves are split into their two writes. A move without its destination stays whole and
    makes the delta inexact (`lib.rs:726`). -/
def splitMove (applied : AppliedPatchChange PathUri) : List (AppliedPatchChange PathUri) × Bool :=
  match applied.change, applied.movePathUri with
  | .update (some _) oldContent overwrittenMoveContent newContent, some destination =>
      ([{ pathUri := destination
          writeReceipt := applied.writeReceipt
          change := .add newContent overwrittenMoveContent },
        { pathUri := applied.pathUri
          change := .delete oldContent }], true)
  | .update (some _) _ _ _, none => ([{ applied with movePathUri := none }], false)
  | _, _ => ([applied], true)

/-- The content that a change left and the one that undoing it restores; `none` for a move
    that was kept whole (`lib.rs:784`). -/
def undoContents : FileChange PathUri → Option (Option Text × Option Text)
  | .add content overwrittenContent => some (some content, overwrittenContent)
  | .delete content => some (none, some content)
  | .update (some _) _ _ _ => none
  | .update none oldContent _ newContent => some (some newContent, some oldContent)

/-- The rollback of one change: whether the change stays in the delta, and its error. The
    error of a restore is recorded, never raised (`lib.rs:772`). -/
def rollbackChange (recoveryPath : Option PathUri) (applied : AppliedPatchChange PathUri) :
    Apply PathUri Endpoint (Bool × Option (Failure PathUri)) :=
  if recoveryPath = some applied.pathUri then do
    setExact (fun _ => false)
    return (true, none)
  else
    match undoContents applied.change with
    | none => return (true, none)
    | some (expected, original) => do
        let files ← currentFiles
        if !removeFailureWasSideEffectFree host files applied.pathUri expected then do
          setExact (fun _ => false)
          return (true, none)
        else
          tryCatch (do
              let _ ← conditionalMutation host schedule .rollback applied.pathUri expected original
              return (false, none))
            (fun failure => do
              reconcileFailedMutation host applied.pathUri expected
              return (true, some failure))

/-- The rollback loop over the changes from the last to the first: the changes that stay, in
    their order, and the errors. -/
def rollbackLoop (recoveryPath : Option PathUri) : List (AppliedPatchChange PathUri) →
    List (AppliedPatchChange PathUri) → List (Failure PathUri) →
    Apply PathUri Endpoint (List (AppliedPatchChange PathUri) × List (Failure PathUri))
  | [], kept, errors => return (kept, errors)
  | applied :: earlier, kept, errors => do
      let (stays, error) ← rollbackChange host schedule recoveryPath applied
      rollbackLoop recoveryPath earlier (if stays then applied :: kept else kept)
        (errors ++ error.toList)

/-- `rollback_committed_changes` (`lib.rs:717`). -/
def rollbackCommittedChanges (recoveryPath : Option PathUri) :
    Apply PathUri Endpoint (List (Failure PathUri)) := do
  let state : RunState PathUri Endpoint ← get
  let split := state.delta.changes.map splitMove
  let changes := split.flatMap (·.1)
  setExact (fun exact => exact && split.all (·.2))
  let (kept, errors) ← rollbackLoop host schedule recoveryPath changes.reverse [] []
  modify (fun state => { state with delta := { state.delta with changes := kept } })
  return errors

/-- The last update of the chain that starts at `first`. -/
def lastUpdate (hunks : List Hunk) (previousUpdates : List (Option Nat)) (first : Nat) :
    Option Nat :=
  (List.range hunks.length).reverse.find? (fun index =>
    match hunks[index]? with
    | some (.updateFile _ _ _) => firstUpdate previousUpdates index == first
    | _ => false)

/-- The path of the hunk at an index. -/
def resolveHunkAt (cwd : PathUri) (hunks : List Hunk) (index : Nat) :
    Except (Failure PathUri) PathUri :=
  match hunks[index]? with
  | some hunk => (hunk.resolvePath host cwd).mapError .patch
  | none => .error (.message "update was not prepared before writes".toList)

/-- One hunk of `ensure_rebased_updates_keep_their_sites` (`lib.rs:1577`). -/
def ensureKeepsSite (cwd : PathUri) (hunks : List Hunk) (previousUpdates : List (Option Nat))
    (prepared : List (Option AppliedPatch)) (action : ApplyPatchAction PathUri) (index : Nat) :
    Hunk → Except (Failure PathUri) Unit
  | .updateFile _ _ chunks => do
      let first := firstUpdate previousUpdates index
      let path ← resolveHunkAt host cwd hunks first
      let verified := action.verifiedContent path
      let current := ((lastUpdate hunks previousUpdates first).bind
        (fun last => prepared[last]?.join)).map (·.newContents)
      if verified.isSome && verified == current then return ()
      else
        match prepared[index]?.join with
        | none => throw (.message "update was not prepared before writes".toList)
        | some source =>
            match host.chunkWithoutUniqueSite source.originalContents chunks with
            | none => return ()
            | some chunk => throw (.message (host.nativeString path ++
                " changed after verification, and chunk ".toList ++ decimal chunk ++
                " of hunk ".toList ++ decimal (index + 1) ++
                (" no longer matches exactly one location; no files were changed. Re-read the " ++
                  "current source and regenerate the patch.").toList))
  | _ => .ok ()

def ensureRebasedUpdatesKeepTheirSites (cwd : PathUri) (hunks : List Hunk)
    (previousUpdates : List (Option Nat)) (prepared : List (Option AppliedPatch))
    (action : ApplyPatchAction PathUri) : Nat → List Hunk → Except (Failure PathUri) Unit
  | _, [] => .ok ()
  | index, hunk :: rest => do
      ensureKeepsSite host cwd hunks previousUpdates prepared action index hunk
      ensureRebasedUpdatesKeepTheirSites cwd hunks previousUpdates prepared action (index + 1) rest

/-- The index of the first hunk with this path. -/
def hunkPosition (cwd : PathUri) (hunks : List Hunk) (path : PathUri) : Option Nat :=
  hunks.findIdx? (fun hunk => match hunk.resolvePath host cwd with
    | .ok resolved => resolved == path
    | .error _ => false)

/-- A verified deletion still has its source, in the files and as prepared (`lib.rs:645`). -/
def ensureDeleteUnchanged (cwd : PathUri) (files : Files Endpoint) (hunks : List Hunk)
    (prepared : List (Option AppliedPatch)) (path : PathUri) :
    ApplyPatchFileChange PathUri → Except (Failure PathUri) Unit
  | .delete content => do
      let current ← (readFileText host files path).mapError .io
      if current ≠ content then
        throw (.message ("delete source changed after verification; refusing to delete ".toList ++
          host.nativeString path))
      else
        match hunkPosition host cwd hunks path with
        | none => throw (.message "verified delete is missing from patch".toList)
        | some index =>
            if (prepared[index]?.join).map (·.originalContents) = some content then return ()
            else throw (.message
              ("delete source changed during preparation; refusing to delete ".toList ++
                host.nativeString path))
  | _ => .ok ()

/-- The checks of a verified action before its writes (`lib.rs:643`). -/
def ensureVerified (cwd : PathUri) (files : Files Endpoint) (hunks : List Hunk)
    (previousUpdates : List (Option Nat)) (prepared : List (Option AppliedPatch)) :
    Option (ApplyPatchAction PathUri) → Except (Failure PathUri) Unit
  | none => .ok ()
  | some action => do
      action.changes.entries.forM (fun entry =>
        ensureDeleteUnchanged host cwd files hunks prepared entry.1 entry.2)
      ensureRebasedUpdatesKeepTheirSites host cwd hunks previousUpdates prepared action 0 hunks

/-- The admission of the mutated endpoints (`transaction.rs`). -/
def acquire : Apply PathUri Endpoint Unit :=
  match schedule.admission with
  | some error => throw (.io error)
  | none => pure ()

/-- The fallible part of an application (`lib.rs:626`). -/
def applyAttempt (cwd : PathUri) (hunks : List Hunk) (revisionGuards : List FileRevisionGuard)
    (verified : Option (ApplyPatchAction PathUri)) : Apply PathUri Endpoint Unit := do
  ensure (!hunks.isEmpty) "No files were modified.".toList
  let previousUpdates ← raise (validateMutationEndpoints host cwd hunks)
  acquire schedule
  let files ← currentFiles
  raise (validateRevisionGuards host cwd files revisionGuards)
  let destinations ← raise (captureDestinationPreimages host cwd files hunks ∅)
  ensure (match verified with
      | some action => Destinations.same destinations action.destinationPreimages
      | none => true)
    "patch destination changed after verification; no files were changed".toList
  let prepared ← raise (preflightHunks host cwd files hunks previousUpdates)
  liftFailure (ensureVerified host cwd files hunks previousUpdates prepared verified)
  applyHunksToFiles host schedule cwd hunks revisionGuards prepared destinations
    (verified.isSome || !revisionGuards.isEmpty)

end

/-- Why an application returned an error. -/
inductive FailureCause where
  | application
  | summary
  deriving DecidableEq, Repr

/-- `ApplyPatchFailure` (`lib.rs:504`), with the place that raised it. -/
structure ApplyPatchFailure (PathUri Endpoint : Type) where
  error : ApplyPatchError
  delta : AppliedPatchDelta PathUri Endpoint
  cause : FailureCause

/-- The texts of a failure and its contexts, from the outside in. -/
def Failure.display (host : Host PathUri Endpoint) : Failure PathUri → Text
  | .patch error => error.display
  | .io error => error.message
  | .recoveryRequired _ retainedPath reason => "mutation requires recovery: ".toList ++ reason ++
      ". Actual displaced file retained at ".toList ++ retainedPath ++
      "; do not retry or restore over a competing writer".toList
  | .noWriteConflict path =>
      "source changed at mutation boundary; refusing to replace/remove ".toList ++
        host.nativeString path
  | .message text => text
  | .context text source => text ++ ": ".toList ++ source.display host

/-- The error that an application returns for a failure (`lib.rs:697`). -/
def Failure.toError (host : Host PathUri Endpoint) (failure : Failure PathUri) : ApplyPatchError :=
  match failure.root with
  | .patch error => error
  | .io error => .ioError (failure.display host) error
  | _ => .ioError (failure.display host) ⟨.other, failure.display host⟩

/-- `apply_hunks_with_verified_action` (`lib.rs:610`): the result and the state left behind. -/
def applyHunksWithVerifiedAction (host : Host PathUri Endpoint) (schedule : Schedule)
    (cwd : PathUri) (hunks : List Hunk) (revisionGuards : List FileRevisionGuard)
    (verified : Option (ApplyPatchAction PathUri)) (files : Files Endpoint) :
    Except (ApplyPatchFailure PathUri Endpoint) (AppliedPatchDelta PathUri Endpoint) ×
      RunState PathUri Endpoint :=
  match (applyAttempt host schedule cwd hunks revisionGuards verified).from { files } with
  | (.ok _, state) =>
      match schedule.stdout with
      | some error => (.error ⟨.ofIo error, state.delta, .summary⟩, state)
      | none => (.ok state.delta, state)
  | (.error failure, state) =>
      match (rollbackCommittedChanges host schedule failure.recoveryPath).from state with
      | (.error unreached, state) => (.error ⟨unreached.toError host, state.delta, .application⟩, state)
      | (.ok errors, state) =>
          match schedule.stderr with
          | some error => (.error ⟨.ofIo error, state.delta, .application⟩, state)
          | none =>
              let failure := if errors.isEmpty then failure
                else .context ("rollback incomplete: ".toList ++
                  "; ".toList.intercalate (errors.map (·.display host))) failure
              (.error ⟨failure.toError host, state.delta, .application⟩, state)

end Codex.ApplyPatch
