import Mathlib.Data.List.AList
import Codex.ApplyPatch.Executor

/-!
# Checks before the first write

`validate_mutation_endpoints` (`apply-patch/src/invocation.rs:327`) and, from
`apply-patch/src/lib.rs`, the revision guards, the preflight of all hunks, the capture of
destination contents and the check of rebased updates. They read the files and change nothing.
-/

namespace Codex.ApplyPatch

open Codex.Hoare

variable {PathUri Endpoint : Type} [DecidableEq PathUri] [DecidableEq Endpoint]

section

variable (host : Host PathUri Endpoint) (cwd : PathUri) (files : Files Endpoint)

def startsWith (marker : Text) (text : Text) : Bool := decide (marker <+: text)

/-- `is_anchor_chunk` (`unique_anchor.rs:12`). -/
def isAnchorChunk (chunk : UpdateFileChunk) : Bool :=
  match chunk.changeContext with
  | none => false
  | some context => context == "codex-anchor".toList || startsWith "codex-anchor ".toList context

/-- `counted_replace::PREFIX`. -/
def COUNTED_REPLACE : Text := "codex-replace ".toList

/-- Literal and anchor edits bind to the starting file (`invocation.rs:352`). -/
def snapshotGuarded : Hunk → Bool
  | .updateFile _ _ chunks => chunks.any (fun chunk => isAnchorChunk chunk ||
      match chunk.changeContext with
      | none => false
      | some context => startsWith COUNTED_REPLACE context)
  | _ => false

/-- What is known of an endpoint that an earlier hunk mutates. -/
structure Mutated (PathUri : Type) where
  path : PathUri
  hunk : Nat
  inPlace : Bool
  snapshotGuarded : Bool

abbrev Endpoints (PathUri Endpoint : Type) := AList (fun _ : Endpoint => Mutated PathUri)

/-- The error of an endpoint that is mutated twice (`invocation.rs:367`). -/
def mutatedTwice (path : PathUri) (index : Nat) (previous : Mutated PathUri) : ApplyPatchError :=
  .parseError (.invalidPatchError (
    (if previous.hunk = index + 1 then
      "move source and destination identify the same path; ".toList else []) ++
    "path '".toList ++ host.nativeString path ++ "' (hunk ".toList ++ decimal (index + 1) ++
    ") is mutated more than once in the same patch; it identifies the same endpoint as '".toList ++
    host.nativeString previous.path ++ "' (hunk ".toList ++ decimal previous.hunk ++
    ("). Combine edits into one Update File hunk, including edits to a move " ++
      "destination.").toList))

/-- One endpoint of a hunk: the table with it, and the earlier update that it edits. -/
def claimEndpoint (index : Nat) (hunk : Hunk) (path : PathUri)
    (endpoints : Endpoints PathUri Endpoint) :
    Except ApplyPatchError (Endpoints PathUri Endpoint × Option Nat) :=
  let claimed := endpoints.insert (host.endpoint path)
    ⟨path, index + 1, hunk.inPlace, snapshotGuarded hunk⟩
  match endpoints.lookup (host.endpoint path) with
  | none => .ok (claimed, none)
  | some previous =>
      if hunk.inPlace && previous.inPlace && !snapshotGuarded hunk && !previous.snapshotGuarded then
        .ok (claimed, some (previous.hunk - 1))
      else .error (mutatedTwice host path index previous)

/-- The endpoints of one hunk: its source and, of a move, its destination. -/
def claimHunk (index : Nat) (hunk : Hunk) (endpoints : Endpoints PathUri Endpoint) :
    Except ApplyPatchError (Endpoints PathUri Endpoint × Option Nat) := do
  let sourcePath ← hunk.resolvePath host cwd
  match hunk.movePath with
  | none => claimEndpoint host index hunk sourcePath endpoints
  | some movePath =>
      let movePath ← joinPath host cwd movePath
      let (endpoints, _) ← claimEndpoint host index hunk sourcePath endpoints
      claimEndpoint host index hunk movePath endpoints

/-- The loop of `validate_mutation_endpoints` from the hunk at `index`. -/
def claimHunks : Nat → List Hunk → Endpoints PathUri Endpoint →
    Except ApplyPatchError (List (Option Nat))
  | _, [], _ => .ok []
  | index, hunk :: hunks, endpoints => do
      let (endpoints, previous) ← claimHunk host cwd index hunk endpoints
      let later ← claimHunks (index + 1) hunks endpoints
      return previous :: later

/-- `validate_mutation_endpoints` (`invocation.rs:327`): for each hunk, the earlier update
    whose result it edits. -/
def validateMutationEndpoints (hunks : List Hunk) : Except ApplyPatchError (List (Option Nat)) :=
  claimHunks host cwd 0 hunks ∅

/-- `SourceHashRef::matches` (`source_hash.rs:46`). -/
def SourceHashRef.accepts (reference : SourceHashRef) (actual : Text) : Bool :=
  decide (reference.hash.length ≤ actual.length) &&
    (actual.take reference.hash.length).map toAsciiLowercase == reference.hash.map toAsciiLowercase

/-- The failure of one guard, if it is not satisfied (`lib.rs:1261`). -/
def revisionGuardFailure (guarded : FileRevisionGuard) (path : PathUri) : Option Text :=
  let content := files (host.endpoint path)
  let current := match guarded.expectedSha256 with
    | some _ => content.map host.sha256
    | none => content.map (fun _ => "present".toList)
  let excerpt := match guarded.expectedSha256, content with
    | some expected, some text =>
        if expected.accepts (host.sha256 text) then [] else host.boundedLines text
    | _, _ => []
  let satisfied := match guarded.expectedSha256, current with
    | some expected, some hash => expected.accepts hash
    | none, none => true
    | _, _ => false
  if satisfied then none
  else some ("Revision guard failed for ".toList ++ host.nativeString path ++
    ": expected ".toList ++ (guarded.expectedSha256.map (·.hash)).getD "absent".toList ++
    ", current ".toList ++ current.getD "absent".toList ++
    (if excerpt.isEmpty then []
      else ("\nCurrent excerpt (bounded, from line 1; expected guard supplies a hash " ++
        "only):\n").toList ++ excerpt))

def revisionGuardFailures : List FileRevisionGuard → Except ApplyPatchError (List Text)
  | [] => .ok []
  | guarded :: guards => do
      let path ← joinPath host cwd guarded.path
      let failures ← revisionGuardFailures guards
      return (revisionGuardFailure host files guarded path).toList ++ failures

/-- `validate_revision_guards` (`lib.rs:1253`). -/
def validateRevisionGuards (guards : List FileRevisionGuard) : Except ApplyPatchError Unit := do
  let failures ← revisionGuardFailures host cwd files guards
  if failures.isEmpty then return ()
  else throw (.revisionGuardMismatch (['\n'].intercalate failures ++
    ("\nNo files were changed. Re-read changed guard files and reconcile the patch before " ++
      "submitting fresh revisions.").toList))

/-- The publication endpoint of a hunk: an addition or the destination of a move. -/
def publication : Hunk → Except ApplyPatchError (Option PathUri)
  | .addFile path _ => some <$> joinPath host cwd path
  | .updateFile _ (some movePath) _ => some <$> joinPath host cwd movePath
  | _ => .ok none

abbrev Destinations (PathUri : Type) := AList (fun _ : PathUri => Option Text)

/-- `capture_destination_preimages` (`lib.rs:1502`). -/
def captureDestinationPreimages : List Hunk → Destinations PathUri →
    Except ApplyPatchError (Destinations PathUri)
  | [], destinations => .ok destinations
  | hunk :: hunks, destinations => do
      let published ← publication host cwd hunk
      match published with
      | none => captureDestinationPreimages hunks destinations
      | some path =>
          captureDestinationPreimages hunks
            (destinations.insert path (files (host.endpoint path)))

/-- `AppliedPatch` (`lib.rs:1835`). -/
structure AppliedPatch where
  originalContents : Text
  newContents : Text
  deriving DecidableEq, Repr

/-- `first_update` (`lib.rs:1529`). Every step goes to an earlier hunk, so the index is
    enough fuel. -/
def firstUpdateFrom (previousUpdates : List (Option Nat)) : Nat → Nat → Nat
  | 0, index => index
  | fuel + 1, index =>
      match previousUpdates[index]?.join with
      | none => index
      | some previous => firstUpdateFrom previousUpdates fuel previous

def firstUpdate (previousUpdates : List (Option Nat)) (index : Nat) : Nat :=
  firstUpdateFrom previousUpdates index index

/-- `update_json_regression` (`lib.rs:1553`). -/
def updateJsonRegression (path : Text) (index : Nat) (previousUpdates : List (Option Nat))
    (prepared : List (Option AppliedPatch)) (update : AppliedPatch) : Option Text :=
  if previousUpdates.contains (some index) then none
  else
    let first := firstUpdate previousUpdates index
    let source := if first = index then some update.originalContents
      else prepared[first]?.join.map (·.originalContents)
    source.bind (fun source => host.invalidJsonCandidate path source update.newContents)

/-- `mark_chained_mismatch` (`lib.rs:1538`). -/
def markChainedMismatch (previousUpdate : Option Nat) : ApplyPatchError → ApplyPatchError
  | .patchContextMismatch mismatch =>
      match previousUpdate with
      | none => .patchContextMismatch mismatch
      | some previous => .patchContextMismatch { mismatch with
          editsResultOfHunk := some (previous + 1)
          message := mismatch.message ++ "\nThis hunk edits the result of hunk ".toList ++
            decimal (previous + 1) ++
            " for the same file; the current lines and hash describe that result.".toList }
  | error => error

/-- The failure of one chunk taken alone, in its place. An ambiguity of a later chunk does not
    count: alone, it loses the anchor of its predecessors. -/
def locatedFailure (index : Nat) : ApplyPatchError → Option ApplyPatchError
  | .patchContextMismatch mismatch =>
      if 0 < index ∧ mismatch.kind = .ambiguousMatch then none
      else some (.patchContextMismatch { mismatch with chunkOrdinal := index + 1 })
  | error => some error

/-- The later chunks that fail on their own, after a first error (`lib.rs:1408`). -/
def independentFailures (path : PathUri) (source : Text) (ordinal : Nat)
    (previousUpdate : Option Nat) (first : Text) :
    Nat → List UpdateFileChunk → List ApplyPatchError → List ApplyPatchError
  | _, [], failures => failures
  | index, chunk :: chunks, failures =>
      let more := independentFailures path source ordinal previousUpdate first (index + 1) chunks
      match host.newContents path source [chunk] ordinal with
      | .ok _ => more failures
      | .error error =>
          match (locatedFailure index error).map (markChainedMismatch previousUpdate) with
          | none => more failures
          | some error =>
              if error.display ≠ first ∧ ¬ failures.any (·.display == error.display) then
                more (failures ++ [error])
              else more failures

/-- The source that an update hunk starts from: the result of the update it repeats, or its
    file. `none` when the repeated update failed (`lib.rs:1347`). -/
def updateSource (path : PathUri) (previousUpdate : Option Nat)
    (prepared : List (Option AppliedPatch)) : Option (Except ApplyPatchError Text) :=
  match previousUpdate with
  | some previous => (prepared[previous]?.join).map (fun update => .ok update.newContents)
  | none => some ((readFileText host files path).mapError (.ioError
      ("Failed to read file to update ".toList ++ host.nativeString path)))

/-- One update hunk of the preflight: its preparation and its failures (`lib.rs:1336`). -/
def preflightUpdate (hunk : Hunk) (chunks : List UpdateFileChunk) (path : PathUri) (ordinal : Nat)
    (previousUpdates : List (Option Nat)) (prepared : List (Option AppliedPatch))
    (failures : List ApplyPatchError) : Option AppliedPatch × List ApplyPatchError :=
  let previousUpdate := previousUpdates[ordinal]?.join
  match updateSource host files path previousUpdate prepared with
  | none => (none, failures)
  | some (.error error) => (none, failures ++ [error])
  | some (.ok originalContents) =>
      match host.newContents path originalContents chunks (ordinal + 1) with
      | .ok newContents =>
          let update : AppliedPatch := ⟨originalContents, newContents⟩
          match updateJsonRegression host hunk.path ordinal previousUpdates prepared update with
          | some error => (none, failures ++ [.computeReplacements (hunk.path ++
              " was valid JSON before this patch; candidate is invalid: ".toList ++ error ++
              ". No files were changed.".toList)])
          | none => (some update, failures)
      | .error error =>
          let error := markChainedMismatch previousUpdate error
          let failedChunks := match error with
            | .patchContextMismatch mismatch => mismatch.chunkOrdinal
            | _ => 0
          (none, independentFailures host path originalContents (ordinal + 1) previousUpdate
            error.display failedChunks (chunks.drop failedChunks) (failures ++ [error]))

/-- One hunk of the preflight. -/
def preflightHunk (hunk : Hunk) (path : PathUri) (ordinal : Nat)
    (previousUpdates : List (Option Nat)) (prepared : List (Option AppliedPatch))
    (failures : List ApplyPatchError) : Option AppliedPatch × List ApplyPatchError :=
  match hunk with
  | .updateFile _ _ chunks =>
      preflightUpdate host files hunk chunks path ordinal previousUpdates prepared failures
  | .deleteFile _ =>
      match readFileText host files path with
      | .ok contents => (some ⟨contents, []⟩, failures)
      | .error source => (none, failures ++ [.ioError
          ("Failed to delete file ".toList ++ host.nativeString path) source])
  | .addFile _ _ =>
      match files (host.endpoint path) with
      | none => (none, failures)
      | some _ => (none, failures ++ [.computeReplacements ("Add File is create-only; ".toList ++
          host.nativeString path ++ (" already exists. Use Update File with a current " ++
            "codex-range source hash. No files were changed.").toList)])

/-- The loop of the preflight. -/
def preflightLoop (previousUpdates : List (Option Nat)) :
    List Hunk → List (Option AppliedPatch) → List ApplyPatchError →
    Except ApplyPatchError (List (Option AppliedPatch) × List ApplyPatchError)
  | [], prepared, failures => .ok (prepared, failures)
  | hunk :: hunks, prepared, failures => do
      let path ← hunk.resolvePath host cwd
      let (update, failures) := preflightHunk host files hunk path prepared.length
        previousUpdates prepared failures
      preflightLoop previousUpdates hunks (prepared ++ [update]) failures

/-- The mismatches among the failures, in order. -/
def mismatchesOf (failures : List ApplyPatchError) : List PatchContextMismatch :=
  failures.filterMap (fun failure => match failure with
    | .patchContextMismatch mismatch => some mismatch
    | _ => none)

/-- `preflight_hunks` (`lib.rs:1325`). -/
def preflightHunks (hunks : List Hunk) (previousUpdates : List (Option Nat)) :
    Except ApplyPatchError (List (Option AppliedPatch)) := do
  let (prepared, failures) ← preflightLoop host cwd files previousUpdates hunks [] []
  match failures with
  | [] => return prepared
  | [failure] => throw failure
  | failures =>
      let report := "Patch preflight found ".toList ++ decimal failures.length ++
        " conflicts; no files were changed.\n".toList ++
        "\n\n".toList.intercalate (failures.map (·.display))
      let mismatches := mismatchesOf failures
      if mismatches.isEmpty then throw (.computeReplacements report)
      else throw (.multiplePatchConflicts report mismatches)

end

section Accepted

variable {host : Host PathUri Endpoint} {cwd : PathUri} {files : Files Endpoint}

omit [DecidableEq PathUri] in
/-- An endpoint that a hunk may mutate is recorded, and it is a new one unless the hunk is an
    update in place. -/
theorem claimEndpoint_ok {index : Nat} {hunk : Hunk} {path : PathUri}
    {endpoints endpoints' : Endpoints PathUri Endpoint} {previous : Option Nat}
    (ok : claimEndpoint host index hunk path endpoints = .ok (endpoints', previous)) :
    (∀ endpoint, endpoint ∈ endpoints' ↔ endpoint = host.endpoint path ∨ endpoint ∈ endpoints) ∧
      (hunk.inPlace = false → host.endpoint path ∉ endpoints) := by
  unfold claimEndpoint at ok
  split at ok
  next absent =>
    cases ok
    exact ⟨fun endpoint => AList.mem_insert _, fun _ => AList.lookup_eq_none.mp absent⟩
  next found present =>
    split at ok
    next repeats =>
      cases ok
      refine ⟨fun endpoint => AList.mem_insert _, fun notInPlace => ?_⟩
      rw [notInPlace] at repeats
      cases repeats
    next => cases ok

omit [DecidableEq PathUri] in
/-- The endpoints of a hunk that validation accepts. -/
theorem claimHunk_ok {index : Nat} {hunk : Hunk}
    {endpoints endpoints' : Endpoints PathUri Endpoint} {previous : Option Nat} {path : PathUri}
    (ok : claimHunk host cwd index hunk endpoints = .ok (endpoints', previous))
    (resolved : hunk.resolvePath host cwd = .ok path) :
    (∀ endpoint ∈ endpoints, endpoint ∈ endpoints') ∧ host.endpoint path ∈ endpoints' ∧
      (hunk.inPlace = false → host.endpoint path ∉ endpoints) ∧
      ∀ movePath dest, hunk.movePath = some movePath → joinPath host cwd movePath = .ok dest →
        host.endpoint dest ∈ endpoints' ∧ host.endpoint dest ∉ endpoints := by
  unfold claimHunk at ok
  rw [resolved] at ok
  cases moves : hunk.movePath with
  | none =>
    rw [moves] at ok
    obtain ⟨members, fresh⟩ := claimEndpoint_ok ok
    exact ⟨fun endpoint member => (members endpoint).mpr (.inr member),
      (members _).mpr (.inl rfl), fresh, nofun⟩
  | some movePath =>
    have notInPlace : hunk.inPlace = false := by
      cases hunk with
      | addFile path contents => rfl
      | deleteFile path => rfl
      | updateFile path movePath chunks =>
        cases movePath with
        | none => cases moves
        | some movePath => rfl
    rw [moves] at ok
    obtain ⟨_, same, ok⟩ := bind_ok.mp ok
    cases same
    obtain ⟨dest, isDest, ok⟩ := bind_ok.mp ok
    obtain ⟨⟨between, _⟩, source, ok⟩ := bind_ok.mp ok
    obtain ⟨inSource, freshSource⟩ := claimEndpoint_ok source
    obtain ⟨inDest, freshDest⟩ := claimEndpoint_ok ok
    refine ⟨?_, ?_, freshSource, ?_⟩
    · exact fun endpoint member => (inDest endpoint).mpr (.inr ((inSource endpoint).mpr (.inr member)))
    · exact (inDest _).mpr (.inr ((inSource _).mpr (.inl rfl)))
    · intro movePath' dest' isMove joined
      cases isMove
      obtain rfl : dest = dest' := Except.ok.inj (isDest.symm.trans joined)
      refine ⟨(inDest _).mpr (.inl rfl), fun member => freshDest notInPlace ?_⟩
      exact (inSource _).mpr (.inr member)

omit [DecidableEq Endpoint] in
/-- A captured destination has the content of its endpoint. -/
theorem captureDestinationPreimages_ok {hunks : List Hunk}
    {destinations destinations' : Destinations PathUri}
    (ok : captureDestinationPreimages host cwd files hunks destinations = .ok destinations')
    (captured : ∀ path content, destinations.lookup path = some content →
      content = files (host.endpoint path)) :
    ∀ path content, destinations'.lookup path = some content →
      content = files (host.endpoint path) := by
  induction hunks generalizing destinations with
  | nil =>
    cases ok
    exact captured
  | cons hunk hunks ih =>
    obtain ⟨published, _, ok⟩ := bind_ok.mp ok
    cases published with
    | none => exact ih ok captured
    | some path =>
      refine ih ok (fun other content found => ?_)
      by_cases same : other = path
      · rw [same, AList.lookup_insert] at found
        rw [same, Option.some.inj found]
      · rw [AList.lookup_insert_ne same] at found
        exact captured other content found

end Accepted

end Codex.ApplyPatch
