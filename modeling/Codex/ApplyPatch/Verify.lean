import Codex.ApplyPatch.Chains
import Codex.ApplyPatch.Atomicity
import Codex.ApplyPatch.Parser

/-!
# Verified patches

`try_verify_apply_patch_args` (`apply-patch/src/invocation.rs:221`) announces the changes of a
patch, and `apply_verified_patch_with_cancellation` (`apply-patch/src/lib.rs:591`) applies them
after an approval. The announcement merges the updates of one file into one change, the
application writes every one of them.
-/

namespace Codex.ApplyPatch

open Codex.Hoare

variable {PathUri Endpoint : Type}

section Definitions

variable [DecidableEq PathUri] [DecidableEq Endpoint] (host : Host PathUri Endpoint)

/-- The directory that relative paths start from (`invocation.rs:234`). -/
def effectiveCwd (cwd : PathUri) : Option Text → Except ApplyPatchError PathUri
  | none => .ok cwd
  | some workdir => do
      let target ← joinPath host cwd workdir
      let isDirectory ← (host.isDirectory target).mapError .ofIo
      if isDirectory then return target
      else throw (.parseError (.invalidPatchError
        ("cd target is not a directory: ".toList ++ host.nativeString target)))

/-- The changes of additions and deletions, the updates by the path that names them, and the
    first updates that are repeated (`invocation.rs:256`). -/
structure Proposal (PathUri : Type) where
  changes : AList (fun _ : PathUri => ApplyPatchFileChange PathUri) := ∅
  updates : AList (fun _ : PathUri => AppliedPatch × Option PathUri) := ∅
  firstUpdates : AList (fun _ : Nat => PathUri × Text) := ∅

/-- An update goes under the path of the first update of its file, from the source that it
    read (`invocation.rs:270`). -/
def Proposal.update (previousUpdates : List (Option Nat)) (index : Nat) (path : PathUri)
    (prepared : AppliedPatch) (dest : Option PathUri) (proposal : Proposal PathUri) :
    Proposal PathUri :=
  let first := firstUpdate previousUpdates index
  if first ≠ index then
    match proposal.firstUpdates.lookup first with
    | some (firstPath, source) => { proposal with
        updates := proposal.updates.insert firstPath (⟨source, prepared.newContents⟩, dest) }
    | none => { proposal with updates := proposal.updates.insert path (prepared, dest) }
  else { proposal with
    updates := proposal.updates.insert path (prepared, dest)
    firstUpdates := if previousUpdates.contains (some index)
      then proposal.firstUpdates.insert index (path, prepared.originalContents)
      else proposal.firstUpdates }

def joinDest (cwd : PathUri) : Option Text → Except ApplyPatchError (Option PathUri)
  | none => .ok none
  | some movePath => some <$> joinPath host cwd movePath

/-- One hunk of the proposal (`invocation.rs:262`). -/
def proposeHunk (cwd : PathUri) (previousUpdates : List (Option Nat)) (index : Nat)
    (path : PathUri) (proposal : Proposal PathUri) :
    Hunk → Option AppliedPatch → Except ApplyPatchError (Proposal PathUri)
  | .addFile _ contents, _ => .ok { proposal with
      changes := proposal.changes.insert path (.add contents) }
  | .deleteFile _, some prepared => .ok { proposal with
      changes := proposal.changes.insert path (.delete prepared.originalContents) }
  | .updateFile _ movePath _, some prepared => do
      let dest ← joinDest host cwd movePath
      return proposal.update previousUpdates index path prepared dest
  | _, none => .error (.computeReplacements
      ("patch preflight did not prepare ".toList ++ host.nativeString path))

def proposeHunks (cwd : PathUri) (previousUpdates : List (Option Nat)) :
    Nat → List (Hunk × Option AppliedPatch) → Proposal PathUri →
    Except ApplyPatchError (Proposal PathUri)
  | _, [], proposal => .ok proposal
  | index, (hunk, prepared) :: rest, proposal => do
      let path ← hunk.resolvePath host cwd
      let proposal ← proposeHunk host cwd previousUpdates index path proposal hunk prepared
      proposeHunks cwd previousUpdates (index + 1) rest proposal

/-- The updates with their diffs, in the order of the map; every order gives the same changes
    (`invocation.rs:300`). -/
def announceUpdates : List (Sigma (fun _ : PathUri => AppliedPatch × Option PathUri)) →
    AList (fun _ : PathUri => ApplyPatchFileChange PathUri) →
    Except ApplyPatchError (AList (fun _ : PathUri => ApplyPatchFileChange PathUri))
  | [], changes => .ok changes
  | ⟨path, prepared, dest⟩ :: rest, changes => do
      let diff ← host.unifiedDiff prepared.originalContents prepared.newContents
      announceUpdates rest (changes.insert path (.update diff dest prepared.newContents))

/-- `try_verify_apply_patch_args` (`invocation.rs:221`). -/
def tryVerifyApplyPatchArgs (cwd : PathUri) (files : Files Endpoint) (args : ApplyPatchArgs)
    (workdir : Option Text) : Except ApplyPatchError (ApplyPatchAction PathUri) := do
  let effective ← effectiveCwd host cwd workdir
  let previousUpdates ← validateMutationEndpoints host effective args.hunks
  validateRevisionGuards host effective files args.revisionGuards
  let prepared ← preflightHunks host effective files args.hunks previousUpdates
  let destinationPreimages ← captureDestinationPreimages host effective files args.hunks ∅
  validateRevisionGuards host effective files args.revisionGuards
  let proposal ← proposeHunks host effective previousUpdates 0 (args.hunks.zip prepared) {}
  let changes ← announceUpdates host proposal.updates.entries proposal.changes
  return { changes, destinationPreimages, patch := args.patch, cwd := effective }

/-- `apply_verified_patch_with_cancellation` (`lib.rs:591`): the patch of the action is parsed
    again. -/
def applyVerifiedPatchWithCancellation (schedule : Schedule) (action : ApplyPatchAction PathUri)
    (files : Files Endpoint) :
    Except (ApplyPatchFailure PathUri Endpoint) (AppliedPatchDelta PathUri Endpoint) ×
      RunState PathUri Endpoint :=
  match parsePatch action.patch with
  | .error error => (.error ⟨.parseError error, {}, .application⟩, { files })
  | .ok args => applyHunksWithVerifiedAction host schedule action.cwd args.hunks
      args.revisionGuards (some action) files

end Definitions

section Preflight

variable {host : Host PathUri Endpoint} {files : Files Endpoint}
  {previousUpdates : List (Option Nat)}

/-- What the preflight has prepared for a hunk: an update starts from the result of the update
    that it repeats, or from its file. -/
def PreparedAt (host : Host PathUri Endpoint) (files : Files Endpoint)
    (previousUpdates : List (Option Nat)) (prepared : List (Option AppliedPatch)) (index : Nat)
    (path : PathUri) : Hunk → Prop
  | .addFile _ _ => files (host.endpoint path) = none ∧ prepared[index]?.join = none
  | .deleteFile _ => ∃ content, files (host.endpoint path) = some content ∧
      prepared[index]?.join = some ⟨content, []⟩
  | .updateFile _ _ _ => ∃ update, prepared[index]?.join = some update ∧
      match previousUpdates[index]?.join with
      | none => files (host.endpoint path) = some update.originalContents
      | some previous => (prepared[previous]?.join).map (·.newContents) =
          some update.originalContents

variable {path : PathUri} {ordinal index : Nat} {failures : List ApplyPatchError} {hunk : Hunk}
   {prepared : List (Option AppliedPatch)}

theorem independentFailures_nil {source : Text} {previousUpdate : Option Nat} {first : Text}
    {chunks : List UpdateFileChunk}
    (quiet : independentFailures host path source ordinal previousUpdate first index chunks
      failures = []) : failures = [] := by
  induction chunks generalizing index failures with
  | nil => exact quiet
  | cons chunk chunks ih =>
    rw [independentFailures] at quiet
    split at quiet
    next => exact ih quiet
    next =>
      split at quiet
      next => exact ih quiet
      next =>
        split at quiet
        next => exact absurd (ih quiet) (by simp)
        next => exact ih quiet

/-- Failures are only added. -/
theorem preflightHunk_failures
    (quiet : (preflightHunk host files hunk path ordinal previousUpdates prepared
      failures).2 = []) : failures = [] := by
  unfold preflightHunk at quiet
  split at quiet
  next =>
    unfold preflightUpdate at quiet
    dsimp only at quiet
    split at quiet
    next => exact quiet
    next => exact absurd quiet (by simp)
    next =>
      split at quiet
      next =>
        split at quiet
        next => exact absurd quiet (by simp)
        next => exact quiet
      next => exact absurd (independentFailures_nil quiet) (by simp)
  next =>
    split at quiet
    next => exact quiet
    next => exact absurd quiet (by simp)
  next =>
    split at quiet
    next => exact quiet
    next => exact absurd quiet (by simp)

theorem preflightLoop_failures {cwd : PathUri} {hunks : List Hunk}
    {result : List (Option AppliedPatch)}
    (ok : preflightLoop host cwd files previousUpdates hunks prepared failures =
      .ok (result, [])) : failures = [] := by
  induction hunks generalizing prepared failures with
  | nil =>
    cases ok
    rfl
  | cons hunk hunks ih =>
    obtain ⟨path, _, ok⟩ := bind_ok.mp ok
    exact preflightHunk_failures (ih ok)

theorem preflightUpdate_source {chunks : List UpdateFileChunk}
    (quiet : (preflightUpdate host files hunk chunks path ordinal previousUpdates prepared
      failures).2 = []) (source : ∀ previous, previousUpdates[ordinal]?.join = some previous →
      (prepared[previous]?.join).isSome) :
    ∃ update, (preflightUpdate host files hunk chunks path ordinal previousUpdates prepared
        failures).1 = some update ∧
      updateSource host files path previousUpdates[ordinal]?.join prepared =
        some (.ok update.originalContents) := by
  unfold preflightUpdate at quiet ⊢
  cases isSource : updateSource host files path previousUpdates[ordinal]?.join prepared with
  | none =>
    unfold updateSource at isSource
    split at isSource
    next previous repeats =>
      have present := source previous repeats
      rw [Option.map_eq_none_iff] at isSource
      rw [isSource] at present
      cases present
    next => cases isSource
  | some read =>
    cases read with
    | error error =>
      simp only [isSource] at quiet
      exact absurd quiet (by simp)
    | ok originalContents =>
      simp only [isSource] at quiet ⊢
      split at quiet
      next newContents derived =>
        split at quiet
        next => exact absurd quiet (by simp)
        next valid => exact ⟨_, rfl, rfl⟩
      next => exact absurd (independentFailures_nil quiet) (by simp)

/-- What is prepared for a hunk does not depend on later hunks. -/
theorem PreparedAt.append {more : List (Option AppliedPatch)}
    (decreasing : Decreasing previousUpdates) (inside : index < prepared.length)
    (at' : PreparedAt host files previousUpdates prepared index path hunk) :
    PreparedAt host files previousUpdates (prepared ++ more) index path hunk := by
  have same : (prepared ++ more)[index]? = prepared[index]? := List.getElem?_append_left inside
  cases hunk with
  | addFile text contents | deleteFile text =>
    unfold PreparedAt
    rw [same]
    exact at'
  | updateFile text movePath chunks =>
    obtain ⟨update, found, source⟩ := at'
    refine ⟨update, by rw [same]; exact found, ?_⟩
    cases repeats : previousUpdates[index]?.join with
    | none =>
      rw [repeats] at source
      exact source
    | some previous =>
      rw [repeats] at source
      have before := decreasing index previous repeats
      show ((prepared ++ more)[previous]?.join).map _ = _
      rw [List.getElem?_append_left (before.trans inside)]
      exact source

theorem preflightHunk_prepares (decreasing : Decreasing previousUpdates)
    (quiet : (preflightHunk host files hunk path prepared.length previousUpdates prepared
      failures).2 = [])
    (source : ∀ previous, previousUpdates[prepared.length]?.join = some previous →
      (prepared[previous]?.join).isSome) :
    PreparedAt host files previousUpdates
      (prepared ++ [(preflightHunk host files hunk path prepared.length previousUpdates prepared
        failures).1]) prepared.length path hunk := by
  have here : ∀ update, (prepared ++ [update])[prepared.length]?.join = update := by
    intro update
    rw [List.getElem?_concat_length]
    rfl
  unfold preflightHunk at quiet ⊢
  cases hunk with
  | addFile text contents =>
    unfold PreparedAt
    dsimp only at quiet ⊢
    cases absent : files (host.endpoint path) with
    | none =>
      simp only [absent] at quiet ⊢
      exact ⟨trivial, here none⟩
    | some content =>
      simp only [absent] at quiet
      exact absurd quiet (by simp)
  | deleteFile text =>
    unfold PreparedAt
    unfold readFileText at quiet ⊢
    dsimp only at quiet ⊢
    cases present : files (host.endpoint path) with
    | none =>
      simp only [present] at quiet
      exact absurd quiet (by simp)
    | some content =>
      simp only [present] at quiet ⊢
      exact ⟨content, rfl, here _⟩
  | updateFile text movePath chunks =>
    obtain ⟨update, isUpdate, isSource⟩ := preflightUpdate_source quiet source
    refine ⟨update, (here _).trans isUpdate, ?_⟩
    unfold updateSource at isSource
    cases repeats : previousUpdates[prepared.length]?.join with
    | none =>
      simp only [repeats, readFileText] at isSource
      show files (host.endpoint path) = some update.originalContents
      cases present : files (host.endpoint path) with
      | none => simp [present, Except.mapError] at isSource
      | some content => simpa [present, Except.mapError] using isSource
    | some previous =>
      simp only [repeats] at isSource
      show ((prepared ++ _)[previous]?.join).map _ = some update.originalContents
      rw [List.getElem?_append_left (decreasing _ previous repeats)]
      obtain ⟨earlier, isEarlier, same⟩ := Option.map_eq_some_iff.mp isSource
      rw [isEarlier]
      exact congrArg some (Except.ok.inj same)

variable {cwd : PathUri} {hunks : List Hunk}

/-- A preflight without failures prepares every hunk. -/
def PreparedAll (host : Host PathUri Endpoint) (cwd : PathUri) (files : Files Endpoint)
    (hunks : List Hunk) (previousUpdates : List (Option Nat))
    (prepared : List (Option AppliedPatch)) (bound : Nat) : Prop :=
  ∀ index hunk path, index < bound → hunks[index]? = some hunk →
    hunk.resolvePath host cwd = .ok path →
    PreparedAt host files previousUpdates prepared index path hunk

/-- The update that a hunk repeats is prepared before it. -/
theorem PreparedAll.previous (validated : Validated host cwd hunks previousUpdates) {previous : Nat}
    (all : PreparedAll host cwd files hunks previousUpdates prepared index)
    (repeats : previousUpdates[index]?.join = some previous) :
    (prepared[previous]?.join).isSome := by
  obtain ⟨_, earlier, _, isEarlier, before, _, inPlace, _⟩ := validated.previous repeats
  obtain ⟨path, resolved, _⟩ := (validated.accepts previous earlier isEarlier).resolves
  have prepared := all previous earlier path before isEarlier resolved
  cases earlier with
  | addFile text contents => cases inPlace
  | deleteFile text => cases inPlace
  | updateFile text movePath chunks =>
    obtain ⟨update, found, _⟩ := prepared
    rw [found]
    rfl

theorem preflightLoop_prepares (validated : Validated host cwd hunks previousUpdates)
    {before rest : List Hunk} {prepared result : List (Option AppliedPatch)}
    {failures : List ApplyPatchError} (split : hunks = before ++ rest)
    (length : prepared.length = before.length)
    (all : PreparedAll host cwd files hunks previousUpdates prepared prepared.length)
    (ok : preflightLoop host cwd files previousUpdates rest prepared failures =
      .ok (result, [])) :
    result.length = hunks.length ∧
      PreparedAll host cwd files hunks previousUpdates result hunks.length := by
  induction rest generalizing before prepared failures with
  | nil =>
    cases ok
    rw [List.append_nil] at split
    rw [split, ← length]
    exact ⟨rfl, split ▸ all⟩
  | cons hunk rest ih =>
    obtain ⟨path, resolved, ok⟩ := bind_ok.mp ok
    have isHunk : hunks[prepared.length]? = some hunk := by
      rw [split, length, List.getElem?_append_right (Nat.le_refl _)]
      simp
    have here := preflightHunk_prepares validated.decreasing (preflightLoop_failures ok)
      (fun previous repeats => all.previous validated repeats)
    refine @ih (before ++ [hunk]) _ _ ?_ ?_ ?_ ok
    · rw [split, List.append_assoc]
      rfl
    · rw [List.length_append, List.length_append, length]
      rfl
    intro index other path' inside isOther resolved'
    rw [List.length_append, List.length_singleton] at inside
    rcases Nat.lt_succ_iff_lt_or_eq.mp inside with earlier | rfl
    · exact (all index other path' earlier isOther resolved').append validated.decreasing earlier
    · cases isHunk.symm.trans isOther
      cases resolved.symm.trans resolved'
      exact here

theorem preflightHunks_prepares (validated : Validated host cwd hunks previousUpdates)
    (ok : preflightHunks host cwd files hunks previousUpdates = .ok prepared) :
    prepared.length = hunks.length ∧
      PreparedAll host cwd files hunks previousUpdates prepared hunks.length := by
  obtain ⟨⟨result, failures⟩, loop, ok⟩ := bind_ok.mp ok
  cases failures with
  | nil =>
    cases ok
    refine @preflightLoop_prepares _ _ host files _ cwd hunks validated [] hunks [] _ [] rfl rfl
      ?_ loop
    exact fun index _ _ inside => absurd inside (Nat.not_lt_zero index)
  | cons failure failures =>
    cases failures with
    | nil => cases ok
    | cons second failures =>
      dsimp only at ok
      split at ok
      next => cases ok
      next => cases ok

end Preflight

section Proposal

variable {host : Host PathUri Endpoint} {cwd : PathUri} {hunks : List Hunk}
  {previousUpdates : List (Option Nat)} {prepared : List (Option AppliedPatch)}

/-- `Update File`, in place or with a move. -/
def Hunk.isUpdate : Hunk → Bool
  | updateFile _ _ _ => true
  | _ => false

/-- The change that an addition or a deletion announces. -/
def plainChange : Hunk → Option AppliedPatch → Option (ApplyPatchFileChange PathUri)
  | .addFile _ contents, _ => some (.add contents)
  | .deleteFile _, some prepared => some (.delete prepared.originalContents)
  | _, _ => none

variable [DecidableEq PathUri]

/-- What the proposal says of the hunks below a bound. -/
structure Proposed (host : Host PathUri Endpoint) (cwd : PathUri) (hunks : List Hunk)
    (previousUpdates : List (Option Nat)) (prepared : List (Option AppliedPatch)) (bound : Nat)
    (proposal : Proposal PathUri) : Prop where
  plain : ∀ index hunk path change, index < bound → hunks[index]? = some hunk →
    hunk.resolvePath host cwd = .ok path →
    plainChange hunk prepared[index]?.join = some change →
    proposal.changes.lookup path = some change
  plainOnly : ∀ path change, proposal.changes.lookup path = some change →
    ∃ index hunk, index < bound ∧ hunks[index]? = some hunk ∧
      hunk.resolvePath host cwd = .ok path ∧
      plainChange hunk prepared[index]?.join = some change
  updates : ∀ index hunk, index < bound → hunks[index]? = some hunk → hunk.isUpdate = true →
    LastOf hunks previousUpdates bound index →
    ∃ first path update, hunks[firstUpdate previousUpdates index]? = some first ∧
      first.resolvePath host cwd = .ok path ∧
      proposal.updates.lookup path = some (update, hunk.dest host cwd) ∧
      (prepared[index]?.join).map (·.newContents) = some update.newContents
  updatesOnly : ∀ path value, proposal.updates.lookup path = some value →
    ∃ index hunk, index < bound ∧ hunks[index]? = some hunk ∧ hunk.isUpdate = true ∧
      hunk.resolvePath host cwd = .ok path ∧ firstUpdate previousUpdates index = index ∧
      value.2 = hunk.dest host cwd
  firsts : ∀ index hunk path, index < bound → hunks[index]? = some hunk → hunk.isUpdate = true →
    hunk.resolvePath host cwd = .ok path → firstUpdate previousUpdates index = index →
    some index ∈ previousUpdates →
    ∃ source, proposal.firstUpdates.lookup index = some (path, source)

variable {hunk : Hunk} {proposal proposal' : Proposal PathUri} {bound : Nat} {path : PathUri}

omit [DecidableEq PathUri] in
theorem isUpdate_of_inPlace (inPlace : hunk.inPlace = true) :
    hunk.isUpdate = true := by
  cases hunk with
  | addFile text contents => cases inPlace
  | deleteFile text => cases inPlace
  | updateFile text movePath chunks => rfl

/-- An addition or a deletion is announced under its path. -/
theorem Proposed.addPlain (validated : Validated host cwd hunks previousUpdates)
    {change : ApplyPatchFileChange PathUri}
    (proposed : Proposed host cwd hunks previousUpdates prepared bound proposal)
    (isHunk : hunks[bound]? = some hunk) (notUpdate : hunk.isUpdate = false)
    (resolved : hunk.resolvePath host cwd = .ok path)
    (isChange : plainChange hunk prepared[bound]?.join = some change) :
    Proposed host cwd hunks previousUpdates prepared (bound + 1)
      { proposal with changes := proposal.changes.insert path change } := by
  have notInPlace : hunk.inPlace ≠ true := by
    intro inPlace
    rw [isUpdate_of_inPlace inPlace] at notUpdate
    cases notUpdate
  have new : ∀ index other, index < bound + 1 → hunks[index]? = some other →
      other.isUpdate = true → index < bound := by
    intro index other inside isOther isUpdate
    rcases Nat.lt_succ_iff_lt_or_eq.mp inside with earlier | rfl
    · exact earlier
    · cases isHunk.symm.trans isOther
      rw [isUpdate] at notUpdate
      cases notUpdate
  refine ⟨?_, ?_, ?_, ?_, ?_⟩
  · intro index other path' change' inside isOther resolved' isChange'
    rcases Nat.lt_succ_iff_lt_or_eq.mp inside with earlier | rfl
    · have differs : path' ≠ path := by
        rintro rfl
        exact notInPlace ((validated.meet isHunk isOther (source_touched resolved)
          (source_touched resolved')).2 (by omega)).1
      show (proposal.changes.insert path change).lookup path' = _
      rw [AList.lookup_insert_ne differs]
      exact proposed.plain index other path' change' earlier isOther resolved' isChange'
    · cases isHunk.symm.trans isOther
      cases resolved.symm.trans resolved'
      cases isChange.symm.trans isChange'
      exact AList.lookup_insert _
  · intro path' change' found
    by_cases same : path' = path
    · subst same
      cases (AList.lookup_insert _).symm.trans found
      exact ⟨bound, hunk, Nat.lt_succ_self _, isHunk, resolved, isChange⟩
    · obtain ⟨index, other, inside, isOther, resolved', isChange'⟩ :=
        proposed.plainOnly path' change' ((AList.lookup_insert_ne same).symm.trans found)
      exact ⟨index, other, Nat.lt_succ_of_lt inside, isOther, resolved', isChange'⟩
  · intro index other inside isOther isUpdate last
    exact proposed.updates index other (new index other inside isOther isUpdate) isOther isUpdate
      (last.mono (Nat.le_succ _))
  · intro path' value found
    obtain ⟨index, other, inside, rest⟩ := proposed.updatesOnly path' value found
    exact ⟨index, other, Nat.lt_succ_of_lt inside, rest⟩
  · intro index other path' inside isOther isUpdate
    exact proposed.firsts index other path' (new index other inside isOther isUpdate) isOther
      isUpdate

/-- An update is announced under the path of the first update of its chain. -/
theorem Proposed.addUpdate (validated : Validated host cwd hunks previousUpdates) {first : Hunk}
    {firstPath : PathUri} {update : AppliedPatch}
    (proposed : Proposed host cwd hunks previousUpdates prepared bound proposal)
    (isHunk : hunks[bound]? = some hunk) (isUpdate : hunk.isUpdate = true)
    (resolved : hunk.resolvePath host cwd = .ok path)
    (isFirst : hunks[firstUpdate previousUpdates bound]? = some first)
    (firstIsUpdate : first.isUpdate = true)
    (firstResolved : first.resolvePath host cwd = .ok firstPath)
    (sameDest : hunk.dest host cwd = first.dest host cwd)
    (isNew : (prepared[bound]?.join).map (·.newContents) = some update.newContents)
    (changes : proposal'.changes = proposal.changes) (updates : proposal'.updates =
      proposal.updates.insert firstPath (update, hunk.dest host cwd))
    (kept : ∀ index, index < bound →
      proposal'.firstUpdates.lookup index = proposal.firstUpdates.lookup index)
    (noted : firstUpdate previousUpdates bound = bound → some bound ∈ previousUpdates →
      ∃ source, proposal'.firstUpdates.lookup bound = some (path, source)) :
    Proposed host cwd hunks previousUpdates prepared (bound + 1) proposal' := by
  have plainBelow : ∀ index other (change : ApplyPatchFileChange PathUri), index < bound + 1 →
      hunks[index]? = some other → plainChange other prepared[index]?.join = some change →
      index < bound := by
    intro index other change inside isOther isChange
    rcases Nat.lt_succ_iff_lt_or_eq.mp inside with earlier | rfl
    · exact earlier
    · cases isHunk.symm.trans isOther
      cases hunk with
      | addFile text contents => cases isUpdate
      | deleteFile text => cases isUpdate
      | updateFile text movePath chunks => cases isChange
  refine ⟨?_, ?_, ?_, ?_, ?_⟩
  · intro index other path' change' inside isOther resolved' isChange'
    rw [changes]
    exact proposed.plain index other path' change'
      (plainBelow index other change' inside isOther isChange') isOther resolved' isChange'
  · intro path' change' found
    rw [changes] at found
    obtain ⟨index, other, inside, rest⟩ := proposed.plainOnly path' change' found
    exact ⟨index, other, Nat.lt_succ_of_lt inside, rest⟩
  · intro index other inside isOther otherIsUpdate last
    rcases Nat.lt_succ_iff_lt_or_eq.mp inside with earlier | rfl
    · obtain ⟨otherFirst, path', update', isOtherFirst, resolved', found, isNew'⟩ :=
        proposed.updates index other earlier isOther otherIsUpdate (last.mono (Nat.le_succ _))
      refine ⟨otherFirst, path', update', isOtherFirst, resolved', ?_, isNew'⟩
      have differs : path' ≠ firstPath := by
        rintro rfl
        have same := (validated.meet isOtherFirst isFirst (source_touched resolved')
          (source_touched firstResolved)).1
        rw [validated.firstUpdate_first, validated.firstUpdate_first] at same
        exact last bound hunk earlier (Nat.lt_succ_self _) isHunk same.symm
      rw [updates, AList.lookup_insert_ne differs]
      exact found
    · cases isHunk.symm.trans isOther
      refine ⟨first, firstPath, update, isFirst, firstResolved, ?_, isNew⟩
      rw [updates, AList.lookup_insert]
  · intro path' value found
    rw [updates] at found
    by_cases same : path' = firstPath
    · subst same
      cases (AList.lookup_insert _).symm.trans found
      refine ⟨firstUpdate previousUpdates bound, first, ?_, isFirst, firstIsUpdate, firstResolved,
        validated.firstUpdate_first bound, sameDest⟩
      exact Nat.lt_succ_of_le (firstUpdate_le validated.decreasing bound)
    · rw [AList.lookup_insert_ne same] at found
      obtain ⟨index, other, inside, rest⟩ := proposed.updatesOnly path' value found
      exact ⟨index, other, Nat.lt_succ_of_lt inside, rest⟩
  · intro index other path' inside isOther otherIsUpdate resolved' isOwn repeated
    rcases Nat.lt_succ_iff_lt_or_eq.mp inside with earlier | rfl
    · rw [kept index earlier]
      exact proposed.firsts index other path' earlier isOther otherIsUpdate resolved' isOwn repeated
    · cases isHunk.symm.trans isOther
      cases resolved.symm.trans resolved'
      exact noted isOwn repeated

theorem Proposed.update (validated : Validated host cwd hunks previousUpdates)
    {update : AppliedPatch}
    (proposed : Proposed host cwd hunks previousUpdates prepared bound proposal)
    (isHunk : hunks[bound]? = some hunk) (isUpdate : hunk.isUpdate = true)
    (resolved : hunk.resolvePath host cwd = .ok path)
    (isPrepared : prepared[bound]?.join = some update) :
    Proposed host cwd hunks previousUpdates prepared (bound + 1)
      (proposal.update previousUpdates bound path update (hunk.dest host cwd)) := by
  have isNew : (prepared[bound]?.join).map (·.newContents) = some update.newContents := by
    rw [isPrepared]
    rfl
  unfold Proposal.update
  by_cases own : firstUpdate previousUpdates bound = bound
  · rw [if_neg (not_not_intro own)]
    have isFirst : hunks[firstUpdate previousUpdates bound]? = some hunk := by
      rw [own]
      exact isHunk
    refine proposed.addUpdate validated isHunk isUpdate resolved isFirst isUpdate resolved rfl isNew
      rfl rfl ?_ ?_
    · intro index earlier
      dsimp only
      split
      · exact AList.lookup_insert_ne (Nat.ne_of_lt earlier)
      · rfl
    · intro _ repeated
      dsimp only
      rw [if_pos (List.contains_iff_mem.mpr repeated)]
      exact ⟨_, AList.lookup_insert _⟩
  · rw [if_pos own]
    obtain ⟨first, isFirst, _, both⟩ := validated.chain isHunk
    obtain ⟨inPlace, firstInPlace⟩ := both own
    obtain ⟨firstPath, firstResolved, _⟩ := (validated.accepts _ first isFirst).resolves
    have before : firstUpdate previousUpdates bound < bound :=
      Nat.lt_of_le_of_ne (firstUpdate_le validated.decreasing bound) own
    obtain ⟨source, found⟩ := proposed.firsts _ first firstPath before isFirst
      (isUpdate_of_inPlace firstInPlace) firstResolved (validated.firstUpdate_first bound)
      (firstUpdate_repeated validated.decreasing own)
    rw [found]
    have sameDest : hunk.dest host cwd = first.dest host cwd := by
      rw [dest_of_stays (movePath_of_inPlace inPlace),
        dest_of_stays (movePath_of_inPlace firstInPlace)]
    have isNew' : (prepared[bound]?.join).map (·.newContents) =
        some (AppliedPatch.mk source update.newContents).newContents := isNew
    exact proposed.addUpdate validated isHunk isUpdate resolved isFirst
      (isUpdate_of_inPlace firstInPlace) firstResolved sameDest isNew' rfl rfl (fun _ _ => rfl)
      (fun same => absurd same own)

omit [DecidableEq PathUri] in
theorem joinDest_ok {dest : Option PathUri}
    (joined : joinDest host cwd hunk.movePath = .ok dest) : hunk.dest host cwd = dest := by
  cases moves : hunk.movePath with
  | none =>
    rw [moves] at joined
    cases joined
    exact dest_of_stays moves
  | some movePath =>
    rw [moves, joinDest] at joined
    cases target : joinPath host cwd movePath with
    | error error =>
      rw [target] at joined
      cases joined
    | ok path =>
      rw [target] at joined
      cases joined
      exact dest_of_moves moves target

/-- One hunk of the proposal. -/
theorem proposeHunk_proposed (validated : Validated host cwd hunks previousUpdates)
    (proposed : Proposed host cwd hunks previousUpdates prepared bound proposal)
    (isHunk : hunks[bound]? = some hunk) (resolved : hunk.resolvePath host cwd = .ok path)
    (ok : proposeHunk host cwd previousUpdates bound path proposal hunk prepared[bound]?.join =
      .ok proposal') :
    Proposed host cwd hunks previousUpdates prepared (bound + 1) proposal' := by
  cases isPrepared : prepared[bound]?.join with
  | none =>
    rw [isPrepared] at ok
    cases hunk with
    | addFile text contents =>
      cases ok
      exact proposed.addPlain validated isHunk rfl resolved rfl
    | deleteFile text => cases ok
    | updateFile text movePath chunks => cases ok
  | some update =>
    rw [isPrepared] at ok
    cases hunk with
    | addFile text contents =>
      cases ok
      exact proposed.addPlain validated isHunk rfl resolved rfl
    | deleteFile text =>
      cases ok
      refine proposed.addPlain validated isHunk rfl resolved ?_
      rw [isPrepared]
      rfl
    | updateFile text movePath chunks =>
      obtain ⟨dest, joined, ok⟩ := bind_ok.mp ok
      cases ok
      obtain rfl : Hunk.dest host cwd (.updateFile text movePath chunks) = dest := joinDest_ok joined
      exact proposed.update validated isHunk rfl resolved isPrepared

/-- The proposal of all hunks. -/
theorem proposeHunks_proposed (validated : Validated host cwd hunks previousUpdates)
    (length : prepared.length = hunks.length)
    (proposed : Proposed host cwd hunks previousUpdates prepared bound proposal)
    (inside : bound ≤ hunks.length)
    (ok : proposeHunks host cwd previousUpdates bound ((hunks.zip prepared).drop bound) proposal =
      .ok proposal') :
    Proposed host cwd hunks previousUpdates prepared hunks.length proposal' := by
  generalize rest : (hunks.zip prepared).drop bound = pairs at ok
  induction pairs generalizing bound proposal with
  | nil =>
    cases ok
    have short : (hunks.zip prepared).length ≤ bound := List.drop_eq_nil_iff.mp rest
    rw [List.length_zip, length, Nat.min_self] at short
    rw [Nat.le_antisymm short inside]
    exact proposed
  | cons pair pairs ih =>
    obtain ⟨hunk, update⟩ := pair
    obtain ⟨found, next⟩ := drop_cons rest
    obtain ⟨isHunk, isPrepared⟩ := List.getElem?_zip_eq_some.mp found
    have join : prepared[bound]?.join = update := by
      rw [isPrepared]
      rfl
    obtain ⟨path, resolved, ok⟩ := bind_ok.mp ok
    obtain ⟨middle, proposes, ok⟩ := bind_ok.mp ok
    rw [← join] at proposes
    refine ih (proposeHunk_proposed validated proposed isHunk resolved proposes) ?_ next ok
    exact (List.getElem?_eq_some_iff.mp isHunk).1

/-- The announced changes are those of additions and deletions, and the updates. -/
theorem announceUpdates_lookup
    {updates : List (Sigma (fun _ : PathUri => AppliedPatch × Option PathUri))}
    {changes result : AList (fun _ : PathUri => ApplyPatchFileChange PathUri)}
    (ok : announceUpdates host updates changes = .ok result) (distinct : updates.NodupKeys)
    (path : PathUri) :
    (updates.dlookup path = none → result.lookup path = changes.lookup path) ∧
      ∀ update dest, updates.dlookup path = some (update, dest) →
        ∃ diff, result.lookup path = some (.update diff dest update.newContents) := by
  induction updates generalizing changes with
  | nil =>
    cases ok
    exact ⟨fun _ => rfl, nofun⟩
  | cons entry updates ih =>
    obtain ⟨own, value, target⟩ := entry
    obtain ⟨diff, _, ok⟩ := bind_ok.mp ok
    obtain ⟨absent, distinct⟩ := List.nodupKeys_cons.mp distinct
    obtain ⟨others, here⟩ := ih ok distinct
    by_cases same : path = own
    · subst same
      refine ⟨fun none => ?_, ?_⟩
      · rw [List.dlookup_cons_eq] at none
        cases none
      · intro update dest found
        rw [List.dlookup_cons_eq] at found
        cases found
        rw [others (List.dlookup_eq_none.mpr absent), AList.lookup_insert]
        exact ⟨diff, rfl⟩
    · rw [List.dlookup_cons_ne _ _ same]
      refine ⟨fun none => ?_, here⟩
      rw [others none, AList.lookup_insert_ne same]

/-- What the changes of a verified action announce. -/
structure Announced (host : Host PathUri Endpoint) (cwd : PathUri) (hunks : List Hunk)
    (previousUpdates : List (Option Nat)) (prepared : List (Option AppliedPatch))
    (changes : AList (fun _ : PathUri => ApplyPatchFileChange PathUri)) : Prop where
  plain : ∀ (index : Nat) hunk path change, hunks[index]? = some hunk →
    hunk.resolvePath host cwd = .ok path →
    plainChange hunk prepared[index]?.join = some change → changes.lookup path = some change
  update : ∀ (index : Nat) hunk, hunks[index]? = some hunk → hunk.isUpdate = true →
    LastOf hunks previousUpdates hunks.length index →
    ∃ first path diff newContents, hunks[firstUpdate previousUpdates index]? = some first ∧
      first.resolvePath host cwd = .ok path ∧
      (prepared[index]?.join).map (·.newContents) = some newContents ∧
      changes.lookup path = some (.update diff (hunk.dest host cwd) newContents)
  only : ∀ path change, changes.lookup path = some change →
    ∃ (index : Nat) (hunk : Hunk), hunks[index]? = some hunk ∧ hunk.resolvePath host cwd = .ok path ∧
      (plainChange hunk prepared[index]?.join = some change ∨
        hunk.isUpdate = true ∧ firstUpdate previousUpdates index = index)

theorem Proposed.announced (validated : Validated host cwd hunks previousUpdates)
    {changes : AList (fun _ : PathUri => ApplyPatchFileChange PathUri)}
    (proposed : Proposed host cwd hunks previousUpdates prepared hunks.length proposal)
    (ok : announceUpdates host proposal.updates.entries proposal.changes = .ok changes) :
    Announced host cwd hunks previousUpdates prepared changes := by
  have lookup := announceUpdates_lookup ok proposal.updates.nodupKeys
  refine ⟨?_, ?_, ?_⟩
  · intro index hunk path change isHunk resolved isChange
    have notUpdate : hunk.isUpdate = false := by
      cases hunk with
      | addFile text contents => rfl
      | deleteFile text => rfl
      | updateFile text movePath chunks => cases isChange
    have inside := (List.getElem?_eq_some_iff.mp isHunk).1
    rw [(lookup path).1 ?_]
    · exact proposed.plain index hunk path change inside isHunk resolved isChange
    cases found : proposal.updates.lookup path with
    | none => exact found
    | some value =>
      obtain ⟨other, hunk', _, isHunk', isUpdate, resolved', _⟩ :=
        proposed.updatesOnly path value found
      have differs : index ≠ other := by
        rintro rfl
        cases isHunk.symm.trans isHunk'
        rw [isUpdate] at notUpdate
        cases notUpdate
      have inPlace := ((validated.meet isHunk isHunk' (source_touched resolved)
        (source_touched resolved')).2 differs).1
      rw [isUpdate_of_inPlace inPlace] at notUpdate
      cases notUpdate
  · intro index hunk isHunk isUpdate last
    have inside := (List.getElem?_eq_some_iff.mp isHunk).1
    obtain ⟨first, path, update, isFirst, resolved, found, isNew⟩ :=
      proposed.updates index hunk inside isHunk isUpdate last
    obtain ⟨diff, announced⟩ := (lookup path).2 update _ found
    exact ⟨first, path, diff, update.newContents, isFirst, resolved, isNew, announced⟩
  intro path change found
  cases isUpdated : proposal.updates.lookup path with
  | none =>
    rw [(lookup path).1 isUpdated] at found
    obtain ⟨index, hunk, _, isHunk, resolved, isChange⟩ := proposed.plainOnly path change found
    exact ⟨index, hunk, isHunk, resolved, .inl isChange⟩
  | some value =>
    obtain ⟨index, hunk, _, isHunk, isUpdate, resolved, own, _⟩ :=
      proposed.updatesOnly path value isUpdated
    exact ⟨index, hunk, isHunk, resolved, .inr ⟨isUpdate, own⟩⟩

/-- What a verification that succeeds has found and announces. -/
structure Verified [DecidableEq Endpoint] (host : Host PathUri Endpoint) (files : Files Endpoint)
    (hunks : List Hunk) (revisionGuards : List FileRevisionGuard)
    (action : ApplyPatchAction PathUri) (previousUpdates : List (Option Nat))
    (prepared : List (Option AppliedPatch)) : Prop where
  validates : validateMutationEndpoints host action.cwd hunks = .ok previousUpdates
  guards : validateRevisionGuards host action.cwd files revisionGuards = .ok ()
  preflight : preflightHunks host action.cwd files hunks previousUpdates = .ok prepared
  captures : captureDestinationPreimages host action.cwd files hunks ∅ =
    .ok action.destinationPreimages
  announced : Announced host action.cwd hunks previousUpdates prepared action.changes

theorem tryVerifyApplyPatchArgs_verified [DecidableEq Endpoint] {files : Files Endpoint}
    {args : ApplyPatchArgs} {workdir : Option Text} {action : ApplyPatchAction PathUri}
    (ok : tryVerifyApplyPatchArgs host cwd files args workdir = .ok action) :
    action.patch = args.patch ∧ ∃ previousUpdates prepared,
      Verified host files args.hunks args.revisionGuards action previousUpdates prepared := by
  obtain ⟨effective, _, ok⟩ := bind_ok.mp ok
  obtain ⟨previousUpdates, validates, ok⟩ := bind_ok.mp ok
  obtain ⟨_, guards, ok⟩ := bind_ok.mp ok
  obtain ⟨prepared, preflight, ok⟩ := bind_ok.mp ok
  obtain ⟨destinations, captures, ok⟩ := bind_ok.mp ok
  obtain ⟨_, _, ok⟩ := bind_ok.mp ok
  obtain ⟨proposal, proposes, ok⟩ := bind_ok.mp ok
  obtain ⟨changes, announces, ok⟩ := bind_ok.mp ok
  cases ok
  have validated := validateMutationEndpoints_validated validates
  have length := (preflightHunks_prepares validated preflight).1
  have empty : Proposed host effective args.hunks previousUpdates prepared 0 {} :=
    ⟨nofun, nofun, nofun, nofun, nofun⟩
  have proposed := proposeHunks_proposed validated length empty (Nat.zero_le _) proposes
  exact ⟨rfl, previousUpdates, prepared, validates, guards, preflight, captures,
    proposed.announced validated announces⟩

end Proposal

end Codex.ApplyPatch
