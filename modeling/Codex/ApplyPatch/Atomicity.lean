import Codex.ApplyPatch.Delta

/-!
# The delta of a whole application

The write loop of `apply_hunks_to_files` (`apply-patch/src/lib.rs:857`) keeps the journal of
`Codex.ApplyPatch.Delta`, hunk by hunk, and the rollback of `rollback_committed_changes`
(`lib.rs:717`) takes it back from its end. From both follow what an application that returns
promises: an exact delta replays to the files that are left, and an application that fails
without damage leaves the files as they were.
-/

namespace Codex.ApplyPatch

open Codex.Hoare

variable {PathUri Endpoint : Type}

/-! ## Checks -/

section Checks

variable {host : Host PathUri Endpoint} {schedule : Schedule} {cwd : PathUri}
  {state : RunState PathUri Endpoint}

/-- The errors of a check are not unfinished recoveries. -/
def Plain {α : Type} (result : Except (Failure PathUri) α) : Prop :=
  ∀ failure, result = .error failure → failure.recoveryPath = none

variable {α : Type}

theorem Plain.bind {β : Type} {first : Except (Failure PathUri) α}
    {rest : α → Except (Failure PathUri) β} (plain : Plain first)
    (next : ∀ value, Plain (rest value)) : Plain (first >>= rest) := by
  intro failure fails
  cases first with
  | ok value => exact next value failure fails
  | error error =>
    cases fails
    exact plain _ rfl

theorem plain_ok (value : α) : Plain (.ok value : Except (Failure PathUri) α) := nofun

theorem plain_mapError {ε : Type} (wrap : ε → Failure PathUri)
    (plain : ∀ error, (wrap error).recoveryPath = none) (result : Except ε α) :
    Plain (result.mapError wrap) := by
  intro failure fails
  cases result with
  | ok value => cases fails
  | error error =>
    cases fails
    exact plain error

theorem liftFailure_reads {result : Except (Failure PathUri) α} (plain : Plain result) :
    Reads (liftFailure result : Apply PathUri Endpoint α) state (fun value => result = .ok value) := by
  cases result with
  | ok value => exact ⟨rfl, rfl⟩
  | error failure => exact ⟨rfl, plain failure rfl⟩

theorem acquire_reads :
    Reads (acquire schedule : Apply PathUri Endpoint Unit) state (fun _ => True) := by
  unfold acquire
  split
  · exact ⟨rfl, rfl⟩
  · exact ⟨rfl, trivial⟩

theorem recheckHunk_plain (files : Files Endpoint) (index : Nat) (hunk : Hunk) (path : PathUri)
    (previousUpdates : List (Option Nat)) (prepared : List (Option AppliedPatch))
    (verifiedSites : Bool) (current : AppliedPatch) :
    Plain (recheckHunk host files index hunk path previousUpdates prepared verifiedSites
      current) := by
  refine Plain.bind ?_ (fun source => ?_)
  · unfold recheckSource
    split
    · split
      · exact plain_ok _
      · rintro _ ⟨⟩
        rfl
    · exact plain_mapError _ (fun _ => rfl) _
  split
  · exact plain_ok _
  split
  · rintro _ ⟨⟩
    rfl
  cases hunk with
  | updateFile text movePath chunks =>
    refine Plain.bind (plain_mapError _ (fun _ => rfl) _) (fun newContents => ?_)
    dsimp only
    split
    · rintro _ ⟨⟩
      rfl
    · exact plain_ok _
  | _ =>
    rintro _ ⟨⟩
    rfl

theorem recheckHunks_plain (files : Files Endpoint) (previousUpdates : List (Option Nat))
    (verifiedSites : Bool) (index : Nat) (hunks : List Hunk)
    (prepared : List (Option AppliedPatch)) :
    Plain (recheckHunks host cwd files previousUpdates verifiedSites index hunks prepared) := by
  induction hunks generalizing index prepared with
  | nil => exact plain_ok _
  | cons hunk hunks ih =>
    unfold recheckHunks
    split
    · exact ih _ _
    · refine Plain.bind (plain_mapError _ (fun _ => rfl) _) (fun path => ?_)
      exact Plain.bind (recheckHunk_plain _ _ _ _ _ _ _ _) (fun update => ih _ _)

variable [DecidableEq PathUri]

theorem ensureKeepsSite_plain (hunks : List Hunk) (previousUpdates : List (Option Nat))
    (prepared : List (Option AppliedPatch)) (action : ApplyPatchAction PathUri) (index : Nat)
    (hunk : Hunk) :
    Plain (ensureKeepsSite host cwd hunks previousUpdates prepared action index hunk) := by
  cases hunk with
  | updateFile text movePath chunks =>
    refine Plain.bind ?_ (fun path => ?_)
    · unfold resolveHunkAt
      split
      · exact plain_mapError _ (fun _ => rfl) _
      · rintro _ ⟨⟩
        rfl
    dsimp only
    split
    · exact plain_ok _
    split
    · rintro _ ⟨⟩
      rfl
    · split
      · exact plain_ok _
      · rintro _ ⟨⟩
        rfl
  | _ => exact plain_ok _

theorem ensureRebasedUpdatesKeepTheirSites_plain (hunks : List Hunk)
    (previousUpdates : List (Option Nat)) (prepared : List (Option AppliedPatch))
    (action : ApplyPatchAction PathUri) (index : Nat) (rest : List Hunk) :
    Plain (ensureRebasedUpdatesKeepTheirSites host cwd hunks previousUpdates prepared action index
      rest) := by
  induction rest generalizing index with
  | nil => exact plain_ok _
  | cons hunk rest ih =>
    exact Plain.bind (ensureKeepsSite_plain _ _ _ _ _ _) (fun _ => ih _)

theorem ensureDeleteUnchanged_plain (files : Files Endpoint) (hunks : List Hunk)
    (prepared : List (Option AppliedPatch)) (path : PathUri)
    (change : ApplyPatchFileChange PathUri) :
    Plain (ensureDeleteUnchanged host cwd files hunks prepared path change) := by
  cases change with
  | delete content =>
    refine Plain.bind (plain_mapError _ (fun _ => rfl) _) (fun current => ?_)
    split
    · rintro _ ⟨⟩
      rfl
    split
    · rintro _ ⟨⟩
      rfl
    · split
      · exact plain_ok _
      · rintro _ ⟨⟩
        rfl
  | _ => exact plain_ok _

theorem ensureVerified_plain (files : Files Endpoint) (hunks : List Hunk)
    (previousUpdates : List (Option Nat)) (prepared : List (Option AppliedPatch))
    (verified : Option (ApplyPatchAction PathUri)) :
    Plain (ensureVerified host cwd files hunks previousUpdates prepared verified) := by
  cases verified with
  | none => exact plain_ok _
  | some action =>
    refine Plain.bind ?_ (fun _ => ensureRebasedUpdatesKeepTheirSites_plain _ _ _ _ _ _)
    induction action.changes.entries with
    | nil => exact plain_ok _
    | cons entry entries ih =>
      exact Plain.bind (ensureDeleteUnchanged_plain _ _ _ _ _) (fun _ => ih)

end Checks

section Hunks

variable [DecidableEq Endpoint] {host : Host PathUri Endpoint} {schedule : Schedule} {start : Files Endpoint}
  {state : RunState PathUri Endpoint}

/-! ## Writes of hunks -/

/-- The journal continues, with writes of these endpoints. -/
structure Continues (host : Host PathUri Endpoint) (start : Files Endpoint)
    (state : RunState PathUri Endpoint) (endpoints : List Endpoint)
    (next : RunState PathUri Endpoint) : Prop where
  sound : Sound host start next
  edits : ∃ edits, changeEdits host next.delta.changes =
    changeEdits host state.delta.changes ++ edits ∧ ∀ edit ∈ edits, edit.key ∈ endpoints

/-- No recorded write names the endpoint. -/
def Untouched (host : Host PathUri Endpoint) (state : RunState PathUri Endpoint)
    (endpoint : Endpoint) : Prop :=
  ∀ edit ∈ changeEdits host state.delta.changes, edit.key ≠ endpoint

theorem Sound.untouched (sound : Sound host start state) {endpoint : Endpoint}
    (untouched : Untouched host state endpoint) : state.files endpoint = start endpoint := by
  rw [sound.files, replay_of_notMem untouched]

/-- A write that succeeded is recorded by the change that describes it. -/
theorem Sound.push (sound : Sound host start state) {path : PathUri}
    {expected replacement : Option Text} {receipt : Option WriteReceipt}
    {next : RunState PathUri Endpoint}
    (known : state.files (host.endpoint path) = expected)
    (written : Written host path expected replacement state receipt next)
    (changes : expected ≠ replacement ∨ Untouched host state (host.endpoint path))
    {change : AppliedPatchChange PathUri} (whole : change.Whole)
    (edits : change.edits host = [⟨host.endpoint path, expected, replacement⟩]) :
    Continues host start state [host.endpoint path] { next with
      delta := { next.delta with changes := next.delta.changes ++ [change] } } := by
  have recorded : changeEdits host (next.delta.changes ++ [change]) =
      changeEdits host state.delta.changes ++ [⟨host.endpoint path, expected, replacement⟩] := by
    rw [changeEdits_snoc, edits, written.delta]
  obtain ⟨steps, log, meets⟩ := written.log
  refine ⟨⟨?_, ?_, ?_, ?_, ?_, ?_⟩, _, recorded, ?_⟩
  · show next.delta.exact = true
    rw [written.delta]
    exact sound.exact
  · show Journal start (changeEdits host (next.delta.changes ++ [change]))
    rw [recorded]
    refine .snoc _ sound.journal ?_ changes
    rw [← sound.files]
    exact known.symm
  · show next.files = replay start (changeEdits host (next.delta.changes ++ [change]))
    rw [recorded, replay_snoc, ← sound.files, written.files]
  · intro step member
    rw [show (next.log) = _ from log] at member
    rcases List.mem_append.mp member with earlier | later
    · exact sound.meets step earlier
    · exact meets step later
  · intro applied member
    rcases List.mem_append.mp member with earlier | last
    · rw [written.delta] at earlier
      exact sound.whole applied earlier
    · obtain rfl := List.mem_singleton.mp last
      exact whole
  · show ∀ pair ∈ next.delta.endpointIdentities, _
    rw [written.delta]
    exact sound.identities
  · intro edit member
    rw [List.mem_singleton.mp member]
    exact List.mem_singleton_self _

variable {path : PathUri} {update : AppliedPatch} {index : Nat}
   {endpoints : Endpoints PathUri Endpoint} {verifiedSites : Bool}

/-- A write in place, with the context of its error. -/
theorem withContext_writes {expected replacement : Option Text} (text : Text)
    (known : state.files (host.endpoint path) = expected) :
    Holds (Written host path expected replacement state)
      (fun failure next => ∃ steps, WriteFailed host path expected False state failure next steps)
      ((withContext text
        (conditionalMutation host schedule .forward path expected replacement)).from state) := by
  refine Holds.handle (conditionalMutation_writes .forward path expected replacement
    (by decide) (fun _ => known)) ?_
  rintro failure next ⟨steps, failed⟩
  exact ⟨steps, failed.withFailure rfl rfl nofun⟩

/-- The identities that are recorded are those of the endpoints. -/
theorem recordIdentity_sound (sound : Sound host start state) (path : PathUri) :
    Sound host start { state with delta := { state.delta with
      endpointIdentities := (path, host.endpoint path) :: state.delta.endpointIdentities } } := by
  refine ⟨sound.exact, sound.journal, sound.files, sound.meets, sound.whole, ?_⟩
  intro pair member
  rcases List.mem_cons.mp member with rfl | earlier
  · rfl
  · exact sound.identities pair earlier

theorem applyDelete_holds (sound : Sound host start state) {prepared : Option AppliedPatch} :
    Holds (fun _ next => Continues host start state [host.endpoint path] next)
      (Stopped host start) ((applyDelete host schedule path prepared).from state) := by
  refine sound.reads (ensureNotDirectory_reads _ _) (fun _ _ => ?_)
  refine sound.reads (readText_reads path) (fun deletedContent known => ?_)
  refine sound.reads (ensure_reads _ _) (fun _ _ => ?_)
  refine Holds.bind (tryWrite_holds sound known False.elim (withContext_writes _ known)) ?_
  intro receipt next written
  exact sound.push known written (.inl nofun) trivial rfl

theorem applyInPlace_holds (sound : Sound host start state)
    (known : state.files (host.endpoint path) = some update.originalContents) :
    Holds (fun _ next => Continues host start state [host.endpoint path] next)
      (Stopped host start) ((applyInPlace host schedule path update).from state) := by
  refine Holds.bind (tryWrite_holds sound known False.elim (withContext_writes _ known)) ?_
  intro receipt next written
  cases receipt with
  | none =>
    have same : some update.originalContents = some update.newContents :=
      (written.noReceipt rfl).resolve_left nofun
    obtain ⟨steps, log, meets⟩ := written.log
    have files : next.files = state.files := by
      rw [written.files, ← same, ← known, Function.update_eq_self]
    refine ⟨sound.unchanged files written.delta log meets, [], ?_, nofun⟩
    rw [written.delta, List.append_nil]
  | some receipt => exact sound.push known written (.inl (written.someReceipt rfl)) trivial rfl

theorem removeMoveSource_holds (sound : Sound host start state) :
    Holds (fun _ next => state.files (host.endpoint path) = some update.originalContents ∧
        ∃ receipt, Written host path (some update.originalContents) none state receipt next)
      (Stopped host start) ((removeMoveSource host schedule index path update).from state) := by
  refine sound.reads (cancelIf_reads _ _) (fun _ _ => ?_)
  refine sound.reads (ensureNotDirectory_reads _ _) (fun _ _ => ?_)
  refine sound.reads (readText_reads path) (fun source isSource => ?_)
  refine sound.reads (ensure_reads _ _) (fun _ same => ?_)
  have known := isSource.trans (congrArg some (eq_of_beq same))
  refine Holds.bind (tryWrite_holds sound known False.elim (withContext_writes _ known)) ?_
  exact fun receipt next written => ⟨known, receipt, written⟩

/-- A destination write is recorded, or it wrote nothing. -/
theorem recordDestination_holds (sound : Sound host start state) {expected : Option Text}
    {content : Text} {receipt : Option WriteReceipt} {next : RunState PathUri Endpoint}
    (known : state.files (host.endpoint path) = expected)
    (written : Written host path expected (some content) state receipt next)
    (untouched : Untouched host state (host.endpoint path)) :
    Holds (fun _ last => Sound host start last ∧ last.files = next.files ∧
        ∃ recorded, last.delta.changes = next.delta.changes ++ recorded ∧ recorded.length ≤ 1)
      (Stopped host start)
      ((recordDestination receipt
        { pathUri := path, writeReceipt := receipt, change := .add content expected }).from
          next) := by
  cases receipt with
  | none =>
    have same : expected = some content := (written.noReceipt rfl).resolve_left nofun
    obtain ⟨steps, log, meets⟩ := written.log
    have files : next.files = state.files := by
      rw [written.files, ← same, ← known, Function.update_eq_self]
    exact ⟨sound.unchanged files written.delta log meets, rfl, [], by simp, by simp⟩
  | some receipt =>
    have pushed := @Sound.push _ _ _ host start state sound path _ _ _ next known written
      (.inr untouched)
      { pathUri := path, writeReceipt := some receipt, change := .add content expected } trivial rfl
    exact ⟨pushed.sound, rfl, [_], rfl, le_rfl⟩

/-- A move is recorded as the writes of its destination and of its source. -/
theorem Sound.move (sound : Sound host start state) {path dest : PathUri} {oldContent newContent : Text}
    {overwritten : Option Text} {last : RunState PathUri Endpoint}
    {moved : AppliedPatchChange PathUri}
    (known : state.files (host.endpoint dest) = overwritten)
    (untouched : Untouched host state (host.endpoint dest))
    (source : Function.update state.files (host.endpoint dest) (some newContent)
      (host.endpoint path) = some oldContent)
    (files : last.files = Function.update (Function.update state.files (host.endpoint dest)
      (some newContent)) (host.endpoint path) none)
    (changes : last.delta.changes = state.delta.changes ++ [moved])
    (edits : moved.edits host = [⟨host.endpoint dest, overwritten, some newContent⟩,
      ⟨host.endpoint path, some oldContent, none⟩])
    (whole : moved.Whole) (exact : last.delta.exact = true)
    (meets : ∀ step ∈ last.log, step.Meets)
    (identities : ∀ pair ∈ last.delta.endpointIdentities, pair.2 = host.endpoint pair.1) :
    Continues host start state [host.endpoint path, host.endpoint dest] last := by
  have recorded : changeEdits host last.delta.changes = changeEdits host state.delta.changes ++
      [⟨host.endpoint dest, overwritten, some newContent⟩,
        ⟨host.endpoint path, some oldContent, none⟩] := by
    rw [changes, changeEdits_snoc, edits]
  have published : Journal start (changeEdits host state.delta.changes ++
      [⟨host.endpoint dest, overwritten, some newContent⟩]) := by
    refine .snoc _ sound.journal ?_ (.inr untouched)
    rw [← sound.files]
    exact known.symm
  have shown : Function.update state.files (host.endpoint dest) (some newContent) =
      replay start (changeEdits host state.delta.changes ++
        [⟨host.endpoint dest, overwritten, some newContent⟩]) := by
    rw [replay_snoc, ← sound.files]
  rw [shown] at source files
  rw [List.append_cons] at recorded
  refine ⟨⟨exact, ?_, ?_, meets, ?_, identities⟩, _, by rw [recorded, List.append_assoc], ?_⟩
  · rw [recorded]
    exact .snoc _ published source.symm (.inl nofun)
  · rw [recorded, replay_snoc, files]
  · intro applied member
    rw [changes] at member
    rcases List.mem_append.mp member with earlier | isMoved
    · exact sound.whole applied earlier
    · rw [List.mem_singleton.mp isMoved]
      exact whole
  · intro edit member
    rcases List.mem_pair.mp member with rfl | rfl
    · exact List.mem_pair.mpr (.inr rfl)
    · exact List.mem_pair.mpr (.inl rfl)

variable [DecidableEq PathUri]

theorem applyAdd_holds (sound : Sound host start state) {contents : Text}
    {destinations : Destinations PathUri} (untouched : Untouched host state (host.endpoint path))
    (captured : ∀ content, destinations.lookup path = some content →
      content = start (host.endpoint path)) :
    Holds (fun _ next => Continues host start state [host.endpoint path] next)
      (Stopped host start)
      ((applyAdd host schedule index path contents destinations).from state) := by
  refine sound.reads (orFail_reads _ _) (fun overwrittenContent isCaptured => ?_)
  refine sound.reads (ensure_reads _ _) (fun _ _ => ?_)
  have known : state.files (host.endpoint path) = overwrittenContent := by
    rw [sound.untouched untouched, captured _ isCaptured]
  refine Holds.bind (tryWrite_holds sound known (fun _ => untouched)
    (writeFileWithMissingParentRetry_writes index path overwrittenContent contents known)) ?_
  intro receipt next written
  exact sound.push known written (.inr untouched) trivial rfl

/-- A move is recorded as one change, in the place of its destination write. -/
theorem applyMove_holds (sound : Sound host start state) {dest : PathUri}
    {destinations : Destinations PathUri} (untouched : Untouched host state (host.endpoint dest))
    (captured : ∀ content, destinations.lookup dest = some content →
      content = start (host.endpoint dest)) :
    Holds (fun _ next => Continues host start state [host.endpoint path, host.endpoint dest] next)
      (Stopped host start)
      ((applyMove host schedule index path dest update destinations).from state) := by
  unfold applyMove
  rw [recordIdentity, from_bind, from_modify]
  have sound := recordIdentity_sound sound dest
  by_cases same : host.endpoint path = host.endpoint dest
  · simp only [same]
    exact .clean sound rfl
  simp only [same]
  refine sound.reads (orFail_reads _ _) (fun overwrittenMoveContent isCaptured => ?_)
  have known : state.files (host.endpoint dest) = overwrittenMoveContent := by
    rw [sound.untouched untouched, captured _ isCaptured]
  refine Holds.bind (tryWrite_holds sound known (fun _ => untouched)
    (writeFileWithMissingParentRetry_writes index dest overwrittenMoveContent update.newContents
      known)) ?_
  intro receipt next written
  rw [from_bind, from_get]
  refine Holds.bind (recordDestination_holds sound known written untouched) ?_
  rintro _ published ⟨soundPublished, files, recorded, changes, short⟩
  refine Holds.bind (removeMoveSource_holds soundPublished) ?_
  rintro _ last ⟨source, receipt', removed⟩
  let moved : AppliedPatchChange PathUri :=
    { pathUri := path
      movePathUri := some dest
      writeReceipt := receipt
      change := .update (some dest) update.originalContents overwrittenMoveContent
        update.newContents }
  let final : RunState PathUri Endpoint := { last with delta := { last.delta with
    changes := if next.delta.changes.length < last.delta.changes.length
      then last.delta.changes.set next.delta.changes.length moved
      else last.delta.changes ++ [moved] } }
  have replaced : final.delta.changes = state.delta.changes ++ [moved] := by
    simp only [final]
    rw [removed.delta, changes, written.delta]
    rcases recorded with _ | ⟨only, _ | ⟨_, _⟩⟩
    · simp
    · simp
    · exact absurd short (by simp)
  have finalFiles : final.files = Function.update (Function.update state.files
      (host.endpoint dest) (some update.newContents)) (host.endpoint path) none := by
    show last.files = _
    rw [removed.files, files, written.files]
  have finalSound : final.delta.exact = true ∧ (∀ step ∈ final.log, step.Meets) ∧
      ∀ pair ∈ final.delta.endpointIdentities, pair.2 = host.endpoint pair.1 := by
    obtain ⟨steps, log, meets⟩ := removed.log
    show last.delta.exact = true ∧ (∀ step ∈ last.log, step.Meets) ∧
      ∀ pair ∈ last.delta.endpointIdentities, pair.2 = host.endpoint pair.1
    rw [removed.delta, log]
    refine ⟨soundPublished.exact, ?_, soundPublished.identities⟩
    intro step member
    rcases List.mem_append.mp member with earlier | later
    · exact soundPublished.meets step earlier
    · exact meets step later
  rw [files, written.files] at source
  have continues := @Sound.move _ _ _ host start _ sound path dest _ _ overwrittenMoveContent
    final moved known untouched source finalFiles replaced rfl rfl finalSound.1 finalSound.2.1
    finalSound.2.2
  exact ⟨continues.sound, continues.edits⟩

/-! ## The write loop -/

/-- The recorded writes are of endpoints that earlier hunks claimed. -/
def Named (host : Host PathUri Endpoint) (state : RunState PathUri Endpoint)
    (endpoints : Endpoints PathUri Endpoint) : Prop :=
  ∀ edit ∈ changeEdits host state.delta.changes, edit.key ∈ endpoints

omit [DecidableEq PathUri] [DecidableEq Endpoint] in
theorem Named.untouched {endpoint : Endpoint} (named : Named host state endpoints)
    (fresh : endpoint ∉ endpoints) :
    Untouched host state endpoint :=
  fun edit member same => fresh (same ▸ named edit member)

omit [DecidableEq PathUri] in
theorem Continues.named {endpoints' : Endpoints PathUri Endpoint} {written : List Endpoint}
    {next : RunState PathUri Endpoint} (continues : Continues host start state written next)
    (named : Named host state endpoints) (earlier : ∀ endpoint ∈ endpoints, endpoint ∈ endpoints')
    (later : ∀ endpoint ∈ written, endpoint ∈ endpoints') : Named host next endpoints' := by
  obtain ⟨edits, recorded, keys⟩ := continues.edits
  intro edit member
  rw [recorded] at member
  rcases List.mem_append.mp member with old | new
  · exact earlier _ (named edit old)
  · exact later _ (keys edit new)

theorem noteIdentity_sound (sound : Sound host start state) (path : PathUri) :
    Sound host start ((noteIdentity host path).from state).2 := by
  have same : (state.delta.endpointIdentities.lookup path).all (· == host.endpoint path) = true := by
    cases found : state.delta.endpointIdentities.lookup path with
    | none => rfl
    | some identity =>
      obtain ⟨front, back, split, _⟩ := List.lookup_eq_some_iff.mp found
      have member : (path, identity) ∈ state.delta.endpointIdentities := by
        rw [split]
        exact List.mem_append_right _ List.mem_cons_self
      exact beq_iff_eq.mpr (sound.identities _ member)
  refine ⟨?_, sound.journal, sound.files, sound.meets, sound.whole,
    (recordIdentity_sound sound path).identities⟩
  show (state.delta.exact && _) = true
  rw [same, sound.exact]
  rfl

variable {cwd : PathUri} {destinations : Destinations PathUri}

/-- One hunk keeps the journal. -/
theorem applyHunk_holds (sound : Sound host start state) {hunk : Hunk}
    {endpoints' : Endpoints PathUri Endpoint} {previous : Option Nat}
    {prepared : Option AppliedPatch}
    (claims : claimHunk host cwd index hunk endpoints = .ok (endpoints', previous))
    (named : Named host state endpoints)
    (captured : ∀ path content, destinations.lookup path = some content →
      content = start (host.endpoint path)) :
    Holds (fun _ next => Sound host start next ∧ Named host next endpoints')
      (Stopped host start)
      ((applyHunk host schedule cwd index hunk prepared destinations verifiedSites).from
        state) := by
  refine sound.reads (cancelIf_reads _ _) (fun _ _ => ?_)
  refine sound.reads (raise_reads _) (fun path resolved => ?_)
  obtain ⟨earlier, inSource, freshSource, freshDest⟩ := claimHunk_ok claims resolved
  rw [noteIdentity, from_bind, from_modify]
  have sound := noteIdentity_sound sound path
  have sourceOnly : ∀ endpoint ∈ [host.endpoint path], endpoint ∈ endpoints' := by
    intro endpoint member
    rw [List.mem_singleton.mp member]
    exact inSource
  cases hunk with
  | addFile text contents =>
    refine (applyAdd_holds sound (named.untouched (freshSource rfl)) (captured path)).mono ?_
      (fun _ _ stopped => stopped)
    exact fun _ next continues => ⟨continues.sound, continues.named named earlier sourceOnly⟩
  | deleteFile text =>
    refine (applyDelete_holds sound).mono ?_ (fun _ _ stopped => stopped)
    exact fun _ next continues => ⟨continues.sound, continues.named named earlier sourceOnly⟩
  | updateFile text movePath chunks =>
    refine sound.reads (currentUpdate_reads _ _ _ _ _) (fun update known => ?_)
    cases movePath with
    | none =>
      refine (applyInPlace_holds sound known).mono ?_ (fun _ _ stopped => stopped)
      exact fun _ next continues => ⟨continues.sound, continues.named named earlier sourceOnly⟩
    | some movePath =>
      refine sound.reads (raise_reads _) (fun dest joined => ?_)
      obtain ⟨inDest, fresh⟩ := freshDest movePath dest rfl joined
      refine (applyMove_holds sound (named.untouched fresh) (captured dest)).mono ?_
        (fun _ _ stopped => stopped)
      intro _ next continues
      refine ⟨continues.sound, continues.named named earlier (fun endpoint member => ?_)⟩
      rcases List.mem_pair.mp member with rfl | rfl
      · exact inSource
      · exact inDest

/-- The write loop keeps the journal. -/
theorem applyHunks_holds {prepared : List (Option AppliedPatch)} {hunks : List Hunk}
    (captured : ∀ path content, destinations.lookup path = some content →
      content = start (host.endpoint path)) (sound : Sound host start state)
    {previousUpdates : List (Option Nat)}
    (claims : claimHunks host cwd index hunks endpoints = .ok previousUpdates)
    (named : Named host state endpoints) :
    Holds (fun _ next => Sound host start next) (Stopped host start)
      ((applyHunks host schedule cwd prepared destinations verifiedSites index hunks).from
        state) := by
  induction hunks generalizing index endpoints previousUpdates state with
  | nil => exact sound
  | cons hunk hunks ih =>
    obtain ⟨⟨endpoints', previous⟩, claims, rest⟩ := bind_ok.mp claims
    obtain ⟨later, claimsLater, _⟩ := bind_ok.mp rest
    refine Holds.bind (applyHunk_holds sound claims named captured) ?_
    intro _ next ⟨sound', named'⟩
    exact ih sound' claimsLater named'

/-! ## The attempt -/

omit [DecidableEq PathUri] in
/-- A run starts with an empty journal. -/
theorem Sound.initial (host : Host PathUri Endpoint) (start : Files Endpoint) :
    Sound host start ({ files := start } : RunState PathUri Endpoint) :=
  ⟨rfl, .nil, rfl, nofun, nofun, nofun⟩

/-- The writes of an application, after its last checks. -/
theorem applyHunksToFiles_holds {hunks : List Hunk} {revisionGuards : List FileRevisionGuard}
    {prepared : List (Option AppliedPatch)}
    (captured : ∀ path content, destinations.lookup path = some content →
      content = start (host.endpoint path)) (sound : Sound host start state)
    (named : Named host state ∅) :
    Holds (fun _ next => Sound host start next) (Stopped host start)
      ((applyHunksToFiles host schedule cwd hunks revisionGuards prepared destinations
        verifiedSites).from state) := by
  refine sound.reads (raise_reads _) (fun previousUpdates claims => ?_)
  refine sound.reads currentFiles_reads ?_
  rintro _ rfl
  refine sound.reads (raise_reads _) (fun destinations' _ => ?_)
  refine sound.reads (ensure_reads _ _) (fun _ _ => ?_)
  refine sound.reads (liftFailure_reads (recheckHunks_plain _ _ _ _ _ _)) (fun prepared' _ => ?_)
  refine sound.reads (raise_reads _) (fun _ _ => ?_)
  exact applyHunks_holds captured sound claims named

/-- An application before its rollback. -/
theorem applyAttempt_holds (hunks : List Hunk) (revisionGuards : List FileRevisionGuard)
    (verified : Option (ApplyPatchAction PathUri)) :
    Holds (fun _ next => Sound host start next) (Stopped host start)
      ((applyAttempt host schedule cwd hunks revisionGuards verified).from { files := start }) := by
  have sound := Sound.initial host start
  refine sound.reads (ensure_reads _ _) (fun _ _ => ?_)
  refine sound.reads (raise_reads _) (fun previousUpdates claims => ?_)
  refine sound.reads acquire_reads (fun _ _ => ?_)
  refine sound.reads currentFiles_reads ?_
  rintro _ rfl
  refine sound.reads (raise_reads _) (fun _ _ => ?_)
  refine sound.reads (raise_reads _) (fun destinations captures => ?_)
  refine sound.reads (ensure_reads _ _) (fun _ _ => ?_)
  refine sound.reads (raise_reads _) (fun prepared _ => ?_)
  refine sound.reads (liftFailure_reads (ensureVerified_plain _ _ _ _ _)) (fun _ _ => ?_)
  exact applyHunksToFiles_holds (captureDestinationPreimages_ok captures nofun) sound nofun

end Hunks

/-! ## Rollback -/

section Rollback

variable {host : Host PathUri Endpoint}

variable {applied : AppliedPatchChange PathUri} {expected original : Option Text}

theorem undoContents_edits (undoes : undoContents applied.change = some (expected, original)) :
    applied.edits host = [⟨host.endpoint applied.pathUri, original, expected⟩] := by
  unfold undoContents at undoes
  unfold AppliedPatchChange.edits
  split at undoes
  next change =>
    rw [change]
    cases undoes
    rfl
  next change =>
    rw [change]
    cases undoes
    rfl
  next => cases undoes
  next change =>
    rw [change]
    cases undoes
    rfl

/-- A recorded move is split into the changes of its two writes. -/
theorem splitMove_whole (whole : applied.Whole) :
    (splitMove applied).2 = true ∧
      changeEdits host (splitMove applied).1 = applied.edits host ∧
      ∀ part ∈ (splitMove applied).1, (undoContents part.change).isSome := by
  unfold AppliedPatchChange.Whole at whole
  unfold splitMove
  cases change : applied.change with
  | add content overwrittenContent | delete content =>
    refine ⟨rfl, List.append_nil _, ?_⟩
    intro part member
    rw [List.mem_singleton.mp member, change]
    rfl
  | update movePath oldContent overwrittenMoveContent newContent =>
    cases movePath with
    | none =>
      refine ⟨rfl, List.append_nil _, ?_⟩
      intro part member
      rw [List.mem_singleton.mp member, change]
      rfl
    | some dest =>
      rw [change] at whole
      rw [whole]
      refine ⟨rfl, ?_, ?_⟩
      · unfold AppliedPatchChange.edits
        rw [change]
        rfl
      · intro part member
        rcases List.mem_pair.mp member with rfl | rfl
        · rfl
        · rfl

theorem splitMoves_whole {changes : List (AppliedPatchChange PathUri)}
    (whole : ∀ applied ∈ changes, applied.Whole) :
    (changes.map splitMove).all (·.2) = true ∧
      changeEdits host ((changes.map splitMove).flatMap (·.1)) = changeEdits host changes ∧
      ∀ part ∈ (changes.map splitMove).flatMap (·.1), (undoContents part.change).isSome := by
  induction changes with
  | nil => exact ⟨rfl, rfl, nofun⟩
  | cons applied changes ih =>
    obtain ⟨complete, edits, parts⟩ := splitMove_whole (whole applied List.mem_cons_self)
    obtain ⟨completes, moreEdits, moreParts⟩ := ih (fun other member =>
      whole other (List.mem_cons_of_mem _ member))
    refine ⟨?_, ?_, ?_⟩
    · rw [List.map_cons, List.all_cons, complete, completes]
      rfl
    · rw [List.map_cons, List.flatMap_cons, changeEdits_append, edits, moreEdits]
      rfl
    · intro part member
      rw [List.map_cons, List.flatMap_cons] at member
      rcases List.mem_append.mp member with here | later
      · exact parts part here
      · exact moreParts part later

variable [DecidableEq PathUri] [DecidableEq Endpoint] {schedule : Schedule}
  {start : Files Endpoint} {state : RunState PathUri Endpoint} {recoveryPath : Option PathUri}

/-- How the rollback of one write ends: it is undone, it stays and its endpoint has its
    content, or the delta is inexact from then on. -/
inductive RolledBack (recoveryPath : Option PathUri) (edit : Edit Endpoint (Option Text))
    (state : RunState PathUri Endpoint) (stays : Bool) (next : RunState PathUri Endpoint) : Prop
  | undone (goes : stays = false) (found : state.files edit.key = edit.after)
      (files : next.files = Function.update state.files edit.key edit.before)
      (exact : next.delta.exact = state.delta.exact)
  | kept (remains : stays = true) (found : state.files edit.key = edit.after)
      (files : next.files = state.files) (exact : next.delta.exact = state.delta.exact)
      (unclean : ¬ ∀ step ∈ next.log, step.Clean)
  | lost (remains : stays = true) (inexact : next.delta.exact = false)
      (reason : (¬ ∀ step ∈ next.log, step.Clean) ∨ recoveryPath ≠ none ∨
        state.files edit.key ≠ edit.after)

/-- The frame of the rollback of one write. -/
structure RollbackFrame (edit : Edit Endpoint (Option Text)) (state : RunState PathUri Endpoint)
    (next : RunState PathUri Endpoint) : Prop where
  files : ∀ endpoint, endpoint ≠ edit.key → next.files endpoint = state.files endpoint
  exact : next.delta.exact = true → state.delta.exact = true
  log : ∃ steps, next.log = state.log ++ steps ∧ ∀ step ∈ steps, step.phase = .rollback

omit [DecidableEq PathUri] in
/-- A restore that failed stays in the delta, which stays exact only if the endpoint has the
    content that the change left. -/
theorem rollbackFailed_holds {path : PathUri} {step : MutationStep} {failure : Failure PathUri}
    (found : state.files (host.endpoint path) = expected) (isPhase : step.phase = .rollback)
    (failed : StepFailed step failure) :
    Holds (fun result next =>
        RolledBack recoveryPath ⟨host.endpoint path, original, expected⟩ state result.1 next ∧
        RollbackFrame ⟨host.endpoint path, original, expected⟩ state next)
      (fun _ _ => False)
      (Effect.from (do
          reconcileFailedMutation host path expected
          return (true, some failure) : Apply PathUri Endpoint (Bool × Option (Failure PathUri)))
        (state.mutated host path step (state.delta.exact && failure.recoveryPath.isNone))) := by
  let tried := state.mutated host path step (state.delta.exact && failure.recoveryPath.isNone)
  let looked : RunState PathUri Endpoint := { tried with delta := { tried.delta with
    exact := tried.delta.exact && removeFailureWasSideEffectFree host tried.files path expected } }
  show RolledBack _ _ state true looked ∧ RollbackFrame _ state looked
  have unclean : ¬ ∀ step ∈ looked.log, step.Clean := by
    intro clean
    rcases clean step (List.mem_append_right _ (List.mem_singleton_self _)) with
      succeeded | ⟨notRollback, _⟩
    · exact failed.failed succeeded
    · exact notRollback isPhase
  constructor
  · cases exact : looked.delta.exact with
    | false => exact .lost rfl exact (.inl unclean)
    | true =>
      obtain ⟨wasExact, looks⟩ := Bool.and_eq_true_iff.mp exact
      have same : step.after = expected := by
        have content : tried.files (host.endpoint path) = step.after := mutated_endpoint _ _ _
        exact content.symm.trans (eq_of_beq looks)
      refine .kept rfl found ?_ (exact.trans (Bool.and_eq_true_iff.mp wasExact).1.symm) unclean
      show Function.update state.files (host.endpoint path) step.after = state.files
      rw [same, ← found, Function.update_eq_self]
  · refine ⟨fun endpoint other => Function.update_of_ne other _ _, ?_, [step], rfl, ?_⟩
    · intro exact
      exact (Bool.and_eq_true_iff.mp (Bool.and_eq_true_iff.mp exact).1).1
    · intro other member
      rw [List.mem_singleton.mp member, isPhase]

theorem rollbackChange_holds (undoes : undoContents applied.change = some (expected, original)) :
    Holds (fun result next =>
        RolledBack recoveryPath ⟨host.endpoint applied.pathUri, original, expected⟩ state result.1
          next ∧
        RollbackFrame ⟨host.endpoint applied.pathUri, original, expected⟩ state next)
      (fun _ _ => False)
      ((rollbackChange host schedule recoveryPath applied).from state) := by
  unfold rollbackChange
  by_cases recovers : recoveryPath = some applied.pathUri
  · rw [if_pos recovers]
    refine ⟨.lost rfl rfl (.inr (.inl ?_)), ⟨fun _ _ => rfl, nofun, [], ?_, nofun⟩⟩
    · rw [recovers]
      exact Option.some_ne_none _
    · exact (List.append_nil _).symm
  rw [if_neg recovers, undoes]
  change Holds _ _ (Effect.from (ite _ _ _) state)
  by_cases found : state.files (host.endpoint applied.pathUri) = expected
  · rw [if_neg (by simp [removeFailureWasSideEffectFree, found])]
    refine Holds.handle (Holds.bind ((conditionalMutation_holds .rollback applied.pathUri expected
      original).mono (fun _ _ holds => holds) (fun _ _ fails => fails)) ?_) ?_
    · rintro receipt next ⟨-, -, -, step, isPhase, after, succeeded, rfl⟩
      refine ⟨.undone rfl found ?_ rfl, ?_, ?_, [step], rfl, ?_⟩
      · rw [← after]
        rfl
      · exact fun endpoint other => Function.update_of_ne other _ _
      · exact id
      · intro other member
        rw [List.mem_singleton.mp member, isPhase]
    · rintro failure next ⟨step, isPhase, _, before, failed, -, rfl⟩
      exact rollbackFailed_holds found isPhase failed
  · rw [if_pos (by simp [removeFailureWasSideEffectFree, found])]
    exact ⟨.lost rfl rfl (.inr (.inr found)), fun _ _ => rfl, nofun, [],
      (List.append_nil _).symm, nofun⟩

/-- The state of the rollback loop, with the changes it has not come to and those it kept. -/
inductive RollingBack (host : Host PathUri Endpoint) (start : Files Endpoint)
    (recoveryPath : Option PathUri) (front kept : List (AppliedPatchChange PathUri))
    (state : RunState PathUri Endpoint) : Prop
  | sound (exact : state.delta.exact = true)
      (journal : Journal start (changeEdits host (front ++ kept)))
      (files : state.files = replay start (changeEdits host (front ++ kept)))
      (current : ∀ edit ∈ changeEdits host kept, state.files edit.key = edit.after)
      (meets : ∀ step ∈ state.log, step.Meets)
      (clean : (∀ step ∈ state.log, step.Clean) → kept = [])
      (noRecovery : recoveryPath = none)
  | uncertain (inexact : state.delta.exact = false)
      (unclean : ¬ ∀ step ∈ state.log, step.Clean)
  | stray (endpoint : Endpoint) (changed : state.files endpoint ≠ start endpoint)
      (unnamed : ∀ edit ∈ changeEdits host (front ++ kept), edit.key ≠ endpoint)
      (violates : ¬ ∀ step ∈ state.log, step.Meets)
      (unclean : ¬ ∀ step ∈ state.log, step.Clean)

omit [DecidableEq PathUri] [DecidableEq Endpoint] in
/-- What fails of earlier steps fails of all steps. -/
theorem not_forall_append {property : MutationStep → Prop} {log steps : List MutationStep}
    (fails : ¬ ∀ step ∈ log, property step) : ¬ ∀ step ∈ log ++ steps, property step :=
  fun all => fails (fun step member => all step (List.mem_append_left _ member))

omit [DecidableEq PathUri] in
/-- One change of the rollback loop. -/
theorem RollingBack.step {front kept : List (AppliedPatchChange PathUri)}
    {edit : Edit Endpoint (Option Text)} {stays : Bool} {next : RunState PathUri Endpoint}
    (edits : applied.edits host = [edit])
    (rolling : RollingBack host start recoveryPath (front ++ [applied]) kept state)
    (rolled : RolledBack recoveryPath edit state stays next)
    (frame : RollbackFrame edit state next) :
    RollingBack host start recoveryPath front (if stays then applied :: kept else kept) next := by
  obtain ⟨steps, log, phases⟩ := frame.log
  have split : changeEdits host (front ++ [applied] ++ kept) =
      changeEdits host front ++ edit :: changeEdits host kept := by
    rw [changeEdits_append, changeEdits_snoc, edits, List.append_assoc]
    rfl
  cases rolling with
  | uncertain inexact unclean =>
    refine .uncertain ?_ (by rw [log]; exact not_forall_append unclean)
    cases exact : next.delta.exact with
    | false => rfl
    | true => exact absurd (frame.exact exact) (by rw [inexact]; exact Bool.false_ne_true)
  | stray endpoint changed unnamed violates unclean =>
    rw [split] at unnamed
    have other : endpoint ≠ edit.key :=
      (unnamed edit (List.mem_append_right _ List.mem_cons_self)).symm
    refine .stray endpoint ?_ ?_ ?_ ?_
    · rw [frame.files endpoint other]
      exact changed
    · intro later member
      apply unnamed later
      rw [changeEdits_append] at member
      rcases List.mem_append.mp member with inFront | inKept
      · exact List.mem_append_left _ inFront
      apply List.mem_append_right
      cases stays with
      | false => exact List.mem_cons_of_mem _ inKept
      | true =>
        rw [← List.singleton_append, ← edits]
        exact inKept
    · rw [log]
      exact not_forall_append violates
    · rw [log]
      exact not_forall_append unclean
  | sound exact journal files current meets clean noRecovery =>
    rw [split] at journal files
    have meets' : ∀ step ∈ next.log, step.Meets := by
      intro step member
      rw [log] at member
      rcases List.mem_append.mp member with earlier | later
      · exact meets step earlier
      · intro isRetry
        cases (phases step later).symm.trans isRetry
    have wasClean : (∀ step ∈ next.log, step.Clean) → kept = [] := by
      intro allClean
      rw [log] at allClean
      exact clean (fun step member => allClean step (List.mem_append_left _ member))
    cases rolled with
    | undone goes found files' exact' =>
      subst goes
      rw [files] at current found
      -- a later change of the endpoint that was kept would have replaced this content
      have isLast : ∀ later ∈ changeEdits host kept, later.key ≠ edit.key := fun later member same =>
        journal.superseded current ⟨later, member, same⟩ found
      have before : edit.before = replay start (changeEdits host front) edit.key := by
        rw [List.append_cons] at journal
        exact journal.front.last.2.1
      refine .sound (exact'.trans exact) ?_ ?_ ?_ meets' wasClean noRecovery
      · rw [changeEdits_append]
        exact journal.remove isLast
      · rw [if_neg Bool.false_ne_true, changeEdits_append, replay_remove isLast, ← before, files',
          files]
      · intro later member
        rw [frame.files _ (isLast later member), files]
        exact current later member
    | kept remains found files' exact' unclean =>
      subst remains
      have same : changeEdits host (front ++ applied :: kept) =
          changeEdits host front ++ edit :: changeEdits host kept := by
        rw [List.append_cons, split]
      refine .sound (exact'.trans exact) ?_ ?_ ?_ meets' (fun allClean => absurd allClean unclean)
        noRecovery
      · rw [if_pos rfl, same]
        exact journal
      · rw [if_pos rfl, same, files']
        exact files
      intro later member
      rw [files']
      rw [if_pos rfl, ← List.singleton_append, changeEdits_append,
        show changeEdits host [applied] = [edit] from (List.append_nil _).trans edits] at member
      rcases List.mem_cons.mp member with rfl | inKept
      · exact found
      · exact current later inKept
    | lost remains inexact reason =>
      refine .uncertain inexact (fun allClean => ?_)
      rcases reason with unclean | recovers | other
      · exact unclean allClean
      · exact recovers noRecovery
      · rw [wasClean allClean] at files
        apply other
        rw [files]
        exact (congrFun (replay_snoc _ edit) edit.key).trans (Function.update_self _ _ _)

/-- The rollback loop, from the last change to the first. -/
theorem rollbackLoop_holds {changes kept : List (AppliedPatchChange PathUri)}
    {errors : List (Failure PathUri)}
    (single : ∀ applied ∈ changes, (undoContents applied.change).isSome)
    (rolling : RollingBack host start recoveryPath changes.reverse kept state) :
    Holds (fun result next => RollingBack host start recoveryPath [] result.1 next)
      (fun _ _ => False)
      ((rollbackLoop host schedule recoveryPath changes kept errors).from state) := by
  induction changes generalizing kept errors state with
  | nil => exact rolling
  | cons applied earlier ih =>
    obtain ⟨⟨expected, original⟩, undoes⟩ :=
      Option.isSome_iff_exists.mp (single applied List.mem_cons_self)
    rw [List.reverse_cons] at rolling
    refine Holds.bind (rollbackChange_holds undoes) ?_
    intro ⟨stays, error⟩ next ⟨rolled, frame⟩
    exact ih (fun other member => single other (List.mem_cons_of_mem _ member))
      (rolling.step (undoContents_edits undoes) rolled frame)

/-- A rollback of a stopped run ends with the changes it could not take back. -/
theorem rollbackCommittedChanges_holds {failure : Failure PathUri}
    (stopped : Stopped host start failure state) :
    Holds (fun _ next => RollingBack host start failure.recoveryPath [] next.delta.changes next)
      (fun _ _ => False)
      ((rollbackCommittedChanges host schedule failure.recoveryPath).from state) := by
  have whole : ∀ applied ∈ state.delta.changes, applied.Whole := by
    cases stopped with
    | clean sound noRecovery => exact sound.whole
    | uncertain inexact whole unclean => exact whole
    | stray endpoint changed unnamed whole violates unclean => exact whole
  obtain ⟨complete, edits, single⟩ := @splitMoves_whole _ _ host _ whole
  let changes := (state.delta.changes.map splitMove).flatMap (·.1)
  let split : RunState PathUri Endpoint := { state with delta := { state.delta with
    exact := state.delta.exact && (state.delta.changes.map splitMove).all (·.2) } }
  have exact : split.delta.exact = state.delta.exact := by
    simp only [split, complete, Bool.and_true]
  have rolling : RollingBack host start failure.recoveryPath changes.reverse.reverse [] split := by
    rw [List.reverse_reverse]
    cases stopped with
    | clean sound noRecovery =>
      refine .sound (exact.trans sound.exact) ?_ ?_ nofun sound.meets (fun _ => rfl) noRecovery
      · rw [List.append_nil, edits]
        exact sound.journal
      · rw [List.append_nil, edits]
        exact sound.files
    | uncertain inexact whole unclean => exact .uncertain (exact.trans inexact) unclean
    | stray endpoint changed unnamed whole violates unclean =>
      refine .stray endpoint changed ?_ violates unclean
      rw [List.append_nil, edits]
      exact unnamed
  have parts : ∀ applied ∈ changes.reverse, (undoContents applied.change).isSome :=
    fun applied member => single applied (List.mem_reverse.mp member)
  show Holds _ _ (Effect.from (rollbackLoop host schedule failure.recoveryPath changes.reverse [] []
    >>= _) split)
  refine Holds.bind (rollbackLoop_holds parts rolling) ?_
  intro ⟨kept, errors⟩ next rolled
  cases rolled with
  | sound exact journal files current meets clean noRecovery =>
    exact .sound exact journal files current meets clean noRecovery
  | uncertain inexact unclean => exact .uncertain inexact unclean
  | stray endpoint changed unnamed violates unclean =>
    exact .stray endpoint changed unnamed violates unclean

/-! ## Applications -/

/-- The delta that an application returns, with its result or with its failure. -/
def returnedDelta : Except (ApplyPatchFailure PathUri Endpoint) (AppliedPatchDelta PathUri Endpoint) →
    AppliedPatchDelta PathUri Endpoint
  | .ok delta => delta
  | .error failure => failure.delta

/-- Why an application returned an error, if it did. -/
def returnedCause : Except (ApplyPatchFailure PathUri Endpoint) (AppliedPatchDelta PathUri Endpoint) →
    Option FailureCause
  | .ok _ => none
  | .error failure => some failure.cause

/-- How an application returns: the delta is that of the state, and the state is that of a
    run without failures or of a finished rollback. -/
theorem applyHunksWithVerifiedAction_returns (schedule : Schedule) (cwd : PathUri)
    (hunks : List Hunk) (revisionGuards : List FileRevisionGuard)
    (verified : Option (ApplyPatchAction PathUri)) (start : Files Endpoint) :
    let run := applyHunksWithVerifiedAction host schedule cwd hunks revisionGuards verified start
    returnedDelta run.1 = run.2.delta ∧
      (Sound host start run.2 ∧ returnedCause run.1 ≠ some .application ∨
        ∃ recoveryPath, RollingBack host start recoveryPath [] run.2.delta.changes run.2) := by
  have attempt := @applyAttempt_holds _ _ _ host schedule start _ cwd hunks revisionGuards verified
  unfold applyHunksWithVerifiedAction
  generalize (applyAttempt host schedule cwd hunks revisionGuards verified).from { files := start }
    = attempted at attempt ⊢
  obtain ⟨outcome, state⟩ := attempted
  cases outcome with
  | ok _ =>
    cases schedule.stdout with
    | none => exact ⟨rfl, .inl ⟨attempt, nofun⟩⟩
    | some error => exact ⟨rfl, .inl ⟨attempt, nofun⟩⟩
  | error failure =>
    have rollback := @rollbackCommittedChanges_holds _ _ host _ _ schedule start state failure attempt
    dsimp only
    generalize (rollbackCommittedChanges host schedule failure.recoveryPath).from state
      = rolled at rollback ⊢
    obtain ⟨errors, state⟩ := rolled
    cases errors with
    | error unreached => exact rollback.elim
    | ok errors =>
      cases schedule.stderr with
      | none => exact ⟨rfl, .inr ⟨_, rollback⟩⟩
      | some error => exact ⟨rfl, .inr ⟨_, rollback⟩⟩

/-- A returned delta that is exact replays to the files that are left, exactly when no retry
    reported a conflict over a content of its own first attempt. -/
theorem exact_delta_replays_iff (host : Host PathUri Endpoint) (schedule : Schedule)
    (cwd : PathUri) (hunks : List Hunk) (revisionGuards : List FileRevisionGuard)
    (verified : Option (ApplyPatchAction PathUri)) (start : Files Endpoint)
    (exact : (returnedDelta (applyHunksWithVerifiedAction host schedule cwd hunks revisionGuards
      verified start).1).exact = true) :
    replayChanges host start (returnedDelta (applyHunksWithVerifiedAction host schedule cwd hunks
        revisionGuards verified start).1).changes =
      (applyHunksWithVerifiedAction host schedule cwd hunks revisionGuards verified start).2.files ↔
    ∀ step ∈ (applyHunksWithVerifiedAction host schedule cwd hunks revisionGuards verified
      start).2.log, step.Meets := by
  obtain ⟨returned, ends⟩ := @applyHunksWithVerifiedAction_returns _ _ host _ _ schedule cwd hunks
    revisionGuards verified start
  rw [returned] at exact ⊢
  rw [replayChanges_edits]
  rcases ends with ⟨sound, _⟩ | ⟨recoveryPath, rolled⟩
  · exact ⟨fun _ => sound.meets, fun _ => sound.files.symm⟩
  cases rolled with
  | sound _ journal files current meets clean noRecovery =>
    exact ⟨fun _ => meets, fun _ => files.symm⟩
  | uncertain inexact unclean =>
    rw [inexact] at exact
    cases exact
  | stray endpoint changed unnamed violates unclean =>
    refine ⟨fun replays => ?_, fun meets => absurd meets violates⟩
    rw [← replays] at changed
    exact absurd (replay_of_notMem unnamed) changed

/-- A schedule that follows a list of faults. -/
def Schedule.ofFaults (faults : List Fault) : Schedule where
  mutation index := faults.getD index .none

/-- Two additions, of which the second fails and the first cannot be taken back. -/
theorem exact_delta_replays_iff_kept_addition :
    let run := applyHunksWithVerifiedAction flatHost
      (.ofFaults [.none, .io ⟨.permissionDenied, "denied".toList⟩ none, .conflict]) "/w".toList
      [.addFile "one".toList "text\n".toList, .addFile "two".toList "text\n".toList] [] none
      (fun _ => none)
    (returnedDelta run.1).exact = true ∧ (returnedDelta run.1).changes.length = 1 ∧
      (replayChanges flatHost (fun _ => none) (returnedDelta run.1).changes = run.2.files ↔
        ∀ step ∈ run.2.log, step.Meets) :=
  ⟨by decide +kernel, by decide +kernel,
    exact_delta_replays_iff flatHost _ _ _ _ _ _ (by decide +kernel)⟩

/-- The first attempt of an addition fails as if its directory were missing and leaves a
    content, and the retry finds it: the delta is empty and exact, and the file is there. -/
theorem exact_delta_misses_first_attempt :
    let run := applyHunksWithVerifiedAction flatHost
      (.ofFaults [.io .missing (some (some "te".toList))]) "/w".toList
      [.addFile "one".toList "text\n".toList] [] none (fun _ => none)
    (returnedDelta run.1).exact = true ∧
      replayChanges flatHost (fun _ => none) (returnedDelta run.1).changes "/w/one".toList ≠
        run.2.files "/w/one".toList := by
  decide +kernel

/-- An application that fails, with forward mutations that fail without effect and rollback
    mutations that succeed, leaves every file as it was and returns an empty exact delta. -/
theorem failed_application_restores (host : Host PathUri Endpoint) (schedule : Schedule)
    (cwd : PathUri) (hunks : List Hunk) (revisionGuards : List FileRevisionGuard)
    (verified : Option (ApplyPatchAction PathUri)) (start : Files Endpoint)
    (clean : ∀ step ∈ (applyHunksWithVerifiedAction host schedule cwd hunks revisionGuards verified
      start).2.log, step.Clean)
    (fails : returnedCause (applyHunksWithVerifiedAction host schedule cwd hunks revisionGuards
      verified start).1 = some .application) :
    (applyHunksWithVerifiedAction host schedule cwd hunks revisionGuards verified start).2.files =
        start ∧
      (returnedDelta (applyHunksWithVerifiedAction host schedule cwd hunks revisionGuards verified
        start).1).changes = [] ∧
      (returnedDelta (applyHunksWithVerifiedAction host schedule cwd hunks revisionGuards verified
        start).1).exact = true := by
  obtain ⟨returned, ends⟩ := @applyHunksWithVerifiedAction_returns _ _ host _ _ schedule cwd hunks
    revisionGuards verified start
  rw [returned]
  rcases ends with ⟨_, succeeded⟩ | ⟨recoveryPath, rolled⟩
  · exact absurd fails succeeded
  cases rolled with
  | sound exact journal files current meets empty noRecovery =>
    refine ⟨?_, empty clean, exact⟩
    rw [files, empty clean]
    rfl
  | uncertain inexact unclean => exact absurd clean unclean
  | stray endpoint changed unnamed violates unclean => exact absurd clean unclean

/-- The second of two additions fails, and the first is taken back. -/
theorem failed_application_restores_additions :
    let run := applyHunksWithVerifiedAction flatHost
      (.ofFaults [.none, .io ⟨.permissionDenied, "denied".toList⟩ none]) "/w".toList
      [.addFile "one".toList "text\n".toList, .addFile "two".toList "text\n".toList] [] none
      (fun _ => none)
    run.2.log.length = 3 ∧ run.2.files = (fun _ => none) ∧ (returnedDelta run.1).changes = [] ∧
      (returnedDelta run.1).exact = true :=
  ⟨by decide +kernel,
    failed_application_restores flatHost _ _ _ _ _ _ (by decide +kernel) (by decide +kernel)⟩

end Rollback

end Codex.ApplyPatch
