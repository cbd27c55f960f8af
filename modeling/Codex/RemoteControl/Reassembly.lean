import Codex.RemoteControl.Segment

/-!
# Reassembly of segmented client messages

`ClientSegmentReassembler` of `app-server-transport/src/transport/remote_control/segment.rs`. The
clock is an input: `Instant`s are nanoseconds. The iteration order of a hash map is an input as
well: a rank of its keys.
-/

namespace Codex.RemoteControl

open Codex.Machine

def REMOTE_CONTROL_SEGMENT_ASSEMBLY_MAX_COUNT : Nat := 128

def REMOTE_CONTROL_SEGMENT_ASSEMBLY_MAX_BYTES : Nat := REMOTE_CONTROL_REASSEMBLED_MAX_BYTES

def REMOTE_CONTROL_SEGMENT_ASSEMBLY_TIMEOUT : Nat := 10 * 60 * 10 ^ 9

structure ClientSegmentMetadata where
  seqId : UInt64
  segmentCount : Nat
  messageSizeBytes : Nat
  deriving DecidableEq, Repr

structure ClientSegmentAssembly where
  metadata : ClientSegmentMetadata
  raw : Bytes
  nextSegmentId : Nat
  lastChunkSeenAt : Nat
  deriving DecidableEq, Repr

abbrev StreamKey := ClientId × StreamId

/-- `ClientSegmentReassembler` (`segment.rs:42`). -/
structure ClientSegmentReassembler where
  assemblies : AList (fun _ : StreamKey => ClientSegmentAssembly) := ∅
  completed : AList (fun _ : StreamKey × UInt64 => Bytes) := ∅
  reservedBytes : Nat := 0

variable {Message : Type} [Base64.Engine]

/-- `ClientSegmentObservation` (`segment.rs:50`). -/
inductive ClientSegmentObservation (Message : Type) where
  | forward (envelope : ClientEnvelope Message)
  | reassembled (envelope : ClientEnvelope Message) (raw : Bytes)
  | pending
  | dropped
  deriving DecidableEq, Repr

inductive AssemblyUpdate where
  | pending
  | ignore
  | drop
  | complete (raw : Bytes)

/-- What a chunk makes of its assembly (`segment.rs:165`). An assembly that is dropped keeps no
    bytes. -/
def ClientSegmentAssembly.advance (assembly : ClientSegmentAssembly)
    (metadata : ClientSegmentMetadata) (now segmentId : Nat) (messageChunkBase64 : Bytes) :
    AssemblyUpdate × ClientSegmentAssembly :=
  if metadata.seqId < assembly.metadata.seqId then (.ignore, assembly)
  else if assembly.metadata ≠ metadata then (.drop, assembly)
  else if segmentId < assembly.nextSegmentId then (.pending, assembly)
  else if segmentId ≠ assembly.nextSegmentId then (.drop, assembly)
  else
    let chunkStart := assembly.raw.length
    let decodedChunkLen := Base64.decodedLenEstimate messageChunkBase64.length
    let chunkEnd := min metadata.messageSizeBytes (saturatingAdd chunkStart decodedChunkLen)
    match Base64.decodeSlice messageChunkBase64 (chunkEnd - chunkStart) with
    | none => (.drop, assembly)
    | some chunk =>
        let raw := assembly.raw ++ chunk
        let nextSegmentId := assembly.nextSegmentId + 1
        if nextSegmentId < metadata.segmentCount then
          (.pending, { assembly with raw, nextSegmentId, lastChunkSeenAt := now })
        else if raw.length ≠ metadata.messageSizeBytes then (.drop, assembly)
        else (.complete raw, assembly)

/-- The reason to drop a chunk (`segment.rs:96`). -/
def invalidReason (metadata : ClientSegmentMetadata) (segmentId : Nat)
    (messageChunkBase64 : Bytes) : Option String :=
  if metadata.segmentCount = 0 then some "segment count is zero"
  else if metadata.segmentCount > REMOTE_CONTROL_SEGMENT_COUNT_MAX then
    some "segment count exceeds limit"
  else if segmentId ≥ metadata.segmentCount then some "segment id is outside segment count"
  else if metadata.messageSizeBytes = 0 then some "message size is zero"
  else if metadata.messageSizeBytes > REMOTE_CONTROL_REASSEMBLED_MAX_BYTES then
    some "message size exceeds limit"
  else if messageChunkBase64.isEmpty then some "segment payload is empty"
  else none

namespace ClientSegmentReassembler

/-- `remove_assembly` (`segment.rs:311`). -/
def removeAssembly (key : StreamKey) (state : ClientSegmentReassembler) :
    ClientSegmentReassembler :=
  match state.assemblies.lookup key with
  | none => state
  | some assembly => { state with
      assemblies := state.assemblies.erase key
      reservedBytes := usizeSub state.reservedBytes assembly.metadata.messageSizeBytes }

/-- An assembly whose last chunk is recent enough. -/
def live (now : Nat) (_ : StreamKey) (assembly : ClientSegmentAssembly) : Bool :=
  now - assembly.lastChunkSeenAt < REMOTE_CONTROL_SEGMENT_ASSEMBLY_TIMEOUT

/-- `expire_assemblies` (`segment.rs:247`). -/
def expireAssemblies (now : Nat) (state : ClientSegmentReassembler) : ClientSegmentReassembler :=
  { state with
    assemblies := retain (live now) state.assemblies
    reservedBytes := ((retain (fun key assembly => !live now key assembly)
      state.assemblies).entries.map (fun entry => entry.2.metadata.messageSizeBytes)).foldl usizeSub
        state.reservedBytes }

/-- `commit_completed` (`segment.rs:260`). -/
def commitCompleted (key : StreamKey) (seqId : UInt64) (state : ClientSegmentReassembler) :
    ClientSegmentReassembler :=
  match state.completed.lookup (key, seqId) with
  | none => state
  | some raw => { state with
      completed := state.completed.erase (key, seqId)
      reservedBytes := usizeSub state.reservedBytes raw.length }

/-- A completed message of a stream that is kept. -/
def kept (keep : StreamKey → Bool) (key : StreamKey × UInt64) (_ : Bytes) : Bool := keep key.1

/-- The retention of completed messages. -/
def retainCompleted (keep : StreamKey → Bool) (state : ClientSegmentReassembler) :
    ClientSegmentReassembler :=
  { state with
    completed := retain (kept keep) state.completed
    reservedBytes := ((retain (fun key raw => !kept keep key raw) state.completed).entries.map
      (fun entry => entry.2.length)).foldl usizeSub state.reservedBytes }

/-- `invalidate_incomplete_stream` (`segment.rs:266`). -/
def invalidateIncompleteStream (key : StreamKey) (state : ClientSegmentReassembler) :
    ClientSegmentReassembler :=
  state.removeAssembly key

/-- `invalidate_stream` (`segment.rs:270`). -/
def invalidateStream (key : StreamKey) (state : ClientSegmentReassembler) :
    ClientSegmentReassembler :=
  (state.removeAssembly key).retainCompleted (fun other => other ≠ key)

/-- `invalidate_client` (`segment.rs:280`). -/
def invalidateClient (clientId : ClientId) (state : ClientSegmentReassembler) :
    ClientSegmentReassembler :=
  ((state.assemblies.keys.filter (fun key => key.1 = clientId)).foldl
    (fun state key => state.removeAssembly key) state).retainCompleted
      (fun other => other.1 ≠ clientId)

/-- `should_ignore_chunk` (`segment.rs:295`). -/
def shouldIgnoreChunk (key : StreamKey) (seqId : UInt64) (segmentId : Nat)
    (state : ClientSegmentReassembler) : Bool :=
  (state.assemblies.lookup key).any (fun assembly =>
    (seqId < assembly.metadata.seqId && segmentId != 0) ||
      (seqId == assembly.metadata.seqId && segmentId < assembly.nextSegmentId))

/-- The messages in custody, open and completed. -/
def count (state : ClientSegmentReassembler) : Nat :=
  state.assemblies.entries.length + state.completed.entries.length

/-- The loop of `evict_assemblies_if_full`. Each round removes an assembly, so there are no more
    rounds than assemblies. -/
def evictLoop (rank : StreamKey → Nat) :
    Nat → ClientSegmentReassembler → ClientSegmentReassembler
  | 0, state => state
  | rounds + 1, state =>
      if state.count < REMOTE_CONTROL_SEGMENT_ASSEMBLY_MAX_COUNT then state
      else
        match state.assemblies.entries.argmin (fun entry =>
          toLex (entry.2.lastChunkSeenAt, rank entry.1)) with
        | none => state
        | some victim => evictLoop rank rounds (state.removeAssembly victim.1)

/-- `evict_assemblies_if_full` (`segment.rs:320`). -/
def evictAssembliesIfFull (rank : StreamKey → Nat) (state : ClientSegmentReassembler) :
    ClientSegmentReassembler :=
  evictLoop rank state.assemblies.entries.length state

/-- Whether the stream has an assembly, opened for a first chunk when there is room
    (`segment.rs:130`). -/
def admitAssembly (rank : StreamKey → Nat) (now : Nat) (key : StreamKey) (metadata : ClientSegmentMetadata)
    (segmentId : Nat) (state : ClientSegmentReassembler) : Bool × ClientSegmentReassembler :=
  if (state.assemblies.lookup key).isSome then (true, state)
  else if segmentId ≠ 0 ∨
      metadata.messageSizeBytes > REMOTE_CONTROL_SEGMENT_ASSEMBLY_MAX_BYTES - state.reservedBytes then
    (false, state)
  else
    let state := state.evictAssembliesIfFull rank
    if state.count ≥ REMOTE_CONTROL_SEGMENT_ASSEMBLY_MAX_COUNT then (false, state)
    else
      (true, { state with
        reservedBytes := state.reservedBytes + metadata.messageSizeBytes
        assemblies := state.assemblies.insert key ⟨metadata, [], 0, now⟩ })

/-- The chunk at the assembly of its stream (`segment.rs:156`). -/
def advanceAssembly (now : Nat) (envelope : ClientEnvelope Message) (key : StreamKey)
    (metadata : ClientSegmentMetadata) (segmentId : Nat) (messageChunkBase64 : Bytes)
    (state : ClientSegmentReassembler) :
    ClientSegmentObservation Message × ClientSegmentReassembler :=
  match state.assemblies.lookup key with
  | none => (.dropped, state)
  | some assembly =>
      match assembly.advance metadata now segmentId messageChunkBase64 with
      | (.pending, assembly) =>
          (.pending, { state with assemblies := state.assemblies.insert key assembly })
      | (.ignore, _) => (.dropped, state)
      | (.drop, _) => (.dropped, state.removeAssembly key)
      | (.complete raw, _) =>
          (.reassembled envelope raw, { state with
            assemblies := state.assemblies.erase key
            completed := state.completed.insert (key, metadata.seqId) raw })

/-- A first chunk of another message closes the assembly of its stream (`segment.rs:127`). -/
def closeOther (key : StreamKey) (metadata : ClientSegmentMetadata) (segmentId : Nat)
    (state : ClientSegmentReassembler) : ClientSegmentReassembler :=
  if segmentId = 0 ∧ (state.assemblies.lookup key).any (fun assembly =>
      assembly.metadata ≠ metadata) then state.removeAssembly key
  else state

/-- A chunk with a sequence and a stream id (`segment.rs:90`). -/
def observeChunk (rank : StreamKey → Nat) (now : Nat) (envelope : ClientEnvelope Message)
    (key : StreamKey) (metadata : ClientSegmentMetadata) (segmentId : Nat)
    (messageChunkBase64 : Bytes) (state : ClientSegmentReassembler) :
    ClientSegmentObservation Message × ClientSegmentReassembler :=
  match state.completed.lookup (key, metadata.seqId) with
  | some raw => (.reassembled envelope raw, state)
  | none =>
      if state.shouldIgnoreChunk key metadata.seqId segmentId then (.dropped, state)
      else if (invalidReason metadata segmentId messageChunkBase64).isSome then
        (.dropped, state.removeAssembly key)
      else
        match (state.closeOther key metadata segmentId).admitAssembly rank now key metadata segmentId with
        | (false, state) => (.dropped, state)
        | (true, state) =>
            state.advanceAssembly now envelope key metadata segmentId messageChunkBase64

/-- `observe` (`segment.rs:58`), which reads the clock twice. -/
def observe (rank : StreamKey → Nat) (expiryNow now : Nat) (envelope : ClientEnvelope Message)
    (state : ClientSegmentReassembler) :
    ClientSegmentObservation Message × ClientSegmentReassembler :=
  let state := state.expireAssemblies expiryNow
  match envelope.event with
  | .clientMessageChunk segmentId segmentCount messageSizeBytes messageChunkBase64 =>
      match envelope.seqId with
      | none => (.dropped, state)
      | some seqId =>
          match envelope.streamId with
          | none => (.dropped, state)
          | some streamId =>
              state.observeChunk rank now envelope (envelope.clientId, streamId)
                ⟨seqId, segmentCount, messageSizeBytes⟩ segmentId messageChunkBase64
  | _ => (.forward envelope, state)

end ClientSegmentReassembler

/-- The calls on a reassembler. -/
inductive ReassemblerCall (Message : Type) where
  | observe (rank : StreamKey → Nat) (expiryNow now : Nat) (envelope : ClientEnvelope Message)
  | expire (now : Nat)
  | commit (key : StreamKey) (seqId : UInt64)
  | invalidateIncompleteStream (key : StreamKey)
  | invalidateStream (key : StreamKey)
  | invalidateClient (clientId : ClientId)

namespace ReassemblerCall

/-- What a call returns, and the state after it. -/
def apply (call : ReassemblerCall Message) (state : ClientSegmentReassembler) :
    Option (ClientSegmentObservation Message) × ClientSegmentReassembler :=
  match call with
  | observe rank expiryNow now envelope =>
      let (observation, next) := state.observe rank expiryNow now envelope
      (some observation, next)
  | expire now => (none, state.expireAssemblies now)
  | commit key seqId => (none, state.commitCompleted key seqId)
  | invalidateIncompleteStream key => (none, state.invalidateIncompleteStream key)
  | invalidateStream key => (none, state.invalidateStream key)
  | invalidateClient clientId => (none, state.invalidateClient clientId)

/-- A sequence of calls, with what each returns. -/
def applyAll : List (ReassemblerCall Message) → ClientSegmentReassembler →
    List (Option (ClientSegmentObservation Message)) × ClientSegmentReassembler
  | [], state => ([], state)
  | call :: calls, state =>
      let (observation, next) := call.apply state
      let (observations, final) := applyAll calls next
      (observation :: observations, final)

end ReassemblerCall

/-! ## Accounting -/

namespace ClientSegmentReassembler

omit [Base64.Engine]

/-- The size that an assembly reserves. -/
def reservation (assembly : ClientSegmentAssembly) : Nat := assembly.metadata.messageSizeBytes

/-- The size that a completed message keeps reserved. -/
def size (raw : Bytes) : Nat := raw.length

/-- The counter is what the open and the completed messages take, within the limits. -/
structure Accounted (state : ClientSegmentReassembler) : Prop where
  reserved : state.reservedBytes =
    total reservation state.assemblies + total size state.completed
  limit : state.reservedBytes ≤ REMOTE_CONTROL_SEGMENT_ASSEMBLY_MAX_BYTES
  count : state.count ≤ REMOTE_CONTROL_SEGMENT_ASSEMBLY_MAX_COUNT

/-- Nothing is in custody that was not, and nothing was changed. -/
structure Shrinks (state next : ClientSegmentReassembler) : Prop where
  assemblies : ∀ key assembly, next.assemblies.lookup key = some assembly →
    state.assemblies.lookup key = some assembly
  completed : ∀ key raw, next.completed.lookup key = some raw →
    state.completed.lookup key = some raw

theorem Shrinks.refl (state : ClientSegmentReassembler) : Shrinks state state :=
  ⟨fun _ _ found => found, fun _ _ found => found⟩

theorem Shrinks.trans {state middle next : ClientSegmentReassembler} (first : Shrinks state middle)
    (second : Shrinks middle next) : Shrinks state next :=
  ⟨fun key assembly found => first.assemblies key assembly (second.assemblies key assembly found),
    fun key raw found => first.completed key raw (second.completed key raw found)⟩

variable {state : ClientSegmentReassembler}

theorem accounted_empty : Accounted {} := by
  refine ⟨rfl, Nat.zero_le _, ?_⟩
  exact Nat.zero_le _

theorem Accounted.lt (accounted : Accounted state) : state.reservedBytes < 2 ^ 64 := by
  have limit := accounted.limit
  norm_num [REMOTE_CONTROL_SEGMENT_ASSEMBLY_MAX_BYTES,
    REMOTE_CONTROL_REASSEMBLED_MAX_BYTES] at limit
  omega

theorem Accounted.removeAssembly (accounted : Accounted state) (key : StreamKey) :
    Accounted (state.removeAssembly key) := by
  unfold ClientSegmentReassembler.removeAssembly
  split
  · exact accounted
  next assembly found =>
  have reserved := accounted.reserved
  have limit := accounted.limit
  have count := accounted.count
  have lower := total_erase reservation found
  have fewer := length_erase found
  have exact : usizeSub state.reservedBytes assembly.metadata.messageSizeBytes =
      state.reservedBytes - reservation assembly :=
    usizeSub_eq (by unfold reservation at lower reserved; omega) accounted.lt
  unfold ClientSegmentReassembler.count at count
  refine ⟨?_, ?_, ?_⟩
  · dsimp only
    rw [exact]
    omega
  · dsimp only
    rw [exact]
    omega
  · unfold ClientSegmentReassembler.count
    dsimp only
    omega

theorem Accounted.removeAssembly_le (accounted : Accounted state) (key : StreamKey) :
    (state.removeAssembly key).reservedBytes ≤ state.reservedBytes := by
  have reserved := accounted.reserved
  unfold ClientSegmentReassembler.removeAssembly
  split
  · exact Nat.le_refl _
  · next assembly found =>
    have lower := total_erase reservation found
    dsimp only
    rw [usizeSub_eq (by unfold reservation at lower reserved; omega) accounted.lt]
    exact Nat.sub_le _ _

theorem shrinks_removeAssembly (key : StreamKey) : Shrinks state (state.removeAssembly key) := by
  unfold removeAssembly
  split
  · exact .refl state
  refine ⟨?_, fun _ _ found => found⟩
  intro other assembly found
  dsimp only at found
  rw [lookup_erase_eq] at found
  split at found
  · cases found
  · exact found

theorem Accounted.expireAssemblies (accounted : Accounted state) (now : Nat) :
    Accounted (state.expireAssemblies now) := by
  have reserved := accounted.reserved
  have limit := accounted.limit
  have count := accounted.count
  have split := total_retain reservation (live now) state.assemblies
  have fewer := length_retain_le (live now) state.assemblies
  have exact := @foldl_usizeSub ((retain (fun key assembly => !live now key assembly)
    state.assemblies).entries.map (fun entry => reservation entry.2)) state.reservedBytes
    accounted.lt (by change total reservation _ ≤ _; omega)
  change _ = _ - total reservation _ at exact
  unfold ClientSegmentReassembler.count at count
  refine ⟨?_, ?_, ?_⟩
  · refine exact.trans ?_
    unfold ClientSegmentReassembler.expireAssemblies
    dsimp only
    omega
  · refine exact.trans_le ?_
    omega
  · unfold ClientSegmentReassembler.count ClientSegmentReassembler.expireAssemblies
    dsimp only
    omega

theorem shrinks_expireAssemblies (now : Nat) : Shrinks state (state.expireAssemblies now) := by
  refine ⟨?_, fun _ _ found => found⟩
  intro key assembly found
  unfold expireAssemblies at found
  dsimp only at found
  rw [lookup_retain] at found
  exact (Option.filter_eq_some_iff.mp found).1

theorem Accounted.commitCompleted (accounted : Accounted state) (key : StreamKey) (seqId : UInt64) :
    Accounted (state.commitCompleted key seqId) := by
  unfold ClientSegmentReassembler.commitCompleted
  split
  · exact accounted
  next raw found =>
  have reserved := accounted.reserved
  have limit := accounted.limit
  have count := accounted.count
  have lower := total_erase size found
  have fewer := length_erase found
  have exact : usizeSub state.reservedBytes raw.length = state.reservedBytes - size raw :=
    usizeSub_eq (by unfold size at lower reserved; omega) accounted.lt
  unfold ClientSegmentReassembler.count at count
  refine ⟨?_, ?_, ?_⟩
  · dsimp only
    rw [exact]
    omega
  · dsimp only
    rw [exact]
    omega
  · unfold ClientSegmentReassembler.count
    dsimp only
    omega

theorem shrinks_commitCompleted (key : StreamKey) (seqId : UInt64) :
    Shrinks state (state.commitCompleted key seqId) := by
  unfold commitCompleted
  split
  · exact .refl state
  refine ⟨fun _ _ found => found, ?_⟩
  intro other raw found
  dsimp only at found
  rw [lookup_erase_eq] at found
  split at found
  · cases found
  · exact found

theorem Accounted.retainCompleted (accounted : Accounted state) (keep : StreamKey → Bool) :
    Accounted (state.retainCompleted keep) := by
  have reserved := accounted.reserved
  have limit := accounted.limit
  have count := accounted.count
  have split := total_retain size (kept keep) state.completed
  have fewer := length_retain_le (kept keep) state.completed
  have exact := @foldl_usizeSub ((retain (fun key raw => !kept keep key raw)
    state.completed).entries.map (fun entry => size entry.2)) state.reservedBytes accounted.lt
    (by change total size _ ≤ _; omega)
  change _ = _ - total size _ at exact
  unfold ClientSegmentReassembler.count at count
  refine ⟨?_, ?_, ?_⟩
  · refine exact.trans ?_
    unfold ClientSegmentReassembler.retainCompleted
    dsimp only
    omega
  · refine exact.trans_le ?_
    omega
  · unfold ClientSegmentReassembler.count ClientSegmentReassembler.retainCompleted
    dsimp only
    omega

theorem shrinks_retainCompleted (keep : StreamKey → Bool) :
    Shrinks state (state.retainCompleted keep) := by
  refine ⟨fun _ _ found => found, ?_⟩
  intro key raw found
  unfold retainCompleted at found
  dsimp only at found
  rw [lookup_retain] at found
  exact (Option.filter_eq_some_iff.mp found).1

/-- Removals in a row. -/
theorem removeAssemblies_keeps (keys : List StreamKey) (accounted : Accounted state) :
    Accounted (keys.foldl (fun state key => state.removeAssembly key) state) ∧
      Shrinks state (keys.foldl (fun state key => state.removeAssembly key) state) := by
  induction keys generalizing state with
  | nil => exact ⟨accounted, .refl state⟩
  | cons key keys ih =>
    obtain ⟨kept, shrinks⟩ := ih (accounted.removeAssembly key)
    exact ⟨kept, (shrinks_removeAssembly key).trans shrinks⟩

theorem evictLoop_keeps (rank : StreamKey → Nat) (rounds : Nat) (accounted : Accounted state) :
    Accounted (evictLoop rank rounds state) ∧ Shrinks state (evictLoop rank rounds state) ∧
      (evictLoop rank rounds state).reservedBytes ≤ state.reservedBytes := by
  induction rounds generalizing state with
  | zero => exact ⟨accounted, .refl state, Nat.le_refl _⟩
  | succ rounds ih =>
    unfold evictLoop
    split
    · exact ⟨accounted, .refl state, Nat.le_refl _⟩
    split
    · exact ⟨accounted, .refl state, Nat.le_refl _⟩
    · next victim _ =>
      obtain ⟨kept, shrinks, lower⟩ := ih (accounted.removeAssembly victim.1)
      exact ⟨kept, (shrinks_removeAssembly victim.1).trans shrinks,
        lower.trans (accounted.removeAssembly_le victim.1)⟩

theorem Accounted.closeOther (accounted : Accounted state) (key : StreamKey)
    (metadata : ClientSegmentMetadata) (segmentId : Nat) :
    Accounted (state.closeOther key metadata segmentId) := by
  unfold ClientSegmentReassembler.closeOther
  split
  · exact accounted.removeAssembly key
  · exact accounted

theorem shrinks_closeOther (key : StreamKey) (metadata : ClientSegmentMetadata) (segmentId : Nat) :
    Shrinks state (state.closeOther key metadata segmentId) := by
  unfold closeOther
  split
  · exact shrinks_removeAssembly key
  · exact .refl state

/-- What admission leaves: no more than there was, and perhaps a new assembly of this stream. -/
def Admits (key : StreamKey) (metadata : ClientSegmentMetadata) (now : Nat)
    (state next : ClientSegmentReassembler) : Prop :=
  Shrinks state next ∨ ∃ middle, Shrinks state middle ∧ middle.assemblies.lookup key = none ∧
    next.assemblies = middle.assemblies.insert key ⟨metadata, [], 0, now⟩ ∧
    next.completed = middle.completed

theorem admit_keeps (rank : StreamKey → Nat) (now : Nat) (key : StreamKey)
    (metadata : ClientSegmentMetadata) (segmentId : Nat) (accounted : Accounted state) :
    Accounted (state.admitAssembly rank now key metadata segmentId).2 ∧
      Admits key metadata now state (state.admitAssembly rank now key metadata segmentId).2 := by
  unfold admitAssembly
  split
  · exact ⟨accounted, .inl (.refl state)⟩
  next absent =>
  split
  · exact ⟨accounted, .inl (.refl state)⟩
  next room =>
  obtain ⟨evicted, shrinks, lower⟩ :=
    evictLoop_keeps rank state.assemblies.entries.length accounted
  change Accounted (state.evictAssembliesIfFull rank) at evicted
  change Shrinks state (state.evictAssembliesIfFull rank) at shrinks
  change (state.evictAssembliesIfFull rank).reservedBytes ≤ _ at lower
  dsimp only
  split
  · exact ⟨evicted, .inl shrinks⟩
  next few =>
  have gone : (state.evictAssembliesIfFull rank).assemblies.lookup key = none := by
    cases found : (state.evictAssembliesIfFull rank).assemblies.lookup key with
    | none => rfl
    | some assembly => simp [shrinks.assemblies key assembly found] at absent
  have reserved := evicted.reserved
  have limit := accounted.limit
  refine ⟨⟨?_, ?_, ?_⟩, .inr ⟨_, shrinks, gone, rfl, rfl⟩⟩
  · dsimp only
    rw [total_insert reservation (AList.lookup_eq_none.mp gone)]
    change _ = metadata.messageSizeBytes + _ + _
    omega
  · dsimp only
    omega
  · unfold ClientSegmentReassembler.count at few ⊢
    dsimp only at few ⊢
    rw [length_insert_erase, erase_of_absent gone]
    omega

end ClientSegmentReassembler

/-! ## Provenance -/

/-- What a chunk can make of its assembly. -/
theorem advance_cases (assembly : ClientSegmentAssembly) (metadata : ClientSegmentMetadata)
    (now segmentId : Nat) (text : Bytes) :
    assembly.advance metadata now segmentId text = (.ignore, assembly) ∨
    assembly.advance metadata now segmentId text = (.drop, assembly) ∨
    assembly.advance metadata now segmentId text = (.pending, assembly) ∨
    ∃ chunk, Base64.decode text = some chunk ∧ assembly.metadata = metadata ∧
      segmentId = assembly.nextSegmentId ∧
      ((assembly.nextSegmentId + 1 < metadata.segmentCount ∧
          assembly.advance metadata now segmentId text = (.pending, { assembly with
            raw := assembly.raw ++ chunk
            nextSegmentId := assembly.nextSegmentId + 1
            lastChunkSeenAt := now })) ∨
        (metadata.segmentCount ≤ assembly.nextSegmentId + 1 ∧
          (assembly.raw ++ chunk).length = metadata.messageSizeBytes ∧
          assembly.advance metadata now segmentId text =
            (.complete (assembly.raw ++ chunk), assembly))) := by
  unfold ClientSegmentAssembly.advance
  split
  · exact .inl rfl
  split
  · exact .inr (.inl rfl)
  next sameMetadata =>
  split
  · exact .inr (.inr (.inl rfl))
  split
  · exact .inr (.inl rfl)
  next isNext =>
  dsimp only
  split
  · exact .inr (.inl rfl)
  next chunk decoded =>
  obtain ⟨decodes, -⟩ := Base64.decodeSlice_eq_some.mp decoded
  split
  · next more =>
    exact .inr (.inr (.inr ⟨chunk, decodes, not_not.mp sameMetadata, not_not.mp isNext,
      .inl ⟨more, rfl⟩⟩))
  next last =>
  split
  · exact .inr (.inl rfl)
  · next whole =>
    exact .inr (.inr (.inr ⟨chunk, decodes, not_not.mp sameMetadata, not_not.mp isNext,
      .inr ⟨Nat.le_of_not_lt last, not_not.mp whole, rfl⟩⟩))

/-- A call that brings a chunk of a message. -/
def ReassemblerCall.Carries (call : ReassemblerCall Message) (key : StreamKey)
    (metadata : ClientSegmentMetadata) (segmentId : Nat) (chunk : Bytes) : Prop :=
  ∃ rank expiryNow now envelope text, call = .observe rank expiryNow now envelope ∧
    envelope.event = .clientMessageChunk segmentId metadata.segmentCount metadata.messageSizeBytes
      text ∧
    envelope.clientId = key.1 ∧ envelope.streamId = some key.2 ∧
    envelope.seqId = some metadata.seqId ∧ Base64.decode text = some chunk

/-- Chunks in the order of their segments, each brought by a call. -/
def Carried (calls : List (ReassemblerCall Message)) (key : StreamKey)
    (metadata : ClientSegmentMetadata) (chunks : List Bytes) : Prop :=
  ∀ segmentId chunk, chunks[segmentId]? = some chunk →
    ∃ call ∈ calls, call.Carries key metadata segmentId chunk

variable {key : StreamKey}

theorem Carried.snoc {calls : List (ReassemblerCall Message)} {metadata : ClientSegmentMetadata}
    {chunks : List Bytes} {chunk : Bytes} (carried : Carried calls key metadata chunks)
    (brings : ∃ call ∈ calls, call.Carries key metadata chunks.length chunk) :
    Carried calls key metadata (chunks ++ [chunk]) := by
  intro segmentId other isOther
  rcases List.getElem?_eq_some_iff.mp isOther with ⟨inside, -⟩
  rw [List.length_append, List.length_singleton] at inside
  by_cases last : segmentId = chunks.length
  · subst last
    rw [List.getElem?_concat_length] at isOther
    cases isOther
    exact brings
  · rw [List.getElem?_append_left (by omega)] at isOther
    exact carried segmentId other isOther

/-- The bytes of an open assembly are those of its first chunks. -/
def Assembled (calls : List (ReassemblerCall Message)) (key : StreamKey)
    (assembly : ClientSegmentAssembly) : Prop :=
  ∃ chunks, chunks.length = assembly.nextSegmentId ∧ chunks.flatten = assembly.raw ∧
    Carried calls key assembly.metadata chunks

/-- A message is the concatenation of the chunks of all its segments. -/
def Complete (calls : List (ReassemblerCall Message)) (key : StreamKey) (seqId : UInt64)
    (raw : Bytes) : Prop :=
  ∃ metadata chunks, metadata.seqId = seqId ∧ metadata.messageSizeBytes = raw.length ∧
    chunks.length = metadata.segmentCount ∧ chunks.flatten = raw ∧
    Carried calls key metadata chunks

structure Sourced (calls : List (ReassemblerCall Message)) (state : ClientSegmentReassembler) :
    Prop where
  assemblies : ∀ key assembly, state.assemblies.lookup key = some assembly →
    Assembled calls key assembly
  completed : ∀ key seqId raw, state.completed.lookup (key, seqId) = some raw →
    Complete calls key seqId raw

section Sourced

variable {calls : List (ReassemblerCall Message)} {state next : ClientSegmentReassembler}

theorem Sourced.shrinks (sourced : Sourced calls state)
    (shrinks : ClientSegmentReassembler.Shrinks state next) : Sourced calls next :=
  ⟨fun key assembly found => sourced.assemblies key assembly (shrinks.assemblies key assembly found),
    fun key seqId raw found => sourced.completed key seqId raw
      (shrinks.completed (key, seqId) raw found)⟩

theorem Sourced.mono {more : List (ReassemblerCall Message)} (sourced : Sourced calls state)
    (subset : ∀ call ∈ calls, call ∈ more) : Sourced more state := by
  have carried : ∀ {key metadata chunks}, Carried calls key metadata chunks →
      Carried more key metadata chunks := by
    intro key metadata chunks carried segmentId chunk isChunk
    obtain ⟨call, member, carries⟩ := carried segmentId chunk isChunk
    exact ⟨call, subset call member, carries⟩
  refine ⟨?_, ?_⟩
  · intro key assembly found
    obtain ⟨chunks, length, flatten, brought⟩ := sourced.assemblies key assembly found
    exact ⟨chunks, length, flatten, carried brought⟩
  · intro key seqId raw found
    obtain ⟨metadata, chunks, seq, size, length, flatten, brought⟩ :=
      sourced.completed key seqId raw found
    exact ⟨metadata, chunks, seq, size, length, flatten, carried brought⟩

theorem Sourced.admits (sourced : Sourced calls state) {metadata : ClientSegmentMetadata}
    {now : Nat}
    (admits : ClientSegmentReassembler.Admits key metadata now state next) : Sourced calls next := by
  rcases admits with shrinks | ⟨middle, shrinks, -, inserted, kept⟩
  · exact sourced.shrinks shrinks
  have kept' := sourced.shrinks shrinks
  refine ⟨?_, ?_⟩
  · intro other assembly found
    rw [inserted, lookup_insert_eq] at found
    split at found
    · cases found
      refine ⟨[], rfl, rfl, ?_⟩
      intro segmentId chunk isChunk
      cases isChunk
    · exact kept'.assemblies other assembly found
  · rw [kept]
    exact kept'.completed

theorem Sourced.insert (sourced : Sourced calls state) {assembly : ClientSegmentAssembly}
    (assembled : Assembled calls key assembly) :
    Sourced calls { state with assemblies := state.assemblies.insert key assembly } := by
  refine ⟨?_, sourced.completed⟩
  intro other found isFound
  dsimp only at isFound
  rw [lookup_insert_eq] at isFound
  split at isFound
  · next same =>
    cases isFound
    rw [same]
    exact assembled
  · exact sourced.assemblies other found isFound

theorem Sourced.complete (sourced : Sourced calls state) {seqId : UInt64} {raw : Bytes}
    (complete : Complete calls key seqId raw) :
    Sourced calls { state with
      assemblies := state.assemblies.erase key
      completed := state.completed.insert (key, seqId) raw } := by
  refine ⟨?_, ?_⟩
  · intro other found isFound
    dsimp only at isFound
    rw [lookup_erase_eq] at isFound
    split at isFound
    · cases isFound
    · exact sourced.assemblies other found isFound
  intro other otherSeq found isFound
  dsimp only at isFound
  rw [lookup_insert_eq] at isFound
  split at isFound
  · next same =>
    cases isFound
    obtain ⟨rfl, rfl⟩ := Prod.mk.inj same
    exact complete
  · exact sourced.completed other otherSeq found isFound

end Sourced

/-! ## One call -/

/-- What a call that takes chunks leaves: a state that is accounted for and whose bytes came from
    the calls so far, and a message that did if it returns one. -/
structure Observes (calls : List (ReassemblerCall Message)) (envelope : ClientEnvelope Message)
    (observation : ClientSegmentObservation Message) (next : ClientSegmentReassembler) : Prop where
  accounted : next.Accounted
  sourced : Sourced calls next
  complete : ∀ returned raw, observation = .reassembled returned raw → returned = envelope ∧
    ∃ streamId seqId, envelope.streamId = some streamId ∧ envelope.seqId = some seqId ∧
      Complete calls (envelope.clientId, streamId) seqId raw

section Calls

variable {calls : List (ReassemblerCall Message)} {state : ClientSegmentReassembler}
  {envelope : ClientEnvelope Message} {streamId : StreamId} {metadata : ClientSegmentMetadata}
  {segmentId : Nat} {text : Bytes}

/-- A call that returns no message. -/
theorem Observes.quiet {observation : ClientSegmentObservation Message}
    (accounted : state.Accounted) (sourced : Sourced calls state)
    (none : ∀ returned raw, observation ≠ .reassembled returned raw) :
    Observes calls envelope observation state :=
  ⟨accounted, sourced, fun returned raw isMessage => absurd isMessage (none returned raw)⟩

omit [Base64.Engine] in
/-- The assembly of a stream is replaced by one with the same reservation. -/
theorem ClientSegmentReassembler.Accounted.replace (accounted : state.Accounted)
    {assembly next : ClientSegmentAssembly} (found : state.assemblies.lookup key = some assembly)
    (same : next.metadata = assembly.metadata) :
    ClientSegmentReassembler.Accounted
      { state with assemblies := state.assemblies.insert key next } := by
  have reserved := accounted.reserved
  have count := accounted.count
  have whole := total_erase ClientSegmentReassembler.reservation found
  have fewer := length_erase found
  unfold ClientSegmentReassembler.count at count
  refine ⟨?_, accounted.limit, ?_⟩
  · dsimp only
    rw [total_insert_erase]
    have reservation : ClientSegmentReassembler.reservation next =
        ClientSegmentReassembler.reservation assembly :=
      congrArg ClientSegmentMetadata.messageSizeBytes same
    omega
  · unfold ClientSegmentReassembler.count
    dsimp only
    rw [length_insert_erase]
    omega

omit [Base64.Engine] in
/-- A complete message keeps the reservation of its assembly. -/
theorem ClientSegmentReassembler.Accounted.transfer (accounted : state.Accounted) {seqId : UInt64}
    {assembly : ClientSegmentAssembly} {raw : Bytes}
    (found : state.assemblies.lookup key = some assembly)
    (fresh : state.completed.lookup (key, seqId) = none)
    (whole : raw.length = assembly.metadata.messageSizeBytes) :
    ClientSegmentReassembler.Accounted { state with
      assemblies := state.assemblies.erase key
      completed := state.completed.insert (key, seqId) raw } := by
  have reserved := accounted.reserved
  have count := accounted.count
  have released := total_erase ClientSegmentReassembler.reservation found
  have fewer := length_erase found
  unfold ClientSegmentReassembler.count at count
  refine ⟨?_, accounted.limit, ?_⟩
  · dsimp only
    rw [total_insert ClientSegmentReassembler.size (AList.lookup_eq_none.mp fresh)]
    have kept : ClientSegmentReassembler.size raw =
        ClientSegmentReassembler.reservation assembly := whole
    omega
  · unfold ClientSegmentReassembler.count
    dsimp only
    rw [length_insert_erase, erase_of_absent fresh]
    omega

theorem advanceAssembly_observes (now : Nat) (accounted : state.Accounted)
    (sourced : Sourced calls state) (onStream : envelope.streamId = some streamId)
    (withSeq : envelope.seqId = some metadata.seqId) (inside : segmentId < metadata.segmentCount)
    (fresh : state.completed.lookup ((envelope.clientId, streamId), metadata.seqId) = none)
    (carries : ∀ chunk, Base64.decode text = some chunk →
      ∃ call ∈ calls, call.Carries (envelope.clientId, streamId) metadata segmentId chunk) :
    Observes calls envelope
      (state.advanceAssembly now envelope (envelope.clientId, streamId) metadata segmentId text).1
      (state.advanceAssembly now envelope (envelope.clientId, streamId) metadata segmentId
        text).2 := by
  unfold ClientSegmentReassembler.advanceAssembly
  split
  · exact .quiet accounted sourced (by simp)
  next assembly found =>
  obtain ⟨chunks, length, flatten, carried⟩ := sourced.assemblies _ assembly found
  rcases advance_cases assembly metadata now segmentId text with
    ignored | dropped | same | ⟨chunk, decoded, sameMetadata, isNext, next⟩
  · rw [ignored]
    exact .quiet accounted sourced (by simp)
  · rw [dropped]
    exact .quiet (accounted.removeAssembly _)
      (sourced.shrinks (ClientSegmentReassembler.shrinks_removeAssembly _)) (by simp)
  · rw [same]
    exact .quiet (accounted.replace found rfl)
      (sourced.insert (sourced.assemblies _ assembly found)) (by simp)
  have more : Carried calls (envelope.clientId, streamId) assembly.metadata
      (chunks ++ [chunk]) := by
    refine carried.snoc ?_
    rw [length, ← isNext, sameMetadata]
    exact carries chunk decoded
  rcases next with ⟨-, advanced⟩ | ⟨last, whole, completes⟩
  · rw [advanced]
    refine .quiet (accounted.replace found rfl) (sourced.insert ?_) (by simp)
    refine ⟨chunks ++ [chunk], ?_, ?_, more⟩
    · rw [List.length_append, length, List.length_singleton]
    · rw [List.flatten_append, flatten, List.flatten_singleton]
  rw [completes]
  have complete : Complete calls (envelope.clientId, streamId) metadata.seqId
      (assembly.raw ++ chunk) := by
    refine ⟨metadata, chunks ++ [chunk], rfl, whole.symm, ?_, ?_, sameMetadata ▸ more⟩
    · rw [List.length_append, length, List.length_singleton]
      omega
    · rw [List.flatten_append, flatten, List.flatten_singleton]
  refine ⟨accounted.transfer found fresh (sameMetadata ▸ whole),
    sourced.complete complete, ?_⟩
  intro returned raw isMessage
  cases isMessage
  exact ⟨rfl, streamId, metadata.seqId, onStream, withSeq, complete⟩

omit [Base64.Engine] in
/-- A chunk that is not refused is of a segment within the count. -/
theorem inside_of_valid (valid : ¬(invalidReason metadata segmentId text).isSome) :
    segmentId < metadata.segmentCount := by
  by_contra outside
  apply valid
  unfold invalidReason
  split
  · rfl
  split
  · rfl
  rw [if_pos (Nat.le_of_not_lt outside)]
  rfl

omit [Base64.Engine] in
/-- Admission opens no completed message. -/
theorem admits_fresh {now : Nat} {next : ClientSegmentReassembler}
    {completedKey : StreamKey × UInt64}
    (admits : ClientSegmentReassembler.Admits key metadata now state next)
    (fresh : state.completed.lookup completedKey = none) :
    next.completed.lookup completedKey = none := by
  have shrinks : ∀ raw, next.completed.lookup completedKey = some raw →
      state.completed.lookup completedKey = some raw := by
    intro raw found
    rcases admits with shrinks | ⟨middle, shrinks, -, -, kept⟩
    · exact shrinks.completed completedKey raw found
    · exact shrinks.completed completedKey raw (kept ▸ found)
  cases found : next.completed.lookup completedKey with
  | none => rfl
  | some raw =>
    rw [shrinks raw found] at fresh
    cases fresh

theorem observeChunk_observes (rank : StreamKey → Nat) (now : Nat) (accounted : state.Accounted)
    (sourced : Sourced calls state) (onStream : envelope.streamId = some streamId)
    (withSeq : envelope.seqId = some metadata.seqId)
    (carries : ∀ chunk, Base64.decode text = some chunk →
      ∃ call ∈ calls, call.Carries (envelope.clientId, streamId) metadata segmentId chunk) :
    Observes calls envelope
      (state.observeChunk rank now envelope (envelope.clientId, streamId) metadata segmentId text).1
      (state.observeChunk rank now envelope (envelope.clientId, streamId) metadata segmentId
        text).2 := by
  unfold ClientSegmentReassembler.observeChunk
  split
  · next raw found =>
    refine ⟨accounted, sourced, ?_⟩
    intro returned other isMessage
    cases isMessage
    exact ⟨rfl, streamId, metadata.seqId, onStream, withSeq, sourced.completed _ _ raw found⟩
  next fresh =>
  split
  · exact .quiet accounted sourced (by simp)
  split
  · exact .quiet (accounted.removeAssembly _)
      (sourced.shrinks (ClientSegmentReassembler.shrinks_removeAssembly _)) (by simp)
  next valid =>
  have closedAccounted := accounted.closeOther (envelope.clientId, streamId) metadata segmentId
  have closed := @ClientSegmentReassembler.shrinks_closeOther state (envelope.clientId, streamId)
    metadata segmentId
  obtain ⟨admittedAccounted, admits⟩ := ClientSegmentReassembler.admit_keeps rank now
    (envelope.clientId, streamId) metadata segmentId closedAccounted
  have admittedSourced := (sourced.shrinks closed).admits admits
  have closedFresh : (state.closeOther (envelope.clientId, streamId) metadata
      segmentId).completed.lookup ((envelope.clientId, streamId), metadata.seqId) = none := by
    exact admits_fresh (.inl closed : ClientSegmentReassembler.Admits
      (envelope.clientId, streamId) metadata now _ _) fresh
  have admittedFresh := admits_fresh admits closedFresh
  split
  · next next admitted =>
    rw [admitted] at admittedAccounted admittedSourced
    exact .quiet admittedAccounted admittedSourced (by simp)
  · next next admitted =>
    rw [admitted] at admittedAccounted admittedSourced admittedFresh
    exact advanceAssembly_observes now admittedAccounted admittedSourced onStream withSeq
      (inside_of_valid valid) admittedFresh carries

theorem observe_observes (rank : StreamKey → Nat) (expiryNow now : Nat)
    (accounted : state.Accounted) (sourced : Sourced calls state)
    (called : .observe rank expiryNow now envelope ∈ calls) :
    Observes calls envelope (state.observe rank expiryNow now envelope).1
      (state.observe rank expiryNow now envelope).2 := by
  have expiredAccounted := accounted.expireAssemblies expiryNow
  have expiredSourced :=
    sourced.shrinks (@ClientSegmentReassembler.shrinks_expireAssemblies state expiryNow)
  unfold ClientSegmentReassembler.observe
  dsimp only
  split
  · next segmentId segmentCount messageSizeBytes text isChunk =>
    split
    · exact .quiet expiredAccounted expiredSourced (by simp)
    next seqId withSeq =>
    split
    · exact .quiet expiredAccounted expiredSourced (by simp)
    next streamId onStream =>
    refine observeChunk_observes rank now expiredAccounted expiredSourced onStream withSeq ?_
    intro chunk decoded
    exact ⟨_, called, rank, expiryNow, now, envelope, text, rfl, isChunk, rfl, onStream, withSeq,
      decoded⟩
  · exact .quiet expiredAccounted expiredSourced (by simp)

/-- What every call keeps, and what it returns. -/
theorem apply_keeps (call : ReassemblerCall Message) (accounted : state.Accounted)
    (sourced : Sourced calls state) (called : call ∈ calls) :
    (call.apply state).2.Accounted ∧ Sourced calls (call.apply state).2 ∧
      ∀ envelope raw, (call.apply state).1 = some (.reassembled envelope raw) →
        (∃ rank expiryNow now, call = .observe rank expiryNow now envelope) ∧
        ∃ streamId seqId, envelope.streamId = some streamId ∧ envelope.seqId = some seqId ∧
          Complete calls (envelope.clientId, streamId) seqId raw := by
  have silent : ∀ {next : ClientSegmentReassembler}, next.Accounted →
      ClientSegmentReassembler.Shrinks state next → next.Accounted ∧ Sourced calls next ∧
        ∀ envelope raw, (none : Option (ClientSegmentObservation Message)) =
          some (.reassembled envelope raw) →
            (∃ rank expiryNow now, call = .observe rank expiryNow now envelope) ∧
            ∃ streamId seqId, envelope.streamId = some streamId ∧ envelope.seqId = some seqId ∧
              Complete calls (envelope.clientId, streamId) seqId raw :=
    fun nextAccounted shrinks => ⟨nextAccounted, sourced.shrinks shrinks, by simp⟩
  cases call with
  | observe rank expiryNow now envelope =>
    have observes := observe_observes rank expiryNow now accounted sourced called
    refine ⟨observes.accounted, observes.sourced, ?_⟩
    intro returned raw isMessage
    obtain ⟨rfl, complete⟩ := observes.complete returned raw (Option.some.inj isMessage)
    exact ⟨⟨rank, expiryNow, now, rfl⟩, complete⟩
  | expire now =>
    exact silent (accounted.expireAssemblies now)
      (ClientSegmentReassembler.shrinks_expireAssemblies now)
  | commit key seqId =>
    exact silent (accounted.commitCompleted key seqId)
      (ClientSegmentReassembler.shrinks_commitCompleted key seqId)
  | invalidateIncompleteStream key =>
    exact silent (accounted.removeAssembly key)
      (ClientSegmentReassembler.shrinks_removeAssembly key)
  | invalidateStream key =>
    exact silent ((accounted.removeAssembly key).retainCompleted _)
      ((ClientSegmentReassembler.shrinks_removeAssembly key).trans
        (ClientSegmentReassembler.shrinks_retainCompleted _))
  | invalidateClient clientId =>
    obtain ⟨removed, shrinks⟩ := ClientSegmentReassembler.removeAssemblies_keeps
      (state.assemblies.keys.filter (fun key => key.1 = clientId)) accounted
    exact silent (removed.retainCompleted _)
      (shrinks.trans (ClientSegmentReassembler.shrinks_retainCompleted _))

end Calls

/-! ## All calls -/

namespace ReassemblerCall

theorem applyAll_append (first second : List (ReassemblerCall Message))
    (state : ClientSegmentReassembler) :
    applyAll (first ++ second) state =
      ((applyAll first state).1 ++ (applyAll second (applyAll first state).2).1,
        (applyAll second (applyAll first state).2).2) := by
  induction first generalizing state with
  | nil => rfl
  | cons call calls ih => simp only [List.cons_append, applyAll, ih]

theorem length_applyAll (calls : List (ReassemblerCall Message))
    (state : ClientSegmentReassembler) : (applyAll calls state).1.length = calls.length := by
  induction calls generalizing state with
  | nil => rfl
  | cons call calls ih => simp [applyAll, ih]

/-- The output of one call among others. -/
theorem applyAll_getElem? (calls : List (ReassemblerCall Message))
    (state : ClientSegmentReassembler) {index : Nat} {call : ReassemblerCall Message}
    (isCall : calls[index]? = some call) :
    (applyAll calls state).1[index]? =
      some (call.apply (applyAll (calls.take index) state).2).1 := by
  induction calls generalizing state index with
  | nil => cases isCall
  | cons first calls ih =>
    cases index with
    | zero =>
      cases isCall
      rfl
    | succ index => exact ih (first.apply state).2 isCall

theorem applyAll_keeps (calls : List (ReassemblerCall Message)) :
    (applyAll calls {}).2.Accounted ∧ Sourced calls (applyAll calls {}).2 := by
  induction calls using List.reverseRecOn with
  | nil =>
    refine ⟨ClientSegmentReassembler.accounted_empty, ⟨?_, ?_⟩⟩
    · intro key assembly found
      cases found
    · intro key seqId raw found
      cases found
  | append_singleton calls call ih =>
    obtain ⟨accounted, sourced⟩ := ih
    rw [applyAll_append]
    obtain ⟨nextAccounted, nextSourced, -⟩ := @apply_keeps _ _ (calls ++ [call]) _ call accounted
      (sourced.mono (fun _ member => List.mem_append_left [call] member))
      (List.mem_append_right calls (List.mem_singleton_self call))
    exact ⟨nextAccounted, nextSourced⟩

/-- Every message that is returned is the concatenation of the chunks of all its segments. -/
theorem applyAll_complete (calls : List (ReassemblerCall Message)) {index : Nat}
    {envelope : ClientEnvelope Message} {raw : Bytes}
    (returned : (applyAll calls {}).1[index]? = some (some (.reassembled envelope raw))) :
    ∃ streamId seqId, envelope.streamId = some streamId ∧ envelope.seqId = some seqId ∧
      Complete (calls.take (index + 1)) (envelope.clientId, streamId) seqId raw := by
  have inside : index < calls.length := by
    rw [← length_applyAll calls {}]
    exact (List.getElem?_eq_some_iff.mp returned).1
  have isCall : calls[index]? = some calls[index] := List.getElem?_eq_getElem inside
  obtain ⟨accounted, sourced⟩ := applyAll_keeps (calls.take index)
  rw [applyAll_getElem? calls {} isCall, Option.some.injEq] at returned
  obtain ⟨-, -, complete⟩ := @apply_keeps _ _ (calls.take (index + 1)) _ calls[index] accounted
    (sourced.mono (fun _ member => List.take_subset_take_left calls (Nat.le_succ index) member))
    (List.mem_take_iff_getElem.mpr ⟨index, by omega, rfl⟩)
  exact (complete envelope raw returned).2

end ReassemblerCall

end Codex.RemoteControl
