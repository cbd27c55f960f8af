import Codex.RemoteControl.ServerWriter

/-!
# Delivery of server frames

What holds of the writer of `app-server-transport/src/transport/remote_control/websocket.rs` after
any steps: the queue hands out the frames of each stream in order and once, and the buffer keeps
exactly those that were published and neither acknowledged nor pruned.
-/

namespace Codex.RemoteControl

open Codex.Machine JsonText

variable {Message : Type}

/-! ## The queue -/

namespace ServerWriterQueue

variable {queue : ServerWriterQueue} {key other : StreamKey}

/-- The frames of a stream that wait for the socket. -/
def queuedOn (key : StreamKey) (queue : ServerWriterQueue) : List ScheduledServerFrame :=
  (queue.streams.lookup key).getD []

/-- Every stream with frames is ready once, and no other. -/
structure WellFormed (queue : ServerWriterQueue) : Prop where
  nodup : queue.ready.Nodup
  ready : ∀ key, key ∈ queue.ready ↔ queue.queuedOn key ≠ []
  nonempty : ∀ key frames, queue.streams.lookup key = some frames → frames ≠ []

theorem queuedOn_insert (queue : ServerWriterQueue) (key other : StreamKey)
    (frames : List ScheduledServerFrame) (ready : List StreamKey) :
    queuedOn other { streams := queue.streams.insert key frames, ready } =
      if other = key then frames else queue.queuedOn other := by
  unfold queuedOn
  dsimp only
  rw [lookup_insert_eq]
  split <;> rfl

theorem queuedOn_erase (queue : ServerWriterQueue) (key other : StreamKey)
    (ready : List StreamKey) :
    queuedOn other { streams := queue.streams.erase key, ready } =
      if other = key then [] else queue.queuedOn other := by
  unfold queuedOn
  dsimp only
  rw [lookup_erase_eq]
  split <;> rfl

theorem queuedOn_push (queue : ServerWriterQueue) (key other : StreamKey)
    (frame : ScheduledServerFrame) :
    (queue.push key frame).queuedOn other =
      if other = key then queue.queuedOn key ++ [frame] else queue.queuedOn other := by
  unfold push
  exact queuedOn_insert queue key other _ _

theorem WellFormed.push (wellFormed : queue.WellFormed) (frame : ScheduledServerFrame) :
    (queue.push key frame).WellFormed := by
  have ready : (queue.push key frame).ready =
      if (queue.queuedOn key).isEmpty then queue.ready ++ [key] else queue.ready := rfl
  refine ⟨?_, ?_, ?_⟩
  · rw [ready]
    split
    · next empty =>
      rw [← List.concat_eq_append]
      refine wellFormed.nodup.concat ?_
      rw [wellFormed.ready key]
      simpa using empty
    · exact wellFormed.nodup
  · intro other
    rw [queuedOn_push, ready]
    by_cases same : other = key
    · subst same
      rw [if_pos rfl]
      split
      · simp
      · next some => simpa [wellFormed.ready other] using some
    · rw [if_neg same]
      split
      · rw [List.mem_append, List.mem_singleton, or_iff_left same]
        exact wellFormed.ready other
      · exact wellFormed.ready other
  · intro other frames found
    unfold ServerWriterQueue.push at found
    dsimp only at found
    rw [lookup_insert_eq] at found
    split at found
    · cases found
      simp
    · exact wellFormed.nonempty other frames found

/-- Frames of one stream pushed in a row. -/
theorem pushes_keep (frames : List ScheduledServerFrame) (key : StreamKey)
    (wellFormed : queue.WellFormed) :
    (frames.foldl (fun queue frame => queue.push key frame) queue).WellFormed ∧
    ∀ other, (frames.foldl (fun queue frame => queue.push key frame) queue).queuedOn other =
      if other = key then queue.queuedOn key ++ frames else queue.queuedOn other := by
  induction frames generalizing queue with
  | nil =>
    refine ⟨wellFormed, ?_⟩
    intro other
    rw [List.append_nil]
    split
    · next same => rw [same]; rfl
    · rfl
  | cons frame frames ih =>
    obtain ⟨kept, queued⟩ := ih (wellFormed.push frame)
    refine ⟨kept, ?_⟩
    intro other
    rw [List.foldl_cons, queued other, queuedOn_push, queuedOn_push, if_pos rfl]
    split <;> simp

/-- A pop of an empty queue. -/
theorem pop_of_nil (empty : queue.ready = []) : queue.pop = (none, queue) := by
  unfold pop
  rw [empty]

/-- A pop takes the first frame of the stream at the head of the ready list. -/
theorem pop_of_cons {ready : List StreamKey} (wellFormed : queue.WellFormed)
    (head : queue.ready = key :: ready) :
    ∃ frame, queue.pop.1 = some frame ∧
      queue.queuedOn key = frame :: queue.pop.2.queuedOn key ∧
      (∀ other, other ≠ key → queue.pop.2.queuedOn other = queue.queuedOn other) ∧
      queue.pop.2.WellFormed := by
  have nodup := wellFormed.nodup
  rw [head, List.nodup_cons] at nodup
  have isReady : key ∈ queue.ready := by
    rw [head]
    exact List.mem_cons_self
  have queued := (wellFormed.ready key).mp isReady
  have others : ∀ other, other ≠ key → (other ∈ ready ↔ queue.queuedOn other ≠ []) := by
    intro other differs
    rw [← wellFormed.ready other, head, List.mem_cons, or_iff_right differs]
  cases found : queue.streams.lookup key with
  | none => simp [queuedOn, found] at queued
  | some stream =>
    cases stream with
    | nil => exact absurd rfl (wellFormed.nonempty key [] found)
    | cons frame rest =>
      have whole : queue.queuedOn key = frame :: rest := by simp [queuedOn, found]
      cases rest with
      | nil =>
        have popped : queue.pop =
            (some frame, { streams := queue.streams.erase key, ready }) := by
          simp [pop, head, found]
        rw [popped, whole]
        refine ⟨frame, rfl, ?_, ?_, ?_, ?_, ?_⟩
        · rw [queuedOn_erase, if_pos rfl]
        · intro other differs
          rw [queuedOn_erase, if_neg differs]
        · exact nodup.2
        · intro other
          rw [queuedOn_erase]
          by_cases same : other = key
          · rw [if_pos same, same]
            simpa using nodup.1
          · rw [if_neg same]
            exact others other same
        intro other frames isFound
        dsimp only at isFound
        rw [lookup_erase_eq] at isFound
        split at isFound
        · cases isFound
        · exact wellFormed.nonempty other frames isFound
      | cons second rest =>
        have popped : queue.pop = (some frame,
            { streams := queue.streams.insert key (second :: rest), ready := ready ++ [key] }) := by
          simp [pop, head, found]
        rw [popped, whole]
        refine ⟨frame, rfl, ?_, ?_, ?_, ?_, ?_⟩
        · rw [queuedOn_insert, if_pos rfl]
        · intro other differs
          rw [queuedOn_insert, if_neg differs]
        · dsimp only
          rw [← List.concat_eq_append]
          exact nodup.2.concat nodup.1
        · intro other
          rw [queuedOn_insert]
          by_cases same : other = key
          · rw [if_pos same, same]
            simp
          · rw [if_neg same, List.mem_append, List.mem_singleton, or_iff_left same]
            exact others other same
        intro other frames isFound
        dsimp only at isFound
        rw [lookup_insert_eq] at isFound
        split at isFound
        · cases isFound
          simp
        · exact wellFormed.nonempty other frames isFound

/-- The number of frames that wait for the socket. -/
def queuedCount (queue : ServerWriterQueue) : Nat := total List.length queue.streams

theorem queuedCount_pop {frame : ScheduledServerFrame} (popped : queue.pop.1 = some frame) :
    queue.queuedCount = queue.pop.2.queuedCount + 1 := by
  unfold pop at popped ⊢
  split at popped
  · cases popped
  next key ready head =>
  split at popped
  · cases popped
  next stream found =>
  dsimp only at popped ⊢
  have whole := total_erase List.length found
  obtain ⟨rest, rfl⟩ := List.head?_eq_some_iff.mp popped
  unfold queuedCount
  split
  · next last =>
    obtain rfl : rest = [] := by simpa using last
    dsimp only
    rw [whole, List.length_singleton, Nat.add_comm]
  · dsimp only
    rw [whole, total_insert_erase]
    simp
    omega

theorem queuedOn_of_count (empty : queue.queuedCount = 0) (key : StreamKey) :
    queue.queuedOn key = [] := by
  unfold queuedOn
  cases found : queue.streams.lookup key with
  | none => rfl
  | some stream =>
    have whole := total_erase List.length found
    unfold queuedCount at empty
    exact List.length_eq_zero_iff.mp (by simp only [Option.getD_some]; omega)

/-- Nothing is queued when no stream is ready. -/
theorem WellFormed.queuedCount_of_nil (wellFormed : queue.WellFormed) (none : queue.ready = []) :
    queue.queuedCount = 0 := by
  have empty : queue.streams.entries = [] := by
    rw [List.eq_nil_iff_forall_not_mem]
    rintro ⟨key, frames⟩ member
    have found : queue.streams.lookup key = some frames := AList.mem_lookup_iff.mpr member
    have isReady : key ∈ queue.ready := by
      rw [wellFormed.ready key, queuedOn, found]
      exact wellFormed.nonempty key frames found
    rw [none] at isReady
    cases isReady
  unfold queuedCount total
  rw [empty]
  rfl

end ServerWriterQueue

/-! ## The buffer -/

/-- The frame is at or below the cursor of an acknowledgement. Without a segment the acknowledgement
    is of the whole message. -/
def BufferedServerEnvelope.acknowledged (seqId : UInt64) (segmentId : Option Nat)
    (envelope : BufferedServerEnvelope) : Bool :=
  decide (envelope.seqId < seqId) || (envelope.seqId == seqId &&
    segmentId.all (fun segmentId => decide (envelope.segmentId.getD 0 ≤ segmentId)))

/-- The order of the sequence ids, and of the segments within a message. -/
def BufferedServerEnvelope.Precedes (first second : BufferedServerEnvelope) : Prop :=
  first.seqId < second.seqId ∨
    (first.seqId = second.seqId ∧ first.segmentId.getD 0 < second.segmentId.getD 0)

namespace BoundedOutboundBuffer

variable {buffer : BoundedOutboundBuffer}

/-- The frames of a stream that wait for an acknowledgement. -/
def bufferedOn (key : StreamKey) (buffer : BoundedOutboundBuffer) : List BufferedServerEnvelope :=
  (buffer.bufferByStream.lookup key).getD []

/-- The number of buffered frames. -/
def bufferedCount (buffer : BoundedOutboundBuffer) : Nat := total List.length buffer.bufferByStream

theorem bufferedOn_insertEncoded (envelope : BufferedServerEnvelope) (key : StreamKey) :
    (buffer.insertEncoded envelope).bufferedOn key =
      if key = envelope.key then buffer.bufferedOn key ++ [envelope] else buffer.bufferedOn key := by
  unfold bufferedOn insertEncoded
  dsimp only
  rw [lookup_insert_eq]
  split
  · next same => rw [same]; rfl
  · rfl

theorem bufferedCount_insertEncoded (envelope : BufferedServerEnvelope) :
    (buffer.insertEncoded envelope).bufferedCount = buffer.bufferedCount + 1 := by
  unfold bufferedCount insertEncoded
  dsimp only
  rw [total_insert_erase]
  cases found : buffer.bufferByStream.lookup envelope.key with
  | none =>
    rw [erase_of_absent found]
    simp [Nat.add_comm]
  | some frames =>
    rw [total_erase List.length found]
    simp
    omega

/-- Frames of one stream inserted in a row. -/
theorem inserts_keep (frames : List BufferedServerEnvelope) {key : StreamKey}
    (ofStream : ∀ frame ∈ frames, frame.key = key) (counted : buffer.used = buffer.bufferedCount) :
    (frames.foldl (fun buffer frame => buffer.insertEncoded frame) buffer).used =
      (frames.foldl (fun buffer frame => buffer.insertEncoded frame) buffer).bufferedCount ∧
    ∀ other, (frames.foldl (fun buffer frame => buffer.insertEncoded frame) buffer).bufferedOn
        other =
      if other = key then buffer.bufferedOn other ++ frames else buffer.bufferedOn other := by
  induction frames generalizing buffer with
  | nil =>
    refine ⟨counted, ?_⟩
    intro other
    simp
  | cons frame frames ih =>
    have isKey := ofStream frame List.mem_cons_self
    obtain ⟨kept, buffered⟩ := @ih (buffer.insertEncoded frame)
      (fun other member => ofStream other (List.mem_cons_of_mem frame member))
      (by rw [bufferedCount_insertEncoded, ← counted]; rfl)
    refine ⟨kept, ?_⟩
    intro other
    rw [List.foldl_cons, buffered other, bufferedOn_insertEncoded, isKey]
    split <;> simp

theorem settleOverdraft_keeps : buffer.settleOverdraft.bufferByStream = buffer.bufferByStream ∧
    buffer.settleOverdraft.used = buffer.used := by
  unfold settleOverdraft
  split <;> exact ⟨rfl, rfl⟩

theorem bufferedOn_hasCapacity (cancelled : CancellationToken → Bool) (key : StreamKey) :
    (buffer.hasCapacity cancelled).2.bufferedOn key = (buffer.bufferedOn key).filter
      (fun frame => !isCancelled cancelled frame.deliveryFailure) := by
  have kept : (buffer.hasCapacity cancelled).2.bufferByStream =
      retainMut (uncancelled cancelled) buffer.bufferByStream := settleOverdraft_keeps.1
  unfold bufferedOn
  rw [kept, lookup_retainMut]
  cases buffer.bufferByStream.lookup key with
  | none => rfl
  | some frames =>
    simp only [Option.bind_some, Option.getD_some, uncancelled]
    split
    · next none => exact (List.isEmpty_iff.mp none).symm
    · rfl

theorem used_hasCapacity (cancelled : CancellationToken → Bool)
    (counted : buffer.used = buffer.bufferedCount) :
    (buffer.hasCapacity cancelled).2.used = (buffer.hasCapacity cancelled).2.bufferedCount := by
  have each : ∀ (key : StreamKey) (frames : List BufferedServerEnvelope), frames.length =
      ((uncancelled cancelled key frames).map List.length).getD 0 +
        cancelledCount cancelled frames := by
    intro key frames
    have parts := @List.length_eq_length_filter_add _ frames
      (fun frame : BufferedServerEnvelope => isCancelled cancelled frame.deliveryFailure)
    unfold uncancelled cancelledCount
    dsimp only
    split
    · next none =>
      rw [List.isEmpty_iff.mp none] at parts
      simpa using parts
    · simp only [Option.map_some, Option.getD_some]
      omega
  have whole := total_retainMut List.length (cancelledCount cancelled) (uncancelled cancelled)
    buffer.bufferByStream each
  unfold bufferedCount at counted
  unfold bufferedCount hasCapacity
  dsimp only
  rw [settleOverdraft_keeps.1, settleOverdraft_keeps.2]
  dsimp only
  have used : (if total (cancelledCount cancelled) buffer.bufferByStream ≠ 0 then
      countSub buffer.used (total (cancelledCount cancelled) buffer.bufferByStream)
      else buffer.used) = total List.length (retainMut (uncancelled cancelled)
        buffer.bufferByStream) := by
    split
    · rw [countSub_eq (by omega)]
      omega
    · omega
  exact used

/-- An acknowledgement keeps the frames of other streams. -/
theorem bufferedOn_ack_other {key other : StreamKey} (differs : other ≠ key) (seqId : UInt64)
    (segmentId : Option Nat) :
    (buffer.ack key seqId segmentId).2.bufferedOn other = buffer.bufferedOn other := by
  unfold ack
  split
  · rfl
  · unfold bufferedOn
    dsimp only
    split
    · rw [lookup_erase_eq, if_neg differs]
    · rw [lookup_insert_eq, if_neg differs]

theorem bufferedOn_ack (key : StreamKey) (seqId : UInt64) (segmentId : Option Nat) :
    (buffer.ack key seqId segmentId).2.bufferedOn key =
      (buffer.bufferedOn key).dropWhile (atOrBelow seqId (segmentId.getD USIZE_MAX)) := by
  unfold ack
  split
  · next absent => simp [bufferedOn, absent]
  next frames found =>
  unfold bufferedOn
  rw [found]
  dsimp only
  split
  · next none => rw [lookup_erase_eq, if_pos rfl, Option.getD_none, Option.getD_some,
      List.isEmpty_iff.mp none]
  · rw [lookup_insert_eq, if_pos rfl, Option.getD_some, Option.getD_some]

theorem used_ack (key : StreamKey) (seqId : UInt64) (segmentId : Option Nat)
    (counted : buffer.used = buffer.bufferedCount) :
    (buffer.ack key seqId segmentId).2.used = (buffer.ack key seqId segmentId).2.bufferedCount := by
  unfold ack
  split
  · exact counted
  next frames found =>
  unfold bufferedCount at counted ⊢
  dsimp only
  have whole := total_erase List.length found
  have fewer := (@List.dropWhile_suffix _ frames
    (atOrBelow seqId (segmentId.getD USIZE_MAX))).length_le
  have used : (if frames.length - (frames.dropWhile (atOrBelow seqId
      (segmentId.getD USIZE_MAX))).length ≠ 0 then countSub buffer.used (frames.length -
        (frames.dropWhile (atOrBelow seqId (segmentId.getD USIZE_MAX))).length)
      else buffer.used) = (frames.dropWhile (atOrBelow seqId
        (segmentId.getD USIZE_MAX))).length + total List.length
          (buffer.bufferByStream.erase key) := by
    split
    · rw [countSub_eq (by omega)]
      omega
    · omega
  rw [used]
  split
  · next none =>
    rw [List.isEmpty_iff.mp none]
    simp
  · rw [total_insert_erase]

end BoundedOutboundBuffer

/-! ## Acknowledgements -/

section Acknowledged

variable {frames : List BufferedServerEnvelope} {first second : BufferedServerEnvelope}

theorem atOrBelow_of_precedes {seqId : UInt64} {segmentId : Nat} (precedes : first.Precedes second)
    (below : BoundedOutboundBuffer.atOrBelow seqId segmentId second) :
    BoundedOutboundBuffer.atOrBelow seqId segmentId first := by
  simp only [BoundedOutboundBuffer.atOrBelow, Bool.or_eq_true, Bool.and_eq_true, beq_iff_eq,
    decide_eq_true_eq, UInt64.lt_iff_toNat_lt, ← UInt64.toNat_inj] at below ⊢
  unfold BufferedServerEnvelope.Precedes at precedes
  rw [UInt64.lt_iff_toNat_lt, ← UInt64.toNat_inj] at precedes
  omega

theorem atOrBelow_eq_acknowledged (seqId : UInt64) (segmentId : Option Nat)
    (fits : first.segmentId.getD 0 ≤ USIZE_MAX) :
    BoundedOutboundBuffer.atOrBelow seqId (segmentId.getD USIZE_MAX) first =
      first.acknowledged seqId segmentId := by
  unfold BoundedOutboundBuffer.atOrBelow BufferedServerEnvelope.acknowledged
  cases segmentId with
  | none => simp [fits]
  | some segmentId => rfl

/-- In order, what an acknowledgement leaves is what it does not cover. -/
theorem dropWhile_acknowledged (ordered : frames.Pairwise BufferedServerEnvelope.Precedes)
    (fits : ∀ frame ∈ frames, frame.segmentId.getD 0 ≤ USIZE_MAX) (seqId : UInt64)
    (segmentId : Option Nat) :
    frames.dropWhile (BoundedOutboundBuffer.atOrBelow seqId (segmentId.getD USIZE_MAX)) =
      frames.filter (fun frame => !frame.acknowledged seqId segmentId) := by
  rw [Slice.dropWhile_eq_filter (fun _ _ precedes below => atOrBelow_of_precedes precedes below)
    ordered]
  apply List.filter_congr
  intro frame member
  rw [atOrBelow_eq_acknowledged seqId segmentId (fits frame member)]

end Acknowledged

/-! ## Encoding -/

/-- The payloads of an envelope are of its stream and sequence id, with their segments in order. -/
structure Encodes (envelope : ServerEnvelope Message) (payloads : List EncodedServerPayload) :
    Prop where
  routed : ∀ payload ∈ payloads, payload.clientId = envelope.clientId ∧
    payload.streamId = envelope.streamId ∧ payload.seqId = envelope.seqId
  ordered : payloads.Pairwise (fun first second =>
    first.segmentId.getD 0 < second.segmentId.getD 0)
  fits : ∀ payload ∈ payloads, payload.segmentId.getD 0 ≤ USIZE_MAX

variable {envelope : ServerEnvelope Message} {payloads : List EncodedServerPayload}

theorem encodes_single {payload : Bytes}
    (fits : ∀ segmentId, envelope.event.segmentId = some segmentId → segmentId ≤ USIZE_MAX) :
    Encodes envelope [⟨envelope.clientId, envelope.streamId, envelope.seqId,
      envelope.event.segmentId, payload⟩] := by
  refine ⟨?_, List.pairwise_singleton _ _, ?_⟩
  · intro other member
    obtain rfl := List.mem_singleton.mp member
    exact ⟨rfl, rfl, rfl⟩
  · intro other member
    obtain rfl := List.mem_singleton.mp member
    cases isSegment : envelope.event.segmentId with
    | none => exact Nat.zero_le _
    | some segmentId => exact fits segmentId isSegment

/-- What `encode_server_payloads_for_transport` makes of a chunk. -/
def payloadOf (envelope : ServerEnvelope Message) (payload : Bytes) : EncodedServerPayload :=
  { segmentId := envelope.event.segmentId
    clientId := envelope.clientId
    streamId := envelope.streamId
    seqId := envelope.seqId
    payload }

theorem encodes_segments [StringWriter] [Base64.Engine] (serialize : Message → Bytes)
    (chunkSize segmentCount : Nat) {raw : Bytes}
    (short : raw.length ≤ REMOTE_CONTROL_REASSEMBLED_MAX_BYTES) :
    Encodes envelope ((segments serialize envelope chunkSize segmentCount raw).map
      (fun segment => payloadOf segment.1 segment.2)) := by
  have few : (Slice.chunks chunkSize raw).length ≤ raw.length := by
    rw [Slice.length_chunks]
    rcases Nat.eq_zero_or_pos chunkSize with rfl | positive
    · simp [Slice.divCeil]
    · exact (Slice.divCeil_le_iff positive).mpr (Nat.le_mul_of_pos_right _ positive)
  unfold segments
  rw [List.map_map]
  refine ⟨?_, ?_, ?_⟩
  · intro payload member
    obtain ⟨chunk, -, rfl⟩ := List.mem_map.mp member
    exact ⟨rfl, rfl, rfl⟩
  · rw [List.pairwise_map, List.pairwise_iff_getElem]
    intro i j inside insideJ below
    simpa [payloadOf, chunkEnvelope, ServerEvent.segmentId] using below
  intro payload member
  obtain ⟨⟨chunk, index⟩, isChunk, rfl⟩ := List.mem_map.mp member
  have inside := List.snd_lt_of_mem_zipIdx isChunk
  have usize : REMOTE_CONTROL_REASSEMBLED_MAX_BYTES ≤ USIZE_MAX := by
    norm_num [REMOTE_CONTROL_REASSEMBLED_MAX_BYTES, USIZE_MAX]
  simp only [Function.comp_apply, payloadOf, chunkEnvelope, ServerEvent.segmentId,
    Option.getD_some]
  omega

theorem encodes_of_ok [StringWriter] [Base64.Engine] {serde : SerdeJson Message}
    (fits : ∀ segmentId, envelope.event.segmentId = some segmentId → segmentId ≤ USIZE_MAX)
    (encoded : encodeServerPayloadsForTransport serde envelope = .ok payloads) :
    Encodes envelope payloads := by
  unfold encodeServerPayloadsForTransport encodeServerEnvelopeWith at encoded
  split at encoded
  · obtain ⟨writer, -, encoded⟩ := Hoare.bind_ok.mp encoded
    split at encoded
    · cases encoded
      exact encodes_single fits
    cases borrows : serde.rawMessage writer.bytes with
    | error error =>
      unfold encodeSegments at encoded
      rw [borrows] at encoded
      cases encoded
    | ok raw =>
      rw [encodeSegments_eq borrows] at encoded
      split at encoded
      · cases encoded
      next short =>
      split at encoded
      · cases encoded
      obtain ⟨⟨chunkSize, segmentCount⟩, found, encoded⟩ := Hoare.bind_ok.mp encoded
      rw [segments_eq (chooseSegments_fits found).2.2.1] at encoded
      cases encoded
      exact encodes_segments serde.serialize chunkSize segmentCount (Nat.le_of_not_gt short)
  · cases encoded
    exact encodes_single fits

/-! ## Histories -/

namespace WriterStep

/-- The frames that a step pushes for a stream. -/
def pushed (key : StreamKey) (step : WriterStep Message) : List ScheduledServerFrame :=
  match step.output with
  | .published other _ scheduled _ => if other = key then scheduled else []
  | _ => []

/-- The frames that a step pops of a stream. -/
def popped (key : StreamKey) (step : WriterStep Message) : List ScheduledServerFrame :=
  match step.output with
  | .popped other frame => if other = key then [frame] else []
  | _ => []

/-- The sequence ids that a step publishes on a stream. -/
def published (key : StreamKey) (step : WriterStep Message) : List UInt64 :=
  match step.output with
  | .published other seqId _ _ => if other = key then [seqId] else []
  | _ => []

/-- What a step makes of the frames of a stream that are published, not acknowledged and not
    pruned. -/
def hold (key : StreamKey) (held : List BufferedServerEnvelope) (step : WriterStep Message) :
    List BufferedServerEnvelope :=
  match step.event, step.output with
  | .ack other seqId segmentId, _ =>
      if other = key then held.filter (fun frame => !frame.acknowledged seqId segmentId) else held
  | .hasCapacity, _ =>
      held.filter (fun frame => !isCancelled step.before.cancelled frame.deliveryFailure)
  | _, .published other _ _ buffered => if other = key then held ++ buffered else held
  | _, _ => held

end WriterStep

/-- All that was pushed for a stream, in order. -/
def pushedOn (key : StreamKey) (steps : List (WriterStep Message)) : List ScheduledServerFrame :=
  steps.flatMap (WriterStep.pushed key)

/-- All that was popped of a stream, in order. -/
def poppedOn (key : StreamKey) (steps : List (WriterStep Message)) : List ScheduledServerFrame :=
  steps.flatMap (WriterStep.popped key)

/-- The sequence ids published on a stream, in order. -/
def publishedOn (key : StreamKey) (steps : List (WriterStep Message)) : List UInt64 :=
  steps.flatMap (WriterStep.published key)

/-- The frames of a stream that were published and neither acknowledged nor pruned since. -/
def heldOn (key : StreamKey) (steps : List (WriterStep Message)) : List BufferedServerEnvelope :=
  steps.foldl (WriterStep.hold key) []

/-- The `index`-th sequence id of a stream. -/
def seqIdAt (index : Nat) : UInt64 := UInt64.ofNat (min (index + 1) (2 ^ 64 - 1))

theorem toNat_seqIdAt (index : Nat) : (seqIdAt index).toNat = min (index + 1) (2 ^ 64 - 1) := by
  rw [seqIdAt, UInt64.toNat_ofNat']
  exact Nat.mod_eq_of_lt (by omega)

theorem saturatingSucc_seqIdAt (index : Nat) :
    saturatingSucc (seqIdAt index) = seqIdAt (index + 1) := by
  rw [← UInt64.toNat_inj, toNat_seqIdAt, saturatingSucc, UInt64.toNat_ofNat', toNat_seqIdAt]
  rw [Nat.mod_eq_of_lt (by omega)]
  omega

/-- What holds of the writer after the steps of a run. -/
structure WriterInvariant (steps : List (WriterStep Message)) (state : WriterState Message) :
    Prop where
  wellFormed : state.queue.WellFormed
  fifo : ∀ key, pushedOn key steps = poppedOn key steps ++ state.queue.queuedOn key
  used : state.outboundBuffer.used = state.outboundBuffer.bufferedCount
  next : ∀ key, state.nextSeqId key = seqIdAt (publishedOn key steps).length
  encoding : ∀ queued seqId, state.encoding = some (queued, seqId) →
    seqId = state.nextSeqId queued.key
  consecutive : ∀ key index seqId, (publishedOn key steps)[index]? = some seqId →
    seqId = seqIdAt index
  fits : ∀ key, ∀ frame ∈ state.outboundBuffer.bufferedOn key,
    frame.segmentId.getD 0 ≤ USIZE_MAX
  ordered : ∀ key, (publishedOn key steps).length < 2 ^ 64 →
    (state.outboundBuffer.bufferedOn key).Pairwise BufferedServerEnvelope.Precedes ∧
    ∀ frame ∈ state.outboundBuffer.bufferedOn key,
      frame.seqId.toNat ≤ (publishedOn key steps).length
  held : ∀ key, (publishedOn key steps).length < 2 ^ 64 →
    state.outboundBuffer.bufferedOn key = heldOn key steps

section Invariant

variable {steps : List (WriterStep Message)} {step : WriterStep Message}
  {state next : WriterState Message}

theorem pushedOn_snoc (key : StreamKey) :
    pushedOn key (steps ++ [step]) = pushedOn key steps ++ step.pushed key := by
  simp [pushedOn]

theorem poppedOn_snoc (key : StreamKey) :
    poppedOn key (steps ++ [step]) = poppedOn key steps ++ step.popped key := by
  simp [poppedOn]

theorem publishedOn_snoc (key : StreamKey) :
    publishedOn key (steps ++ [step]) = publishedOn key steps ++ step.published key := by
  simp [publishedOn]

theorem heldOn_snoc (key : StreamKey) :
    heldOn key (steps ++ [step]) = step.hold key (heldOn key steps) := by
  simp [heldOn]

/-- The part of the invariant about what was published, after a step that publishes nothing and
    leaves the sequence ids alone. -/
theorem WriterInvariant.unpublished (invariant : WriterInvariant steps state)
    (silent : ∀ key, step.pushed key = [] ∧ step.published key = [])
    (queue : next.queue.WellFormed)
    (popped : ∀ key, state.queue.queuedOn key = step.popped key ++ next.queue.queuedOn key)
    (seqIds : next.nextSeqIdByStream = state.nextSeqIdByStream)
    (encoding : ∀ queued seqId, next.encoding = some (queued, seqId) →
      seqId = state.nextSeqId queued.key)
    (used : next.outboundBuffer.used = next.outboundBuffer.bufferedCount)
    (fewer : ∀ key, (next.outboundBuffer.bufferedOn key).Sublist
      (state.outboundBuffer.bufferedOn key))
    (held : ∀ key, (state.outboundBuffer.bufferedOn key).Pairwise BufferedServerEnvelope.Precedes →
      next.outboundBuffer.bufferedOn key =
        step.hold key (state.outboundBuffer.bufferedOn key)) :
    WriterInvariant (steps ++ [step]) next := by
  have published : ∀ key, publishedOn key (steps ++ [step]) = publishedOn key steps := by
    intro key
    rw [publishedOn_snoc, (silent key).2, List.append_nil]
  have seqId : ∀ key, next.nextSeqId key = state.nextSeqId key := by
    intro key
    unfold WriterState.nextSeqId
    rw [seqIds]
  refine ⟨queue, ?_, used, ?_, ?_, ?_, ?_, ?_, ?_⟩
  · intro key
    rw [pushedOn_snoc, poppedOn_snoc, (silent key).1, List.append_nil, invariant.fifo key,
      popped key, List.append_assoc]
  · intro key
    rw [seqId, published]
    exact invariant.next key
  · intro queued taken isEncoding
    rw [seqId]
    exact encoding queued taken isEncoding
  · intro key
    rw [published]
    exact invariant.consecutive key
  · intro key frame member
    exact invariant.fits key frame ((fewer key).subset member)
  · intro key
    rw [published]
    intro short
    obtain ⟨ordered, bounded⟩ := invariant.ordered key short
    exact ⟨ordered.sublist (fewer key),
      fun frame member => bounded frame ((fewer key).subset member)⟩
  · intro key
    rw [published, heldOn_snoc]
    intro short
    rw [← invariant.held key short]
    exact held key (invariant.ordered key short).1

/-- A step that touches neither the queue nor the buffer nor the sequence ids. -/
theorem WriterInvariant.quiet (invariant : WriterInvariant steps state)
    (silent : ∀ key, step.pushed key = [] ∧ step.published key = [])
    (popped : ∀ key, step.popped key = [])
    (hold : ∀ key held, step.hold key held = held)
    (queue : next.queue = state.queue)
    (seqIds : next.nextSeqIdByStream = state.nextSeqIdByStream)
    (buffer : next.outboundBuffer = state.outboundBuffer)
    (encoding : ∀ queued seqId, next.encoding = some (queued, seqId) →
      seqId = state.nextSeqId queued.key) :
    WriterInvariant (steps ++ [step]) next := by
  refine invariant.unpublished silent (queue ▸ invariant.wellFormed) ?_ seqIds encoding
    (buffer ▸ invariant.used) ?_ ?_
  · intro key
    rw [popped key, queue]
    rfl
  · intro key
    rw [buffer]
  · intro key _
    rw [hold, buffer]

variable {queued : QueuedServerEnvelope Message}

/-- The frames of a published envelope in the buffer. -/
theorem buffered_frames {seqId : UInt64}
    (encodes : Encodes (WriterState.envelope queued seqId) payloads) :
    (∀ frame ∈ WriterState.buffered queued payloads, frame.key = queued.key ∧
      frame.seqId = seqId ∧ frame.segmentId.getD 0 ≤ USIZE_MAX) ∧
    (WriterState.buffered queued payloads).Pairwise BufferedServerEnvelope.Precedes := by
  unfold WriterState.buffered
  refine ⟨?_, ?_⟩
  · intro frame member
    obtain ⟨payload, isPayload, rfl⟩ := List.mem_map.mp member
    obtain ⟨ofClient, onStream, withSeq⟩ := encodes.routed payload isPayload
    exact ⟨Prod.ext ofClient onStream, withSeq, encodes.fits payload isPayload⟩
  rw [List.pairwise_map]
  refine encodes.ordered.imp_of_mem ?_
  intro first second isFirst isSecond below
  have firstSeq := (encodes.routed first isFirst).2.2
  have secondSeq := (encodes.routed second isSecond).2.2
  exact .inr ⟨firstSeq.trans secondSeq.symm, below⟩

theorem WriterInvariant.publish (invariant : WriterInvariant steps state)
    (encodes : Encodes (WriterState.envelope queued (state.nextSeqId queued.key)) payloads)
    (idle : state.encoding = none)
    (isStep : step.output = .published queued.key (state.nextSeqId queued.key)
      (WriterState.scheduled queued payloads) (WriterState.buffered queued payloads))
    (isEnd : ∃ failure, step.event = .encoded failure) :
    WriterInvariant (steps ++ [step])
      (state.publish queued (state.nextSeqId queued.key) payloads) := by
  obtain ⟨frames, inOrder⟩ := buffered_frames encodes
  obtain ⟨queueKept, queuedKept⟩ := ServerWriterQueue.pushes_keep
    (WriterState.scheduled queued payloads) queued.key invariant.wellFormed
  -- The overdraft mark changes none of the frames.
  have bufferKept : ∀ overdraft : Option (StreamKey × UInt64),
      let buffer := (WriterState.buffered queued payloads).foldl (fun buffer envelope =>
        buffer.insertEncoded envelope) { state.outboundBuffer with fairnessOverdraft := overdraft }
      buffer.used = buffer.bufferedCount ∧ ∀ other, buffer.bufferedOn other =
        if other = queued.key then state.outboundBuffer.bufferedOn other ++
          WriterState.buffered queued payloads
        else state.outboundBuffer.bufferedOn other :=
    fun overdraft => BoundedOutboundBuffer.inserts_keep _ (fun frame member => (frames frame member).1)
      invariant.used
  obtain ⟨used, bufferedKept⟩ : (state.publish queued (state.nextSeqId queued.key)
      payloads).outboundBuffer.used = (state.publish queued (state.nextSeqId queued.key)
        payloads).outboundBuffer.bufferedCount ∧
      ∀ other, (state.publish queued (state.nextSeqId queued.key)
        payloads).outboundBuffer.bufferedOn other =
        if other = queued.key then state.outboundBuffer.bufferedOn other ++
          WriterState.buffered queued payloads
        else state.outboundBuffer.bufferedOn other := by
    unfold WriterState.publish
    dsimp only
    split
    · exact bufferKept _
    · exact bufferKept state.outboundBuffer.fairnessOverdraft
  have published : ∀ key, publishedOn key (steps ++ [step]) = publishedOn key steps ++
      if queued.key = key then [state.nextSeqId queued.key] else [] := by
    intro key
    rw [publishedOn_snoc]
    unfold WriterStep.published
    rw [isStep]
  have hold : ∀ key held, step.hold key held =
      if queued.key = key then held ++ WriterState.buffered queued payloads else held := by
    intro key held
    obtain ⟨failure, isEvent⟩ := isEnd
    unfold WriterStep.hold
    rw [isStep, isEvent]
  refine ⟨queueKept, ?_, used, ?_, ?_, ?_, ?_, ?_, ?_⟩
  · intro key
    have pushed : step.pushed key =
        if queued.key = key then WriterState.scheduled queued payloads else [] := by
      unfold WriterStep.pushed
      rw [isStep]
    have popped : step.popped key = [] := by
      unfold WriterStep.popped
      rw [isStep]
    rw [pushedOn_snoc, poppedOn_snoc, pushed, popped, List.append_nil, invariant.fifo key]
    refine Eq.trans ?_ (congrArg (poppedOn key steps ++ ·) (queuedKept key).symm)
    by_cases same : key = queued.key
    · rw [if_pos same.symm, if_pos same, same, List.append_assoc]
    · rw [if_neg (Ne.symm same), if_neg same, List.append_nil]
  · intro key
    rw [published]
    unfold WriterState.nextSeqId WriterState.publish
    dsimp only
    rw [lookup_insert_eq]
    by_cases same : key = queued.key
    · rw [if_pos same, if_pos same.symm, Option.getD_some, ← WriterState.nextSeqId,
        invariant.next queued.key, saturatingSucc_seqIdAt, same, List.length_append]
      rfl
    · rw [if_neg same, if_neg (Ne.symm same), List.append_nil]
      exact invariant.next key
  · intro other seqId isEncoding
    have none : (state.publish queued (state.nextSeqId queued.key) payloads).encoding = none := idle
    rw [none] at isEncoding
    cases isEncoding
  · intro key index seqId isSeq
    rw [published] at isSeq
    by_cases same : queued.key = key
    · rw [if_pos same] at isSeq
      by_cases last : index < (publishedOn key steps).length
      · rw [List.getElem?_append_left last] at isSeq
        exact invariant.consecutive key index seqId isSeq
      · obtain ⟨inside, -⟩ := List.getElem?_eq_some_iff.mp isSeq
        rw [List.length_append, List.length_singleton] at inside
        obtain rfl : index = (publishedOn key steps).length := by omega
        rw [List.getElem?_concat_length] at isSeq
        rw [← Option.some.inj isSeq, invariant.next queued.key, same]
    · rw [if_neg same, List.append_nil] at isSeq
      exact invariant.consecutive key index seqId isSeq
  · intro key frame member
    rw [bufferedKept key] at member
    split at member
    · rcases List.mem_append.mp member with old | new
      · exact invariant.fits key frame old
      · exact (frames frame new).2.2
    · exact invariant.fits key frame member
  · intro key short
    rw [published] at short ⊢
    rw [bufferedKept key]
    by_cases same : key = queued.key
    · rw [if_pos same.symm, List.length_append, List.length_singleton] at short ⊢
      rw [if_pos same]
      obtain ⟨ordered, bounded⟩ := invariant.ordered key (by omega)
      have fresh : (state.nextSeqId queued.key).toNat = (publishedOn key steps).length + 1 := by
        rw [invariant.next queued.key, ← same, toNat_seqIdAt]
        omega
      refine ⟨List.pairwise_append.mpr ⟨ordered, inOrder, ?_⟩, ?_⟩
      · intro old isOld new isNew
        refine .inl (UInt64.lt_iff_toNat_lt.mpr ?_)
        rw [(frames new isNew).2.1, fresh]
        exact Nat.lt_succ_of_le (bounded old isOld)
      · intro frame member
        rcases List.mem_append.mp member with old | new
        · exact (bounded frame old).trans (Nat.le_succ _)
        · rw [(frames frame new).2.1, fresh]
    · rw [if_neg (Ne.symm same), List.append_nil] at short ⊢
      rw [if_neg same]
      exact invariant.ordered key short
  · intro key short
    rw [published] at short
    rw [bufferedKept key, heldOn_snoc, hold]
    by_cases same : key = queued.key
    · rw [if_pos same.symm, List.length_append, List.length_singleton] at short
      rw [if_pos same, if_pos same.symm, invariant.held key (by omega)]
    · rw [if_neg (Ne.symm same), List.append_nil] at short
      rw [if_neg same, if_neg (Ne.symm same), invariant.held key short]

/-- The state without the envelope that is being encoded. -/
theorem WriterInvariant.idle (invariant : WriterInvariant steps state) :
    WriterInvariant steps { state with encoding := none } :=
  { invariant with encoding := by intro queued seqId isEncoding; cases isEncoding }

variable [StringWriter] [Base64.Engine]

theorem WriterInvariant.pop (invariant : WriterInvariant steps state)
    (idle : state.encoding = none) (serde : SerdeJson Message) :
    WriterInvariant (steps ++ [⟨state, .pop, (state.step serde .pop).1⟩])
      (state.step serde .pop).2 := by
  unfold WriterState.step
  rw [idle]
  dsimp only
  cases head : state.queue.ready with
  | nil =>
    rw [ServerWriterQueue.pop_of_nil head]
    refine invariant.quiet (fun key => ⟨rfl, rfl⟩) (fun key => rfl) (fun key held => rfl) rfl rfl rfl
      ?_
    intro queued seqId isEncoding
    cases isEncoding
  | cons key ready =>
    obtain ⟨frame, popped, first, others, wellFormed⟩ :=
      ServerWriterQueue.pop_of_cons invariant.wellFormed head
    rw [popped, List.head?_cons]
    refine invariant.unpublished (fun key => ⟨rfl, rfl⟩) wellFormed ?_ rfl ?_ invariant.used
      (fun key => List.Sublist.refl _) (fun key _ => rfl)
    · intro other
      by_cases same : key = other
      · subst same
        simpa [WriterStep.popped] using first
      · simpa [WriterStep.popped, same] using (others other (Ne.symm same)).symm
    · intro queued seqId isEncoding
      cases isEncoding

theorem WriterInvariant.ack (invariant : WriterInvariant steps state) (serde : SerdeJson Message)
    (key : StreamKey) (seqId : UInt64) (segmentId : Option Nat) :
    WriterInvariant (steps ++ [⟨state, .ack key seqId segmentId,
        (state.step serde (.ack key seqId segmentId)).1⟩])
      (state.step serde (.ack key seqId segmentId)).2 := by
  refine invariant.unpublished (fun key => ⟨rfl, rfl⟩) invariant.wellFormed (fun key => rfl) rfl
    invariant.encoding (BoundedOutboundBuffer.used_ack key seqId segmentId invariant.used) ?_ ?_
  · intro other
    change ((state.outboundBuffer.ack key seqId segmentId).2.bufferedOn other).Sublist _
    by_cases same : other = key
    · rw [same, BoundedOutboundBuffer.bufferedOn_ack]
      exact (List.dropWhile_suffix _).sublist
    · rw [BoundedOutboundBuffer.bufferedOn_ack_other same]
  intro other ordered
  change (state.outboundBuffer.ack key seqId segmentId).2.bufferedOn other =
    if key = other then _ else _
  by_cases same : key = other
  · subst same
    rw [if_pos rfl, BoundedOutboundBuffer.bufferedOn_ack,
      dropWhile_acknowledged ordered (invariant.fits key)]
  · rw [if_neg same, BoundedOutboundBuffer.bufferedOn_ack_other (Ne.symm same)]

theorem WriterInvariant.hasCapacity (invariant : WriterInvariant steps state)
    (serde : SerdeJson Message) :
    WriterInvariant (steps ++ [⟨state, .hasCapacity, (state.step serde .hasCapacity).1⟩])
      (state.step serde .hasCapacity).2 := by
  refine invariant.unpublished (fun key => ⟨rfl, rfl⟩) invariant.wellFormed (fun key => rfl) rfl
    invariant.encoding (BoundedOutboundBuffer.used_hasCapacity state.cancelled invariant.used) ?_ ?_
  · intro key
    change ((state.outboundBuffer.hasCapacity state.cancelled).2.bufferedOn key).Sublist _
    rw [BoundedOutboundBuffer.bufferedOn_hasCapacity]
    exact List.filter_sublist
  · intro key _
    exact BoundedOutboundBuffer.bufferedOn_hasCapacity state.cancelled key

omit [StringWriter] [Base64.Engine] in
/-- A step that returns neither a published envelope nor a popped frame, at an event that removes no
    frames. -/
theorem WriterInvariant.unnoticed (invariant : WriterInvariant steps state)
    {event : WriterEvent Message} {failure : Option IoError} {output : WriterOutput}
    (isOutput : output = .blocked ∨ output = .encoding ∨ output = .cancelled ∨
      output = .unpublished failure)
    (isEvent : (∃ queued, event = .enqueue queued) ∨ (∃ failure, event = .encoded failure) ∨
      (∃ failure, event = .abandon failure) ∨ (∃ token, event = .cancel token) ∨ event = .pop)
    (queue : next.queue = state.queue)
    (seqIds : next.nextSeqIdByStream = state.nextSeqIdByStream)
    (buffer : next.outboundBuffer = state.outboundBuffer)
    (encoding : ∀ queued seqId, next.encoding = some (queued, seqId) →
      seqId = state.nextSeqId queued.key) :
    WriterInvariant (steps ++ [⟨state, event, output⟩]) next := by
  refine invariant.quiet ?_ ?_ ?_ queue seqIds buffer encoding
  · intro key
    rcases isOutput with rfl | rfl | rfl | rfl <;> exact ⟨rfl, rfl⟩
  · intro key
    rcases isOutput with rfl | rfl | rfl | rfl <;> rfl
  · intro key held
    rcases isOutput with rfl | rfl | rfl | rfl <;>
      rcases isEvent with ⟨_, rfl⟩ | ⟨_, rfl⟩ | ⟨_, rfl⟩ | ⟨_, rfl⟩ | rfl <;> rfl

theorem WriterInvariant.enqueue (invariant : WriterInvariant steps state)
    (idle : state.encoding = none) (serde : SerdeJson Message)
    (queued : QueuedServerEnvelope Message) :
    WriterInvariant (steps ++ [⟨state, .enqueue queued, (state.step serde (.enqueue queued)).1⟩])
      (state.step serde (.enqueue queued)).2 := by
  unfold WriterState.step
  rw [idle]
  dsimp only
  unfold WriterState.startEnqueue
  split
  · exact invariant.unnoticed (.inr (.inr (.inr rfl))) (.inl ⟨queued, rfl⟩) rfl rfl rfl
      invariant.encoding
  split
  · exact invariant.unnoticed (.inr (.inr (.inr rfl))) (.inl ⟨queued, rfl⟩) rfl rfl rfl
      invariant.encoding
  · refine @WriterInvariant.unnoticed _ _ _ _ invariant _ none _ (.inr (.inl rfl))
      (.inl ⟨queued, rfl⟩) rfl rfl rfl ?_
    intro other seqId isEncoding
    cases isEncoding
    rfl

theorem WriterInvariant.encoded (invariant : WriterInvariant steps state)
    (serde : SerdeJson Message) (failure : Option IoError) {seqId : UInt64}
    (busy : state.encoding = some (queued, seqId)) :
    WriterInvariant (steps ++ [⟨state, .encoded failure, (state.step serde (.encoded failure)).1⟩])
      (state.step serde (.encoded failure)).2 := by
  have isNext := invariant.encoding queued seqId busy
  unfold WriterState.step
  rw [busy]
  dsimp only
  generalize isResult : WriterState.encodingResult serde queued seqId failure = result
  unfold WriterState.finishEnqueue
  cases result with
  | error error =>
    dsimp only
    refine @WriterInvariant.unnoticed _ _ _ _ invariant _ none _ (.inr (.inr (.inr rfl)))
      (.inr (.inl ⟨failure, rfl⟩)) ?_ ?_ ?_ ?_
    · split <;> rfl
    · split <;> rfl
    · split <;> rfl
    · intro other otherSeq isEncoding
      split at isEncoding <;> cases isEncoding
  | ok payloads =>
    dsimp only
    split
    · refine invariant.unnoticed (.inr (.inr (.inr rfl))) (.inr (.inl ⟨failure, rfl⟩)) rfl rfl rfl ?_
      intro other otherSeq isEncoding
      cases isEncoding
    have encoded : encodeServerPayloadsForTransport serde
        (WriterState.envelope queued seqId) = .ok payloads := by
      cases failure with
      | none => exact isResult
      | some failure => cases isResult
    have encodes := encodes_of_ok queued.segmentFits encoded
    subst isNext
    exact WriterInvariant.publish invariant.idle encodes rfl rfl ⟨failure, rfl⟩

theorem WriterInvariant.preserved (invariant : WriterInvariant steps state) (serde : SerdeJson Message)
    (event : WriterEvent Message) :
    WriterInvariant (steps ++ [⟨state, event, (state.step serde event).1⟩])
      (state.step serde event).2 := by
  cases event with
  | enqueue queued =>
    cases busy : state.encoding with
    | none => exact invariant.enqueue busy serde queued
    | some encoding =>
      unfold WriterState.step
      rw [busy]
      exact @WriterInvariant.unnoticed _ _ _ _ invariant _ none _ (.inl rfl) (.inl ⟨queued, rfl⟩)
        rfl rfl rfl invariant.encoding
  | encoded failure =>
    cases busy : state.encoding with
    | some encoding => exact invariant.encoded serde failure busy
    | none =>
      unfold WriterState.step
      rw [busy]
      exact @WriterInvariant.unnoticed _ _ _ _ invariant _ none _ (.inl rfl)
        (.inr (.inl ⟨failure, rfl⟩)) rfl rfl rfl invariant.encoding
  | abandon failure =>
    cases busy : state.encoding with
    | some encoding =>
      unfold WriterState.step
      rw [busy]
      refine invariant.unnoticed (.inr (.inr (.inr rfl))) (.inr (.inr (.inl ⟨failure, rfl⟩))) rfl rfl
        rfl ?_
      intro queued seqId isEncoding
      cases isEncoding
    | none =>
      unfold WriterState.step
      rw [busy]
      exact @WriterInvariant.unnoticed _ _ _ _ invariant _ none _ (.inl rfl)
        (.inr (.inr (.inl ⟨failure, rfl⟩))) rfl rfl rfl invariant.encoding
  | pop =>
    cases busy : state.encoding with
    | none => exact invariant.pop busy serde
    | some encoding =>
      unfold WriterState.step
      rw [busy]
      exact @WriterInvariant.unnoticed _ _ _ _ invariant _ none _ (.inl rfl)
        (.inr (.inr (.inr (.inr rfl)))) rfl rfl rfl invariant.encoding
  | ack key seqId segmentId => exact invariant.ack serde key seqId segmentId
  | cancel token =>
    exact @WriterInvariant.unnoticed _ _ _ _ invariant _ none _ (.inr (.inr (.inl rfl)))
      (.inr (.inr (.inr (.inl ⟨token, rfl⟩)))) rfl rfl rfl invariant.encoding
  | hasCapacity => exact invariant.hasCapacity serde

end Invariant

/-! ## Runs -/

section Runs

variable [StringWriter] [Base64.Engine] (serde : SerdeJson Message)

theorem runWriter_append (first second : List (WriterEvent Message)) (state : WriterState Message) :
    runWriter serde (first ++ second) state =
      ((runWriter serde first state).1 ++ (runWriter serde second (runWriter serde first state).2).1,
        (runWriter serde second (runWriter serde first state).2).2) := by
  induction first generalizing state with
  | nil => rfl
  | cons event events ih => simp only [List.cons_append, runWriter, ih]

theorem runWriter_invariant (events : List (WriterEvent Message)) :
    WriterInvariant (runWriter serde events {}).1 (runWriter serde events {}).2 := by
  induction events using List.reverseRecOn with
  | nil =>
    refine ⟨⟨List.nodup_nil, ?_, ?_⟩, fun key => rfl, rfl, fun key => rfl, ?_, ?_, ?_, ?_, ?_⟩
    · intro key
      simp [runWriter, ServerWriterQueue.queuedOn]
    · intro key frames found
      cases found
    · intro queued seqId isEncoding
      cases isEncoding
    · intro key index seqId isSeq
      cases isSeq
    · intro key frame member
      cases member
    · intro key _
      exact ⟨List.Pairwise.nil, fun frame member => by cases member⟩
    · intro key _
      rfl
  | append_singleton events event ih =>
    rw [runWriter_append]
    exact ih.preserved serde event

variable {state : WriterState Message}

/-- Pops alone take the frames of each stream until none is left. -/
theorem runWriter_drain (count : Nat) (idle : state.encoding = none)
    (wellFormed : state.queue.WellFormed) (isCount : state.queue.queuedCount = count)
    (key : StreamKey) :
    poppedOn key (runWriter serde (List.replicate count .pop) state).1 =
      state.queue.queuedOn key := by
  induction count generalizing state with
  | zero => exact (ServerWriterQueue.queuedOn_of_count isCount key).symm
  | succ count ih =>
    cases head : state.queue.ready with
    | nil =>
      rw [wellFormed.queuedCount_of_nil head] at isCount
      cases isCount
    | cons first ready =>
      obtain ⟨frame, popped, isFirst, others, kept⟩ :=
        ServerWriterQueue.pop_of_cons wellFormed head
      have fewer := ServerWriterQueue.queuedCount_pop popped
      have rest := @ih { state with queue := state.queue.pop.2 } idle kept
        (Nat.succ.inj (fewer.symm.trans isCount))
      have stepped : state.step serde .pop =
          (.popped first frame, { state with queue := state.queue.pop.2 }) := by
        unfold WriterState.step
        rw [idle, head, popped]
        rfl
      rw [List.replicate_succ, runWriter, stepped]
      change (WriterStep.popped key _) ++ poppedOn key _ = _
      rw [rest]
      by_cases same : first = key
      · subst same
        rw [isFirst]
        simp [WriterStep.popped]
      · rw [others key (Ne.symm same)]
        simp [WriterStep.popped, same]

/-- Each sequence id is one more than that before it. -/
def Consecutive (seqIds : List UInt64) : Prop :=
  ∀ index first second, seqIds[index]? = some first → seqIds[index + 1]? = some second →
    second.toNat = first.toNat + 1

omit [StringWriter] [Base64.Engine] in
theorem consecutive_of_invariant {steps : List (WriterStep Message)}
    (invariant : WriterInvariant steps state) {key : StreamKey}
    (short : (publishedOn key steps).length < 2 ^ 64) : Consecutive (publishedOn key steps) := by
  intro index first second isFirst isSecond
  obtain ⟨inside, -⟩ := List.getElem?_eq_some_iff.mp isSecond
  rw [invariant.consecutive key index first isFirst,
    invariant.consecutive key (index + 1) second isSecond, toNat_seqIdAt, toNat_seqIdAt]
  omega

/-- A step that publishes nothing although it was to, and all that it leaves as it is. -/
structure Declines (serde : SerdeJson Message) (event : WriterEvent Message)
    (state : WriterState Message) : Prop where
  output : (state.step serde event).1 = .unpublished none
  queue : (state.step serde event).2.queue = state.queue
  seqIds : (state.step serde event).2.nextSeqIdByStream = state.nextSeqIdByStream
  buffer : (state.step serde event).2.outboundBuffer = state.outboundBuffer

theorem declines_cancelled {queued : QueuedServerEnvelope Message} (idle : state.encoding = none)
    (cancelled : isCancelled state.cancelled queued.deliveryFailure) :
    Declines serde (.enqueue queued) state := by
  have stepped : state.step serde (.enqueue queued) = (.unpublished none, state) := by
    unfold WriterState.step
    rw [idle]
    exact if_pos cancelled
  constructor <;> rw [stepped]

theorem declines_encoded {queued : QueuedServerEnvelope Message} {seqId : UInt64}
    {failure : Option IoError} (busy : state.encoding = some (queued, seqId))
    (fails : (∃ error, WriterState.encodingResult serde queued seqId failure = .error error) ∨
      isCancelled state.cancelled queued.deliveryFailure) :
    Declines serde (.encoded failure) state := by
  have stepped : ∃ cancelled, state.step serde (.encoded failure) =
      (.unpublished none, { state with encoding := none, cancelled }) := by
    unfold WriterState.step
    rw [busy]
    dsimp only
    unfold WriterState.finishEnqueue
    cases result : WriterState.encodingResult serde queued seqId failure with
    | error error =>
      dsimp only
      split
      · exact ⟨state.cancelled, rfl⟩
      · exact ⟨_, rfl⟩
    | ok payloads =>
      rcases fails with ⟨error, isError⟩ | cancelled
      · rw [result] at isError
        cases isError
      · exact ⟨state.cancelled, if_pos cancelled⟩
  obtain ⟨cancelled, stepped⟩ := stepped
  constructor <;> rw [stepped]

/-- The writer after any steps. The streams that are ready are those with frames; the frames of a
    stream are popped in the order they were pushed, and pops alone take all that are left; a
    delivery that is cancelled or cannot be encoded publishes nothing; the counter is the number of
    buffered frames. As long as the sequence ids of a stream last, they are consecutive, its frames
    are in their order, an acknowledgement removes exactly what it covers, and the buffer holds
    exactly what was published and neither acknowledged nor pruned since. -/
theorem writer_delivers_and_retains (serde : SerdeJson Message)
    (events : List (WriterEvent Message)) :
    let steps := (runWriter serde events {}).1
    let state := (runWriter serde events {}).2
    (state.queue.ready.Nodup ∧
      ∀ key, key ∈ state.queue.ready ↔ state.queue.queuedOn key ≠ []) ∧
    (∀ key, pushedOn key steps = poppedOn key steps ++ state.queue.queuedOn key) ∧
    (state.encoding = none → ∀ key, poppedOn key (runWriter serde
      (events ++ List.replicate state.queue.queuedCount .pop) {}).1 = pushedOn key steps) ∧
    (∀ queued, state.encoding = none → isCancelled state.cancelled queued.deliveryFailure →
      Declines serde (.enqueue queued) state) ∧
    (∀ queued seqId failure, state.encoding = some (queued, seqId) →
      (∃ error, WriterState.encodingResult serde queued seqId failure = .error error) ∨
        isCancelled state.cancelled queued.deliveryFailure →
      Declines serde (.encoded failure) state) ∧
    state.outboundBuffer.used = state.outboundBuffer.bufferedCount ∧
    ∀ key, (publishedOn key steps).length < 2 ^ 64 →
      Consecutive (publishedOn key steps) ∧
      (state.outboundBuffer.bufferedOn key).Pairwise BufferedServerEnvelope.Precedes ∧
      (∀ seqId segmentId, (state.outboundBuffer.ack key seqId segmentId).2.bufferedOn key =
          (state.outboundBuffer.bufferedOn key).filter
            (fun frame => !frame.acknowledged seqId segmentId) ∧
        ∀ other, other ≠ key → (state.outboundBuffer.ack key seqId segmentId).2.bufferedOn other =
          state.outboundBuffer.bufferedOn other) ∧
      state.outboundBuffer.bufferedOn key = heldOn key steps := by
  intro steps state
  have invariant : WriterInvariant steps state := runWriter_invariant serde events
  refine ⟨⟨invariant.wellFormed.nodup, invariant.wellFormed.ready⟩, invariant.fifo, ?_, ?_, ?_,
    invariant.used, ?_⟩
  · intro idle key
    have drained := runWriter_drain serde _ idle invariant.wellFormed rfl key
    rw [runWriter_append, invariant.fifo key]
    unfold poppedOn at drained ⊢
    rw [List.flatMap_append, drained]
  · intro queued idle cancelled
    exact declines_cancelled serde idle cancelled
  · intro queued seqId failure busy fails
    exact declines_encoded serde busy fails
  intro key short
  have ordered := (invariant.ordered key short).1
  refine ⟨consecutive_of_invariant invariant short, ordered, ?_, invariant.held key short⟩
  intro seqId segmentId
  refine ⟨?_, fun other differs =>
    BoundedOutboundBuffer.bufferedOn_ack_other differs seqId segmentId⟩
  rw [BoundedOutboundBuffer.bufferedOn_ack,
    dropWhile_acknowledged ordered (invariant.fits key)]

end Runs

attribute [local instance] visible Base64.standard

/-- A pong of client `c` on stream `s`. -/
def queuedPong : QueuedServerEnvelope Unit where
  event := .pong .active
  clientId := ⟨[99]⟩
  streamId := ⟨[115]⟩
  writeCompleteTx := none
  deliveryFailure := none
  segmentFits := by intro segmentId isSegment; cases isSegment

/-- Two pongs are published, and the first one is popped and acknowledged. -/
theorem writer_delivers_and_retains_pongs :
    let events : List (WriterEvent Unit) := [.enqueue queuedPong, .encoded none,
      .enqueue queuedPong, .encoded none, .pop, .ack queuedPong.key 1 none]
    let steps := (runWriter (numberJson 1) events {}).1
    publishedOn queuedPong.key steps = [1, 2] ∧ Consecutive (publishedOn queuedPong.key steps) ∧
      (heldOn queuedPong.key steps).map BufferedServerEnvelope.seqId = [2] ∧
      (runWriter (numberJson 1) events {}).2.outboundBuffer.bufferedOn queuedPong.key =
        heldOn queuedPong.key steps := by
  intro events steps
  have published : publishedOn queuedPong.key steps = [1, 2] := by decide
  obtain ⟨-, -, -, -, -, -, retains⟩ := writer_delivers_and_retains (numberJson 1) events
  obtain ⟨consecutive, -, -, held⟩ := retains queuedPong.key (by
    change (publishedOn queuedPong.key steps).length < _
    rw [published]
    decide)
  exact ⟨published, consecutive, by decide, held⟩

/-! ## The end of the sequence ids -/

/-- A pong that is published, popped and acknowledged. -/
def pongRound : List (WriterEvent Unit) :=
  [.enqueue queuedPong, .encoded none, .pop, .ack queuedPong.key (2 ^ 64 - 1) none]

/-- The stream of the pongs has a sequence id, or there is room for one more stream. -/
structure Accepts (state : WriterState Unit) : Prop where
  idle : state.encoding = none
  room : ¬(MAX_TRANSPORT_STREAM_IDENTITIES ≤ state.nextSeqIdByStream.entries.length ∧
    queuedPong.key ∉ state.nextSeqIdByStream)

theorem pop_publishes_nothing (serde : SerdeJson Message) (state : WriterState Message)
    (key : StreamKey) :
    WriterStep.published key ⟨state, .pop, (state.step serde .pop).1⟩ = [] := by
  unfold WriterStep.published WriterState.step
  cases state.encoding with
  | some encoding => rfl
  | none =>
    dsimp only
    cases state.queue.ready.head? with
    | none => rfl
    | some key => cases state.queue.pop.1 <;> rfl

theorem pongRound_publishes {state : WriterState Unit} (accepts : Accepts state) :
    (publishedOn queuedPong.key (runWriter (numberJson 1) pongRound state).1).length = 1 ∧
      Accepts (runWriter (numberJson 1) pongRound state).2 := by
  have started : state.step (numberJson 1) (.enqueue queuedPong) = (.encoding,
      { state with encoding := some (queuedPong, state.nextSeqId queuedPong.key) }) := by
    unfold WriterState.step
    rw [accepts.idle]
    exact if_neg accepts.room
  obtain ⟨payloads, published⟩ : ∃ payloads, WriterState.step (numberJson 1) (.encoded none)
      { state with encoding := some (queuedPong, state.nextSeqId queuedPong.key) } =
      (.published queuedPong.key (state.nextSeqId queuedPong.key)
        (WriterState.scheduled queuedPong payloads) (WriterState.buffered queuedPong payloads),
        WriterState.publish queuedPong (state.nextSeqId queuedPong.key) payloads
          { state with encoding := none }) := ⟨_, rfl⟩
  have present : queuedPong.key ∈ (WriterState.publish queuedPong
      (state.nextSeqId queuedPong.key) payloads
        { state with encoding := none }).nextSeqIdByStream := by
    exact (AList.mem_insert _).mpr (.inl rfl)
  unfold pongRound
  simp only [runWriter, started, published]
  refine ⟨?_, rfl, fun full => full.2 present⟩
  simp only [publishedOn, List.flatMap_cons, List.flatMap_nil, pop_publishes_nothing]
  rfl

/-- Any number of rounds publishes as many pongs. -/
theorem pongRounds_publish (count : Nat) {state : WriterState Unit} (accepts : Accepts state) :
    (publishedOn queuedPong.key (runWriter (numberJson 1)
      (List.replicate count pongRound).flatten state).1).length = count := by
  induction count generalizing state with
  | zero => rfl
  | succ count ih =>
    obtain ⟨one, accepts⟩ := pongRound_publishes accepts
    have others := ih accepts
    rw [List.replicate_succ, List.flatten_cons, runWriter_append]
    unfold publishedOn at one others ⊢
    rw [List.flatMap_append, List.length_append, one, others, Nat.add_comm]

/-- The sequence ids of a stream end at `u64::MAX`, which the next message gets again. -/
theorem seqIds_run_out :
    ¬Consecutive (publishedOn queuedPong.key (runWriter (numberJson 1)
      (List.replicate (2 ^ 64) pongRound).flatten {}).1) := by
  have length := @pongRounds_publish (2 ^ 64) {} ⟨rfl, fun full => absurd full.1 (by decide)⟩
  have invariant := runWriter_invariant (numberJson 1) (List.replicate (2 ^ 64) pongRound).flatten
  intro consecutive
  generalize runWriter (numberJson 1) (List.replicate (2 ^ 64) pongRound).flatten {} = run
    at length invariant consecutive
  have next := consecutive (2 ^ 64 - 2) _ _ (List.getElem?_eq_getElem (by omega))
    (List.getElem?_eq_getElem (by omega))
  rw [invariant.consecutive _ _ _ (List.getElem?_eq_getElem _),
    invariant.consecutive _ _ _ (List.getElem?_eq_getElem _), toNat_seqIdAt, toNat_seqIdAt] at next
  omega

end Codex.RemoteControl
