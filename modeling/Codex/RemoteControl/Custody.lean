import Codex.RemoteControl.Reassembly

/-!
# Delivery of segmented client messages

A message that was admitted stays in the custody of the reassembler of
`app-server-transport/src/transport/remote_control/segment.rs`, its chunks first and the whole
message then, until it is committed, evicted, expired or invalidated.
-/

namespace Codex.RemoteControl

open Codex.Machine

section Engine

variable {Message : Type} [Base64.Engine]

/-- A client message cut into segments that the reassembler takes. -/
structure SegmentedMessage where
  key : StreamKey
  seqId : UInt64
  texts : List Bytes
  chunks : List Bytes
  decoded : texts.map Base64.decode = chunks.map some
  nonempty : ∀ text ∈ texts, text ≠ []
  segments : 0 < texts.length ∧ texts.length ≤ REMOTE_CONTROL_SEGMENT_COUNT_MAX
  size : 0 < chunks.flatten.length ∧ chunks.flatten.length ≤ REMOTE_CONTROL_REASSEMBLED_MAX_BYTES

def ClientEvent.isChunk : ClientEvent Message → Bool
  | clientMessageChunk .. => true
  | _ => false

/-- The clock that a call expires assemblies by. -/
def ReassemblerCall.clock : ReassemblerCall Message → Option Nat
  | observe _ expiryNow _ _ => some expiryNow
  | expire now => some now
  | _ => none

namespace SegmentedMessage

def raw (message : SegmentedMessage) : Bytes := message.chunks.flatten

def metadata (message : SegmentedMessage) : ClientSegmentMetadata :=
  ⟨message.seqId, message.texts.length, message.raw.length⟩

/-- The call observes the envelope of a segment. -/
def Brings (message : SegmentedMessage) (call : ReassemblerCall Message) (segmentId : Nat)
    (envelope : ClientEnvelope Message) : Prop :=
  ∃ rank expiryNow now text, call = .observe rank expiryNow now envelope ∧
    message.texts[segmentId]? = some text ∧
    envelope.event =
      .clientMessageChunk segmentId message.texts.length message.raw.length text ∧
    envelope.clientId = message.key.1 ∧ envelope.streamId = some message.key.2 ∧
    envelope.seqId = some message.seqId

/-- Traffic on other streams, and what else neither invalidates nor commits the message. -/
def Foreign (message : SegmentedMessage) : ReassemblerCall Message → Prop
  | .observe _ _ _ envelope => ¬(envelope.event.isChunk ∧ envelope.clientId = message.key.1 ∧
      envelope.streamId = some message.key.2)
  | .expire _ => True
  | .commit key seqId => (key, seqId) ≠ (message.key, message.seqId)
  | .invalidateIncompleteStream key => key ≠ message.key
  | .invalidateStream key => key ≠ message.key
  | .invalidateClient clientId => clientId ≠ message.key.1

/-- The call neither expires nor evicts the assembly of the message. A call on another stream that
    does not expire it can only evict it. -/
structure Spared (message : SegmentedMessage) (call : ReassemblerCall Message)
    (state : ClientSegmentReassembler) : Prop where
  notExpired : ∀ now assembly, call.clock = some now →
    state.assemblies.lookup message.key = some assembly →
    ClientSegmentReassembler.live now message.key assembly
  notEvicted : message.Foreign call → (state.assemblies.lookup message.key).isSome →
    ((call.apply state).2.assemblies.lookup message.key).isSome

/-- The first chunk of the message is taken. -/
structure Admitted (message : SegmentedMessage) (first : ReassemblerCall Message)
    (state : ClientSegmentReassembler) : Prop where
  brings : ∃ envelope, message.Brings first 0 envelope
  fresh : state.completed.lookup (message.key, message.seqId) = none
  taken : (first.apply state).1 ≠ some .dropped

/-- The chunks of the message arrive in order, with duplicates of those already seen and with other
    traffic between them, and the message is spared. -/
structure Undisturbed (message : SegmentedMessage) (first : ReassemblerCall Message)
    (rest : List (ReassemblerCall Message)) (state : ClientSegmentReassembler) : Prop where
  traffic : ∀ call ∈ rest,
    (∃ segmentId envelope, message.Brings call segmentId envelope) ∨ message.Foreign call
  order : ∀ before call after segmentId envelope, rest = before ++ call :: after →
    message.Brings call segmentId envelope →
    ∀ lower < segmentId, ∃ earlier ∈ first :: before, ∃ other, message.Brings earlier lower other
  spared : ∀ before call after, rest = before ++ call :: after →
    message.Spared call (ReassemblerCall.applyAll (first :: before) state).2

/-- All segments are among those that the calls bring. -/
def Arrived (message : SegmentedMessage) (calls : List (ReassemblerCall Message)) : Prop :=
  ∀ segmentId < message.texts.length,
    ∃ call ∈ calls, ∃ envelope, message.Brings call segmentId envelope

/-- Each chunk that comes when all have arrived, the last one or a replayed one, returns the
    message. -/
def Returned (message : SegmentedMessage) (calls : List (ReassemblerCall Message))
    (state : ClientSegmentReassembler) : Prop :=
  ∀ before call after segmentId envelope, calls = before ++ call :: after →
    message.Brings call segmentId envelope → message.Arrived (before ++ [call]) →
    (call.apply (ReassemblerCall.applyAll before state).2).1 =
      some (.reassembled envelope message.raw)

end SegmentedMessage

namespace ClientSegmentReassembler

variable {state middle next : ClientSegmentReassembler} {key other : StreamKey} {seqId : UInt64}

/-- The completed message is as it was, and the stream has no assembly that it had not. -/
structure Apart (key : StreamKey) (seqId : UInt64) (state next : ClientSegmentReassembler) :
    Prop where
  completed : next.completed.lookup (key, seqId) = state.completed.lookup (key, seqId)
  assemblies : ∀ assembly, next.assemblies.lookup key = some assembly →
    state.assemblies.lookup key = some assembly

section Holding

omit [Base64.Engine]

theorem Apart.refl (state : ClientSegmentReassembler) : Apart key seqId state state :=
  ⟨rfl, fun _ found => found⟩

theorem Apart.trans (first : Apart key seqId state middle) (second : Apart key seqId middle next) :
    Apart key seqId state next :=
  ⟨second.completed.trans first.completed,
    fun assembly found => first.assemblies assembly (second.assemblies assembly found)⟩

theorem removeAssembly_completed (key : StreamKey) :
    (state.removeAssembly key).completed = state.completed := by
  unfold removeAssembly
  split <;> rfl

theorem apart_removeAssembly (other : StreamKey) :
    Apart key seqId state (state.removeAssembly other) := by
  refine ⟨?_, (shrinks_removeAssembly other).assemblies key⟩
  rw [removeAssembly_completed]

theorem apart_removeAssemblies (keys : List StreamKey) :
    Apart key seqId state (keys.foldl (fun state key => state.removeAssembly key) state) := by
  induction keys generalizing state with
  | nil => exact .refl state
  | cons other keys ih => exact (apart_removeAssembly other).trans ih

theorem apart_expireAssemblies (now : Nat) : Apart key seqId state (state.expireAssemblies now) :=
  ⟨rfl, (shrinks_expireAssemblies now).assemblies key⟩

theorem apart_commitCompleted {otherSeq : UInt64} (differs : (other, otherSeq) ≠ (key, seqId)) :
    Apart key seqId state (state.commitCompleted other otherSeq) := by
  unfold commitCompleted
  split
  · exact .refl state
  · refine ⟨?_, fun _ found => found⟩
    dsimp only
    rw [lookup_erase_eq, if_neg differs.symm]

theorem apart_retainCompleted {keep : StreamKey → Bool} (keeps : keep key) :
    Apart key seqId state (state.retainCompleted keep) := by
  refine ⟨?_, fun _ found => found⟩
  unfold retainCompleted
  dsimp only
  rw [lookup_retain]
  cases state.completed.lookup (key, seqId) with
  | none => rfl
  | some raw => exact Option.filter_some_pos keeps

theorem apart_evictLoop (rank : StreamKey → Nat) (rounds : Nat) :
    Apart key seqId state (evictLoop rank rounds state) := by
  induction rounds generalizing state with
  | zero => exact .refl state
  | succ rounds ih =>
    unfold evictLoop
    split
    · exact .refl state
    split
    · exact .refl state
    · next victim _ => exact (apart_removeAssembly victim.1).trans ih

theorem apart_closeOther (metadata : ClientSegmentMetadata) (segmentId : Nat) :
    Apart key seqId state (state.closeOther other metadata segmentId) := by
  unfold closeOther
  split
  · exact apart_removeAssembly other
  · exact .refl state

/-- A new assembly of another stream. -/
theorem apart_insert (differs : key ≠ other) (assembly : ClientSegmentAssembly) (reserved : Nat) :
    Apart key seqId state { state with
      reservedBytes := reserved
      assemblies := state.assemblies.insert other assembly } := by
  refine ⟨rfl, ?_⟩
  intro assembly found
  dsimp only at found
  rw [lookup_insert_eq, if_neg differs] at found
  exact found

theorem apart_admitAssembly (rank : StreamKey → Nat) (now : Nat) (metadata : ClientSegmentMetadata)
    (segmentId : Nat) (differs : key ≠ other) :
    Apart key seqId state (state.admitAssembly rank now other metadata segmentId).2 := by
  unfold admitAssembly
  split
  · exact .refl state
  split
  · exact .refl state
  dsimp only
  split
  · exact apart_evictLoop rank _
  · exact (apart_evictLoop rank _).trans (apart_insert differs _ _)

end Holding

theorem apart_advanceAssembly (now : Nat) (envelope : ClientEnvelope Message)
    (metadata : ClientSegmentMetadata) (segmentId : Nat) (text : Bytes) (differs : key ≠ other) :
    Apart key seqId state
      (state.advanceAssembly now envelope other metadata segmentId text).2 := by
  unfold advanceAssembly
  split
  · exact .refl state
  split
  · exact apart_insert differs _ _
  · exact .refl state
  · exact apart_removeAssembly other
  refine ⟨?_, ?_⟩
  · dsimp only
    rw [lookup_insert_eq, if_neg (fun same => differs (congrArg Prod.fst same))]
  · intro assembly found
    dsimp only at found
    rw [lookup_erase_eq, if_neg differs] at found
    exact found

theorem apart_observeChunk (rank : StreamKey → Nat) (now : Nat) (envelope : ClientEnvelope Message)
    (metadata : ClientSegmentMetadata) (segmentId : Nat) (text : Bytes) (differs : key ≠ other) :
    Apart key seqId state
      (state.observeChunk rank now envelope other metadata segmentId text).2 := by
  have admits : Apart key seqId state
      ((state.closeOther other metadata segmentId).admitAssembly rank now other metadata segmentId).2 :=
    (apart_closeOther metadata segmentId).trans (apart_admitAssembly rank now metadata segmentId differs)
  unfold observeChunk
  split
  · exact .refl state
  split
  · exact .refl state
  split
  · exact apart_removeAssembly other
  split
  · next refused =>
    rw [refused] at admits
    exact admits
  · next admitted =>
    rw [admitted] at admits
    exact admits.trans (apart_advanceAssembly now envelope metadata segmentId text differs)

theorem apart_observe (rank : StreamKey → Nat) (expiryNow now : Nat)
    (envelope : ClientEnvelope Message)
    (differs : ¬(envelope.event.isChunk ∧ envelope.clientId = key.1 ∧
      envelope.streamId = some key.2)) :
    Apart key seqId state (state.observe rank expiryNow now envelope).2 := by
  have expired : Apart key seqId state (state.expireAssemblies expiryNow) :=
    apart_expireAssemblies expiryNow
  unfold observe
  dsimp only
  split
  · next isChunk =>
    split
    · exact expired
    split
    · exact expired
    next streamId onStream =>
    refine expired.trans (apart_observeChunk rank now envelope _ _ _ ?_)
    intro same
    refine differs ⟨?_, ?_, ?_⟩
    · rw [isChunk]
      rfl
    · rw [same]
    · rw [onStream, same]
  · exact expired

end ClientSegmentReassembler

/-- A call that is foreign to a message leaves its completed form alone, and puts nothing in the
    place of its assembly. -/
theorem apart_of_foreign (message : SegmentedMessage) (call : ReassemblerCall Message)
    (state : ClientSegmentReassembler) (foreign : message.Foreign call) :
    ClientSegmentReassembler.Apart message.key message.seqId state (call.apply state).2 := by
  cases call with
  | observe rank expiryNow now envelope =>
    exact ClientSegmentReassembler.apart_observe rank expiryNow now envelope foreign
  | expire now => exact ClientSegmentReassembler.apart_expireAssemblies now
  | commit key seqId => exact ClientSegmentReassembler.apart_commitCompleted foreign
  | invalidateIncompleteStream key => exact ClientSegmentReassembler.apart_removeAssembly key
  | invalidateStream key =>
    exact (ClientSegmentReassembler.apart_removeAssembly key).trans
      (ClientSegmentReassembler.apart_retainCompleted (decide_eq_true (Ne.symm foreign)))
  | invalidateClient clientId =>
    exact (ClientSegmentReassembler.apart_removeAssemblies _).trans
      (ClientSegmentReassembler.apart_retainCompleted (decide_eq_true (Ne.symm foreign)))

namespace SegmentedMessage

variable {message : SegmentedMessage} {state : ClientSegmentReassembler}

theorem length_chunks (message : SegmentedMessage) :
    message.chunks.length = message.texts.length := by
  have same := congrArg List.length message.decoded
  simpa using same.symm

variable {segmentId progress : Nat} {text : Bytes} {call first : ReassemblerCall Message}
   {envelope : ClientEnvelope Message} {calls rest : List (ReassemblerCall Message)}

/-- What the text of a segment decodes to. -/
theorem decode_text (isText : message.texts[segmentId]? = some text) :
    ∃ chunk, message.chunks[segmentId]? = some chunk ∧ Base64.decode text = some chunk := by
  have same := congrArg (fun decoded => decoded[segmentId]?) message.decoded
  simp only [List.getElem?_map, isText, Option.map_some] at same
  cases isChunk : message.chunks[segmentId]? with
  | none =>
    rw [isChunk] at same
    cases same
  | some chunk =>
    rw [isChunk] at same
    exact ⟨chunk, rfl, Option.some.inj same⟩

/-- The bytes of the first segments. -/
def upTo (message : SegmentedMessage) (progress : Nat) : Bytes :=
  (message.chunks.take progress).flatten

theorem upTo_succ {chunk : Bytes} (isChunk : message.chunks[progress]? = some chunk) :
    message.upTo (progress + 1) = message.upTo progress ++ chunk := by
  unfold upTo
  rw [List.take_add_one, isChunk, List.flatten_append]
  simp

theorem upTo_all (all : message.texts.length ≤ progress) :
    message.upTo progress = message.raw := by
  unfold upTo raw
  rw [List.take_of_length_le (by rw [length_chunks]; exact all)]

theorem length_upTo_le (message : SegmentedMessage) (progress : Nat) :
    (message.upTo progress).length ≤ message.raw.length := by
  unfold upTo raw
  conv => rhs; rw [← List.take_append_drop progress message.chunks, List.flatten_append]
  rw [List.length_append]
  exact Nat.le_add_right _ _

/-- The assembly of a message that has some of its segments. -/
def assembly (message : SegmentedMessage) (progress seenAt : Nat) : ClientSegmentAssembly :=
  ⟨message.metadata, message.upTo progress, progress, seenAt⟩

/-- The next segment of a message extends its assembly, and the last one completes it. -/
theorem advance_assembly (seenAt now : Nat) (isText : message.texts[progress]? = some text) :
    (message.assembly progress seenAt).advance message.metadata now progress text =
      if progress + 1 < message.texts.length then (.pending, message.assembly (progress + 1) now)
      else (.complete message.raw, message.assembly progress seenAt) := by
  obtain ⟨chunk, isChunk, decodes⟩ := decode_text isText
  have extended := upTo_succ isChunk
  have within := message.length_upTo_le (progress + 1)
  have limit : message.raw.length ≤ REMOTE_CONTROL_REASSEMBLED_MAX_BYTES := message.size.2
  rw [extended, List.length_append] at within
  have estimate := Base64.length_decode decodes
  -- The room for the chunk is cut at the message size, which the chunk keeps to.
  have fits : Base64.decodeSlice text (min message.metadata.messageSizeBytes
      (saturatingAdd (message.upTo progress).length (Base64.decodedLenEstimate text.length)) -
        (message.upTo progress).length) = some chunk := by
    refine Base64.decodeSlice_eq_some.mpr ⟨decodes, ?_⟩
    unfold saturatingAdd metadata
    norm_num [REMOTE_CONTROL_REASSEMBLED_MAX_BYTES] at limit
    have usize : USIZE_MAX = 18446744073709551615 := rfl
    dsimp only
    omega
  have count : message.metadata.segmentCount = message.texts.length := rfl
  unfold ClientSegmentAssembly.advance assembly
  simp only [UInt64.lt_irrefl, lt_self_iff_false, ne_eq, not_true_eq_false, if_false, fits, count,
    ← extended]
  by_cases more : progress + 1 < message.texts.length
  · rw [if_pos more, if_pos more]
  · have whole := message.upTo_all (Nat.le_of_not_lt more)
    rw [if_neg more, if_neg more, whole, if_neg (by simp [metadata])]

/-- The message is open with its first segments, or it is completed. -/
def Custody (message : SegmentedMessage) (progress : Nat) (state : ClientSegmentReassembler) :
    Prop :=
  (0 < progress ∧ progress < message.texts.length ∧
      state.completed.lookup (message.key, message.seqId) = none ∧
      ∃ seenAt, state.assemblies.lookup message.key = some (message.assembly progress seenAt)) ∨
    (progress = message.texts.length ∧
      state.completed.lookup (message.key, message.seqId) = some message.raw)

theorem valid_segment (isText : message.texts[segmentId]? = some text) :
    ¬(invalidReason message.metadata segmentId text).isSome := by
  obtain ⟨inside, -⟩ := List.getElem?_eq_some_iff.mp isText
  have nonempty := message.nonempty text (List.mem_of_getElem? isText)
  have segments := message.segments
  have size : 0 < message.raw.length ∧
    message.raw.length ≤ REMOTE_CONTROL_REASSEMBLED_MAX_BYTES := message.size
  unfold invalidReason metadata
  dsimp only
  rw [if_neg (by omega), if_neg (by omega), if_neg (by omega), if_neg (by omega),
    if_neg (by omega), if_neg (by simpa using nonempty)]
  simp

/-- The assembly of a message takes the next segment. -/
theorem advanceAssembly_next {progress seenAt : Nat} {text : Bytes} (now : Nat)
    (envelope : ClientEnvelope Message) (isText : message.texts[progress]? = some text)
    (fresh : state.completed.lookup (message.key, message.seqId) = none)
    (found : state.assemblies.lookup message.key = some (message.assembly progress seenAt)) :
    message.Custody (progress + 1) (state.advanceAssembly now envelope message.key message.metadata
      progress text).2 ∧
    (progress + 1 = message.texts.length →
      (state.advanceAssembly now envelope message.key message.metadata progress text).1 =
        .reassembled envelope message.raw) := by
  obtain ⟨inside, -⟩ := List.getElem?_eq_some_iff.mp isText
  unfold ClientSegmentReassembler.advanceAssembly
  rw [found]
  dsimp only
  rw [advance_assembly seenAt now isText]
  by_cases more : progress + 1 < message.texts.length
  · rw [if_pos more]
    refine ⟨.inl ⟨Nat.succ_pos _, more, fresh, now, ?_⟩, fun last => ?_⟩
    · exact AList.lookup_insert _
    · omega
  · rw [if_neg more]
    refine ⟨.inr ⟨by omega, ?_⟩, fun _ => rfl⟩
    exact AList.lookup_insert _

/-- A segment that is there already, or the next one. -/
theorem observeChunk_custody (rank : StreamKey → Nat) (now : Nat)
    (envelope : ClientEnvelope Message) (isText : message.texts[segmentId]? = some text)
    (inOrder : segmentId ≤ progress) (custody : message.Custody progress state) :
    message.Custody (max progress (segmentId + 1)) (state.observeChunk rank now envelope message.key
      message.metadata segmentId text).2 ∧
    (max progress (segmentId + 1) = message.texts.length →
      (state.observeChunk rank now envelope message.key message.metadata segmentId text).1 =
        .reassembled envelope message.raw) := by
  obtain ⟨inside, -⟩ := List.getElem?_eq_some_iff.mp isText
  have seqId : message.metadata.seqId = message.seqId := rfl
  unfold ClientSegmentReassembler.observeChunk
  rcases custody with ⟨started, unfinished, fresh, seenAt, found⟩ | ⟨finished, completed⟩
  · rw [seqId, fresh]
    dsimp only
    have ignore : state.shouldIgnoreChunk message.key message.seqId segmentId =
        decide (segmentId < progress) := by
      unfold ClientSegmentReassembler.shouldIgnoreChunk
      rw [found]
      simp [assembly, seqId, UInt64.lt_irrefl]
    rw [ignore]
    by_cases seen : segmentId < progress
    · rw [if_pos (decide_eq_true seen), max_eq_left seen]
      refine ⟨.inl ⟨started, unfinished, fresh, seenAt, found⟩, fun all => ?_⟩
      omega
    obtain rfl : segmentId = progress := by omega
    have closed : state.closeOther message.key message.metadata segmentId = state := by
      unfold ClientSegmentReassembler.closeOther
      rw [if_neg (fun first => by omega)]
    have admitted : state.admitAssembly rank now message.key message.metadata segmentId =
        (true, state) := by
      unfold ClientSegmentReassembler.admitAssembly
      rw [if_pos (by rw [found]; rfl)]
    rw [if_neg (by simp), if_neg (valid_segment isText), closed, admitted,
      max_eq_right (Nat.le_succ segmentId)]
    exact advanceAssembly_next now envelope isText fresh found
  · rw [seqId, completed]
    rw [max_eq_left (by omega)]
    exact ⟨.inr ⟨finished, completed⟩, fun _ => rfl⟩

/-- Observing an envelope of the message is observing its chunk once the assemblies that are too
    old are gone. -/
theorem apply_of_brings {call : ReassemblerCall Message} {segmentId : Nat}
    {envelope : ClientEnvelope Message} (brings : message.Brings call segmentId envelope) :
    ∃ rank expiryNow now text, call.clock = some expiryNow ∧
      message.texts[segmentId]? = some text ∧
      call.apply state =
        (some ((state.expireAssemblies expiryNow).observeChunk rank now envelope message.key
          message.metadata segmentId text).1,
        ((state.expireAssemblies expiryNow).observeChunk rank now envelope message.key
          message.metadata segmentId text).2) := by
  obtain ⟨rank, expiryNow, now, text, rfl, isText, isChunk, ofClient, onStream, withSeq⟩ := brings
  refine ⟨rank, expiryNow, now, text, rfl, isText, ?_⟩
  unfold ReassemblerCall.apply ClientSegmentReassembler.observe
  simp only [isChunk, withSeq, onStream, ofClient]
  rfl

theorem custody_of_brings (brings : message.Brings call segmentId envelope)
    (inOrder : segmentId ≤ progress) (spared : message.Spared call state)
    (custody : message.Custody progress state) :
    message.Custody (max progress (segmentId + 1)) (call.apply state).2 ∧
    (max progress (segmentId + 1) = message.texts.length →
      (call.apply state).1 = some (.reassembled envelope message.raw)) := by
  obtain ⟨rank, expiryNow, now, text, clock, isText, applied⟩ := apply_of_brings brings
  have expired : message.Custody progress (state.expireAssemblies expiryNow) := by
    rcases custody with ⟨started, unfinished, fresh, seenAt, found⟩ | completed
    · refine .inl ⟨started, unfinished, fresh, seenAt, ?_⟩
      unfold ClientSegmentReassembler.expireAssemblies
      dsimp only
      rw [lookup_retain, found]
      exact Option.filter_some_pos (spared.notExpired expiryNow _ clock found)
    · exact .inr completed
  obtain ⟨kept, returned⟩ := observeChunk_custody rank now envelope isText inOrder expired
  rw [applied]
  exact ⟨kept, fun all => congrArg some (returned all)⟩

theorem custody_of_foreign (foreign : message.Foreign call) (spared : message.Spared call state)
    (custody : message.Custody progress state) : message.Custody progress (call.apply state).2 := by
  have apart := apart_of_foreign message call state foreign
  rcases custody with ⟨started, unfinished, fresh, seenAt, found⟩ | ⟨finished, completed⟩
  · refine .inl ⟨started, unfinished, apart.completed.trans fresh, seenAt, ?_⟩
    obtain ⟨kept, isKept⟩ := Option.isSome_iff_exists.mp
      (spared.notEvicted foreign (by rw [found]; rfl))
    rw [isKept, ← apart.assemblies kept isKept, found]
  · exact .inr ⟨finished, apart.completed.trans completed⟩

omit [Base64.Engine] in
/-- Whoever is admitted has the assembly that was there or a new one. -/
theorem admit_true {rank : StreamKey → Nat} {now : Nat} {key : StreamKey}
    {metadata : ClientSegmentMetadata} {next : ClientSegmentReassembler}
    (admitted : state.admitAssembly rank now key metadata segmentId = (true, next)) :
    ∃ assembly, next.assemblies.lookup key = some assembly ∧
      (state.assemblies.lookup key = some assembly ∨ assembly = ⟨metadata, [], 0, now⟩) := by
  unfold ClientSegmentReassembler.admitAssembly at admitted
  split at admitted
  · next present =>
    obtain ⟨-, rfl⟩ := Prod.mk.inj admitted
    obtain ⟨assembly, found⟩ := Option.isSome_iff_exists.mp present
    exact ⟨assembly, found, .inl found⟩
  split at admitted
  · cases admitted
  dsimp only at admitted
  split at admitted
  · cases admitted
  · obtain ⟨-, rfl⟩ := Prod.mk.inj admitted
    exact ⟨_, AList.lookup_insert _, .inr rfl⟩

/-- A message whose first chunk is not dropped is in custody. -/
theorem observeChunk_first (rank : StreamKey → Nat) (now : Nat) (envelope : ClientEnvelope Message)
    (accounted : state.Accounted) (sourced : Sourced calls state)
    (isText : message.texts[0]? = some text)
    (fresh : state.completed.lookup (message.key, message.seqId) = none)
    (taken : (state.observeChunk rank now envelope message.key message.metadata 0 text).1 ≠
      .dropped) :
    message.Custody 1 (state.observeChunk rank now envelope message.key message.metadata 0
      text).2 ∧
    (1 = message.texts.length →
      (state.observeChunk rank now envelope message.key message.metadata 0 text).1 =
        .reassembled envelope message.raw) := by
  have seqId : message.metadata.seqId = message.seqId := rfl
  unfold ClientSegmentReassembler.observeChunk at taken ⊢
  rw [seqId, fresh] at taken ⊢
  dsimp only at taken ⊢
  split
  · next ignored =>
    rw [if_pos ignored] at taken
    exact absurd rfl taken
  next notIgnored =>
  rw [if_neg notIgnored, if_neg (valid_segment isText)] at taken
  rw [if_neg (valid_segment isText)]
  have closedAccounted := accounted.closeOther message.key message.metadata 0
  obtain ⟨-, admits⟩ := ClientSegmentReassembler.admit_keeps rank now message.key message.metadata 0
    closedAccounted
  have closed := @ClientSegmentReassembler.shrinks_closeOther state message.key message.metadata 0
  have closedFresh := admits_fresh (.inl closed : ClientSegmentReassembler.Admits message.key
    message.metadata now _ _) fresh
  have admittedFresh := admits_fresh admits closedFresh
  split
  · next refused =>
    rw [refused] at taken
    exact absurd rfl taken
  next next admitted =>
  rw [admitted] at admittedFresh
  obtain ⟨assembly, found, old | new⟩ := admit_true admitted
  · -- An assembly that was kept is of this message and has no segment yet.
    have before := closed.assemblies _ _ old
    have same : assembly.metadata = message.metadata := by
      by_contra differs
      have any : (state.assemblies.lookup message.key).any (fun assembly =>
          assembly.metadata ≠ message.metadata) := by
        simp [before, differs]
      unfold ClientSegmentReassembler.closeOther at old
      rw [if_pos ⟨rfl, any⟩] at old
      unfold ClientSegmentReassembler.removeAssembly at old
      simp [before] at old
    have unstarted : assembly.nextSegmentId = 0 := by
      by_contra started
      apply notIgnored
      unfold ClientSegmentReassembler.shouldIgnoreChunk
      simp [before, same, seqId, Nat.pos_of_ne_zero started]
    obtain ⟨chunks, length, flatten, -⟩ := sourced.assemblies _ _ before
    have empty : assembly.raw = [] := by
      rw [← flatten, List.length_eq_zero_iff.mp (length.trans unstarted)]
      rfl
    refine @advanceAssembly_next _ _ _ _ 0 assembly.lastChunkSeenAt _ now envelope isText
      admittedFresh ?_
    rw [found]
    obtain ⟨metadata, raw, nextSegmentId, lastChunkSeenAt⟩ := assembly
    dsimp only at same unstarted empty
    rw [same, unstarted, empty]
    rfl
  · refine @advanceAssembly_next _ _ _ _ 0 now _ now envelope isText admittedFresh ?_
    rw [found, new]
    rfl

theorem custody_of_admitted (accounted : state.Accounted) (sourced : Sourced calls state)
    (admitted : message.Admitted first state) :
    message.Custody 1 (first.apply state).2 ∧
    ∀ envelope, message.Brings first 0 envelope → 1 = message.texts.length →
      (first.apply state).1 = some (.reassembled envelope message.raw) := by
  have custody : ∀ envelope, message.Brings first 0 envelope →
      message.Custody 1 (first.apply state).2 ∧ (1 = message.texts.length →
        (first.apply state).1 = some (.reassembled envelope message.raw)) := by
    intro envelope brings
    obtain ⟨rank, expiryNow, now, text, -, isText, applied⟩ := @apply_of_brings _ _ _ state _ _ _ brings
    have taken := admitted.taken
    rw [applied] at taken ⊢
    obtain ⟨kept, returned⟩ := observeChunk_first rank now envelope
      (accounted.expireAssemblies expiryNow)
      (sourced.shrinks (ClientSegmentReassembler.shrinks_expireAssemblies expiryNow)) isText
      admitted.fresh (fun dropped => taken (congrArg some dropped))
    exact ⟨kept, fun all => congrArg some (returned all)⟩
  obtain ⟨envelope, brings⟩ := admitted.brings
  exact ⟨(custody envelope brings).1, fun other otherBrings => (custody other otherBrings).2⟩

theorem brings_unique {other : Nat} {otherEnvelope : ClientEnvelope Message}
    (brings : message.Brings call segmentId envelope)
    (otherBrings : message.Brings call other otherEnvelope) :
    segmentId = other ∧ envelope = otherEnvelope := by
  obtain ⟨_, _, _, _, rfl, _, event, _⟩ := brings
  obtain ⟨_, _, _, _, same, _, otherEvent, _⟩ := otherBrings
  obtain ⟨-, -, -, rfl⟩ := ReassemblerCall.observe.inj same
  rw [event] at otherEvent
  exact ⟨(ClientEvent.clientMessageChunk.inj otherEvent).1, rfl⟩

theorem Undisturbed.earlier {before after : List (ReassemblerCall Message)}
    (undisturbed : message.Undisturbed first rest state) (split : rest = before ++ after) :
    message.Undisturbed first before state := by
  subst split
  refine ⟨?_, ?_, ?_⟩
  · intro call member
    exact undisturbed.traffic call (List.mem_append_left after member)
  · intro earlier call later segmentId envelope isSplit
    exact undisturbed.order earlier call (later ++ after) segmentId envelope (by simp [isSplit])
  · intro earlier call later isSplit
    exact undisturbed.spared earlier call (later ++ after) (by simp [isSplit])

/-- The segments that the calls bring are the first ones. -/
def Progress (message : SegmentedMessage) (calls : List (ReassemblerCall Message))
    (progress : Nat) : Prop :=
  ∀ segmentId, (∃ call ∈ calls, ∃ envelope, message.Brings call segmentId envelope) ↔
    segmentId < progress

theorem Progress.brings (known : message.Progress calls progress)
    (brings : message.Brings call segmentId envelope) (inOrder : segmentId ≤ progress) :
    message.Progress (calls ++ [call]) (max progress (segmentId + 1)) := by
  intro other
  have known := known other
  refine ⟨?_, ?_⟩
  · rintro ⟨earlier, member, otherEnvelope, otherBrings⟩
    rcases List.mem_append.mp member with member | member
    · have below := known.mp ⟨earlier, member, otherEnvelope, otherBrings⟩
      omega
    · obtain rfl := List.mem_singleton.mp member
      have same := (brings_unique brings otherBrings).1
      omega
  intro below
  by_cases before : other < progress
  · obtain ⟨earlier, member, brought⟩ := known.mpr before
    exact ⟨earlier, List.mem_append_left _ member, brought⟩
  · obtain rfl : other = segmentId := by omega
    exact ⟨call, by simp, envelope, brings⟩

theorem Progress.foreign (known : message.Progress calls progress)
    (foreign : ∀ segmentId envelope, ¬message.Brings call segmentId envelope) :
    message.Progress (calls ++ [call]) progress := by
  intro segmentId
  rw [← known segmentId]
  simp [foreign, or_and_right, exists_or]

/-- A segment of the message is not foreign to it. -/
theorem not_brings_of_foreign (foreign : message.Foreign call) (segmentId : Nat)
    (envelope : ClientEnvelope Message) :
    ¬message.Brings call segmentId envelope := by
  rintro ⟨_, _, _, _, rfl, _, event, ofClient, onStream, _⟩
  refine foreign ⟨?_, ofClient, onStream⟩
  rw [event]
  rfl

theorem inOrder_of_undisturbed {before after : List (ReassemblerCall Message)}
    (undisturbed : message.Undisturbed first rest state) (split : rest = before ++ call :: after)
    (known : message.Progress (first :: before) progress)
    (brings : message.Brings call segmentId envelope) : segmentId ≤ progress := by
  by_contra above
  obtain ⟨earlier, member, other, brought⟩ :=
    undisturbed.order before call after segmentId envelope split brings progress (by omega)
  have below := (known progress).mp ⟨earlier, member, other, brought⟩
  omega

theorem applyAll_concat (first : ReassemblerCall Message) (rest : List (ReassemblerCall Message))
    (call : ReassemblerCall Message) (state : ClientSegmentReassembler) :
    (ReassemblerCall.applyAll (first :: (rest ++ [call])) state).2 =
      (call.apply (ReassemblerCall.applyAll (first :: rest) state).2).2 := by
  rw [← List.cons_append, ReassemblerCall.applyAll_append]
  rfl

/-- An admitted message that is not disturbed stays in custody. -/
theorem custody_of_undisturbed (admitted : message.Admitted first state)
    (custody : message.Custody 1 (first.apply state).2)
    (undisturbed : message.Undisturbed first rest state) :
    ∃ progress, message.Progress (first :: rest) progress ∧
      message.Custody progress (ReassemblerCall.applyAll (first :: rest) state).2 := by
  induction rest using List.reverseRecOn with
  | nil =>
    obtain ⟨envelope, brings⟩ := admitted.brings
    refine ⟨1, ?_, custody⟩
    have empty : message.Progress ([] : List (ReassemblerCall Message)) 0 := by
      intro segmentId
      simp
    exact empty.brings brings (Nat.le_refl 0)
  | append_singleton rest call ih =>
    obtain ⟨progress, known, kept⟩ := ih (undisturbed.earlier rfl)
    have spared := undisturbed.spared rest call [] rfl
    rw [applyAll_concat, ← List.cons_append]
    rcases undisturbed.traffic call (by simp) with ⟨segmentId, envelope, brings⟩ | foreign
    · have inOrder := inOrder_of_undisturbed undisturbed rfl known brings
      exact ⟨_, known.brings brings inOrder, (custody_of_brings brings inOrder spared kept).1⟩
    · exact ⟨progress, known.foreign (not_brings_of_foreign foreign),
        custody_of_foreign foreign spared kept⟩

theorem Custody.le (custody : message.Custody progress state) :
    progress ≤ message.texts.length := by
  rcases custody with ⟨-, unfinished, -⟩ | ⟨finished, -⟩ <;> omega

/-- When all segments have arrived there is no more progress. -/
theorem progress_of_arrived (known : message.Progress calls progress)
    (le : progress ≤ message.texts.length)
    (arrived : message.Arrived calls) : progress = message.texts.length := by
  have segments := message.segments
  have last := (known (message.texts.length - 1)).mp (arrived _ (by omega))
  omega

theorem returned_of_undisturbed (accounted : state.Accounted) (sourced : Sourced calls state)
    (admitted : message.Admitted first state) (undisturbed : message.Undisturbed first rest state) :
    message.Returned (first :: rest) state := by
  obtain ⟨custody, firstReturns⟩ := custody_of_admitted accounted sourced admitted
  intro before call after segmentId envelope split brings arrived
  cases before with
  | nil =>
    obtain ⟨rfl, rfl⟩ := List.cons.inj split
    obtain ⟨firstEnvelope, firstBrings⟩ := admitted.brings
    obtain ⟨rfl, rfl⟩ := brings_unique brings firstBrings
    refine firstReturns envelope brings ?_
    have empty : message.Progress ([] : List (ReassemblerCall Message)) 0 := by
      intro segmentId
      simp
    exact progress_of_arrived (empty.brings brings (Nat.le_refl 0)) message.segments.1 arrived
  | cons same before =>
    obtain ⟨rfl, isRest⟩ := List.cons.inj split
    obtain ⟨progress, known, kept⟩ :=
      custody_of_undisturbed admitted custody (undisturbed.earlier isRest)
    have inOrder := inOrder_of_undisturbed undisturbed isRest known brings
    obtain ⟨next, returned⟩ := custody_of_brings brings inOrder
      (undisturbed.spared before call after isRest) kept
    exact returned (progress_of_arrived (known.brings brings inOrder) next.le arrived)

end SegmentedMessage

end Engine

attribute [local instance] Base64.standard

/-- The message `hi` in two segments. -/
def greeting : SegmentedMessage where
  key := (⟨[99]⟩, ⟨[115]⟩)
  seqId := 7
  texts := [[97, 65, 61, 61], [97, 81, 61, 61]]
  chunks := [[104], [105]]
  decoded := by decide
  nonempty := by decide
  segments := by decide
  size := by decide

/-- A chunk of client `c` on the given stream, at the given second. -/
def greetingChunk (stream : UInt8) (segmentId : Nat) (text : Bytes) (now : Nat) :
    ReassemblerCall Unit :=
  .observe (fun _ => 0) now now ⟨.clientMessageChunk segmentId 2 2 text, ⟨[99]⟩, some ⟨[stream]⟩,
    some 7, none⟩

end Codex.RemoteControl
