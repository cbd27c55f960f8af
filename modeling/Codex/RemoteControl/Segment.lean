import Codex.Lib.Hoare
import Codex.Lib.Slice
import Codex.RemoteControl.Protocol

/-!
# Segmented server messages

`app-server-transport/src/transport/remote_control/segment.rs`: a server envelope whose text exceeds
the segment limit is sent as chunks of its serialised message. The number of chunks and their size
are found by a search, because the length of a chunk depends on the digits of both.

`serde_json` is outside the repository: a `SerdeJson` gives the texts of messages, the buffers its
writer passes on, and its parser of the `message` member.
-/

namespace Codex.RemoteControl

open Codex.Machine Codex.JsonText Codex.Slice

def REMOTE_CONTROL_SEGMENT_TARGET_BYTES : Nat := 100 * 1024
def REMOTE_CONTROL_SEGMENT_MAX_BYTES : Nat := 150 * 1024
def REMOTE_CONTROL_REASSEMBLED_MAX_BYTES : Nat := 100 * 1024 * 1024
def REMOTE_CONTROL_SEGMENT_COUNT_MAX : Nat := 1024

/-- `serde_json` at the envelopes: the text of a message, the buffers that `to_writer` writes for an
    envelope, and `from_str::<SerializedMessage>`, which borrows the text of the `message` member. -/
structure SerdeJson (Message : Type) where
  serialize : Message → Bytes
  writes : ServerEnvelope Message → List Bytes
  rawMessage : Bytes → Except String Bytes

section Serde

variable {Message : Type} [StringWriter] [Base64.Engine]

/-- What the encoder relies on. A text is never empty, and a parsed envelope gives back the text of
    its message. -/
structure SerdeJson.Lawful (serde : SerdeJson Message) : Prop where
  nonempty : ∀ message, serde.serialize message ≠ []
  writes : ∀ envelope, (serde.writes envelope).flatten = envelope.json serde.serialize
  rawMessage : ∀ message clientId streamId seqId,
    serde.rawMessage (ServerEnvelope.json serde.serialize
      ⟨.serverMessage message, clientId, streamId, seqId⟩) = .ok (serde.serialize message)

/-- `usize::saturating_add`. -/
def saturatingAdd (a b : Nat) : Nat := min (a + b) USIZE_MAX

/-- `usize::saturating_mul`. -/
def saturatingMul (a b : Nat) : Nat := min (a * b) USIZE_MAX

structure LimitedEnvelope where
  bytes : Bytes
  limit : Nat

/-- `LimitedEnvelope::write` (`segment.rs:412`). -/
def LimitedEnvelope.write (writer : LimitedEnvelope) (bytes : Bytes) :
    Except IoError LimitedEnvelope :=
  if writer.limit - writer.bytes.length < bytes.length then
    .error ⟨.invalidData, "remote-control server envelope exceeds reassembled size limit"⟩
  else .ok { writer with bytes := writer.bytes ++ bytes }

/-- The conservative bound of the routing fields (`segment.rs:433`). -/
def routingBytes (envelope : ServerEnvelope Message) : Nat :=
  saturatingAdd (saturatingMul
    (saturatingAdd envelope.clientId.text.length envelope.streamId.text.length) 6) 256

/-- `decimal_len` (`segment.rs:543`). -/
def decimalLen (value : Nat) : Nat := Nat.log 10 value + 1

/-- The envelope of a chunk. -/
def chunkEnvelope (envelope : ServerEnvelope Message)
    (segmentId segmentCount messageSizeBytes : Nat) (chunk : Bytes) : ServerEnvelope Message :=
  { envelope with
    event := .serverMessageChunk segmentId segmentCount messageSizeBytes (Base64.encode chunk) }

/-- `build_chunk_envelope` (`segment.rs:547`). -/
def buildChunkEnvelope (envelope : ServerEnvelope Message)
    (segmentId segmentCount messageSizeBytes : Nat) (chunk : Bytes) :
    Except IoError (ServerEnvelope Message) :=
  if segmentCount > REMOTE_CONTROL_SEGMENT_COUNT_MAX then
    .error ⟨.invalidData, "remote-control segment count exceeds maximum"⟩
  else .ok (chunkEnvelope envelope segmentId segmentCount messageSizeBytes chunk)

section Search

omit [StringWriter] [Base64.Engine]

variable (chunkLen : Nat → Nat → Nat → Nat) (size : Nat)

/-- The number of chunks that the search tries after chunks of this size and number do not fit. -/
def nextSegmentCount (chunkSize segmentCount : Nat) : Nat :=
  if max 1 (divCeil size (segmentCount + 1)) = chunkSize then divCeil size (chunkSize - 1)
  else segmentCount + 1

/-- The chunks of this size and number fit. -/
def chunksFit (chunkSize segmentCount : Nat) : Bool :=
  (segmentCount == 1 ||
    decide (chunkLen (segmentCount - 1 - 1) segmentCount chunkSize ≤
      REMOTE_CONTROL_SEGMENT_MAX_BYTES)) &&
  decide (chunkLen (segmentCount - 1) segmentCount (size - (segmentCount - 1) * chunkSize) ≤
    REMOTE_CONTROL_SEGMENT_MAX_BYTES)

/-- The next size is smaller than one that the search goes on from. -/
theorem nextChunkSize_lt {segmentCount : Nat}
    (more : max 1 (divCeil size segmentCount) ≠ 1) :
    max 1 (divCeil size (nextSegmentCount size (max 1 (divCeil size segmentCount))
      (divCeil size (max 1 (divCeil size segmentCount))))) <
    max 1 (divCeil size segmentCount) := by
  generalize isSize : max 1 (divCeil size segmentCount) = chunkSize at more ⊢
  have positive : 0 < chunkSize := by omega
  have nonempty : 0 < size := by
    by_contra zero
    obtain rfl : size = 0 := by omega
    have none : divCeil 0 segmentCount = 0 := by
      unfold divCeil
      rcases Nat.eq_zero_or_pos segmentCount with rfl | some
      · rfl
      · exact Nat.div_eq_of_lt (by omega)
    omega
  unfold nextSegmentCount
  split
  · have smaller := @divCeil_divCeil_le size (chunkSize - 1) (by omega) nonempty
    omega
  · next differs =>
    have fits := @divCeil_divCeil_le size chunkSize positive nonempty
    have fewer := @divCeil_anti size _ _ (divCeil_pos positive nonempty)
      (Nat.le_add_right (divCeil size chunkSize) 1)
    omega

/-- The search for a chunk size and a number of chunks (`segment.rs:494`). -/
def chooseSegments (segmentCount : Nat) : Except IoError (Nat × Nat) :=
  let chunkSize := max 1 (divCeil size segmentCount)
  let segmentCount' := divCeil size chunkSize
  if segmentCount' > REMOTE_CONTROL_SEGMENT_COUNT_MAX then
    .error ⟨.invalidData, "remote-control segment count exceeds maximum"⟩
  else if chunksFit chunkLen size chunkSize segmentCount' then .ok (chunkSize, segmentCount')
  else if chunkSize = 1 then
    .error ⟨.invalidData, "remote-control server envelope cannot fit within segment size limit"⟩
  else chooseSegments (nextSegmentCount size chunkSize segmentCount')
termination_by max 1 (divCeil size segmentCount)
decreasing_by exact nextChunkSize_lt size ‹_›

end Search

variable {T : Type} (serde : SerdeJson Message)

/-- The chunks of an envelope whose text is too long (`segment.rs:459`). -/
def encodeSegments (encoded : ServerEnvelope Message → Bytes → T)
    (envelope : ServerEnvelope Message) (payload : Bytes) : Except IoError (List T) := do
  let raw ← (serde.rawMessage payload).mapError (IoError.mk .other)
  let messageSizeBytes := raw.length
  if messageSizeBytes > REMOTE_CONTROL_REASSEMBLED_MAX_BYTES then
    throw ⟨.invalidData, "remote-control server envelope exceeds reassembled size limit"⟩
  let measured ← buildChunkEnvelope envelope 0 1 messageSizeBytes []
  let metadataLen := (measured.json serde.serialize).length - 2
  let chunkLen id count bytes :=
    metadataLen + decimalLen id + decimalLen count + divCeil bytes 3 * 4
  let minimalSegmentCount := min (max messageSizeBytes 1) REMOTE_CONTROL_SEGMENT_COUNT_MAX
  if chunkLen 0 minimalSegmentCount (min raw.length 1) > REMOTE_CONTROL_SEGMENT_MAX_BYTES then
    throw ⟨.invalidData, "remote-control server envelope cannot fit within segment size limit"⟩
  let (chunkSize, segmentCount) ← chooseSegments chunkLen messageSizeBytes
    (max 2 (divCeil messageSizeBytes REMOTE_CONTROL_SEGMENT_TARGET_BYTES))
  (chunks chunkSize raw).zipIdx.mapM (fun (chunk, segmentId) => do
    let chunk ← buildChunkEnvelope envelope segmentId segmentCount messageSizeBytes chunk
    return encoded chunk (chunk.json serde.serialize))

/-- `encode_server_envelope_with` (`segment.rs:403`). -/
def encodeServerEnvelopeWith (encoded : ServerEnvelope Message → Bytes → T)
    (envelope : ServerEnvelope Message) : Except IoError (List T) :=
  match envelope.event with
  | .serverMessage _ => do
      let writer ← (serde.writes envelope).foldlM LimitedEnvelope.write
        { bytes := []
          limit := saturatingAdd REMOTE_CONTROL_REASSEMBLED_MAX_BYTES (routingBytes envelope) }
      if writer.bytes.length ≤ REMOTE_CONTROL_SEGMENT_MAX_BYTES then
        return [encoded envelope writer.bytes]
      else encodeSegments serde encoded envelope writer.bytes
  | _ => return [encoded envelope (envelope.json serde.serialize)]

/-- `EncodedServerPayload` (`segment.rs:366`). -/
structure EncodedServerPayload where
  clientId : ClientId
  streamId : StreamId
  seqId : UInt64
  segmentId : Option Nat
  payload : Bytes
  deriving DecidableEq, Repr

/-- `encode_server_payloads_for_transport` (`segment.rs:391`). -/
def encodeServerPayloadsForTransport (envelope : ServerEnvelope Message) :
    Except IoError (List EncodedServerPayload) :=
  encodeServerEnvelopeWith serde (fun envelope payload =>
    { segmentId := envelope.event.segmentId
      clientId := envelope.clientId
      streamId := envelope.streamId
      seqId := envelope.seqId
      payload }) envelope

section Search

omit [StringWriter] [Base64.Engine]

variable {chunkLen : Nat → Nat → Nat → Nat} {size : Nat}

variable {start : Nat}

/-- What the search returns fits. -/
theorem chooseSegments_fits {chunkSize segmentCount : Nat}
    (found : chooseSegments chunkLen size start = .ok (chunkSize, segmentCount)) :
    0 < chunkSize ∧ segmentCount = divCeil size chunkSize ∧
      segmentCount ≤ REMOTE_CONTROL_SEGMENT_COUNT_MAX ∧
      chunksFit chunkLen size chunkSize segmentCount = true := by
  fun_induction chooseSegments chunkLen size start with
  | case1 => cases found
  | case2 start tried count few fits =>
    obtain ⟨isSize, isCount⟩ := Prod.mk.inj (Except.ok.inj found)
    rw [← isSize, ← isCount]
    exact ⟨by omega, rfl, Nat.le_of_not_gt few, fits⟩
  | case3 => cases found
  | case4 start tried count few _ more ih => exact ih found

/-- A round of the search never makes more chunks than it was asked for. -/
theorem retried_le (nonempty : 0 < size) (some : 0 < start) :
    divCeil size (max 1 (divCeil size start)) ≤ start := by
  rw [Nat.max_eq_right (divCeil_pos some nonempty)]
  exact divCeil_divCeil_le some nonempty

/-- Chunks of the least size that the limit on their number allows fit. -/
def LeastSizeFits (chunkLen : Nat → Nat → Nat → Nat) (size : Nat) : Prop :=
  ∀ id count bytes, id < REMOTE_CONTROL_SEGMENT_COUNT_MAX →
    count ≤ REMOTE_CONTROL_SEGMENT_COUNT_MAX →
    bytes ≤ divCeil size REMOTE_CONTROL_SEGMENT_COUNT_MAX →
    chunkLen id count bytes ≤ REMOTE_CONTROL_SEGMENT_MAX_BYTES

theorem chunksFit_least (least : LeastSizeFits chunkLen size) (nonempty : 0 < size)
    {chunkSize : Nat} (positive : 0 < chunkSize)
    (small : chunkSize ≤ divCeil size REMOTE_CONTROL_SEGMENT_COUNT_MAX)
    (few : divCeil size chunkSize ≤ REMOTE_CONTROL_SEGMENT_COUNT_MAX) :
    chunksFit chunkLen size chunkSize (divCeil size chunkSize) = true := by
  have some := divCeil_pos positive nonempty
  have whole := @le_divCeil_mul size chunkSize positive
  have last : size - (divCeil size chunkSize - 1) * chunkSize ≤ chunkSize := by
    rw [Nat.sub_mul, Nat.one_mul]
    omega
  unfold chunksFit
  rw [Bool.and_eq_true, Bool.or_eq_true, decide_eq_true_eq, decide_eq_true_eq]
  exact ⟨.inr (least _ _ _ (by omega) few small), least _ _ _ (by omega) few (last.trans small)⟩

/-- From a number of chunks within the limit the search succeeds, as long as the least size fits:
    it does not step over that size. -/
theorem chooseSegments_succeeds (least : LeastSizeFits chunkLen size) (nonempty : 0 < size)
    (some : 0 < start) (within : start ≤ REMOTE_CONTROL_SEGMENT_COUNT_MAX) :
    ∃ chosen, chooseSegments chunkLen size start = .ok chosen := by
  fun_induction chooseSegments chunkLen size start with
  | case1 start chunkSize count many =>
    have enough : count ≤ start := retried_le nonempty some
    omega
  | case2 start chunkSize count few fits => exact ⟨_, rfl⟩
  | case3 start chunkSize count few fails single =>
    refine absurd (chunksFit_least least nonempty (by omega) ?_ (Nat.le_of_not_gt few)) fails
    rw [single]
    exact divCeil_pos (by decide) nonempty
  | case4 start chunkSize count few fails more ih =>
    have positive : 0 < chunkSize := by omega
    have greater : divCeil size REMOTE_CONTROL_SEGMENT_COUNT_MAX < chunkSize := by
      by_contra small
      exact fails (chunksFit_least least nonempty positive (Nat.le_of_not_gt small)
        (Nat.le_of_not_gt few))
    have leastPositive : 0 < divCeil size REMOTE_CONTROL_SEGMENT_COUNT_MAX :=
      divCeil_pos (by decide) nonempty
    have fewer : start < REMOTE_CONTROL_SEGMENT_COUNT_MAX := by
      by_contra full
      obtain rfl : start = REMOTE_CONTROL_SEGMENT_COUNT_MAX := by omega
      omega
    have enough : count ≤ start := retried_le nonempty some
    apply ih
    · unfold nextSegmentCount
      split
      · exact divCeil_pos (by omega) nonempty
      · omega
    unfold nextSegmentCount
    split
    · rw [divCeil_le_iff (by omega)]
      have whole := @le_divCeil_mul size REMOTE_CONTROL_SEGMENT_COUNT_MAX (by decide)
      calc size ≤ divCeil size REMOTE_CONTROL_SEGMENT_COUNT_MAX *
            REMOTE_CONTROL_SEGMENT_COUNT_MAX := whole
        _ = REMOTE_CONTROL_SEGMENT_COUNT_MAX *
            divCeil size REMOTE_CONTROL_SEGMENT_COUNT_MAX := Nat.mul_comm _ _
        _ ≤ REMOTE_CONTROL_SEGMENT_COUNT_MAX * (chunkSize - 1) :=
          Nat.mul_le_mul_left _ (by omega)
    · omega

end Search

theorem length_string_encode (chunk : Bytes) :
    (string (Base64.encode chunk)).length = (Base64.encode chunk).length + 2 := by
  rw [string_plain (Base64.plain_encode chunk), List.length_cons, List.length_append]
  rfl

/-- The length of a chunk beyond its digits and its payload. -/
def metadataLen (serialize : Message → Bytes) (envelope : ServerEnvelope Message) (size : Nat) :
    Nat :=
  ((chunkEnvelope envelope 0 1 size []).json serialize).length - 2

/-- The arithmetic of the search is exact. -/
theorem length_chunk (serialize : Message → Bytes) (envelope : ServerEnvelope Message)
    (id count size : Nat) (chunk : Bytes) :
    ((chunkEnvelope envelope id count size chunk).json serialize).length =
      metadataLen serialize envelope size + decimalLen id + decimalLen count +
        divCeil chunk.length 3 * 4 := by
  have zero : decimalLen 0 = 1 := by simp [decimalLen]
  have one : decimalLen 1 = 1 := by simp [decimalLen]
  simp only [metadataLen, ServerEnvelope.json, chunkEnvelope, ServerEvent.members,
    ServerEnvelope.routing, List.length_cons, List.length_append, length_string_encode,
    length_decimal, List.length_nil, Base64.length_encode]
  unfold decimalLen at *
  unfold divCeil
  omega

section Write

omit [StringWriter] [Base64.Engine]

variable {writer : LimitedEnvelope}

theorem write_ok {bytes : Bytes} (fits : writer.bytes.length + bytes.length ≤ writer.limit) :
    writer.write bytes = .ok { writer with bytes := writer.bytes ++ bytes } :=
  if_neg (by omega)

theorem writes_ok {writes : List Bytes}
    (fits : writer.bytes.length + writes.flatten.length ≤ writer.limit) :
    writes.foldlM LimitedEnvelope.write writer =
      .ok { writer with bytes := writer.bytes ++ writes.flatten } := by
  induction writes generalizing writer with
  | nil => simp [pure, Except.pure]
  | cons bytes writes ih =>
    rw [List.flatten_cons, List.length_append] at fits
    rw [List.foldlM_cons, write_ok (by omega)]
    simp only [bind, Except.bind]
    rw [ih (by simp only [List.length_append]; omega)]
    simp

theorem writes_bytes {writes : List Bytes} {written : LimitedEnvelope}
    (returns : writes.foldlM LimitedEnvelope.write writer = .ok written) :
    written.bytes = writer.bytes ++ writes.flatten := by
  induction writes generalizing writer with
  | nil =>
    cases returns
    simp
  | cons bytes writes ih =>
    rw [List.foldlM_cons] at returns
    unfold LimitedEnvelope.write at returns
    split at returns
    · cases returns
    · have rest := ih returns
      simpa using rest

theorem mapM_ok {α β ε : Type} {f : α → Except ε β} {g : α → β} (each : ∀ a, f a = .ok (g a))
    (list : List α) : list.mapM f = .ok (list.map g) := by
  obtain rfl : f = fun a => pure (g a) := funext each
  exact List.mapM_pure

theorem decimalLen_mono {a b : Nat} (le : a ≤ b) : decimalLen a ≤ decimalLen b :=
  Nat.add_le_add_right (Nat.log_mono_right le) 1

end Write

omit [Base64.Engine] in
/-- The text of a message envelope is within the conservative bound. -/
theorem length_message_json (serialize : Message → Bytes) {envelope : ServerEnvelope Message}
    {message : Message} (isMessage : envelope.event = .serverMessage message) :
    (envelope.json serialize).length ≤ (serialize message).length +
      (envelope.clientId.text.length + envelope.streamId.text.length) * 6 + 256 := by
  have client := length_string_le envelope.clientId.text
  have stream := length_string_le envelope.streamId.text
  have digits : Nat.log 10 envelope.seqId.toNat < 20 :=
    Nat.log_lt_of_lt_pow' (by decide) (envelope.seqId.toNat_lt.trans (by decide))
  have tag : (ascii "\"type\":\"server_message\",\"message\":").length = 34 := rfl
  have clientTag : (ascii ",\"client_id\":").length = 13 := rfl
  have streamTag : (ascii ",\"stream_id\":").length = 13 := rfl
  have seqTag : (ascii ",\"seq_id\":").length = 10 := rfl
  simp only [ServerEnvelope.json, isMessage, ServerEvent.members, ServerEnvelope.routing,
    List.length_cons, List.length_append, length_decimal, List.length_nil, tag,
    clientTag, streamTag, seqTag]
  omega

/-- The chunk envelopes of a message, with their payloads. -/
def segments (serialize : Message → Bytes) (envelope : ServerEnvelope Message)
    (chunkSize segmentCount : Nat) (raw : Bytes) : List (ServerEnvelope Message × Bytes) :=
  (chunks chunkSize raw).zipIdx.map (fun chunk =>
    (chunkEnvelope envelope chunk.2 segmentCount raw.length chunk.1,
      (chunkEnvelope envelope chunk.2 segmentCount raw.length chunk.1).json serialize))

section Encode

variable {serde : SerdeJson Message} {encoded : ServerEnvelope Message → Bytes → T}
  {envelope : ServerEnvelope Message} {payload raw : Bytes}

/-- The lengths that the search computes for an envelope. -/
def chunkLen (serialize : Message → Bytes) (envelope : ServerEnvelope Message) (size : Nat)
    (id count bytes : Nat) : Nat :=
  metadataLen serialize envelope size + decimalLen id + decimalLen count + divCeil bytes 3 * 4

theorem encodeSegments_eq (borrows : serde.rawMessage payload = .ok raw) :
    encodeSegments serde encoded envelope payload =
      if raw.length > REMOTE_CONTROL_REASSEMBLED_MAX_BYTES then
        .error ⟨.invalidData, "remote-control server envelope exceeds reassembled size limit"⟩
      else if chunkLen serde.serialize envelope raw.length 0
          (min (max raw.length 1) REMOTE_CONTROL_SEGMENT_COUNT_MAX) (min raw.length 1) >
          REMOTE_CONTROL_SEGMENT_MAX_BYTES then
        .error ⟨.invalidData, "remote-control server envelope cannot fit within segment size limit"⟩
      else (chooseSegments (chunkLen serde.serialize envelope raw.length) raw.length
          (max 2 (divCeil raw.length REMOTE_CONTROL_SEGMENT_TARGET_BYTES))).bind (fun chosen =>
        (chunks chosen.1 raw).zipIdx.mapM (fun chunk =>
          (buildChunkEnvelope envelope chunk.2 chosen.2 raw.length chunk.1).map
            (fun built => encoded built (built.json serde.serialize)))) := by
  have built : buildChunkEnvelope envelope 0 1 raw.length [] =
      .ok (chunkEnvelope envelope 0 1 raw.length []) := if_neg (by decide)
  unfold encodeSegments
  rw [borrows]
  change (if raw.length > REMOTE_CONTROL_REASSEMBLED_MAX_BYTES then _ else _) = _
  split
  · rfl
  rw [built]
  change (if _ > REMOTE_CONTROL_SEGMENT_MAX_BYTES then _ else _) = _
  split
  · next long => exact (if_pos long).symm
  · next short => exact (if_neg short).symm

variable {chunkSize : Nat} {serialize : Message → Bytes}

theorem segments_eq {segmentCount : Nat} (few : segmentCount ≤ REMOTE_CONTROL_SEGMENT_COUNT_MAX) :
    (chunks chunkSize raw).zipIdx.mapM (fun chunk =>
        (buildChunkEnvelope envelope chunk.2 segmentCount raw.length chunk.1).map
          (fun built => encoded built (built.json serde.serialize))) =
      .ok ((segments serde.serialize envelope chunkSize segmentCount raw).map
        (fun segment => encoded segment.1 segment.2)) := by
  rw [segments, List.map_map]
  apply mapM_ok
  intro chunk
  rw [buildChunkEnvelope, if_neg (Nat.not_lt.mpr few)]
  rfl

/-- Chunks of a size and number that fit: no payload exceeds the limit. -/
theorem chunk_fits {index : Nat} {chunk : Bytes} (positive : 0 < chunkSize)
    (nonempty : 0 < raw.length)
    (fits : chunksFit (chunkLen serialize envelope raw.length) raw.length chunkSize
      (divCeil raw.length chunkSize) = true)
    (isChunk : (chunks chunkSize raw)[index]? = some chunk) :
    chunkLen serialize envelope raw.length index (divCeil raw.length chunkSize) chunk.length ≤
      REMOTE_CONTROL_SEGMENT_MAX_BYTES := by
  obtain ⟨inside, rfl⟩ := getElem?_chunks isChunk
  unfold chunksFit at fits
  rw [Bool.and_eq_true, Bool.or_eq_true, beq_iff_eq, decide_eq_true_eq, decide_eq_true_eq] at fits
  obtain ⟨full, last⟩ := fits
  have some := divCeil_pos positive nonempty
  by_cases isLast : index = divCeil raw.length chunkSize - 1
  · subst isLast
    refine Nat.le_trans ?_ last
    apply Nat.add_le_add_left
    apply Nat.mul_le_mul_right
    apply divCeil_mono (by decide)
    rw [List.length_take, List.length_drop]
    exact Nat.min_le_right _ _
  have others := full.resolve_left (by omega)
  have digits : decimalLen index ≤ decimalLen (divCeil raw.length chunkSize - 1 - 1) :=
    decimalLen_mono (by omega)
  have bytes : divCeil ((raw.drop (index * chunkSize)).take chunkSize).length 3 ≤
      divCeil chunkSize 3 :=
    divCeil_mono (by decide) (by rw [List.length_take]; exact Nat.min_le_left _ _)
  unfold chunkLen at others ⊢
  omega

/-- The bytes that a chunk carries. -/
def ServerEnvelope.decodedChunk (envelope : ServerEnvelope Message) : Option Bytes :=
  match envelope.event with
  | .serverMessageChunk _ _ _ messageChunkBase64 => Base64.decode messageChunkBase64
  | _ => none

/-- The payloads that deliver a message: none exceeds the limit, and there is one whole payload or a
    bounded number of chunks that carry their position, their number and the size of the message,
    and that decode to the message. -/
def Delivers (serialize : Message → Bytes) (envelope : ServerEnvelope Message) (raw : Bytes)
    (payloads : List (ServerEnvelope Message × Bytes)) : Prop :=
  (∀ payload ∈ payloads, payload.2 = payload.1.json serialize ∧
    payload.2.length ≤ REMOTE_CONTROL_SEGMENT_MAX_BYTES) ∧
  (payloads = [(envelope, envelope.json serialize)] ∨
    (payloads.length ≤ REMOTE_CONTROL_SEGMENT_COUNT_MAX ∧
      (∀ index payload, payloads[index]? = some payload → ∃ text,
        payload.1 = { envelope with
          event := .serverMessageChunk index payloads.length raw.length text }) ∧
      ∃ decoded, payloads.mapM (fun payload => payload.1.decodedChunk) = some decoded ∧
        decoded.flatten = raw))

theorem segments_deliver (positive : 0 < chunkSize) (nonempty : 0 < raw.length)
    (few : divCeil raw.length chunkSize ≤ REMOTE_CONTROL_SEGMENT_COUNT_MAX)
    (fits : chunksFit (chunkLen serialize envelope raw.length) raw.length chunkSize
      (divCeil raw.length chunkSize) = true) :
    Delivers serialize envelope raw
      (segments serialize envelope chunkSize (divCeil raw.length chunkSize) raw) := by
  have length : (segments serialize envelope chunkSize (divCeil raw.length chunkSize) raw).length =
      divCeil raw.length chunkSize := by
    simp [segments]
  refine ⟨?_, .inr ⟨length.trans_le few, ?_, chunks chunkSize raw, ?_, flatten_chunks positive⟩⟩
  · intro payload member
    obtain ⟨⟨chunk, index⟩, isChunk, rfl⟩ := List.mem_map.mp member
    refine ⟨rfl, ?_⟩
    rw [length_chunk]
    exact chunk_fits positive nonempty fits (List.mem_zipIdx_iff_getElem?.mp isChunk)
  · intro index payload isPayload
    rw [segments, List.getElem?_map, Option.map_eq_some_iff] at isPayload
    obtain ⟨⟨chunk, position⟩, isChunk, rfl⟩ := isPayload
    rw [List.getElem?_zipIdx, Option.map_eq_some_iff] at isChunk
    obtain ⟨_, _, same⟩ := isChunk
    cases same
    rw [length, Nat.zero_add]
    exact ⟨_, rfl⟩
  rw [segments, List.mapM_map]
  have decodes : ((fun payload : ServerEnvelope Message × Bytes => payload.1.decodedChunk) ∘
      fun chunk : Bytes × Nat =>
        (chunkEnvelope envelope chunk.2 (divCeil raw.length chunkSize) raw.length chunk.1,
          (chunkEnvelope envelope chunk.2 (divCeil raw.length chunkSize) raw.length
            chunk.1).json serialize)) = fun chunk => pure chunk.1 :=
    funext (fun chunk => Base64.decode_encode chunk.1)
  rw [decodes, List.mapM_pure, List.zipIdx_map_fst]
  rfl

/-- When the least size fits a chunk with four-digit numbers, it fits every chunk. -/
theorem leastSizeFits_of_chunk {size : Nat} (fits : ((chunkEnvelope envelope 1023 1024 size
      (List.replicate (divCeil size REMOTE_CONTROL_SEGMENT_COUNT_MAX) 0)).json serialize).length ≤
        REMOTE_CONTROL_SEGMENT_MAX_BYTES) :
    LeastSizeFits (chunkLen serialize envelope size) size := by
  intro id count bytes idBound countBound small
  rw [length_chunk, List.length_replicate] at fits
  unfold REMOTE_CONTROL_SEGMENT_COUNT_MAX at idBound countBound
  have ids : decimalLen id ≤ decimalLen 1023 := decimalLen_mono (by omega)
  have counts : decimalLen count ≤ decimalLen 1024 := decimalLen_mono countBound
  have payload := @divCeil_mono _ _ 3 (by decide) small
  unfold chunkLen
  omega

/-- Routing fields that leave room for a chunk are short. -/
theorem routingBytes_eq {id count size : Nat} {chunk : Bytes}
    (fits : ((chunkEnvelope envelope id count size chunk).json serialize).length ≤
      REMOTE_CONTROL_SEGMENT_MAX_BYTES) :
    saturatingAdd REMOTE_CONTROL_REASSEMBLED_MAX_BYTES (routingBytes envelope) =
      REMOTE_CONTROL_REASSEMBLED_MAX_BYTES +
        ((envelope.clientId.text.length + envelope.streamId.text.length) * 6 + 256) := by
  have client := length_le_string envelope.clientId.text
  have stream := length_le_string envelope.streamId.text
  have short : envelope.clientId.text.length + envelope.streamId.text.length ≤
      REMOTE_CONTROL_SEGMENT_MAX_BYTES := by
    simp only [ServerEnvelope.json, chunkEnvelope, ServerEnvelope.routing, List.length_cons,
      List.length_append] at fits
    omega
  unfold REMOTE_CONTROL_SEGMENT_MAX_BYTES at short
  unfold routingBytes saturatingAdd saturatingMul REMOTE_CONTROL_REASSEMBLED_MAX_BYTES USIZE_MAX
  omega

end Encode

/-- The encoder of a message terminates. When it succeeds its payloads deliver the message, and it
    succeeds for every message within the limit whose least chunks fit. -/
theorem segmentation_delivers (serde : SerdeJson Message) (lawful : serde.Lawful)
    (encoded : ServerEnvelope Message → Bytes → T) (message : Message) (clientId : ClientId)
    (streamId : StreamId) (seqId : UInt64) :
    let envelope : ServerEnvelope Message := ⟨.serverMessage message, clientId, streamId, seqId⟩
    let raw := serde.serialize message
    (∀ results, encodeServerEnvelopeWith serde encoded envelope = .ok results →
      ∃ payloads, results = payloads.map (fun payload => encoded payload.1 payload.2) ∧
        Delivers serde.serialize envelope raw payloads) ∧
    (raw.length ≤ REMOTE_CONTROL_REASSEMBLED_MAX_BYTES →
      ((chunkEnvelope envelope 1023 1024 raw.length
        (List.replicate (divCeil raw.length REMOTE_CONTROL_SEGMENT_COUNT_MAX) 0)).json
          serde.serialize).length ≤ REMOTE_CONTROL_SEGMENT_MAX_BYTES →
      ∃ results, encodeServerEnvelopeWith serde encoded envelope = .ok results) := by
  intro envelope raw
  have nonempty : 0 < raw.length := List.length_pos_iff.mpr (lawful.nonempty message)
  have borrows : serde.rawMessage (envelope.json serde.serialize) = .ok raw :=
    lawful.rawMessage message clientId streamId seqId
  constructor
  · intro results returns
    obtain ⟨writer, written, returns⟩ := Hoare.bind_ok.mp returns
    have isText : writer.bytes = envelope.json serde.serialize := by
      rw [writes_bytes written, lawful.writes, List.nil_append]
    rw [isText] at returns
    split at returns
    · next short =>
      cases returns
      refine ⟨[(envelope, envelope.json serde.serialize)], rfl, ?_, .inl rfl⟩
      intro payload member
      rw [List.mem_singleton.mp member]
      exact ⟨rfl, short⟩
    rw [encodeSegments_eq borrows] at returns
    split at returns
    · cases returns
    split at returns
    · cases returns
    obtain ⟨⟨chunkSize, segmentCount⟩, found, returns⟩ := Hoare.bind_ok.mp returns
    obtain ⟨positive, rfl, few, fits⟩ := chooseSegments_fits found
    rw [segments_eq few] at returns
    cases returns
    exact ⟨_, rfl, segments_deliver positive nonempty few fits⟩
  · intro small fits
    have least := leastSizeFits_of_chunk fits
    have room : ([] : Bytes).length + (serde.writes envelope).flatten.length ≤
        saturatingAdd REMOTE_CONTROL_REASSEMBLED_MAX_BYTES (routingBytes envelope) := by
      have bound := @length_message_json _ _ serde.serialize envelope message rfl
      rw [lawful.writes, routingBytes_eq fits, List.length_nil, Nat.zero_add]
      rw [Nat.add_assoc] at bound
      exact bound.trans (Nat.add_le_add_right small _)
    have start : 0 < max 2 (divCeil raw.length REMOTE_CONTROL_SEGMENT_TARGET_BYTES) := by omega
    have within : max 2 (divCeil raw.length REMOTE_CONTROL_SEGMENT_TARGET_BYTES) ≤
        REMOTE_CONTROL_SEGMENT_COUNT_MAX := by
      have target : 0 < REMOTE_CONTROL_SEGMENT_TARGET_BYTES := by
        norm_num [REMOTE_CONTROL_SEGMENT_TARGET_BYTES]
      refine Nat.max_le.mpr ⟨by decide, (divCeil_le_iff target).mpr (small.trans_eq ?_)⟩
      norm_num [REMOTE_CONTROL_REASSEMBLED_MAX_BYTES, REMOTE_CONTROL_SEGMENT_COUNT_MAX,
        REMOTE_CONTROL_SEGMENT_TARGET_BYTES]
    obtain ⟨⟨chunkSize, segmentCount⟩, found⟩ := chooseSegments_succeeds least nonempty start within
    have minimal := least 0 (min (max raw.length 1) REMOTE_CONTROL_SEGMENT_COUNT_MAX)
      (min raw.length 1) (by decide) (Nat.min_le_right _ _)
      (by have some := @divCeil_pos raw.length REMOTE_CONTROL_SEGMENT_COUNT_MAX (by decide) nonempty
          omega)
    unfold encodeServerEnvelopeWith
    rw [writes_ok room]
    dsimp only [bind, Except.bind]
    rw [List.nil_append, lawful.writes]
    by_cases short : (envelope.json serde.serialize).length ≤ REMOTE_CONTROL_SEGMENT_MAX_BYTES
    · rw [if_pos short]
      exact ⟨_, rfl⟩
    · rw [if_neg short, encodeSegments_eq borrows, if_neg (Nat.not_lt.mpr small),
        if_neg (Nat.not_lt.mpr minimal), found]
      dsimp only [Except.bind]
      rw [segments_eq (chooseSegments_fits found).2.2.1]
      exact ⟨_, rfl⟩

end Serde

attribute [local instance] visible Base64.standard

/-- The JSON of one message, a number of this many digits. -/
def numberJson (digits : Nat) : SerdeJson Unit where
  serialize _ := List.replicate digits 49
  writes envelope := [envelope.json (fun _ => List.replicate digits 49)]
  rawMessage _ := .ok (List.replicate digits 49)

theorem numberJson_lawful {digits : Nat} (some : digits ≠ 0) : (numberJson digits).Lawful where
  nonempty _ := by simpa [numberJson] using some
  writes _ := List.append_nil _
  rawMessage _ _ _ _ := rfl

/-- A message that is sent in chunks. -/
theorem segmentation_delivers_long_number :
    ∃ digits, digits = 200000 ∧
      let serde := numberJson digits
      let envelope : ServerEnvelope Unit :=
        ⟨.serverMessage (), ⟨ascii "client"⟩, ⟨ascii "stream"⟩, 7⟩
      REMOTE_CONTROL_SEGMENT_MAX_BYTES < (envelope.json serde.serialize).length ∧
        ∃ payloads, encodeServerEnvelopeWith serde Prod.mk envelope = .ok payloads ∧
          Delivers serde.serialize envelope (serde.serialize ()) payloads := by
  obtain ⟨digits, isDigits⟩ : ∃ digits, digits = 200000 := ⟨_, rfl⟩
  refine ⟨digits, isDigits, ?_⟩
  intro serde envelope
  obtain ⟨delivers, succeeds⟩ := segmentation_delivers serde (numberJson_lawful (by omega))
    Prod.mk () ⟨ascii "client"⟩ ⟨ascii "stream"⟩ 7
  have length : (serde.serialize ()).length = digits := List.length_replicate
  have client : (string (ascii "client")).length = 8 := rfl
  have stream : (string (ascii "stream")).length = 8 := rfl
  have chunkTag : (ascii "\"type\":\"server_message_chunk\",\"segment_id\":").length = 43 := rfl
  have countTag : (ascii ",\"segment_count\":").length = 17 := rfl
  have sizeTag : (ascii ",\"message_size_bytes\":").length = 22 := rfl
  have textTag : (ascii ",\"message_chunk_base64\":").length = 24 := rfl
  have clientTag : (ascii ",\"client_id\":").length = 13 := rfl
  have streamTag : (ascii ",\"stream_id\":").length = 13 := rfl
  have seqTag : (ascii ",\"seq_id\":").length = 10 := rfl
  have seq : (7 : UInt64).toNat = 7 := rfl
  have whole : REMOTE_CONTROL_SEGMENT_MAX_BYTES < (envelope.json serde.serialize).length := by
    have long : (serde.serialize ()).length ≤ (envelope.json serde.serialize).length := by
      simp only [envelope, ServerEnvelope.json, ServerEvent.members, List.length_cons,
        List.length_append]
      omega
    rw [length, isDigits] at long
    exact Nat.lt_of_lt_of_le (by norm_num [REMOTE_CONTROL_SEGMENT_MAX_BYTES]) long
  obtain ⟨payloads, returns⟩ := succeeds
    (by rw [length, isDigits]; norm_num [REMOTE_CONTROL_REASSEMBLED_MAX_BYTES])
    (by
      rw [length, length_chunk, metadataLen, List.length_replicate]
      simp only [ServerEnvelope.json, chunkEnvelope, ServerEvent.members, ServerEnvelope.routing,
        List.length_cons, List.length_append, length_string_encode, length_decimal,
        List.length_nil, Base64.length_encode, chunkTag, countTag, sizeTag, textTag, clientTag,
        streamTag, seqTag, client, stream, seq, decimalLen, isDigits]
      norm_num [divCeil, REMOTE_CONTROL_SEGMENT_MAX_BYTES,
        REMOTE_CONTROL_SEGMENT_COUNT_MAX])
  obtain ⟨same, isSame, delivered⟩ := delivers payloads returns
  rw [List.map_id' same] at isSame
  rw [← isSame] at delivered
  exact ⟨whole, payloads, returns, delivered⟩

end Codex.RemoteControl
