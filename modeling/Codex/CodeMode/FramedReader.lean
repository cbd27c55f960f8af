import Codex.CodeMode.Codec

/-!
# Reading frames

`code-mode-protocol/src/host/codec.rs`: `FramedReader`, over the pieces in which a stream arrives.
The semaphores that bound concurrent decoding and the worker of large frames are left out.
-/

namespace Codex.CodeMode

/-- `FramedReader` (`codec.rs:174`): what is buffered, and the pieces that are still to arrive. -/
structure FramedReader where
  buffer : List UInt8
  pieces : List { piece : List UInt8 // piece ≠ [] }

/-- All the bytes that are still to be read. -/
def FramedReader.stream (reader : FramedReader) : List UInt8 :=
  reader.buffer ++ (reader.pieces.map Subtype.val).flatten

/-- `AsyncReadExt::read`: some bytes, and none only at the end of the stream. -/
def FramedReader.readSome (reader : FramedReader) (size : Nat) : List UInt8 × FramedReader :=
  if reader.buffer ≠ [] then
    (reader.buffer.take size, { reader with buffer := reader.buffer.drop size })
  else
    let piece := (reader.pieces.head?.map Subtype.val).getD []
    (piece.take size, { buffer := piece.drop size, pieces := reader.pieces.tail })

/-- `AsyncReadExt::read_exact`. -/
def FramedReader.readExact (reader : FramedReader) (size : Nat) :
    Except IoError (List UInt8) × FramedReader :=
  if _done : size = 0 then (.ok [], reader)
  else
    let got := reader.readSome size
    if _ended : got.1 = [] then (.error ⟨.unexpectedEof, "early eof"⟩, got.2)
    else
      let more := got.2.readExact (size - got.1.length)
      (more.1.map fun bytes => got.1 ++ bytes, more.2)
termination_by size
decreasing_by
  have some : 0 < got.1.length := List.length_pos_of_ne_nil _ended
  exact Nat.sub_lt (Nat.pos_of_ne_zero _done) some

/-- `u32::from_le_bytes`. -/
def fromLeBytes (bytes : List UInt8) : Nat :=
  (bytes.getD 0 0).toNat + (bytes.getD 1 0).toNat * 256 + (bytes.getD 2 0).toNat * 65536 +
    (bytes.getD 3 0).toNat * 16777216

/-- `serde_json`, of one type of messages: the chunks in which it writes a message, and what it
    reads from a text. -/
structure Serde (Message : Type) where
  chunks : Message → List (List UInt8)
  fromSlice : List UInt8 → Except String Message

variable {Message : Type}

/-- What is documented of it: it writes valid JSON and reads what it writes, unless a container is
    nested 128 deep, which it rejects. -/
structure Serde.Lawful (serde : Serde Message) : Prop where
  written : ∀ message, ∃ source : JsonSource, (serde.chunks message).flatten = source.text ∧
    (source.nesting < 128 → serde.fromSlice source.text = .ok message) ∧
    (128 ≤ source.nesting → ∃ error, serde.fromSlice source.text = .error error)

/-- `FramedReader::read` (`codec.rs:196`). -/
def FramedReader.read (serde : Serde Message) (reader : FramedReader) :
    Except IoError (Option Message) × FramedReader :=
  let first := reader.readSome 1
  if first.1 = [] then (.ok none, first.2)
  else
    let rest := first.2.readExact 3
    match rest.1 with
    | .error error => (.error error, rest.2)
    | .ok lengthBytes =>
        let length := fromLeBytes (first.1 ++ lengthBytes)
        if MAX_FRAME_BYTES < length then
          (.error ⟨.invalidData, "code-mode IPC frame length " ++ toString length ++ " exceeds " ++
            toString MAX_FRAME_BYTES ++ " bytes"⟩, rest.2)
        else
          let payload := rest.2.readExact length
          (payload.1.bind fun bytes => ((serde.fromSlice bytes).map some).mapError fun error =>
            ⟨.invalidData, "failed to decode code-mode IPC frame: " ++ error⟩, payload.2)

/-- The results of reading a number of times. -/
def FramedReader.readTimes (serde : Serde Message) :
    Nat → FramedReader → List (Except IoError (Option Message))
  | 0, _ => []
  | times + 1, reader =>
      (reader.read serde).1 :: readTimes serde times (reader.read serde).2

theorem readSome_stream (reader : FramedReader) {size : Nat} (positive : 0 < size) :
    (reader.readSome size).1 ++ (reader.readSome size).2.stream = reader.stream ∧
      ((reader.readSome size).1 = [] ↔ reader.stream = []) ∧
      (reader.readSome size).1.length ≤ size := by
  unfold FramedReader.readSome
  by_cases buffered : reader.buffer ≠ []
  · rw [if_pos buffered]
    refine ⟨?_, ?_, ?_⟩
    · rw [FramedReader.stream, FramedReader.stream, ← List.append_assoc, List.take_append_drop]
    · rw [FramedReader.stream, List.append_eq_nil_iff, List.take_eq_nil_iff]
      exact ⟨fun empty => absurd (empty.resolve_left positive.ne') buffered,
        fun both => absurd both.1 buffered⟩
    · exact List.length_take_le _ _
  rw [if_neg buffered]
  have empty := not_not.mp buffered
  rw [FramedReader.stream, FramedReader.stream, empty, List.nil_append]
  cases reader.pieces with
  | nil =>
    dsimp only [List.head?_nil, Option.map_none, Option.getD_none, List.tail_nil]
    rw [List.take_nil, List.drop_nil]
    exact ⟨rfl, Iff.rfl, Nat.zero_le size⟩
  | cons piece pieces =>
    dsimp only [List.head?_cons, Option.map_some, Option.getD_some, List.tail_cons]
    rw [List.map_cons, List.flatten_cons]
    refine ⟨?_, ?_, ?_⟩
    · rw [← List.append_assoc, List.take_append_drop]
    · rw [List.append_eq_nil_iff, List.take_eq_nil_iff]
      exact ⟨fun none => absurd (none.resolve_left positive.ne') piece.2,
        fun both => absurd both.1 piece.2⟩
    · exact List.length_take_le _ _

/-- Whatever the pieces are, the bytes that are asked for are read. -/
theorem readExact_stream {bytes rest : List UInt8} (reader : FramedReader)
    (isStream : reader.stream = bytes ++ rest) :
    (reader.readExact bytes.length).1 = .ok bytes ∧
      (reader.readExact bytes.length).2.stream = rest := by
  induction length : bytes.length using Nat.strong_induction_on generalizing bytes reader with
  | _ size ih =>
    rw [FramedReader.readExact]
    by_cases done : size = 0
    · rw [dif_pos done]
      obtain rfl := List.length_eq_zero_iff.mp (length.trans done)
      exact ⟨rfl, isStream⟩
    rw [dif_neg done]
    obtain ⟨split, ended, within⟩ := readSome_stream reader (Nat.pos_of_ne_zero done)
    have left : reader.stream ≠ [] := by
      rw [isStream]
      intro none
      rw [(List.append_eq_nil_iff.mp none).1] at length
      exact done length.symm
    have got := mt ended.mp left
    rw [dif_neg got]
    rw [isStream] at split
    have isFront : (reader.readSome size).1 = bytes.take (reader.readSome size).1.length := by
      have fronts := congrArg (List.take (reader.readSome size).1.length) split
      rw [List.take_left', List.take_append_of_le_length (length ▸ within)] at fronts
      · exact fronts
      · rfl
    generalize (reader.readSome size).1 = front at split got within isFront ⊢
    have parts : front ++ bytes.drop front.length = bytes := by
      conv_lhs => rw [isFront]
      rw [List.length_take, Nat.min_eq_left (length ▸ within), List.take_append_drop]
    have later : (reader.readSome size).2.stream = bytes.drop front.length ++ rest := by
      have whole : front ++ (reader.readSome size).2.stream =
          front ++ (bytes.drop front.length ++ rest) := by
        rw [split, ← List.append_assoc, parts]
      exact List.append_cancel_left whole
    have isLength : (bytes.drop front.length).length = size - front.length := by
      rw [List.length_drop, length]
    have some := List.length_pos_of_ne_nil got
    obtain ⟨isRead, isRest⟩ := ih (size - front.length)
      (Nat.sub_lt (Nat.pos_of_ne_zero done) some) _ later isLength
    dsimp only
    rw [isRead, isRest]
    exact ⟨congrArg Except.ok parts, rfl⟩

theorem length_toLeBytes (number : Nat) : (toLeBytes number).length = 4 := rfl

theorem fromLeBytes_toLeBytes {number : Nat} (small : number < 2 ^ 32) :
    fromLeBytes (toLeBytes number) = number := by
  simp only [fromLeBytes, toLeBytes, List.getD_cons_zero, List.getD_cons_succ, UInt8.toNat_ofNat']
  omega

variable {reader : FramedReader}

/-- At the end of the stream there is no message. -/
theorem read_end (serde : Serde Message) (atEnd : reader.stream = []) :
    (reader.read serde).1 = .ok none ∧ (reader.read serde).2.stream = [] := by
  obtain ⟨split, ended, _⟩ := readSome_stream reader (Nat.zero_lt_one)
  have none := ended.mpr atEnd
  rw [none, List.nil_append, atEnd] at split
  rw [FramedReader.read]
  dsimp only
  rw [if_pos none]
  exact ⟨rfl, split⟩

/-- A frame is read from the bytes of the stream, whatever comes behind it. -/
theorem read_frame (serde : Serde Message) {payload rest : List UInt8}
    (isStream : reader.stream = toLeBytes payload.length ++ payload ++ rest)
    (fits : payload.length ≤ MAX_FRAME_BYTES) :
    (reader.read serde).1 = ((serde.fromSlice payload).map some).mapError (fun error =>
        ⟨.invalidData, "failed to decode code-mode IPC frame: " ++ error⟩) ∧
      (reader.read serde).2.stream = rest := by
  obtain ⟨split, ended, within⟩ := readSome_stream reader (Nat.zero_lt_one)
  have left : reader.stream ≠ [] := by
    rw [isStream]
    exact List.cons_ne_nil _ _
  have got := mt ended.mp left
  have isOne : (reader.readSome 1).1.length = 1 :=
    Nat.le_antisymm within (List.length_pos_of_ne_nil got)
  obtain ⟨byte, isByte⟩ := List.length_eq_one_iff.mp isOne
  rw [isByte, isStream, toLeBytes] at split
  obtain ⟨isFirst, isLater⟩ := List.cons.inj split
  have headerStream : (reader.readSome 1).2.stream =
      (toLeBytes payload.length).tail ++ (payload ++ rest) := isLater
  obtain ⟨headerRead, headerRest⟩ := readExact_stream _ headerStream
  have three : (toLeBytes payload.length).tail.length = 3 := rfl
  rw [three] at headerRead headerRest
  obtain ⟨payloadRead, payloadRest⟩ := readExact_stream _ headerRest
  have isHeader : (reader.readSome 1).1 ++ (toLeBytes payload.length).tail =
      toLeBytes payload.length := by
    rw [isByte, isFirst]
    rfl
  rw [FramedReader.read]
  dsimp only
  rw [if_neg got]
  rw [headerRead]
  dsimp only
  have small : payload.length < 2 ^ 32 := fits.trans_lt (by decide)
  rw [isHeader, fromLeBytes_toLeBytes small, if_neg (Nat.not_lt.mpr fits)]
  dsimp only
  rw [payloadRead]
  exact ⟨rfl, payloadRest⟩

/-- The frames of messages are read as the messages, and then as the end of the stream. -/
theorem readTimes_frames {serde : Serde Message} (lawful : serde.Lawful) {messages : List Message}
    {frames : List (List UInt8)}
    (encoded : List.Forall₂ (fun message frame => encode (serde.chunks message) = .ok frame)
      messages frames) (isStream : reader.stream = frames.flatten) :
    reader.readTimes serde (messages.length + 1) =
      messages.map (fun message => .ok (some message)) ++ [.ok none] := by
  induction encoded generalizing reader with
  | nil =>
    obtain ⟨atEnd, _⟩ := read_end serde isStream
    rw [List.length_nil, FramedReader.readTimes, FramedReader.readTimes, atEnd]
    rfl
  | @cons message frame messages frames isFrame _ ih =>
    obtain ⟨source, isText, parses, _⟩ := lawful.written message
    obtain ⟨rfl, measured, fits⟩ := encodeWithAdmission_inv isFrame
    have shallow := ((exists_encodedLen_iff isText).mp ⟨_, measured⟩).2
    rw [List.flatten_cons] at isStream
    obtain ⟨isRead, isRest⟩ := read_frame serde isStream fits
    rw [List.length_cons, FramedReader.readTimes, isRead, ih isRest, isText, parses shallow]
    rfl

/-- The encoders take exactly the texts that fit and that are read back. A frame is the length of
    the text in front of it, and `encodedLen` is its size. While it is written, every capacity of
    the buffer was admitted. Frames that arrive in any pieces are read as the messages. -/
theorem encode_exact {serde : Serde Message} (lawful : serde.Lawful) :
    (∀ message,
      ((∃ frame, encode (serde.chunks message) = .ok frame) ↔
        ∃ length, encodedLen (serde.chunks message) = .ok length) ∧
      (∀ source : JsonSource, (serde.chunks message).flatten = source.text →
        ((∃ frame, encode (serde.chunks message) = .ok frame) ↔
          source.text.length ≤ MAX_FRAME_BYTES ∧ source.nesting < 128)) ∧
      ((∃ frame, encode (serde.chunks message) = .ok frame) ↔
        (serde.chunks message).flatten.length ≤ MAX_FRAME_BYTES ∧
          serde.fromSlice (serde.chunks message).flatten = .ok message) ∧
      (∀ frame, encode (serde.chunks message) = .ok frame →
        encodedLen (serde.chunks message) = .ok frame.length ∧
          fromLeBytes (frame.take LENGTH_PREFIX_BYTES) = frame.length - LENGTH_PREFIX_BYTES ∧
          frame.drop LENGTH_PREFIX_BYTES = (serde.chunks message).flatten)) ∧
    (∀ (admitCapacity : AdmitCapacity) (chunks : List (List UInt8)) (payload : LimitedPayload),
      admitCapacity [] 128 = .ok () →
      chunks.foldlM (LimitedPayload.write admitCapacity) .initial = .ok payload →
      Admitted admitCapacity payload) ∧
    ∀ (messages : List Message) (frames : List (List UInt8)) (reader : FramedReader),
      List.Forall₂ (fun message frame => encode (serde.chunks message) = .ok frame)
        messages frames →
      reader.stream = frames.flatten →
      reader.readTimes serde (messages.length + 1) =
        messages.map (fun message => .ok (some message)) ++ [.ok none] := by
  refine ⟨fun message => ⟨exists_encode_iff, ?_, ?_, ?_⟩, ?_, ?_⟩
  · intro source isText
    rw [exists_encode_iff, exists_encodedLen_iff isText]
  · obtain ⟨source, isText, parses, rejects⟩ := lawful.written message
    rw [exists_encode_iff, exists_encodedLen_iff isText, isText]
    refine and_congr_right fun _ => ⟨parses, fun accepted => ?_⟩
    by_contra deep
    obtain ⟨error, rejected⟩ := rejects (Nat.not_lt.mp deep)
    rw [accepted] at rejected
    cases rejected
  · intro frame encoded
    obtain ⟨rfl, measured, fits⟩ := encodeWithAdmission_inv encoded
    refine ⟨measured, ?_, rfl⟩
    have small : (serde.chunks message).flatten.length < 2 ^ 32 := fits.trans_lt (by decide)
    rw [List.length_append, length_toLeBytes]
    exact (fromLeBytes_toLeBytes small).trans (Nat.add_sub_cancel_left 4 _).symm
  · intro admitCapacity chunks payload first ran
    exact admitted_of_writes first ran
  · intro messages frames reader encoded isStream
    exact readTimes_frames lawful encoded isStream

/-- `serde_json` for `[bool; 1]`. -/
def boolSerde : Serde Bool where
  chunks value := [[91], if value then [116, 114, 117, 101] else [102, 97, 108, 115, 101], [93]]
  fromSlice bytes :=
    if bytes = [91, 116, 114, 117, 101, 93] then .ok true
    else if bytes = [91, 102, 97, 108, 115, 101, 93] then .ok false
    else .error "expected a boolean"

theorem boolSerde_lawful : boolSerde.Lawful where
  written value := by
    cases value with
    | true =>
      refine ⟨.container false [(⟨[], rfl⟩, .bare ⟨[116, 114, 117, 101], by decide⟩)] ⟨[], rfl⟩,
        rfl, fun _ => by rfl, fun deep => absurd deep (by decide)⟩
    | false =>
      refine ⟨.container false [(⟨[], rfl⟩, .bare ⟨[102, 97, 108, 115, 101], by decide⟩)] ⟨[], rfl⟩,
        rfl, fun _ => by rfl, fun deep => absurd deep (by decide)⟩

/-- Two frames of which the first header and the first payload arrive cut in two. -/
theorem encode_exact_pieces :
    FramedReader.readTimes boolSerde 3 ⟨[], [⟨[6, 0], by decide⟩, ⟨[0, 0, 91, 116], by decide⟩,
      ⟨[114, 117, 101, 93, 7, 0, 0, 0, 91, 102, 97, 108, 115, 101, 93], by decide⟩]⟩ =
      [.ok (some true), .ok (some false), .ok none] := by
  refine (encode_exact boolSerde_lawful).2.2 [true, false]
    [[6, 0, 0, 0, 91, 116, 114, 117, 101, 93], [7, 0, 0, 0, 91, 102, 97, 108, 115, 101, 93]] _
    (.cons rfl (.cons rfl .nil)) rfl

end Codex.CodeMode
