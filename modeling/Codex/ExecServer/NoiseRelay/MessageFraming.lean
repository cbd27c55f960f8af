import Codex.ExecServer.NoiseRelay.OrderedCiphertext

/-!
# Length-prefixed JSON-RPC messages over Noise records

`exec-server/src/noise_relay/message_framing.rs`. A message is serialised behind a
four-byte big-endian length; the byte stream of all frames is cut into Noise records, and
the decoder reassembles the messages. `serde_json` is outside the repository: a `Serde`
gives the buffers its writer passes to `write_all`, and its parser.
-/

namespace Codex.ExecServer.MessageFraming

open Codex.Machine

abbrev Bytes := List UInt8

/-- `MAX_JSONRPC_MESSAGE_LEN` (`exec-server/src/connection.rs:40`). -/
def MAX_JSONRPC_MESSAGE_LEN : Nat := 64 * 1024 * 1024

def LENGTH_PREFIX_BYTES : Nat := 4

def NOISE_RECORD_PLAINTEXT_LEN : Nat := 60 * 1024

/-- `serde_json` at the message type: the successive buffers that `to_writer` writes, and
    `from_slice` with its rendered error. -/
structure Serde (Message : Type) where
  writes : Message → List Bytes
  fromSlice : Bytes → Except String Message

variable {Message : Type}

/-- The serialised text of a message. -/
def Serde.serialize (serde : Serde Message) (message : Message) : Bytes :=
  (serde.writes message).flatten

/-- What the framing relies on: the parser inverts the writer, and rejects the empty
    input, which is no JSON text. -/
structure Serde.Lawful (serde : Serde Message) : Prop where
  inverse : ∀ message, serde.fromSlice (serde.serialize message) = .ok message
  empty : ∃ error, serde.fromSlice [] = .error error

structure BoundedMessageWriter where
  framed : Bytes
  remaining : Nat
  exceeded : Bool

/-- `BoundedMessageWriter::write`; an error leaves the framed bytes as they are. -/
def BoundedMessageWriter.write (writer : BoundedMessageWriter) (bytes : Bytes) :
    Except String Nat × BoundedMessageWriter :=
  if writer.remaining < bytes.length then
    (.error "Noise relay message length exceeded", { writer with exceeded := true })
  else
    (.ok bytes.length, { writer with
      framed := writer.framed ++ bytes
      remaining := writer.remaining - bytes.length })

/-- `serde_json::to_writer`: one `write` for each buffer, up to the first error. -/
def toWriter : BoundedMessageWriter → List Bytes → Except String Unit × BoundedMessageWriter
  | writer, [] => (.ok (), writer)
  | writer, bytes :: rest =>
      match writer.write bytes with
      | (.error error, writer) => (.error error, writer)
      | (.ok _, writer) => toWriter writer rest

def frameJsonrpcMessageWithLimit (serde : Serde Message) (message : Message) (limit : Nat) :
    Except ExecServerError Bytes :=
  match toWriter ⟨List.replicate LENGTH_PREFIX_BYTES 0, limit, false⟩ (serde.writes message) with
  | (result, writer) =>
      if writer.exceeded then
        .error (.protocol "Noise relay JSON-RPC message exceeds maximum length")
      else
        match result with
        | .error error => .error (.json error)
        | .ok () =>
            let messageLen := writer.framed.length - LENGTH_PREFIX_BYTES
            .ok (toBeBytes messageLen ++ writer.framed.drop LENGTH_PREFIX_BYTES)

def frameJsonrpcMessage (serde : Serde Message) (message : Message) :
    Except ExecServerError Bytes :=
  frameJsonrpcMessageWithLimit serde message MAX_JSONRPC_MESSAGE_LEN

structure JsonRpcMessageDecoder where
  buffered : Bytes := []

/-- The `while messages.len() < max_messages` loop of `push_with_limit`; `remaining` is
    `max_messages - messages.len()`. Returns the messages and the consumed length. -/
def decodeMessages (serde : Serde Message) (buffered : Bytes) :
    Nat → Nat → List Message → Except ExecServerError (List Message × Nat)
  | 0, consumed, messages => .ok (messages, consumed)
  | remaining + 1, consumed, messages =>
      match buffered.drop consumed with
      | a :: b :: c :: d :: _ =>
          let messageLen := fromBeBytes a b c d
          -- Reject the authenticated length before waiting for its payload.
          if messageLen = 0 ∨ MAX_JSONRPC_MESSAGE_LEN < messageLen then
            .error (.protocol "Noise relay JSON-RPC message has invalid length")
          else
            let framedLen := consumed + LENGTH_PREFIX_BYTES + messageLen
            if buffered.length < framedLen then
              .ok (messages, consumed)
            else
              match serde.fromSlice
                  ((buffered.drop (consumed + LENGTH_PREFIX_BYTES)).take messageLen) with
              | .error error => .error (.json error)
              | .ok message => decodeMessages serde buffered remaining framedLen (messages ++ [message])
      | _ => .ok (messages, consumed)

/-- `JsonRpcMessageDecoder::push_with_limit` (`message_framing.rs:87`). The capacity kept
    by the buffer has no observable effect. -/
def pushWithLimit (serde : Serde Message) (decoder : JsonRpcMessageDecoder)
    (plaintextRecord : Bytes) (maxMessages : Nat) :
    Except ExecServerError (List Message × JsonRpcMessageDecoder) :=
  if NOISE_RECORD_PLAINTEXT_LEN < plaintextRecord.length then
    .error (.protocol "Noise relay plaintext record exceeds maximum length")
  else
    let buffered := decoder.buffered ++ plaintextRecord
    match decodeMessages serde buffered maxMessages 0 [] with
    | .error error => .error error
    | .ok (messages, consumed) =>
        let buffered := buffered.drop consumed
        if LENGTH_PREFIX_BYTES + MAX_JSONRPC_MESSAGE_LEN < buffered.length then
          .error (.protocol "Noise relay JSON-RPC reassembly buffer exceeds maximum length")
        else
          .ok (messages, ⟨buffered⟩)

/-- One call of a decoding session: its limit, what it returned and the buffer it left. -/
structure Call (Message : Type) where
  limit : Nat
  returned : List Message
  bufferedLen : Nat

/-- Drain with empty records until a call returns nothing. The limit of each call is given
    by its number in the session. Running out of fuel is an error of its own. -/
def drain (serde : Serde Message) (limits : Nat → Nat) :
    Nat → Nat → JsonRpcMessageDecoder →
      Except ExecServerError (List (Call Message) × JsonRpcMessageDecoder)
  | 0, _, _ => .error .closed
  | fuel + 1, call, decoder =>
      match pushWithLimit serde decoder [] (limits call) with
      | .error error => .error error
      | .ok (messages, decoder) =>
          let entry : Call Message := ⟨limits call, messages, decoder.buffered.length⟩
          if messages.isEmpty then
            .ok ([entry], decoder)
          else
            match drain serde limits fuel (call + 1) decoder with
            | .error error => .error error
            | .ok (calls, decoder) => .ok (entry :: calls, decoder)

/-- A session: every record is pushed and then drained before the next one. -/
def session (serde : Serde Message) (limits : Nat → Nat) :
    Nat → JsonRpcMessageDecoder → List Bytes →
      Except ExecServerError (List (Call Message) × JsonRpcMessageDecoder)
  | _, decoder, [] => .ok ([], decoder)
  | call, decoder, record :: records =>
      match pushWithLimit serde decoder record (limits call) with
      | .error error => .error error
      | .ok (messages, decoder) =>
          let entry : Call Message := ⟨limits call, messages, decoder.buffered.length⟩
          match drain serde limits (decoder.buffered.length + 1) (call + 1) decoder with
          | .error error => .error error
          | .ok (drained, decoder) =>
              match session serde limits (call + 1 + drained.length) decoder records with
              | .error error => .error error
              | .ok (calls, decoder) => .ok (entry :: (drained ++ calls), decoder)

/-- The frame of a message whose length fits. -/
def frameBytes (serde : Serde Message) (message : Message) : Bytes :=
  toBeBytes (serde.serialize message).length ++ serde.serialize message

theorem frameBytes_length (serde : Serde Message) (message : Message) :
    (frameBytes serde message).length = 4 + (serde.serialize message).length := by
  simp [frameBytes, toBeBytes]
  omega

theorem toWriter_fits {writer : BoundedMessageWriter} {writes : List Bytes}
    (fits : writes.flatten.length ≤ writer.remaining) :
    toWriter writer writes = (.ok (), { writer with
      framed := writer.framed ++ writes.flatten
      remaining := writer.remaining - writes.flatten.length }) := by
  induction writes generalizing writer with
  | nil => simp [toWriter]
  | cons bytes rest ih =>
    simp only [List.flatten_cons, List.length_append] at fits ⊢
    have room : ¬ writer.remaining < bytes.length := by omega
    simp only [toWriter, BoundedMessageWriter.write, if_neg room]
    rw [ih (by simp only; omega)]
    simp only [List.append_assoc, Nat.sub_add_eq]

theorem toWriter_exceeds {writer : BoundedMessageWriter} {writes : List Bytes}
    (long : writer.remaining < writes.flatten.length) :
    (toWriter writer writes).2.exceeded = true := by
  induction writes generalizing writer with
  | nil => simp at long
  | cons bytes rest ih =>
    simp only [List.flatten_cons, List.length_append] at long
    simp only [toWriter, BoundedMessageWriter.write]
    by_cases full : writer.remaining < bytes.length
    · simp [full]
    · simp only [if_neg full]
      exact ih (by simp only; omega)

theorem frameJsonrpcMessage_fits {serde : Serde Message} {message : Message}
    (fits : (serde.serialize message).length ≤ MAX_JSONRPC_MESSAGE_LEN) :
    frameJsonrpcMessage serde message = .ok (frameBytes serde message) := by
  have written := @toWriter_fits ⟨List.replicate LENGTH_PREFIX_BYTES 0, MAX_JSONRPC_MESSAGE_LEN, false⟩
    (serde.writes message) fits
  simp only [frameJsonrpcMessage, frameJsonrpcMessageWithLimit, written]
  simp [frameBytes, LENGTH_PREFIX_BYTES, Serde.serialize]

theorem frameJsonrpcMessage_exceeds {serde : Serde Message} {message : Message}
    (long : MAX_JSONRPC_MESSAGE_LEN < (serde.serialize message).length) :
    frameJsonrpcMessage serde message =
      .error (.protocol "Noise relay JSON-RPC message exceeds maximum length") := by
  have exceeded := @toWriter_exceeds ⟨List.replicate LENGTH_PREFIX_BYTES 0, MAX_JSONRPC_MESSAGE_LEN, false⟩
    (serde.writes message) long
  simp only [frameJsonrpcMessage, frameJsonrpcMessageWithLimit, exceeded, if_true]

theorem frameJsonrpcMessage_ok_iff {serde : Serde Message} {message : Message} {frame : Bytes} :
    frameJsonrpcMessage serde message = .ok frame ↔
      (serde.serialize message).length ≤ MAX_JSONRPC_MESSAGE_LEN ∧
        frame = frameBytes serde message := by
  by_cases fits : (serde.serialize message).length ≤ MAX_JSONRPC_MESSAGE_LEN
  · rw [frameJsonrpcMessage_fits fits]
    simp [fits, eq_comm]
  · rw [frameJsonrpcMessage_exceeds (Nat.lt_of_not_le fits)]
    simp [fits]

theorem Serde.Lawful.serialize_pos {serde : Serde Message} (lawful : serde.Lawful)
    (message : Message) : 0 < (serde.serialize message).length := by
  apply List.length_pos_of_ne_nil
  intro empty
  obtain ⟨error, rejected⟩ := lawful.empty
  have parsed := lawful.inverse message
  rw [empty, rejected] at parsed
  cases parsed

/-- The frames of the messages still to be decoded, and that each of them was accepted. -/
def frames (serde : Serde Message) (messages : List Message) : Bytes :=
  messages.flatMap (frameBytes serde)

def Accepted (serde : Serde Message) (messages : List Message) : Prop :=
  ∀ message ∈ messages, (serde.serialize message).length ≤ MAX_JSONRPC_MESSAGE_LEN

/-- The buffer ends before the first undelivered message is complete. -/
def Incomplete (serde : Serde Message) (buffered : Bytes) (pending : List Message) : Prop :=
  ∀ message rest, pending = message :: rest → buffered.length < (frameBytes serde message).length

/-- What the loop finds at a frame boundary of an accepted stream: the length of the next
    message when four bytes are there. -/
theorem header_of_frames {serde : Serde Message} {message : Message} {pending : List Message}
    {buffered rest : Bytes} (stream : buffered ++ rest = frames serde (message :: pending))
    (header : 4 ≤ buffered.length)
    (fits : (serde.serialize message).length ≤ MAX_JSONRPC_MESSAGE_LEN) :
    ∃ a b c d tail, buffered = a :: b :: c :: d :: tail ∧
      fromBeBytes a b c d = (serde.serialize message).length := by
  obtain ⟨a, b, c, d, tail, rfl⟩ : ∃ a b c d tail, buffered = a :: b :: c :: d :: tail := by
    obtain ⟨a, rest, rfl⟩ := List.exists_cons_of_length_pos (show 0 < buffered.length by omega)
    simp only [List.length_cons] at header
    obtain ⟨b, rest, rfl⟩ := List.exists_cons_of_length_pos (show 0 < rest.length by omega)
    simp only [List.length_cons] at header
    obtain ⟨c, rest, rfl⟩ := List.exists_cons_of_length_pos (show 0 < rest.length by omega)
    simp only [List.length_cons] at header
    obtain ⟨d, rest, rfl⟩ := List.exists_cons_of_length_pos (show 0 < rest.length by omega)
    exact ⟨a, b, c, d, rest, rfl⟩
  refine ⟨a, b, c, d, tail, rfl, ?_⟩
  simp only [frames, List.flatMap_cons, frameBytes, toBeBytes, List.cons_append,
    List.cons.injEq] at stream
  obtain ⟨rfl, rfl, rfl, rfl, -⟩ := stream
  unfold MAX_JSONRPC_MESSAGE_LEN at fits
  exact fromBeBytes_toBeBytes (by omega)

/-- A buffer that holds the whole first frame starts with it. -/
theorem frame_split {serde : Serde Message} {message : Message} {pending : List Message}
    {buffered rest : Bytes} (stream : buffered ++ rest = frames serde (message :: pending))
    (whole : (frameBytes serde message).length ≤ buffered.length) :
    ∃ after, buffered = frameBytes serde message ++ after ∧
      after ++ rest = frames serde pending := by
  have first : frameBytes serde message <+: buffered ++ rest := by
    rw [stream]
    simp [frames]
  obtain ⟨after, rfl⟩ := List.prefix_of_prefix_length_le first (List.prefix_append _ _) whole
  refine ⟨after, rfl, ?_⟩
  simp only [frames, List.flatMap_cons, List.append_assoc] at stream
  exact List.append_cancel_left stream

/-- The loop on a buffer that, from `consumed` on, is a prefix of the pending frames: it
    takes whole messages off the front, at most `remaining` of them, and stops early only
    where the next message is not complete. -/
theorem decodeMessages_frames {serde : Serde Message} (lawful : serde.Lawful)
    {buffered rest : Bytes} {remaining consumed : Nat} {messages pending : List Message}
    (accepted : Accepted serde pending) (inside : consumed ≤ buffered.length)
    (stream : buffered.drop consumed ++ rest = frames serde pending) :
    ∃ taken left consumed', pending = taken ++ left ∧
      decodeMessages serde buffered remaining consumed messages = .ok (messages ++ taken, consumed') ∧
      consumed' = consumed + (frames serde taken).length ∧ consumed' ≤ buffered.length ∧
      buffered.drop consumed' ++ rest = frames serde left ∧ taken.length ≤ remaining ∧
      (taken.length = remaining ∨ Incomplete serde (buffered.drop consumed') left) := by
  induction remaining generalizing consumed messages pending with
  | zero =>
    exact ⟨[], pending, consumed, rfl, by simp [decodeMessages], by simp [frames], inside, stream,
      by simp, .inl rfl⟩
  | succ remaining ih =>
    -- stopping here takes nothing
    have stop : Incomplete serde (buffered.drop consumed) pending →
        decodeMessages serde buffered (remaining + 1) consumed messages = .ok (messages, consumed) →
        ∃ taken left consumed', pending = taken ++ left ∧
          decodeMessages serde buffered (remaining + 1) consumed messages =
            .ok (messages ++ taken, consumed') ∧
          consumed' = consumed + (frames serde taken).length ∧ consumed' ≤ buffered.length ∧
          buffered.drop consumed' ++ rest = frames serde left ∧ taken.length ≤ remaining + 1 ∧
          (taken.length = remaining + 1 ∨ Incomplete serde (buffered.drop consumed') left) := by
      intro incomplete stopped
      exact ⟨[], pending, consumed, rfl, by simpa using stopped, by simp [frames], inside, stream,
        by simp, .inr incomplete⟩
    by_cases header : 4 ≤ (buffered.drop consumed).length
    · cases pending with
      | nil =>
        have empty : buffered.drop consumed = [] := by
          simp only [frames, List.flatMap_nil, List.append_eq_nil_iff] at stream
          exact stream.1
        simp [empty] at header
      | cons message pending =>
        have fits := accepted message (by simp)
        obtain ⟨a, b, c, d, tail, found, length⟩ := header_of_frames stream header fits
        have positive := lawful.serialize_pos message
        have valid : ¬ ((serde.serialize message).length = 0 ∨
            MAX_JSONRPC_MESSAGE_LEN < (serde.serialize message).length) := by omega
        by_cases short : buffered.length <
            consumed + LENGTH_PREFIX_BYTES + (serde.serialize message).length
        · apply stop
          · intro message' rest' equal
            obtain ⟨rfl, rfl⟩ := List.cons.inj equal
            rw [frameBytes_length, List.length_drop]
            unfold LENGTH_PREFIX_BYTES at short
            omega
          · simp only [decodeMessages, found, length, if_neg valid, if_pos short]
        -- the whole frame is buffered: split it off the front of the stream
        have whole : (frameBytes serde message).length ≤ (buffered.drop consumed).length := by
          rw [frameBytes_length, List.length_drop]
          unfold LENGTH_PREFIX_BYTES at short
          omega
        obtain ⟨after, split, stream'⟩ := frame_split stream whole
        have payload : (buffered.drop (consumed + LENGTH_PREFIX_BYTES)).take
            (serde.serialize message).length = serde.serialize message := by
          rw [← List.drop_drop, split]
          simp [frameBytes, toBeBytes, LENGTH_PREFIX_BYTES]
        have advanced : buffered.drop
            (consumed + LENGTH_PREFIX_BYTES + (serde.serialize message).length) = after := by
          rw [Nat.add_assoc, ← List.drop_drop, split]
          apply List.drop_left'
          rw [frameBytes_length, LENGTH_PREFIX_BYTES]
        rw [← advanced] at stream'
        have step : decodeMessages serde buffered (remaining + 1) consumed messages =
            decodeMessages serde buffered remaining
              (consumed + LENGTH_PREFIX_BYTES + (serde.serialize message).length)
              (messages ++ [message]) := by
          simp only [decodeMessages, found, length, if_neg valid, if_neg short, payload,
            lawful.inverse]
        obtain ⟨taken, left, consumed', rfl, decoded, used, inside', stream'', count, ended⟩ :=
          @ih _ (messages ++ [message]) pending
            (fun other member => accepted other (List.mem_cons_of_mem _ member))
            (Nat.le_of_not_lt short) stream'
        refine ⟨message :: taken, left, consumed', rfl, ?_, ?_, inside', stream'', ?_, ?_⟩
        · rw [step, decoded]
          simp
        · rw [used]
          simp only [frames, List.flatMap_cons, List.length_append, frameBytes_length,
            LENGTH_PREFIX_BYTES]
          omega
        · simpa using count
        · simpa using ended
    · -- fewer than four bytes: even the length is incomplete
      apply stop
      · intro message rest' _
        rw [frameBytes_length]
        omega
      simp only [decodeMessages]
      match split : buffered.drop consumed with
      | a :: b :: c :: d :: tail =>
        rw [split] at header
        simp at header
      | [] | [_] | [_, _] | [_, _, _] => rfl

/-- One call on a stream of accepted frames, on a buffer without a complete message or with
    an empty record: it returns the next messages, at most its limit, and leaves less than a
    maximal frame. -/
theorem pushWithLimit_frames {serde : Serde Message} (lawful : serde.Lawful)
    {decoder : JsonRpcMessageDecoder} {record rest : Bytes} {limit : Nat} {pending : List Message}
    (accepted : Accepted serde pending) (bounded : record.length ≤ NOISE_RECORD_PLAINTEXT_LEN)
    (positive : 0 < limit)
    (stream : decoder.buffered ++ record ++ rest = frames serde pending)
    (room : Incomplete serde decoder.buffered pending ∨
      (record = [] ∧ decoder.buffered.length ≤ LENGTH_PREFIX_BYTES + MAX_JSONRPC_MESSAGE_LEN)) :
    ∃ taken left decoder', pending = taken ++ left ∧
      pushWithLimit serde decoder record limit = .ok (taken, decoder') ∧
      decoder'.buffered ++ rest = frames serde left ∧ taken.length ≤ limit ∧
      decoder'.buffered.length ≤ LENGTH_PREFIX_BYTES + MAX_JSONRPC_MESSAGE_LEN ∧
      (taken = [] → Incomplete serde decoder'.buffered left) ∧
      decoder'.buffered.length + taken.length ≤ (decoder.buffered ++ record).length := by
  obtain ⟨taken, left, consumed, rfl, decoded, used, inside, stream', count, ended⟩ :=
    @decodeMessages_frames _ serde lawful (decoder.buffered ++ record) rest limit 0 [] pending
      accepted (Nat.zero_le _) (by simpa using stream)
  have advance : taken.length ≤ (frames serde taken).length := by
    clear decoded used ended count accepted stream room
    induction taken with
    | nil => simp
    | cons message taken ih =>
      simp only [frames, List.flatMap_cons, List.length_append, List.length_cons,
        frameBytes_length] at ih ⊢
      omega
  have small : ((decoder.buffered ++ record).drop consumed).length ≤
      LENGTH_PREFIX_BYTES + MAX_JSONRPC_MESSAGE_LEN := by
    rcases ended with full | incomplete
    · -- the limit is positive, so at least one frame came off the front
      cases taken with
      | nil => simp at full; omega
      | cons message taken =>
        simp only [frames, List.flatMap_cons, List.length_append] at used
        rw [List.length_drop, List.length_append]
        rcases room with room | ⟨rfl, short⟩
        · have below := room message (taken ++ left) rfl
          unfold NOISE_RECORD_PLAINTEXT_LEN at bounded
          unfold LENGTH_PREFIX_BYTES MAX_JSONRPC_MESSAGE_LEN
          omega
        · simp only [List.length_nil]
          omega
    · cases left with
      | nil =>
        simp only [frames, List.flatMap_nil, List.append_eq_nil_iff] at stream'
        simp [stream'.1]
      | cons message left =>
        have below := incomplete message left rfl
        have fits := accepted message (by simp)
        rw [frameBytes_length] at below
        unfold LENGTH_PREFIX_BYTES
        omega
  refine ⟨taken, left, ⟨(decoder.buffered ++ record).drop consumed⟩, rfl, ?_, stream', count,
    small, ?_, ?_⟩
  · simp only [pushWithLimit, if_neg (Nat.not_lt.mpr bounded), decoded, List.nil_append,
      if_neg (Nat.not_lt.mpr small)]
  · rintro rfl
    rcases ended with full | incomplete
    · simp at full
      omega
    · exact incomplete
  · simp only [List.length_drop]
    omega

/-- What every call of a session keeps. -/
def Call.Bounded (call : Call Message) : Prop :=
  call.returned.length ≤ call.limit ∧
    call.bufferedLen ≤ LENGTH_PREFIX_BYTES + MAX_JSONRPC_MESSAGE_LEN

/-- Draining ends within the buffered length, returns the next messages in order and leaves
    no complete message. -/
theorem drain_frames {serde : Serde Message} (lawful : serde.Lawful) {limits : Nat → Nat}
    (positive : ∀ call, 0 < limits call) {fuel call : Nat} {decoder : JsonRpcMessageDecoder}
    {rest : Bytes} {pending : List Message} (accepted : Accepted serde pending)
    (stream : decoder.buffered ++ rest = frames serde pending)
    (short : decoder.buffered.length ≤ LENGTH_PREFIX_BYTES + MAX_JSONRPC_MESSAGE_LEN)
    (enough : decoder.buffered.length < fuel) :
    ∃ calls left decoder', drain serde limits fuel call decoder = .ok (calls, decoder') ∧
      pending = calls.flatMap Call.returned ++ left ∧
      decoder'.buffered ++ rest = frames serde left ∧
      Incomplete serde decoder'.buffered left ∧ ∀ call ∈ calls, call.Bounded := by
  induction fuel generalizing call decoder pending with
  | zero => omega
  | succ fuel ih =>
    obtain ⟨taken, left, decoder', rfl, pushed, stream', count, small, ended, shrunk⟩ :=
      pushWithLimit_frames lawful accepted (Nat.zero_le _) (positive call)
        (by simpa using stream) (.inr ⟨rfl, short⟩)
    have entry : Call.Bounded (⟨limits call, taken, decoder'.buffered.length⟩ : Call Message) :=
      ⟨count, small⟩
    simp only [drain, pushed]
    cases taken with
    | nil =>
      refine ⟨[⟨limits call, [], decoder'.buffered.length⟩], left, decoder', rfl, by simp, stream',
        ended rfl, ?_⟩
      intro call member
      obtain rfl := List.mem_singleton.mp member
      exact entry
    | cons message taken =>
      simp only [List.append_nil, List.length_cons] at shrunk
      obtain ⟨calls, left', decoder'', ran, rfl, stream'', incomplete, bounded⟩ :=
        @ih (call + 1) decoder' left (fun other member => accepted other (List.mem_append_right _ member))
          stream' small (by omega)
      refine ⟨⟨limits call, message :: taken, decoder'.buffered.length⟩ :: calls, left', decoder'',
        ?_, by simp, stream'', incomplete, ?_⟩
      · simp [ran]
      · intro call member
        rcases List.mem_cons.mp member with rfl | member
        · exact entry
        · exact bounded call member

/-- A whole session on the rest of the stream. -/
theorem session_frames {serde : Serde Message} (lawful : serde.Lawful) {limits : Nat → Nat}
    (positive : ∀ call, 0 < limits call) {call : Nat} {decoder : JsonRpcMessageDecoder}
    {records : List Bytes} {pending : List Message} (accepted : Accepted serde pending)
    (sizes : ∀ record ∈ records, record.length ≤ NOISE_RECORD_PLAINTEXT_LEN)
    (stream : decoder.buffered ++ records.flatten = frames serde pending)
    (incomplete : Incomplete serde decoder.buffered pending) :
    ∃ calls decoder', session serde limits call decoder records = .ok (calls, decoder') ∧
      calls.flatMap Call.returned = pending ∧ ∀ call ∈ calls, call.Bounded := by
  induction records generalizing call decoder pending with
  | nil =>
    refine ⟨[], decoder, rfl, ?_, by simp⟩
    cases pending with
    | nil => rfl
    | cons message pending =>
      have below := incomplete message pending rfl
      simp only [List.flatten_nil, List.append_nil] at stream
      rw [stream] at below
      simp only [frames, List.flatMap_cons, List.length_append] at below
      omega
  | cons record records ih =>
    obtain ⟨taken, left, decoder', rfl, pushed, stream', count, small, -, -⟩ :=
      pushWithLimit_frames lawful accepted (sizes record (by simp)) (positive call)
        (by simpa using stream) (.inl incomplete)
    have acceptedLeft : Accepted serde left :=
      fun other member => accepted other (List.mem_append_right _ member)
    obtain ⟨drained, left', decoder'', ran, rfl, stream'', incomplete', bounded⟩ :=
      @drain_frames _ serde lawful limits positive (decoder'.buffered.length + 1) (call + 1) decoder' _ _
        acceptedLeft stream' small (Nat.lt_succ_self _)
    obtain ⟨calls, final, rest, delivered, boundedRest⟩ :=
      @ih (call + 1 + drained.length) decoder'' left'
        (fun other member => acceptedLeft other (List.mem_append_right _ member))
        (fun other member => sizes other (List.mem_cons_of_mem _ member)) stream'' incomplete'
    refine ⟨⟨limits call, taken, decoder'.buffered.length⟩ :: (drained ++ calls), final, ?_, ?_, ?_⟩
    · simp only [session, pushed, ran, rest]
    · simp [delivered]
    intro call member
    rcases List.mem_cons.mp member with rfl | member
    · exact ⟨count, small⟩
    · rcases List.mem_append.mp member with member | member
      · exact bounded call member
      · exact boundedRest call member

/-- For messages that `frame_jsonrpc_message` accepts, any cut of the concatenated frames
    into records and any positive limits: the session never fails, returns the messages in
    order, no call returns more than its limit, and no call leaves more than one maximal
    frame. Framing itself fails exactly on a message that is too long. -/
theorem session_round_trip {serde : Serde Message} (lawful : serde.Lawful)
    {messages : List Message} {framed records : List Bytes} {limits : Nat → Nat}
    (accepted : List.Forall₂ (fun message frame => frameJsonrpcMessage serde message = .ok frame)
      messages framed)
    (cut : records.flatten = framed.flatten)
    (sizes : ∀ record ∈ records, record.length ≤ NOISE_RECORD_PLAINTEXT_LEN)
    (positive : ∀ call, 0 < limits call) :
    (∃ calls decoder, session serde limits 0 {} records = .ok (calls, decoder) ∧
      calls.flatMap Call.returned = messages ∧
      ∀ call ∈ calls, call.returned.length ≤ call.limit ∧
        call.bufferedLen ≤ LENGTH_PREFIX_BYTES + MAX_JSONRPC_MESSAGE_LEN) ∧
    ∀ message, (∃ error, frameJsonrpcMessage serde message = .error error) ↔
      MAX_JSONRPC_MESSAGE_LEN < (serde.serialize message).length := by
  have stream : framed.flatten = frames serde messages ∧ Accepted serde messages := by
    clear cut
    induction accepted with
    | nil => simp [frames, Accepted]
    | cons head _ ih =>
      obtain ⟨fits, rfl⟩ := frameJsonrpcMessage_ok_iff.mp head
      refine ⟨by simp [frames, ih.1], ?_⟩
      intro message member
      rcases List.mem_cons.mp member with rfl | member
      · exact fits
      · exact ih.2 message member
  refine ⟨?_, ?_⟩
  · have start : Incomplete serde ([] : Bytes) messages := by
      intro message rest _
      rw [frameBytes_length, List.length_nil]
      omega
    exact session_frames lawful positive stream.2 sizes (by simpa [cut] using stream.1) start
  · intro message
    by_cases fits : (serde.serialize message).length ≤ MAX_JSONRPC_MESSAGE_LEN
    · simp [frameJsonrpcMessage_fits fits, fits]
    · simp [frameJsonrpcMessage_exceeds (Nat.lt_of_not_le fits), Nat.lt_of_not_le fits]

/-- The one notification `{"method":"m"}`, in the buffers `serde_json` writes it. -/
def notificationSerde : Serde Unit where
  writes := fun _ => [[0x7b], [0x22], [0x6d, 0x65, 0x74, 0x68, 0x6f, 0x64], [0x22], [0x3a],
    [0x22], [0x6d], [0x22], [0x7d]]
  fromSlice := fun bytes =>
    if bytes = [0x7b, 0x22, 0x6d, 0x65, 0x74, 0x68, 0x6f, 0x64, 0x22, 0x3a, 0x22, 0x6d, 0x22, 0x7d]
    then .ok ()
    else .error "expected value at line 1 column 1"

/-- Two notifications, cut inside the first length and inside the second message, one message
    a call. -/
theorem session_round_trip_notifications :
    ∃ calls decoder, session notificationSerde (fun _ => 1) 0 {}
        [[0, 0], [0, 14, 0x7b, 0x22, 0x6d, 0x65, 0x74, 0x68, 0x6f, 0x64, 0x22, 0x3a, 0x22, 0x6d,
          0x22, 0x7d, 0, 0, 0, 14, 0x7b, 0x22], [0x6d, 0x65, 0x74, 0x68, 0x6f, 0x64, 0x22, 0x3a,
          0x22, 0x6d, 0x22, 0x7d]] = .ok (calls, decoder) ∧
      calls.flatMap Call.returned = [(), ()] ∧
      ∀ call ∈ calls, call.returned.length ≤ call.limit ∧
        call.bufferedLen ≤ LENGTH_PREFIX_BYTES + MAX_JSONRPC_MESSAGE_LEN := by
  have lawful : notificationSerde.Lawful := ⟨fun _ => rfl, _, rfl⟩
  have accepted : List.Forall₂
      (fun message frame => frameJsonrpcMessage notificationSerde message = .ok frame) [(), ()]
      [frameBytes notificationSerde (), frameBytes notificationSerde ()] :=
    .cons (frameJsonrpcMessage_fits (by decide)) (.cons (frameJsonrpcMessage_fits (by decide)) .nil)
  refine (session_round_trip lawful accepted ?_ ?_ (fun _ => Nat.one_pos)).1
  · decide
  · decide

end Codex.ExecServer.MessageFraming
