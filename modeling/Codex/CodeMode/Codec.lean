import Codex.Lib.Hoare
import Codex.Lib.JsonNesting

/-!
# Frames of the code-mode host

`code-mode-protocol/src/host/codec.rs`: the two encoders and the reader of frames. What `serde_json`
writes and reads is a parameter.
-/

namespace Codex.CodeMode

def MAX_FRAME_BYTES : Nat := 64 * 1024 * 1024

def LENGTH_PREFIX_BYTES : Nat := 4

inductive ErrorKind where
  | invalidData
  | unexpectedEof
  | other
  deriving DecidableEq, Repr

/-- `io::Error`. -/
structure IoError where
  kind : ErrorKind
  message : String
  deriving DecidableEq, Repr

/-- `JsonDepth` (`codec.rs:22`). -/
structure JsonDepth where
  depth : Nat
  inString : Bool
  escaped : Bool
  deriving DecidableEq, Repr

def JsonDepth.initial : JsonDepth := ⟨0, false, false⟩

def nestingError : IoError :=
  ⟨.invalidData, "code-mode IPC frame exceeds the JSON nesting limit"⟩

/-- The body of the loop of `JsonDepth::admit` (`codec.rs:31`). -/
def JsonDepth.admitByte (state : JsonDepth) (byte : UInt8) : Except IoError JsonDepth :=
  if state.inString then
    if state.escaped then .ok { state with escaped := false }
    else if byte = 92 then .ok { state with escaped := true }
    else if byte = 34 then .ok { state with inString := false }
    else .ok state
  else if byte = 34 then .ok { state with inString := true }
  else if byte = 91 || byte = 123 then
    if 128 ≤ state.depth + 1 then .error nestingError
    else .ok { state with depth := state.depth + 1 }
  else if byte = 93 || byte = 125 then .ok { state with depth := state.depth - 1 }
  else .ok state

/-- `JsonDepth::admit` (`codec.rs:29`). -/
def JsonDepth.admitBytes (state : JsonDepth) (bytes : List UInt8) : Except IoError JsonDepth :=
  bytes.foldlM JsonDepth.admitByte state

/-- `usize::next_power_of_two`. -/
def nextPowerOfTwo (number : Nat) : Nat := 2 ^ Nat.clog 2 number

/-- `LimitedPayload` (`codec.rs:57`), and the capacities that were admitted so far. -/
structure LimitedPayload where
  bytes : List UInt8
  capacity : Nat
  reserved : Nat
  limit : Nat
  depth : JsonDepth
  admitted : List Nat

/-- An `admit_capacity`: what it answers to a capacity, given those that it was asked for before. -/
abbrev AdmitCapacity := List Nat → Nat → Except IoError Unit

/-- `LimitedPayload::write` (`codec.rs:67`). -/
def LimitedPayload.write (admitCapacity : AdmitCapacity) (payload : LimitedPayload)
    (bytes : List UInt8) : Except IoError LimitedPayload :=
  if payload.limit - (payload.bytes.length - payload.reserved) < bytes.length then
    .error ⟨.invalidData, "code-mode IPC frame exceeds " ++ toString payload.limit ++ " bytes"⟩
  else
    (payload.depth.admitBytes bytes).bind fun depth =>
      let needed := payload.bytes.length + bytes.length
      if payload.capacity < needed then
        let capacity :=
          min (max (nextPowerOfTwo needed) 128) (MAX_FRAME_BYTES + LENGTH_PREFIX_BYTES)
        (admitCapacity payload.admitted capacity).map fun _ =>
          { payload with
            bytes := payload.bytes ++ bytes
            capacity := capacity
            depth := depth
            admitted := payload.admitted ++ [capacity] }
      else .ok { payload with bytes := payload.bytes ++ bytes, depth := depth }

/-- `Counter` (`codec.rs:108`). -/
structure Counter where
  count : Nat
  depth : JsonDepth

/-- `Counter::write` (`codec.rs:110`). -/
def Counter.write (counter : Counter) (bytes : List UInt8) : Except IoError Counter :=
  let count := min (counter.count + bytes.length) (2 ^ 64 - 1)
  if MAX_FRAME_BYTES < count then .error ⟨.invalidData, "IPC frame exceeds byte limit"⟩
  else (counter.depth.admitBytes bytes).map fun depth => ⟨count, depth⟩

/-- `EncodedFrame::encoded_len` (`codec.rs:105`) of a message that is written in chunks. -/
def encodedLen (chunks : List (List UInt8)) : Except IoError Nat :=
  ((chunks.foldlM Counter.write ⟨0, .initial⟩).mapError fun error =>
    (⟨.other, error.message⟩ : IoError)).map fun counter => counter.count + LENGTH_PREFIX_BYTES

/-- `u32::to_le_bytes`. -/
def toLeBytes (number : Nat) : List UInt8 :=
  [UInt8.ofNat number, UInt8.ofNat (number / 256), UInt8.ofNat (number / 65536),
    UInt8.ofNat (number / 16777216)]

/-- The buffer behind the first admission (`codec.rs:146`). -/
def LimitedPayload.initial : LimitedPayload where
  bytes := [0, 0, 0, 0]
  capacity := 128
  reserved := LENGTH_PREFIX_BYTES
  limit := MAX_FRAME_BYTES
  depth := .initial
  admitted := [128]

/-- `EncodedFrame::encode_with_admission` (`codec.rs:139`). -/
def encodeWithAdmission (admitCapacity : AdmitCapacity) (chunks : List (List UInt8)) :
    Except IoError (List UInt8) :=
  (admitCapacity [] 128).bind fun _ =>
    ((chunks.foldlM (LimitedPayload.write admitCapacity) .initial).mapError fun error =>
      (⟨.invalidData, "failed to encode code-mode IPC frame: " ++ error.message⟩ :
        IoError)).bind fun frame =>
      let length := frame.bytes.length - LENGTH_PREFIX_BYTES
      if 2 ^ 32 ≤ length then
        .error ⟨.invalidData, "code-mode IPC frame length exceeds u32"⟩
      else .ok (toLeBytes length ++ frame.bytes.drop LENGTH_PREFIX_BYTES)

/-- `EncodedFrame::encode` (`codec.rs:127`). -/
def encode (chunks : List (List UInt8)) : Except IoError (List UInt8) :=
  encodeWithAdmission (fun _ _ => .ok ()) chunks

theorem admit_append (state : JsonDepth) (first second : List UInt8) :
    state.admitBytes (first ++ second) =
      (state.admitBytes first).bind fun next => next.admitBytes second :=
  List.foldlM_append

theorem admit_cons (state : JsonDepth) (byte : UInt8) (bytes : List UInt8) :
    state.admitBytes (byte :: bytes) =
      (state.admitByte byte).bind fun next => next.admitBytes bytes :=
  List.foldlM_cons

/-- Outside of strings, at a depth. -/
def JsonDepth.outside (depth : Nat) : JsonDepth := ⟨depth, false, false⟩

theorem admit_filler (depth : Nat) {bytes : List UInt8} (filler : bytes.all isFiller = true) :
    (JsonDepth.outside depth).admitBytes bytes = .ok (.outside depth) := by
  induction bytes with
  | nil => rfl
  | cons byte bytes ih =>
    rw [List.all_cons, Bool.and_eq_true] at filler
    have plain : (JsonDepth.outside depth).admitByte byte = .ok (.outside depth) := by
      have isFiller := filler.1
      simp only [Codex.isFiller, Bool.and_eq_true, decide_eq_true_eq] at isFiller
      obtain ⟨⟨⟨⟨quote, openArray⟩, closeArray⟩, openObject⟩, closeObject⟩ := isFiller
      simp [JsonDepth.admitByte, JsonDepth.outside, quote, openArray, closeArray, openObject,
        closeObject]
    rw [admit_cons, plain]
    exact ih filler.2

theorem admit_stringParts (depth : Nat) (parts : List StringPart) :
    (⟨depth, true, false⟩ : JsonDepth).admitBytes (parts.flatMap StringPart.text) =
      .ok ⟨depth, true, false⟩ := by
  induction parts with
  | nil => rfl
  | cons part parts ih =>
    rw [List.flatMap_cons, admit_append]
    cases part with
    | plain byte isPlain =>
      rw [Bool.and_eq_true, decide_eq_true_eq, decide_eq_true_eq] at isPlain
      have step : (⟨depth, true, false⟩ : JsonDepth).admitByte byte = .ok ⟨depth, true, false⟩ := by
        simp [JsonDepth.admitByte, isPlain.1, isPlain.2]
      rw [StringPart.text, admit_cons, step]
      exact ih
    | escaped byte => exact ih

theorem admit_string (depth : Nat) (parts : List StringPart) :
    (JsonDepth.outside depth).admitBytes (JsonSource.string parts).text = .ok (.outside depth) := by
  rw [JsonSource.text, admit_cons]
  change ((⟨depth, true, false⟩ : JsonDepth).admitBytes _) = _
  rw [admit_append, admit_stringParts]
  rfl

theorem admitByte_open (depth : Nat) (isObject : Bool) :
    (JsonDepth.outside depth).admitByte (JsonSource.openByte isObject) =
      if 128 ≤ depth + 1 then .error nestingError else .ok (.outside (depth + 1)) := by
  cases isObject <;> rfl

theorem admitByte_close (depth : Nat) (isObject : Bool) :
    (JsonDepth.outside (depth + 1)).admitByte (JsonSource.closeByte isObject) =
      .ok (.outside depth) := by
  cases isObject <;> rfl

mutual

/-- The text of a value is admitted where its containers are not nested too deep. -/
theorem admit_text : (source : JsonSource) → {depth : Nat} → depth < 128 →
    (JsonDepth.outside depth).admitBytes source.text =
      if depth + source.nesting < 128 then .ok (.outside depth) else .error nestingError
  | .bare token, depth, below => by
    rw [JsonSource.text, admit_filler depth token.2, JsonSource.nesting, Nat.add_zero, if_pos below]
  | .string parts, depth, below => by
    rw [admit_string, JsonSource.nesting, Nat.add_zero, if_pos below]
  | .container isObject inside last, depth, _ => by
    rw [JsonSource.text, admit_cons, admitByte_open, JsonSource.nesting]
    by_cases deep : 128 ≤ depth + 1
    · rw [if_pos deep, if_neg (by omega)]
      rfl
    rw [if_neg deep]
    change (JsonDepth.outside (depth + 1)).admitBytes _ = _
    rw [List.append_assoc, admit_append, admit_textInside inside (Nat.not_le.mp deep)]
    by_cases fits : depth + 1 + JsonSource.nestingInside inside < 128
    · rw [if_pos fits, if_pos (by omega)]
      change (JsonDepth.outside (depth + 1)).admitBytes _ = _
      rw [admit_append, admit_filler _ last.2]
      change (JsonDepth.outside (depth + 1)).admitBytes [_] = _
      rw [admit_cons, admitByte_close]
      rfl
    · rw [if_neg fits, if_neg (by omega)]
      rfl

theorem admit_textInside : (inside : List (Filler × JsonSource)) → {depth : Nat} → depth < 128 →
    (JsonDepth.outside depth).admitBytes (JsonSource.textInside inside) =
      if depth + JsonSource.nestingInside inside < 128 then .ok (.outside depth)
      else .error nestingError
  | [], depth, below => by
    rw [JsonSource.textInside, JsonSource.nestingInside, Nat.add_zero, if_pos below]
    rfl
  | (between, value) :: inside, depth, below => by
    rw [JsonSource.textInside, JsonSource.nestingInside, List.append_assoc, admit_append,
      admit_filler _ between.2]
    change (JsonDepth.outside depth).admitBytes _ = _
    rw [admit_append, admit_text value below]
    by_cases fits : depth + value.nesting < 128
    · rw [if_pos fits]
      change (JsonDepth.outside depth).admitBytes _ = _
      rw [admit_textInside inside below]
      by_cases rest : depth + JsonSource.nestingInside inside < 128
      · rw [if_pos rest, if_pos (by omega)]
      · rw [if_neg rest, if_neg (by omega)]
    · rw [if_neg fits, if_neg (by omega)]
      rfl

end

/-- A message is admitted iff no container in it is nested 128 deep. -/
theorem exists_admit_iff (source : JsonSource) :
    (∃ state, JsonDepth.initial.admitBytes source.text = .ok state) ↔ source.nesting < 128 := by
  change (∃ state, (JsonDepth.outside 0).admitBytes source.text = .ok state) ↔ _
  rw [admit_text source (by decide), Nat.zero_add]
  by_cases fits : source.nesting < 128
  · rw [if_pos fits]
    exact iff_of_true ⟨_, rfl⟩ fits
  · rw [if_neg fits]
    refine iff_of_false ?_ fits
    rintro ⟨state, isState⟩
    cases isState

/-- The counter has taken the bytes. -/
structure Counted (text : List UInt8) (counter : Counter) : Prop where
  count : counter.count = text.length
  below : text.length ≤ MAX_FRAME_BYTES
  admits : JsonDepth.initial.admitBytes text = .ok counter.depth

/-- The two writers have taken the same bytes. -/
structure Written (text : List UInt8) (payload : LimitedPayload) (counter : Counter) : Prop
    extends Counted text counter where
  bytes : payload.bytes = [0, 0, 0, 0] ++ text
  depth : payload.depth = counter.depth
  reserved : payload.reserved = LENGTH_PREFIX_BYTES
  limit : payload.limit = MAX_FRAME_BYTES

theorem Counted.initial : Counted [] ⟨0, .initial⟩ := ⟨rfl, Nat.zero_le _, rfl⟩

theorem Written.initial : Written [] .initial ⟨0, .initial⟩ := ⟨.initial, rfl, rfl, rfl, rfl⟩

variable {text bytes : List UInt8} {payload next : LimitedPayload} {counter : Counter}

/-- The counter takes a chunk that fits. -/
theorem Counted.write_ok (written : Counted text counter) {depth : JsonDepth}
    (fits : (text ++ bytes).length ≤ MAX_FRAME_BYTES)
    (admits : counter.depth.admitBytes bytes = .ok depth) :
    counter.write bytes = .ok ⟨(text ++ bytes).length, depth⟩ := by
  rw [List.length_append] at fits ⊢
  have small : text.length + bytes.length ≤ 2 ^ 64 - 1 := fits.trans (by decide)
  rw [Counter.write, written.count, Nat.min_eq_left small, if_neg (Nat.not_lt.mpr fits), admits]
  rfl

variable {after : Counter} {admitCapacity : AdmitCapacity} {chunks : List (List UInt8)}

theorem Counted.write_inv (written : Counted text counter)
    (isWritten : counter.write bytes = .ok after) :
    (text ++ bytes).length ≤ MAX_FRAME_BYTES ∧ counter.depth.admitBytes bytes = .ok after.depth ∧
      after.count = (text ++ bytes).length := by
  rw [Counter.write, written.count] at isWritten
  split at isWritten
  · cases isWritten
  next within =>
  have fits : text.length + bytes.length ≤ MAX_FRAME_BYTES := by
    have bound : MAX_FRAME_BYTES < 2 ^ 64 - 1 := by decide
    omega
  rw [Nat.min_eq_left (fits.trans (by decide))] at isWritten
  cases admitted : counter.depth.admitBytes bytes with
  | error error =>
    rw [admitted] at isWritten
    cases isWritten
  | ok depth =>
    rw [admitted] at isWritten
    obtain rfl := Except.ok.inj isWritten
    exact ⟨by rw [List.length_append]; exact fits, rfl, by rw [List.length_append]⟩

/-- The limit of the payload is that of the counter. -/
theorem Written.room (written : Written text payload counter) :
    payload.limit - (payload.bytes.length - payload.reserved) < bytes.length ↔
      ¬(text ++ bytes).length ≤ MAX_FRAME_BYTES := by
  have length : payload.bytes.length - payload.reserved = text.length := by
    rw [written.bytes, written.reserved, List.length_append]
    exact Nat.add_sub_cancel_left 4 text.length
  have below := written.below
  rw [length, written.limit, List.length_append]
  omega

/-- The admitted capacities of a buffer: they grow, never exceed a whole frame, and the last of them
    is the capacity of the buffer, which holds its bytes. -/
structure Admitted (admitCapacity : AdmitCapacity) (payload : LimitedPayload) : Prop where
  asked : ∀ before capacity after, payload.admitted = before ++ capacity :: after →
    admitCapacity before capacity = .ok ()
  last : payload.admitted.getLast? = some payload.capacity
  ascending : payload.admitted.Pairwise (· ≤ ·)
  largest : ∀ capacity ∈ payload.admitted, capacity ≤ payload.capacity
  bounded : payload.capacity ≤ MAX_FRAME_BYTES + LENGTH_PREFIX_BYTES
  holds : payload.bytes.length ≤ payload.capacity

theorem Admitted.initial
    (first : admitCapacity [] 128 = .ok ()) : Admitted admitCapacity .initial where
  asked before capacity after isAdmitted := by
    obtain ⟨rfl, isCapacity⟩ := List.append_eq_singleton_iff.mp isAdmitted.symm |>.resolve_right
      fun both => List.cons_ne_nil _ _ both.2
    obtain ⟨rfl, _⟩ := List.cons.inj isCapacity
    exact first
  last := rfl
  ascending := List.pairwise_singleton _ _
  largest := List.forall_mem_singleton.mpr (Nat.le_refl _)
  bounded := by decide
  holds := by decide

theorem le_nextPowerOfTwo (number : Nat) : number ≤ nextPowerOfTwo number :=
  Nat.le_pow_clog (by decide) number

/-- What a successful write of the payload has done. -/
theorem Written.write_inv (written : Written text payload counter)
    (admitted : Admitted admitCapacity payload)
    (isWritten : payload.write admitCapacity bytes = .ok next) :
    ∃ after, counter.write bytes = .ok after ∧ Written (text ++ bytes) next after ∧
      Admitted admitCapacity next := by
  rw [LimitedPayload.write] at isWritten
  by_cases fits : (text ++ bytes).length ≤ MAX_FRAME_BYTES
  · rw [if_neg (mt written.room.mp (not_not.mpr fits)), written.depth] at isWritten
    cases admits : counter.depth.admitBytes bytes with
    | error error =>
      rw [admits] at isWritten
      cases isWritten
    | ok depth =>
      rw [admits] at isWritten
      have counted := written.toCounted.write_ok fits admits
      have total : JsonDepth.initial.admitBytes (text ++ bytes) = .ok depth := by
        rw [admit_append, written.admits]
        exact admits
      have size : payload.bytes.length + bytes.length ≤ MAX_FRAME_BYTES + LENGTH_PREFIX_BYTES := by
        rw [written.bytes, List.length_append, Nat.add_assoc, ← List.length_append, Nat.add_comm]
        exact Nat.add_le_add_right fits 4
      change (if payload.capacity < payload.bytes.length + bytes.length then _ else _) = _
        at isWritten
      split at isWritten
      · next grows =>
        generalize isCapacity : min (max (nextPowerOfTwo (payload.bytes.length + bytes.length)) 128)
          (MAX_FRAME_BYTES + LENGTH_PREFIX_BYTES) = capacity at isWritten
        have enough : payload.bytes.length + bytes.length ≤ capacity := by
          rw [← isCapacity]
          exact le_min ((le_nextPowerOfTwo _).trans (le_max_left _ _)) size
        cases answer : admitCapacity payload.admitted capacity with
        | error error =>
          rw [answer] at isWritten
          cases isWritten
        | ok _ =>
          rw [answer] at isWritten
          obtain rfl := Except.ok.inj isWritten
          refine ⟨_, counted, ⟨⟨rfl, fits, total⟩, ?_, rfl, written.reserved, written.limit⟩, ?_⟩
          · rw [← List.append_assoc, ← written.bytes]
          have smaller : payload.capacity ≤ capacity := grows.le.trans enough
          refine ⟨?_, List.getLast?_concat, ?_, ?_, ?_, ?_⟩
          · intro before asked after isAdmitted
            rcases List.eq_nil_or_concat after with rfl | ⟨after, lastAsked, rfl⟩
            · obtain ⟨rfl, isAsked⟩ := List.append_inj' isAdmitted rfl
              rw [← (List.cons.inj isAsked).1]
              exact answer
            · rw [List.concat_eq_append, ← List.cons_append, ← List.append_assoc] at isAdmitted
              exact admitted.asked before asked after (List.append_inj' isAdmitted rfl).1
          · refine List.pairwise_append.mpr ⟨admitted.ascending, List.pairwise_singleton _ _, ?_⟩
            intro old isOld new isNew
            rw [List.mem_singleton.mp isNew]
            exact (admitted.largest old isOld).trans smaller
          · refine List.forall_mem_append.mpr ⟨?_, List.forall_mem_singleton.mpr (Nat.le_refl _)⟩
            exact fun old isOld => (admitted.largest old isOld).trans smaller
          · exact isCapacity ▸ Nat.min_le_right _ _
          · rw [List.length_append]
            exact enough
      · next within =>
        obtain rfl := Except.ok.inj isWritten
        refine ⟨_, counted, ⟨⟨rfl, fits, total⟩, ?_, rfl, written.reserved, written.limit⟩, ?_⟩
        · rw [← List.append_assoc, ← written.bytes]
        · refine ⟨admitted.asked, admitted.last, admitted.ascending, admitted.largest,
            admitted.bounded, ?_⟩
          rw [List.length_append]
          exact Nat.not_lt.mp within
  · rw [if_pos (written.room.mpr fits)] at isWritten
    cases isWritten

/-- The payload takes every chunk that the counter takes, when its capacities are admitted. -/
theorem Written.write_ok (written : Written text payload counter)
    (counted : counter.write bytes = .ok after) :
    ∃ next, payload.write (fun _ _ => .ok ()) bytes = .ok next := by
  obtain ⟨fits, admits, _⟩ := written.toCounted.write_inv counted
  rw [LimitedPayload.write, if_neg (mt written.room.mp (not_not.mpr fits)), written.depth, admits]
  change ∃ next, (if payload.capacity < payload.bytes.length + bytes.length then _ else _) = _
  split
  · exact ⟨_, rfl⟩
  · exact ⟨_, rfl⟩

theorem Written.run_inv (written : Written text payload counter)
    (admitted : Admitted admitCapacity payload)
    (isWritten : chunks.foldlM (LimitedPayload.write admitCapacity) payload = .ok next) :
    ∃ after, chunks.foldlM Counter.write counter = .ok after ∧
      Written (text ++ chunks.flatten) next after ∧ Admitted admitCapacity next := by
  induction chunks generalizing text payload counter with
  | nil =>
    obtain rfl := Except.ok.inj isWritten
    exact ⟨counter, rfl, by rw [List.flatten_nil, List.append_nil]; exact written, admitted⟩
  | cons chunk chunks ih =>
    rw [List.foldlM_cons] at isWritten
    obtain ⟨between, isBetween, later⟩ := Hoare.bind_ok.mp isWritten
    obtain ⟨after, counted, writtenBetween, admittedBetween⟩ := written.write_inv admitted isBetween
    obtain ⟨final, countedLater, writtenFinal, admittedFinal⟩ :=
      ih writtenBetween admittedBetween later
    refine ⟨final, ?_, ?_, admittedFinal⟩
    · rw [List.foldlM_cons, counted]
      exact countedLater
    · rw [List.flatten_cons, ← List.append_assoc]
      exact writtenFinal

theorem Written.run_ok (written : Written text payload counter)
    (admitted : Admitted (fun _ _ => .ok ()) payload)
    (counted : chunks.foldlM Counter.write counter = .ok after) :
    ∃ next, chunks.foldlM (LimitedPayload.write fun _ _ => .ok ()) payload = .ok next := by
  induction chunks generalizing text payload counter with
  | nil => exact ⟨payload, rfl⟩
  | cons chunk chunks ih =>
    rw [List.foldlM_cons] at counted
    obtain ⟨between, isBetween, later⟩ := Hoare.bind_ok.mp counted
    obtain ⟨nextPayload, isWritten⟩ := written.write_ok isBetween
    obtain ⟨same, isSame, writtenBetween, admittedBetween⟩ := written.write_inv admitted isWritten
    obtain rfl := Except.ok.inj (isBetween.symm.trans isSame)
    obtain ⟨final, isFinal⟩ := ih writtenBetween admittedBetween later
    refine ⟨final, ?_⟩
    rw [List.foldlM_cons, isWritten]
    exact isFinal

/-- The counter takes a text iff it fits and is not nested too deep, whatever the chunks. -/
theorem Counted.run_iff (counted : Counted text counter) :
    (∃ after, chunks.foldlM Counter.write counter = .ok after) ↔
      (text ++ chunks.flatten).length ≤ MAX_FRAME_BYTES ∧
        ∃ state, JsonDepth.initial.admitBytes (text ++ chunks.flatten) = .ok state := by
  induction chunks generalizing text counter with
  | nil =>
    rw [List.flatten_nil, List.append_nil]
    exact iff_of_true ⟨counter, rfl⟩ ⟨counted.below, _, counted.admits⟩
  | cons chunk chunks ih =>
    rw [List.foldlM_cons, List.flatten_cons, ← List.append_assoc]
    constructor
    · rintro ⟨after, ran⟩
      obtain ⟨between, isBetween, later⟩ := Hoare.bind_ok.mp ran
      obtain ⟨fits, admits, count⟩ := counted.write_inv isBetween
      refine (ih ⟨count, fits, ?_⟩).mp ⟨after, later⟩
      rw [admit_append, counted.admits]
      exact admits
    rintro ⟨fits, state, admits⟩
    have fitsChunk : (text ++ chunk).length ≤ MAX_FRAME_BYTES := by
      rw [List.length_append] at fits
      exact (Nat.le_add_right _ _).trans fits
    have total := admits
    rw [admit_append] at admits
    obtain ⟨middle, atChunk, _⟩ := Hoare.bind_ok.mp admits
    have chunkAdmits := atChunk
    rw [admit_append, counted.admits] at chunkAdmits
    have countedChunk : Counted (text ++ chunk) ⟨(text ++ chunk).length, middle⟩ :=
      ⟨rfl, fitsChunk, atChunk⟩
    obtain ⟨after, ran⟩ := (ih countedChunk).mpr ⟨fits, state, total⟩
    refine ⟨after, ?_⟩
    rw [counted.write_ok fitsChunk chunkAdmits]
    exact ran

theorem encodedLen_eq_ok {length : Nat} :
    encodedLen chunks = .ok length ↔ ∃ after,
      chunks.foldlM Counter.write ⟨0, .initial⟩ = .ok after ∧
        after.count + LENGTH_PREFIX_BYTES = length := by
  rw [encodedLen]
  cases chunks.foldlM Counter.write ⟨0, .initial⟩ with
  | error error =>
    refine iff_of_false (fun same => by cases same) ?_
    rintro ⟨_, same, _⟩
    cases same
  | ok after =>
    constructor
    · intro same
      exact ⟨after, rfl, Except.ok.inj same⟩
    · rintro ⟨_, same, isLength⟩
      obtain rfl := Except.ok.inj same
      rw [← isLength]
      rfl

/-- What a successful encoding has done. -/
theorem encodeWithAdmission_inv {frame : List UInt8}
    (encoded : encodeWithAdmission admitCapacity chunks = .ok frame) :
    frame = toLeBytes chunks.flatten.length ++ chunks.flatten ∧
      encodedLen chunks = .ok frame.length ∧ chunks.flatten.length ≤ MAX_FRAME_BYTES := by
  rw [encodeWithAdmission] at encoded
  obtain ⟨_, first, encoded⟩ := Hoare.bind_ok.mp encoded
  cases ran : chunks.foldlM (LimitedPayload.write admitCapacity) .initial with
  | error error =>
    rw [ran] at encoded
    cases encoded
  | ok final =>
    obtain ⟨after, counted, written, _⟩ := Written.initial.run_inv (Admitted.initial first) ran
    rw [List.nil_append] at written
    have length : final.bytes.length - LENGTH_PREFIX_BYTES = chunks.flatten.length := by
      rw [written.bytes, List.length_append]
      exact Nat.add_sub_cancel_left 4 _
    have payload : final.bytes.drop LENGTH_PREFIX_BYTES = chunks.flatten := by
      rw [written.bytes]
      rfl
    rw [ran] at encoded
    change (if 2 ^ 32 ≤ final.bytes.length - LENGTH_PREFIX_BYTES then _ else _) = _ at encoded
    have small : ¬2 ^ 32 ≤ chunks.flatten.length := by
      have below := written.below
      have bound : MAX_FRAME_BYTES < 2 ^ 32 := by decide
      omega
    rw [length, if_neg small, payload] at encoded
    obtain rfl := Except.ok.inj encoded
    refine ⟨rfl, encodedLen_eq_ok.mpr ⟨after, counted, ?_⟩, written.below⟩
    rw [written.count, List.length_append, Nat.add_comm]
    rfl

theorem encode_of_encodedLen {length : Nat}
    (measured : encodedLen chunks = .ok length) : ∃ frame, encode chunks = .ok frame := by
  obtain ⟨after, counted, _⟩ := encodedLen_eq_ok.mp measured
  obtain ⟨final, ran⟩ := Written.initial.run_ok (Admitted.initial rfl) counted
  obtain ⟨_, _, written, _⟩ := Written.initial.run_inv (Admitted.initial rfl) ran
  rw [List.nil_append] at written
  have small : ¬2 ^ 32 ≤ final.bytes.length - LENGTH_PREFIX_BYTES := by
    rw [written.bytes, List.length_append]
    have below := written.below
    have bound : MAX_FRAME_BYTES < 2 ^ 32 := by decide
    change ¬2 ^ 32 ≤ 4 + chunks.flatten.length - 4
    omega
  rw [encode, encodeWithAdmission, ran]
  change ∃ frame, (if 2 ^ 32 ≤ final.bytes.length - LENGTH_PREFIX_BYTES then _ else _) = _
  rw [if_neg small]
  exact ⟨_, rfl⟩

/-- A text is measured iff it fits and no container in it is nested too deep. -/
theorem exists_encodedLen_iff {source : JsonSource} (isText : chunks.flatten = source.text) :
    (∃ length, encodedLen chunks = .ok length) ↔
      source.text.length ≤ MAX_FRAME_BYTES ∧ source.nesting < 128 := by
  have run : (∃ after, chunks.foldlM Counter.write ⟨0, .initial⟩ = .ok after) ↔ _ :=
    Counted.initial.run_iff
  rw [List.nil_append, isText, exists_admit_iff] at run
  rw [← run]
  constructor
  · rintro ⟨length, measured⟩
    obtain ⟨after, counted, _⟩ := encodedLen_eq_ok.mp measured
    exact ⟨after, counted⟩
  · rintro ⟨after, counted⟩
    exact ⟨_, encodedLen_eq_ok.mpr ⟨after, counted, rfl⟩⟩

theorem exists_encode_iff :
    (∃ frame, encode chunks = .ok frame) ↔ ∃ length, encodedLen chunks = .ok length := by
  constructor
  · rintro ⟨frame, encoded⟩
    exact ⟨_, (encodeWithAdmission_inv encoded).2.1⟩
  · rintro ⟨length, measured⟩
    exact encode_of_encodedLen measured

/-- After any number of chunks, the capacity of the buffer was admitted. -/
theorem admitted_of_writes {payload : LimitedPayload} (first : admitCapacity [] 128 = .ok ())
    (ran : chunks.foldlM (LimitedPayload.write admitCapacity) .initial = .ok payload) :
    Admitted admitCapacity payload := by
  obtain ⟨_, _, _, admitted⟩ := Written.initial.run_inv (Admitted.initial first) ran
  exact admitted

end Codex.CodeMode
