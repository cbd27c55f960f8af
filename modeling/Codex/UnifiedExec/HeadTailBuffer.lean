import Codex.Lib.Run
import Codex.Lib.Utf8

/-!
# The head/tail output buffer

`core/src/unified_exec/head_tail_buffer.rs`. The output of a process is kept in a buffer of
bounded size: a stable prefix, a sliding suffix and a count of the bytes dropped between
them. Polls drain it into a report, project the report as often as they need, and
acknowledge it once. Lengths and positions are `Nat`: `usize` and `u64` values that count the
bytes of one stream.
-/

namespace Codex.UnifiedExec

abbrev Bytes := List UInt8

def UNIFIED_EXEC_OUTPUT_MAX_BYTES : Nat := 1024 * 1024

def MAX_LAG_SEAMS : Nat := 1024

/-- A half-open range of byte positions. -/
structure Range where
  start : Nat
  stop : Nat
  deriving DecidableEq, Repr

/-- `OutputChunkRanges` (`head_tail_buffer.rs:7`). -/
structure OutputChunkRanges where
  range : Range
  gap : Option Range
  deriving DecidableEq, Repr

/-- The bytes of an ASCII text. -/
def asciiBytes (text : String) : Bytes := text.toList.map (fun c => UInt8.ofNat c.toNat)

def omittedOutputMarker (omittedBytes : Nat) : Bytes :=
  asciiBytes "\n[output truncated: " ++ asciiBytes (toString omittedBytes) ++
    asciiBytes " byte(s) omitted from the middle by the output retention limit]" ++ [0x0a]

/-- The fields of `HeadTailBuffer` (`head_tail_buffer.rs:56`) other than its report. -/
structure Buffer where
  utf8Tail : Bytes := []
  startOffset : Option Nat := some 0
  streamRanges : Option (Range × Range) := none
  maxBytes : Nat
  headBudget : Nat
  tailBudget : Nat
  head : Bytes := []
  tail : Bytes := []
  omittedBytes : Nat := 0
  unreportedOmittedBytes : Nat := 0
  laggedChunks : Nat := 0
  unreportedLaggedChunks : Nat := 0
  lagSeams : List Nat := []
  lagOverflow : Option (Nat × Nat) := none
  deriving DecidableEq, Repr

/-- `HeadTailBuffer`. A report is a buffer that has no report of its own. -/
structure HeadTailBuffer extends Buffer where
  pendingReport : Option Buffer := none
  deriving DecidableEq, Repr

/-- `HeadTailBuffer::new`. -/
def Buffer.new (maxBytes : Nat) : Buffer where
  maxBytes
  headBudget := maxBytes / 2
  tailBudget := maxBytes - maxBytes / 2

def HeadTailBuffer.new (maxBytes : Nat) : HeadTailBuffer := { Buffer.new maxBytes with }

namespace Buffer

def retainedBytes (buffer : Buffer) : Nat := buffer.head.length + buffer.tail.length

def tailStart (buffer : Buffer) : Nat := buffer.head.length + buffer.omittedBytes

def recordOmittedBytes (buffer : Buffer) (omitted : Nat) : Buffer :=
  { buffer with
    omittedBytes := buffer.omittedBytes + omitted
    unreportedOmittedBytes := buffer.unreportedOmittedBytes + omitted }

def trimTailToBudget (buffer : Buffer) : Buffer :=
  let excess := buffer.tail.length - buffer.tailBudget
  if 0 < excess then
    recordOmittedBytes { buffer with tail := buffer.tail.drop excess } excess
  else buffer

/-- `push_to_tail` (`head_tail_buffer.rs:448`). -/
def pushToTail (buffer : Buffer) (chunk : Bytes) : Buffer :=
  if chunk = [] then buffer
  else if buffer.tailBudget = 0 then buffer.recordOmittedBytes chunk.length
  else if buffer.tailBudget ≤ chunk.length then
    -- the chunk alone fills the tail: keep its last bytes
    let start := chunk.length - buffer.tailBudget
    let kept := chunk.drop start
    let dropped := chunk.length - kept.length
    { buffer.recordOmittedBytes (buffer.tail.length + dropped) with tail := kept }
  else trimTailToBudget { buffer with tail := buffer.tail ++ chunk }

/-- `push_chunk` (`head_tail_buffer.rs:181`). -/
def pushChunk (buffer : Buffer) (chunk : Bytes) : Buffer :=
  if chunk = [] then buffer
  else if buffer.maxBytes = 0 then buffer.recordOmittedBytes chunk.length
  else
    let remainingHead := buffer.headBudget - buffer.head.length
    let headLen := min remainingHead chunk.length
    pushToTail { buffer with head := buffer.head ++ chunk.take headLen } (chunk.drop headLen)

/-- The lag seams and their overflow after a lag at `position`. -/
def lagSeamsAfter (buffer : Buffer) (position : Nat) : List Nat × Option (Nat × Nat) :=
  let head := buffer.head.length
  let tailStart := buffer.tailStart
  -- an omission already reports loss inside the omitted middle
  let seams := buffer.lagSeams.filter (fun seam => seam < head || tailStart ≤ seam)
  let overflow := buffer.lagOverflow.filter (fun span => !(head ≤ span.1 && span.2 < tailStart))
  match overflow with
  | some (first, _) => (seams, some (first, position))
  | none =>
      if seams.getLast? = some position then (seams, none)
      else if seams.length < MAX_LAG_SEAMS then (seams ++ [position], none)
      else (seams, some (position, position))

def recordLagSeam (buffer : Buffer) (position : Nat) : Buffer :=
  let (lagSeams, lagOverflow) := buffer.lagSeamsAfter position
  { buffer with lagSeams, lagOverflow }

/-- `record_lagged_chunks` (`head_tail_buffer.rs:135`). -/
def recordLaggedChunks (buffer : Buffer) (skipped : Nat) : Buffer :=
  let buffer :=
    if 0 < skipped then
      recordLagSeam { buffer with streamRanges := none, startOffset := none }
        (buffer.retainedBytes + buffer.omittedBytes)
    else buffer
  { buffer with
    laggedChunks := buffer.laggedChunks + skipped
    unreportedLaggedChunks := buffer.unreportedLaggedChunks + skipped }

/-- The stream ranges after a drain: those of the source and those of the target. -/
def drainStreamRanges : Option (Range × Range) → Option (Range × Range) →
    Option (Range × Range) × Option (Range × Range)
  | some (first, second), some (firstTarget, secondTarget) =>
      (some (⟨first.stop, first.stop⟩, ⟨second.stop, second.stop⟩),
        some (⟨firstTarget.start, first.stop⟩, ⟨secondTarget.start, second.stop⟩))
  | source, _ => (source, none)

/-- The gap that a drain puts between the head and the tail of its source: the target's head
    is frozen and its tail dropped, so that bytes from both sides are not joined. -/
def openGap (target : Buffer) (omitted : Nat) : Buffer :=
  { recordOmittedBytes { target with headBudget := target.head.length }
      (omitted + target.tail.length) with tail := [] }

/-- `u8::is_ascii_whitespace`. -/
def isAsciiWhitespace (byte : UInt8) : Bool :=
  byte == 0x20 || byte == 0x09 || byte == 0x0a || byte == 0x0c || byte == 0x0d

/-- `drain_into` (`head_tail_buffer.rs:370`): whether the batch is meaningful, the drained
    source and the target. The ring buffer of the tail hands out two slices; `cut` is the
    length of the first. -/
def drainInto (source target : Buffer) (cut : Nat) : Bool × Buffer × Buffer :=
  let (sourceRanges, targetRanges) := drainStreamRanges source.streamRanges target.streamRanges
  let omitted := source.unreportedOmittedBytes
  let lagged := source.unreportedLaggedChunks
  let consumed := source.retainedBytes + omitted
  let meaningful := decide (0 < omitted) || decide (0 < lagged) ||
    (source.head ++ source.tail).any (fun byte => !isAsciiWhitespace byte)
  let target := { target with
    streamRanges := targetRanges
    startOffset := if source.startOffset = none then none else target.startOffset }
  let target := target.pushChunk source.head
  let target := if 0 < omitted then target.openGap omitted else target
  let target := target.pushChunk (source.tail.take cut)
  let target := target.pushChunk (source.tail.drop cut)
  let target := target.recordLaggedChunks lagged
  (meaningful,
    { source with
      streamRanges := sourceRanges
      startOffset := source.startOffset.map (fun start => start + consumed)
      unreportedOmittedBytes := 0
      unreportedLaggedChunks := 0
      head := []
      tail := [] },
    target)

/-- `to_bytes_with_loss_notice` (`head_tail_buffer.rs:419`). -/
def toBytesWithLossNotice (buffer : Buffer) (suffix : Bytes) : Bytes :=
  buffer.head ++
    (if 0 < buffer.omittedBytes then omittedOutputMarker buffer.omittedBytes else []) ++
    buffer.tail ++ suffix

/-- `output_ranges` (`head_tail_buffer.rs:329`). -/
def outputRanges (buffer : Buffer) : Option OutputChunkRanges :=
  buffer.startOffset.map (fun start =>
    { range := ⟨start, start + buffer.retainedBytes + buffer.omittedBytes⟩
      gap :=
        if 0 < buffer.omittedBytes then
          some ⟨start + buffer.head.length, start + buffer.head.length + buffer.omittedBytes⟩
        else none })

/-- The loop over the last bytes of the output: the incomplete character that the output ends
    with, read from `rest`. Each round drops at least one of at most four bytes. -/
def heldBack : Nat → Bytes → Bytes
  | 0, _ => []
  | fuel + 1, rest =>
      if rest = [] then []
      else
        match Utf8.fromUtf8 rest with
        | .ok () => []
        | .error ⟨validUpTo, some errorLen⟩ => heldBack fuel (rest.drop (validUpTo + errorLen))
        | .error ⟨validUpTo, none⟩ => rest.drop validUpTo

/-- The projection of a report: its output, its ranges, and the report with the held-back
    bytes. -/
def project (report : Buffer) (closed : Bool) (suffix : Bytes) :
    Bytes × Option OutputChunkRanges × Buffer :=
  let output := report.toBytesWithLossNotice suffix
  let ranges := report.outputRanges
  if !closed && suffix.isEmpty then
    let held := heldBack 4 (output.drop (output.length - 4))
    (output.take (output.length - held.length),
      ranges.map (fun ranges =>
        { ranges with range := ⟨ranges.range.start, ranges.range.stop - held.length⟩ }),
      { report with utf8Tail := held })
  else (output, ranges, { report with utf8Tail := [] })

end Buffer

namespace HeadTailBuffer

def pushChunk (buffer : HeadTailBuffer) (chunk : Bytes) : HeadTailBuffer :=
  { buffer with toBuffer := buffer.toBuffer.pushChunk chunk }

/-- The empty report that a new poll starts from, located before the held-back bytes. -/
def emptyReport (buffer : HeadTailBuffer) : Buffer :=
  { Buffer.new UNIFIED_EXEC_OUTPUT_MAX_BYTES with
    streamRanges := buffer.streamRanges.map (fun ranges =>
      (⟨ranges.1.start, ranges.1.start⟩, ⟨ranges.2.start, ranges.2.start⟩))
    startOffset := buffer.startOffset.bind (fun start =>
      if buffer.utf8Tail.length ≤ start then some (start - buffer.utf8Tail.length) else none) }

/-- `begin_output_report` (`head_tail_buffer.rs:256`). -/
def beginOutputReport (buffer : HeadTailBuffer) : HeadTailBuffer :=
  match buffer.pendingReport with
  | some _ => buffer
  | none =>
      { buffer with
        utf8Tail := []
        pendingReport := some (buffer.emptyReport.pushChunk buffer.utf8Tail) }

/-- `collect_pending_output` (`head_tail_buffer.rs:272`). -/
def collectPendingOutput (buffer : HeadTailBuffer) (cut : Nat) : Bool × HeadTailBuffer :=
  let buffer := buffer.beginOutputReport
  let report := buffer.pendingReport.getD (Buffer.new UNIFIED_EXEC_OUTPUT_MAX_BYTES)
  let (meaningful, source, report) := buffer.toBuffer.drainInto report cut
  (meaningful, { source with pendingReport := some report })

def acknowledgePendingOutput (buffer : HeadTailBuffer) : HeadTailBuffer :=
  match buffer.pendingReport with
  | none => buffer
  | some report => { buffer with utf8Tail := report.utf8Tail, pendingReport := none }

/-- `projected_pending_output` (`head_tail_buffer.rs:294`). -/
def projectedPendingOutput (buffer : HeadTailBuffer) (closed : Bool) (suffix : Bytes) :
    (Bytes × Option OutputChunkRanges) × HeadTailBuffer :=
  match buffer.pendingReport with
  | none => (([], none), buffer)
  | some report =>
      let (output, ranges, report) := report.project closed suffix
      ((output, ranges), { buffer with pendingReport := some report })

end HeadTailBuffer

namespace Buffer

/-- The buffer retains these bytes but for `missing` ones between its head and its tail. Once
    something is in the tail or missing, the head takes no more bytes. -/
structure Covers (buffer : Buffer) (missing : Nat) (bytes : Bytes) : Prop where
  split : ∃ middle, bytes = buffer.head ++ middle ++ buffer.tail ∧ middle.length = missing
  full : buffer.tail ≠ [] ∨ 0 < missing → buffer.headBudget ≤ buffer.head.length
  tailFits : buffer.tail.length ≤ buffer.tailBudget
  zero : buffer.maxBytes = 0 → buffer.headBudget = 0 ∧ buffer.tailBudget = 0

variable {buffer : Buffer} {missing : Nat} {bytes : Bytes}

theorem Covers.length
    (covers : Covers buffer missing bytes) : bytes.length = buffer.retainedBytes + missing := by
  obtain ⟨middle, rfl, rfl⟩ := covers.split
  simp only [List.length_append, retainedBytes]
  omega

theorem covers_new (maxBytes : Nat) : Covers (Buffer.new maxBytes) 0 [] where
  split := ⟨[], rfl, rfl⟩
  full := by simp [Buffer.new]
  tailFits := Nat.zero_le _
  zero := by
    rintro rfl
    exact ⟨rfl, rfl⟩

/-- A push only changes the retained bytes and the two omission counters, by what it drops. -/
def Pushed (buffer next : Buffer) (dropped : Nat) : Prop :=
  next = { buffer with
    head := next.head
    tail := next.tail
    omittedBytes := buffer.omittedBytes + dropped
    unreportedOmittedBytes := buffer.unreportedOmittedBytes + dropped }

/-- Dropping the excess of the tail moves it to the missing bytes. -/
theorem trimTailToBudget_covers {middle : Bytes} (full : buffer.headBudget ≤ buffer.head.length)
    (zero : buffer.maxBytes = 0 → buffer.headBudget = 0 ∧ buffer.tailBudget = 0) :
    ∃ dropped, Pushed buffer buffer.trimTailToBudget dropped ∧
      Covers buffer.trimTailToBudget (middle.length + dropped)
        (buffer.head ++ middle ++ buffer.tail) := by
  by_cases excess : 0 < buffer.tail.length - buffer.tailBudget
  · have trimmed : buffer.trimTailToBudget = recordOmittedBytes
        { buffer with tail := buffer.tail.drop (buffer.tail.length - buffer.tailBudget) }
        (buffer.tail.length - buffer.tailBudget) := by
      simp only [trimTailToBudget, if_pos excess]
    rw [trimmed]
    refine ⟨buffer.tail.length - buffer.tailBudget, rfl, ⟨middle ++
      buffer.tail.take (buffer.tail.length - buffer.tailBudget), ?_, ?_⟩, fun _ => full, ?_, zero⟩
    · simp [recordOmittedBytes]
    · rw [List.length_append, List.length_take]
      omega
    · simp only [recordOmittedBytes, List.length_drop]
      omega
  · have trimmed : buffer.trimTailToBudget = buffer := by
      simp only [trimTailToBudget, if_neg excess]
    rw [trimmed]
    exact ⟨0, rfl, ⟨middle, rfl, rfl⟩, fun _ => full, by omega, zero⟩

theorem pushToTail_covers {chunk : Bytes} (covers : Covers buffer missing bytes)
    (headFull : chunk ≠ [] → buffer.headBudget ≤ buffer.head.length) :
    ∃ dropped, Pushed buffer (buffer.pushToTail chunk) dropped ∧
      Covers (buffer.pushToTail chunk) (missing + dropped) (bytes ++ chunk) := by
  obtain ⟨middle, rfl, rfl⟩ := covers.split
  have tailFits := covers.tailFits
  unfold pushToTail
  split
  · next empty =>
    refine ⟨0, rfl, ?_⟩
    rw [empty, List.append_nil]
    exact covers
  next nonempty =>
  have full := headFull nonempty
  split
  · next noTail =>
    -- without a tail the whole chunk joins the missing bytes
    have empty : buffer.tail = [] := List.eq_nil_of_length_eq_zero (by omega)
    refine ⟨chunk.length, rfl, ⟨middle ++ chunk, ?_, by simp⟩, fun _ => full, tailFits, covers.zero⟩
    simp [recordOmittedBytes, empty]
  next hasTail =>
  split
  · next long =>
    have kept : chunk.length - (chunk.length - buffer.tailBudget) = buffer.tailBudget := by omega
    refine ⟨buffer.tail.length + (chunk.length - buffer.tailBudget), ?_, ⟨middle ++ buffer.tail ++
      chunk.take (chunk.length - buffer.tailBudget), ?_, ?_⟩, fun _ => full, ?_, covers.zero⟩
    · simp [Pushed, recordOmittedBytes, kept]
    · simp [recordOmittedBytes]
    · simp only [List.length_append, List.length_take]
      omega
    · simp [recordOmittedBytes, kept]
  · obtain ⟨dropped, pushed, covers'⟩ := @trimTailToBudget_covers
      { buffer with tail := buffer.tail ++ chunk } middle full covers.zero
    refine ⟨dropped, pushed, ?_⟩
    rw [← List.append_assoc] at covers'
    exact covers'

theorem pushChunk_covers (covers : Covers buffer missing bytes) (chunk : Bytes) :
    ∃ dropped, Pushed buffer (buffer.pushChunk chunk) dropped ∧
      Covers (buffer.pushChunk chunk) (missing + dropped) (bytes ++ chunk) := by
  unfold pushChunk
  split
  · next empty =>
    refine ⟨0, rfl, ?_⟩
    rw [empty, List.append_nil]
    exact covers
  split
  · next nothing =>
    obtain ⟨middle, rfl, rfl⟩ := covers.split
    obtain ⟨noHead, noTail⟩ := covers.zero nothing
    have tailFits := covers.tailFits
    have empty : buffer.tail = [] := List.eq_nil_of_length_eq_zero (by omega)
    refine ⟨chunk.length, rfl, ⟨middle ++ chunk, ?_, by simp⟩, fun _ => ?_, tailFits, covers.zero⟩
    · simp [recordOmittedBytes, empty]
    · show buffer.headBudget ≤ _
      omega
  -- first the head takes what fits, then the rest goes to the tail
  dsimp only
  generalize len : min (buffer.headBudget - buffer.head.length) chunk.length = headLen
  have filled : Covers { buffer with head := buffer.head ++ chunk.take headLen } missing
      (bytes ++ chunk.take headLen) := by
    obtain ⟨middle, rfl, rfl⟩ := covers.split
    by_cases full : buffer.headBudget ≤ buffer.head.length
    · have none : chunk.take headLen = [] := by
        rw [← len, Nat.sub_eq_zero_of_le full, Nat.zero_min, List.take_zero]
      simpa only [none, List.append_nil] using covers
    -- a head with room means that nothing follows it yet
    have nothing : ¬ (buffer.tail ≠ [] ∨ 0 < middle.length) := fun more => full (covers.full more)
    rw [not_or, not_not, Nat.not_lt, Nat.le_zero, List.length_eq_zero_iff] at nothing
    obtain ⟨noTail, rfl⟩ := nothing
    refine ⟨⟨[], by simp [noTail], rfl⟩, ?_, covers.tailFits, covers.zero⟩
    simp [noTail]
  obtain ⟨dropped, pushed, covers'⟩ := @pushToTail_covers _ _ _ (chunk.drop headLen) filled (by
    intro rest
    have short : headLen < chunk.length := by
      by_contra long
      exact rest (List.drop_eq_nil_of_le (by omega))
    show buffer.headBudget ≤ (buffer.head ++ chunk.take headLen).length
    rw [List.length_append, List.length_take]
    omega)
  refine ⟨dropped, pushed, ?_⟩
  rw [List.append_assoc, List.take_append_drop] at covers'
  exact covers'

/-- A report, which counts all its omitted bytes, after a push. -/
theorem pushChunk_report {report : Buffer} (covers : Covers report report.omittedBytes bytes)
    (chunk : Bytes) :
    Covers (report.pushChunk chunk) (report.pushChunk chunk).omittedBytes (bytes ++ chunk) ∧
      (report.pushChunk chunk).startOffset = report.startOffset ∧
      (report.pushChunk chunk).maxBytes = report.maxBytes := by
  obtain ⟨dropped, pushed, covers'⟩ := pushChunk_covers covers chunk
  have omitted : (report.pushChunk chunk).omittedBytes = report.omittedBytes + dropped := by
    rw [pushed]
  rw [omitted]
  exact ⟨covers', by rw [pushed], by rw [pushed]⟩

/-- A gap keeps what the target stands for: its tail and the omitted bytes are missing. -/
theorem openGap_covers {target : Buffer} (gap : Bytes)
    (covers : Covers target target.omittedBytes bytes) (positive : target.maxBytes ≠ 0) :
    Covers (target.openGap gap.length) (target.openGap gap.length).omittedBytes (bytes ++ gap) := by
  obtain ⟨middle, rfl, count⟩ := covers.split
  refine ⟨⟨middle ++ target.tail ++ gap, ?_, ?_⟩, fun _ => Nat.le_refl _, Nat.zero_le _,
    fun nothing => absurd nothing positive⟩
  · simp [openGap, recordOmittedBytes]
  · simp only [openGap, recordOmittedBytes, List.length_append]
    omega

theorem recordLaggedChunks_zero (buffer : Buffer) : buffer.recordLaggedChunks 0 = buffer := rfl

/-- A drain without lag: the report grows by the bytes that the source stands for. -/
theorem drainInto_report {source target : Buffer} {reported : Bytes}
    (sourceCovers : Covers source source.unreportedOmittedBytes bytes)
    (targetCovers : Covers target target.omittedBytes reported) (positive : target.maxBytes ≠ 0)
    (noLag : source.unreportedLaggedChunks = 0) (located : source.startOffset ≠ none) (cut : Nat) :
    Covers (source.drainInto target cut).2.2 (source.drainInto target cut).2.2.omittedBytes
        (reported ++ bytes) ∧
      (source.drainInto target cut).2.2.startOffset = target.startOffset ∧
      (source.drainInto target cut).2.2.maxBytes = target.maxBytes := by
  obtain ⟨middle, rfl, count⟩ := sourceCovers.split
  simp only [drainInto, noLag, recordLaggedChunks_zero, if_neg located]
  generalize (drainStreamRanges source.streamRanges target.streamRanges).2 = ranges
  have start : Covers { target with streamRanges := ranges } target.omittedBytes reported :=
    ⟨targetCovers.split, targetCovers.full, targetCovers.tailFits, targetCovers.zero⟩
  obtain ⟨covers, offset, limit⟩ := pushChunk_report start source.head
  generalize Buffer.pushChunk { target with streamRanges := ranges } source.head = filled at *
  -- the omitted middle of the source becomes a gap of the report
  have gapped : ∃ opened, opened = (if 0 < source.unreportedOmittedBytes then
        filled.openGap source.unreportedOmittedBytes else filled) ∧
      Covers opened opened.omittedBytes (reported ++ source.head ++ middle) ∧
      opened.startOffset = target.startOffset ∧ opened.maxBytes = target.maxBytes := by
    refine ⟨_, rfl, ?_⟩
    split
    · rw [← count]
      exact ⟨openGap_covers middle covers (by rw [limit]; exact positive), offset, limit⟩
    · next none =>
      obtain rfl : middle = [] := List.eq_nil_of_length_eq_zero (by omega)
      rw [List.append_nil]
      exact ⟨covers, offset, limit⟩
  obtain ⟨opened, isOpened, openedCovers, openedOffset, openedLimit⟩ := gapped
  rw [← isOpened]
  obtain ⟨frontCovers, frontOffset, frontLimit⟩ := pushChunk_report openedCovers (source.tail.take cut)
  obtain ⟨backCovers, backOffset, backLimit⟩ := pushChunk_report frontCovers (source.tail.drop cut)
  refine ⟨?_, by rw [backOffset, frontOffset, openedOffset],
    by rw [backLimit, frontLimit, openedLimit]⟩
  rw [List.append_assoc, List.take_append_drop] at backCovers
  simpa [List.append_assoc] using backCovers

end Buffer

end Codex.UnifiedExec
