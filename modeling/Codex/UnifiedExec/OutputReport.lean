import Mathlib.Data.List.Induction
import Codex.UnifiedExec.HeadTailBuffer

/-!
# Reports of process output

The polling discipline over `core/src/unified_exec/head_tail_buffer.rs:256-341`: pushes of the
producer interleave with polls that collect output into the pending report, project it any
number of times and acknowledge one projection. A run records the acknowledged projections, and
the stream of pushed bytes is accounted for by them.
-/

namespace Codex.UnifiedExec

open Codex.Run

namespace Buffer

theorem heldBack_incomplete {lead : UInt8} {front rest : Bytes} {fuel : Nat}
    (ends : Utf8.readFront (lead :: rest) = .incomplete) (enough : front.length < fuel) :
    heldBack fuel (front ++ lead :: rest) = lead :: rest := by
  induction fuel generalizing front with
  | zero => omega
  | succ fuel ih =>
    have nonempty : front ++ lead :: rest ≠ [] := by simp
    rw [heldBack, if_neg nonempty, Utf8.fromUtf8]
    rcases Utf8.validate_before ends (Nat.le_refl (front ++ lead :: rest).length) with
      found | ⟨valid, errorLen, some, inside, found⟩
    · rw [found]
      show List.drop (0 + front.length) (front ++ lead :: rest) = lead :: rest
      rw [Nat.zero_add, List.drop_left]
    rw [found]
    show heldBack fuel (List.drop (0 + valid + errorLen) (front ++ lead :: rest)) = lead :: rest
    rw [Nat.zero_add, List.drop_append_of_le_length inside]
    apply ih
    rw [List.length_drop]
    omega

/-- What is held back is nothing, or an incomplete character at the end. -/
theorem heldBack_suffix (fuel : Nat) (rest : Bytes) :
    heldBack fuel rest = [] ∨ ∃ front lead more, rest = front ++ lead :: more ∧
      heldBack fuel rest = lead :: more ∧ Utf8.readFront (lead :: more) = .incomplete := by
  induction fuel generalizing rest with
  | zero => exact .inl rfl
  | succ fuel ih =>
    rw [heldBack]
    split
    · exact .inl rfl
    split
    · exact .inl rfl
    · next valid errorLen found =>
      rcases ih (rest.drop (valid + errorLen)) with none | ⟨front, lead, more, split, held, ends⟩
      · exact .inl none
      · refine .inr ⟨rest.take (valid + errorLen) ++ front, lead, more, ?_, held, ends⟩
        rw [List.append_assoc, ← split, List.take_append_drop]
    next valid found =>
    obtain ⟨-, ends, nonempty⟩ := Utf8.validate_incomplete found
    rw [Nat.sub_zero] at ends nonempty
    obtain ⟨lead, more, isCons⟩ := List.exists_cons_of_ne_nil nonempty
    refine .inr ⟨rest.take valid, lead, more, ?_, isCons, by rw [← isCons]; exact ends⟩
    rw [← isCons, List.take_append_drop]

/-- The bytes that an open projection holds back. -/
def held (output : Bytes) : Bytes := heldBack 4 (output.drop (output.length - 4))

theorem held_incomplete {lead : UInt8} {front rest : Bytes}
    (ends : Utf8.readFront (lead :: rest) = .incomplete) :
    held (front ++ lead :: rest) = lead :: rest := by
  have short := (Utf8.readFront_incomplete ends).1
  rw [held, List.drop_append_of_le_length]
  · apply heldBack_incomplete ends
    rw [List.length_drop, List.length_append, List.length_cons] at *
    omega
  · rw [List.length_append]
    omega

theorem held_suffix (output : Bytes) :
    held output = [] ∨ ∃ front lead more, output = front ++ lead :: more ∧
      held output = lead :: more ∧ Utf8.readFront (lead :: more) = .incomplete := by
  rcases heldBack_suffix 4 (output.drop (output.length - 4)) with
    none | ⟨front, lead, more, split, isHeld, ends⟩
  · exact .inl none
  · refine .inr ⟨output.take (output.length - 4) ++ front, lead, more, ?_, isHeld, ends⟩
    rw [List.append_assoc, ← split, List.take_append_drop]

end Buffer

/-- A projection: its mode, output and ranges. -/
structure Report where
  closed : Bool
  output : Bytes
  ranges : Option OutputChunkRanges
  deriving DecidableEq, Repr

/-- The omitted range that a report names. -/
def Report.gap (report : Report) : Option Range := report.ranges.bind (·.gap)

/-- The report stands for these bytes of the stream, the first of them at `start`. Either it
    prints them, or it prints them but for one omitted run in the middle, which it names and
    replaces by the omission marker. Without a pending report there is nothing to say. -/
inductive Report.Shows (report : Report) (start : Nat) : Bytes → Prop
  | nothing (noRanges : report.ranges = none) (noOutput : report.output = []) : Shows report start []
  | whole (bytes : Bytes) (ranges : report.ranges = some ⟨⟨start, start + bytes.length⟩, none⟩)
      (output : report.output = bytes) : Shows report start bytes
  | gapped (before omitted after : Bytes) (nonempty : omitted ≠ [])
      (ranges : report.ranges = some ⟨⟨start, start + (before ++ omitted ++ after).length⟩,
        some ⟨start + before.length, start + before.length + omitted.length⟩⟩)
      (output : report.output = before ++ omittedOutputMarker omitted.length ++ after) :
      Shows report start (before ++ omitted ++ after)

/-- The reports account for a stream: each one stands for the bytes that follow those of the
    reports before it. -/
inductive Accounts : Bytes → List Report → Prop
  | nil : Accounts [] []
  | snoc {stream : Bytes} {reports : List Report} (bytes : Bytes) (report : Report)
      (accounts : Accounts stream reports) (shows : report.Shows stream.length bytes) :
      Accounts (stream ++ bytes) (reports ++ [report])

/-- The ranges follow each other from `low` to `high`. -/
def Tiles : Nat → List Range → Nat → Prop
  | low, [], high => low = high
  | low, range :: ranges, high =>
      range.start = low ∧ low ≤ range.stop ∧ Tiles range.stop ranges high

theorem tiles_snoc {low high : Nat} {ranges : List Range} (tiles : Tiles low ranges high)
    (more : Nat) : Tiles low (ranges ++ [⟨high, high + more⟩]) (high + more) := by
  induction ranges generalizing low with
  | nil =>
    obtain rfl : low = high := tiles
    exact ⟨rfl, Nat.le_add_right _ _, rfl⟩
  | cons range ranges ih => exact ⟨tiles.1, tiles.2.1, ih tiles.2.2⟩

theorem tiles_last {low high : Nat} {ranges : List Range} {range : Range}
    (tiles : Tiles low (ranges ++ [range]) high) : range.stop = high := by
  induction ranges generalizing low with
  | nil => exact tiles.2.2
  | cons _ ranges ih => exact ih tiles.2.2

/-- The ranges of the reports. -/
def coveredRanges (reports : List Report) : List Range :=
  reports.filterMap (fun report => report.ranges.map (·.range))

theorem coveredRanges_snoc (reports : List Report) (report : Report) :
    coveredRanges (reports ++ [report]) =
      coveredRanges reports ++ (report.ranges.map (·.range)).toList := by
  rw [coveredRanges, List.filterMap_append, ← coveredRanges]
  cases named : report.ranges <;> simp [named]

theorem Accounts.tiles {stream : Bytes} {reports : List Report} (accounts : Accounts stream reports) :
    Tiles 0 (coveredRanges reports) stream.length := by
  induction accounts with
  | nil => rfl
  | snoc bytes report _ shows ih =>
    rw [coveredRanges_snoc, List.length_append]
    cases shows with
    | nothing noRanges => simpa [noRanges] using ih
    | whole bytes named => simpa [named] using tiles_snoc ih bytes.length
    | gapped before omitted after _ named => simpa [named] using tiles_snoc ih _

theorem Accounts.output_eq {stream : Bytes} {reports : List Report}
    (accounts : Accounts stream reports) (noGap : ∀ report ∈ reports, report.gap = none) :
    (reports.map (·.output)).flatten = stream := by
  induction accounts with
  | nil => rfl
  | snoc bytes report _ shows ih =>
    rw [List.map_append, List.flatten_append, ih (fun report member =>
      noGap report (List.mem_append_left _ member))]
    cases shows with
    | nothing _ noOutput => simp [noOutput]
    | whole bytes _ output => simp [output]
    | gapped before omitted after _ named =>
      have none := noGap report (List.mem_append_right _ (List.mem_singleton_self _))
      rw [Report.gap, named] at none
      cases none

namespace Buffer

theorem marker_ends (omitted : Nat) : ∃ front, omittedOutputMarker omitted = front ++ [0x0a] :=
  ⟨_, rfl⟩

/-- A character held back from an output lies behind the omission marker. -/
theorem held_behind_marker {front tail : Bytes} {omitted : Nat} {lead : UInt8} {more before : Bytes}
    (split : front ++ omittedOutputMarker omitted ++ tail = before ++ lead :: more)
    (ends : Utf8.readFront (lead :: more) = .incomplete) :
    ∃ rest, tail = rest ++ lead :: more := by
  have high := (Utf8.readFront_incomplete ends).2.2
  rcases List.append_eq_append_iff.mp split with ⟨rest, -, isTail⟩ | ⟨rest, isMarker, isMore⟩
  · exact ⟨rest, isTail⟩
  -- otherwise the newline of the marker would be one of the held bytes
  by_cases empty : rest = []
  · subst empty
    exact ⟨[], by simpa using isMore.symm⟩
  obtain ⟨marker, isNewline⟩ := marker_ends omitted
  obtain ⟨init, last, rfl⟩ := List.eq_nil_or_concat rest |>.resolve_left empty
  rw [isNewline, ← List.append_assoc, List.concat_eq_append, ← List.append_assoc] at isMarker
  have newline := (List.append_inj' isMarker rfl).2
  have member : last ∈ lead :: more := by
    rw [isMore, List.concat_eq_append]
    simp
  have above := high last member
  rw [← List.singleton_inj.mp newline] at above
  exact absurd above (by decide)

/-- The output and the ranges of a report without the bytes that it keeps back. -/
theorem shows_without_kept {report : Buffer} {start : Nat} {middle front kept : Bytes}
    (closed : Bool) (located : report.startOffset = some start)
    (count : middle.length = report.omittedBytes)
    (split : report.head ++ middle ++ report.tail = front ++ kept)
    (behind : 0 < report.omittedBytes → ∃ rest, report.tail = rest ++ kept) :
    Report.Shows
      ⟨closed, (report.toBytesWithLossNotice []).take
          ((report.toBytesWithLossNotice []).length - kept.length),
        report.outputRanges.map (fun ranges =>
          { ranges with range := ⟨ranges.range.start, ranges.range.stop - kept.length⟩ })⟩
      start front := by
  have total : report.retainedBytes + report.omittedBytes = front.length + kept.length := by
    have lengths := congrArg List.length split
    simp only [List.length_append] at lengths
    rw [retainedBytes]
    omega
  have stop : start + report.retainedBytes + report.omittedBytes - kept.length =
      start + front.length := by omega
  by_cases omitted : 0 < report.omittedBytes
  · obtain ⟨rest, isTail⟩ := behind omitted
    rw [isTail, ← List.append_assoc] at split
    obtain ⟨rfl, -⟩ := List.append_inj' split rfl
    refine .gapped report.head middle rest ?_ ?_ ?_
    · intro empty
      rw [← count, empty] at omitted
      exact absurd omitted (Nat.lt_irrefl 0)
    · simp only [outputRanges, located, Option.map_some, if_pos omitted, stop, count]
    · simp only [toBytesWithLossNotice, if_pos omitted, isTail, List.append_nil, count]
      rw [← List.append_assoc, List.length_append, Nat.add_sub_cancel, List.take_left]
  obtain rfl : middle = [] := List.eq_nil_of_length_eq_zero (by omega)
  rw [List.append_nil] at split
  refine .whole front ?_ ?_
  · simp only [outputRanges, located, Option.map_some, if_neg omitted, stop]
  · simp only [toBytesWithLossNotice, if_neg omitted, List.append_nil, split]
    rw [List.length_append, Nat.add_sub_cancel, List.take_left]

theorem project_open (report : Buffer) : report.project false [] =
    ((report.toBytesWithLossNotice []).take ((report.toBytesWithLossNotice []).length -
        (held (report.toBytesWithLossNotice [])).length),
      report.outputRanges.map (fun ranges => { ranges with range :=
        ⟨ranges.range.start, ranges.range.stop - (held (report.toBytesWithLossNotice [])).length⟩ }),
      { report with utf8Tail := held (report.toBytesWithLossNotice []) }) := rfl

theorem project_closed (report : Buffer) : report.project true [] =
    (report.toBytesWithLossNotice [], report.outputRanges, { report with utf8Tail := [] }) := rfl

/-- The projection of a located report: it shows the bytes that the report stands for, up to
    an incomplete character at their end, which it keeps for the next report. -/
theorem project_shows {report : Buffer} {start : Nat} {bytes : Bytes} (closed : Bool)
    (located : report.startOffset = some start)
    (covers : Covers report report.omittedBytes bytes) :
    ∃ front kept, bytes = front ++ kept ∧
      (report.project closed []).2.2 = { report with utf8Tail := kept } ∧
      (closed = true → kept = []) ∧
      Report.Shows ⟨closed, (report.project closed []).1, (report.project closed []).2.1⟩ start front ∧
      (closed = false →
        Report.gap ⟨closed, (report.project closed []).1, (report.project closed []).2.1⟩ = none →
        kept = held bytes) := by
  obtain ⟨middle, rfl, count⟩ := covers.split
  cases closed with
  | true =>
    refine ⟨report.head ++ middle ++ report.tail, [], (List.append_nil _).symm, rfl,
      fun _ => rfl, ?_, nofun⟩
    have shows := @shows_without_kept report start middle _ [] true located count
      (List.append_nil _).symm (fun _ => ⟨report.tail, (List.append_nil _).symm⟩)
    simp only [List.length_nil, Nat.sub_zero, List.take_length] at shows
    cases ranges : report.outputRanges <;> simpa [project_closed, ranges] using shows
  | false =>
    rw [project_open]
    have whole (none : report.omittedBytes = 0) :
        report.toBytesWithLossNotice [] = report.head ++ middle ++ report.tail := by
      obtain rfl : middle = [] := List.eq_nil_of_length_eq_zero (by omega)
      simp [toBytesWithLossNotice, none]
    -- the kept bytes end what the report stands for, behind its gap
    have kept : (∃ front, report.head ++ middle ++ report.tail =
        front ++ held (report.toBytesWithLossNotice [])) ∧
        (0 < report.omittedBytes → ∃ rest, report.tail =
          rest ++ held (report.toBytesWithLossNotice [])) := by
      rcases held_suffix (report.toBytesWithLossNotice []) with
        none | ⟨before, lead, more, split, isHeld, ends⟩
      · rw [none]
        exact ⟨⟨_, (List.append_nil _).symm⟩, fun _ => ⟨_, (List.append_nil _).symm⟩⟩
      rw [isHeld]
      by_cases omitted : 0 < report.omittedBytes
      · rw [toBytesWithLossNotice, if_pos omitted, List.append_nil] at split
        obtain ⟨rest, isTail⟩ := held_behind_marker split ends
        refine ⟨⟨report.head ++ middle ++ rest, ?_⟩, fun _ => ⟨rest, isTail⟩⟩
        rw [isTail, List.append_assoc _ rest]
      · rw [whole (by omega)] at split
        exact ⟨⟨before, split⟩, fun some => absurd some omitted⟩
    obtain ⟨⟨front, split⟩, behind⟩ := kept
    refine ⟨front, held (report.toBytesWithLossNotice []), split, rfl, nofun, ?_, ?_⟩
    · exact shows_without_kept false located count split behind
    · intro _ noGap
      rw [whole]
      by_contra omitted
      simp [Report.gap, outputRanges, located, Nat.pos_of_ne_zero omitted] at noGap

theorem project_again (report : Buffer) (closed : Bool) :
    (report.project closed []).2.2.project closed [] = report.project closed [] := by
  cases closed <;> rfl

end Buffer

/-- No character of the stream, however it goes on, has this position strictly inside. -/
def Boundary (stream : Bytes) (position : Nat) : Prop :=
  ∀ more index width, Utf8.readFront ((stream ++ more).drop index) = .scalar width →
    ¬ (index < position ∧ position < index + width)

theorem boundary_zero (stream : Bytes) : Boundary stream 0 := by
  rintro more index width - ⟨below, -⟩
  exact absurd below (Nat.not_lt_zero _)

theorem Boundary.append {stream : Bytes} {position : Nat} (boundary : Boundary stream position)
    (chunk : Bytes) : Boundary (stream ++ chunk) position := by
  intro more index width read
  rw [List.append_assoc] at read
  exact boundary (chunk ++ more) index width read

/-- Holding back the incomplete character at the end moves a boundary to a boundary. -/
theorem boundary_held {done front kept : Bytes} (boundary : Boundary (done ++ (front ++ kept)) done.length)
    (isHeld : kept = Buffer.held (front ++ kept)) :
    Boundary (done ++ (front ++ kept)) (done ++ front).length := by
  rintro more index width read ⟨below, above⟩
  obtain ⟨-, fits, continued⟩ := Utf8.readFront_scalar read
  rw [List.length_append] at below above
  by_cases early : index < done.length
  · exact boundary more index width read ⟨early, by omega⟩
  -- the character starts inside the bytes of this report
  obtain ⟨offset, rfl⟩ : ∃ offset, index = done.length + offset :=
    ⟨index - done.length, by omega⟩
  have inside : offset < front.length := by omega
  have dropped : (done ++ (front ++ kept) ++ more).drop (done.length + offset) =
      front.drop offset ++ kept ++ more := by
    rw [List.append_assoc, ← List.drop_drop, List.drop_left, List.append_assoc,
      List.drop_append_of_le_length (by omega), List.append_assoc]
  rw [dropped] at read continued
  by_cases long : front.length - offset + kept.length < width
  · -- the rest of the output is its incomplete beginning, so all of it is held back
    have partially : Utf8.readFront (front.drop offset ++ kept) = .incomplete := by
      have taken := Utf8.readFront_take read
        (show 0 < (front.drop offset ++ kept).length by simp; omega)
        (by simpa using long)
      rwa [List.take_left] at taken
    obtain ⟨lead, rest, isCons⟩ : ∃ lead rest, front.drop offset ++ kept = lead :: rest :=
      List.exists_cons_of_ne_nil (List.ne_nil_of_length_pos (by simp; omega))
    have all := @Buffer.held_incomplete lead (front.take offset) rest (isCons ▸ partially)
    rw [← isCons, ← List.append_assoc, List.take_append_drop, ← isHeld] at all
    have lengths := congrArg List.length all
    simp only [List.length_append, List.length_drop] at lengths
    omega
  · -- the held bytes would start with a continuation byte
    rcases Buffer.held_suffix (front ++ kept) with none | ⟨before, lead, rest, -, starts, ends⟩
    · rw [← isHeld] at none
      rw [none, List.length_nil] at long
      omega
    rw [← isHeld] at starts
    have lone := (Utf8.readFront_incomplete ends).2.1
    have member : lead ∈ ((front.drop offset ++ kept ++ more).take width).drop 1 := by
      rw [starts, List.append_assoc, List.cons_append]
      apply List.mem_of_getElem? (i := front.length - offset - 1)
      rw [List.getElem?_drop, List.getElem?_take_of_lt (by omega), List.getElem?_append_right
        (by rw [List.length_drop]; omega), List.length_drop]
      rw [show 1 + (front.length - offset - 1) - (front.length - offset) = 0 by omega]
      rfl
    rw [continued lead member] at lone
    cases lone

/-- The operations on the buffer of one process. -/
inductive Op where
  | push (chunk : Bytes)
  | beginReport
  | collect (cut : Nat)
  | project (closed : Bool)
  | acknowledge
  deriving DecidableEq, Repr

/-- The buffer after an operation. -/
def HeadTailBuffer.apply (buffer : HeadTailBuffer) : Op → HeadTailBuffer
  | .push chunk => buffer.pushChunk chunk
  | .beginReport => buffer.beginOutputReport
  | .collect cut => (buffer.collectPendingOutput cut).2
  | .project closed => (buffer.projectedPendingOutput closed []).2
  | .acknowledge => buffer.acknowledgePendingOutput

/-- The buffer, and the projection that an acknowledgement would confirm. -/
structure Poll where
  buffer : HeadTailBuffer
  shown : Option Report := none
  deriving DecidableEq, Repr

/-- The projection that is still current after an operation. A collect changes the report
    and a new report has not been shown. -/
def Poll.shownAfter (poll : Poll) : Op → Option Report
  | .push _ => poll.shown
  | .beginReport => if poll.buffer.pendingReport.isSome then poll.shown else none
  | .collect _ => none
  | .project closed =>
      let answer := (poll.buffer.projectedPendingOutput closed []).1
      some ⟨closed, answer.1, answer.2⟩
  | .acknowledge => none

/-- One operation under the polling discipline: only the current projection can be
    acknowledged, and it is then reported. -/
def Poll.step (poll : Poll) (op : Op) : Except Unit (List Report × Poll) :=
  match op, poll.shown with
  | .acknowledge, none => .error ()
  | .acknowledge, some report => .ok ([report], ⟨poll.buffer.apply op, poll.shownAfter op⟩)
  | _, _ => .ok ([], ⟨poll.buffer.apply op, poll.shownAfter op⟩)

/-- What a step does: the buffer operation, and the report of an acknowledgement. -/
theorem Poll.step_ok {poll next : Poll} {op : Op} {emitted : List Report}
    (stepped : okStep Poll.step poll op emitted next) :
    next = ⟨poll.buffer.apply op, poll.shownAfter op⟩ ∧
      (op = .acknowledge ∧ (∃ report, poll.shown = some report ∧ emitted = [report]) ∨
        op ≠ .acknowledge ∧ emitted = []) := by
  unfold okStep Poll.step at stepped
  split at stepped
  · cases stepped
  · next report isShown =>
    cases stepped
    exact ⟨rfl, .inl ⟨rfl, report, isShown, rfl⟩⟩
  next refused shown =>
  cases stepped
  refine ⟨rfl, .inr ⟨?_, rfl⟩⟩
  rintro rfl
  cases isShown : poll.shown with
  | none => exact refused rfl isShown
  | some report => exact shown report rfl isShown

theorem Poll.stepped_quiet {poll next : Poll} {op : Op} {emitted : List Report}
    (stepped : okStep Poll.step poll op emitted next) (isOther : op ≠ .acknowledge) :
    next = ⟨poll.buffer.apply op, poll.shownAfter op⟩ ∧ emitted = [] := by
  obtain ⟨isNext, ⟨rfl, -⟩ | ⟨-, none⟩⟩ := Poll.step_ok stepped
  · exact absurd rfl isOther
  · exact ⟨isNext, none⟩

def Op.pushed : Op → Bytes
  | .push chunk => chunk
  | _ => []

/-- The stream of the pushed bytes. -/
def pushed (ops : List Op) : Bytes := ops.flatMap Op.pushed

theorem pushed_snoc (ops : List Op) (op : Op) : pushed (ops ++ [op]) = pushed ops ++ op.pushed := by
  simp [pushed]

/-- The report in progress: the bytes `taken` since the last acknowledged ones are in the
    pending report, or are the held-back bytes of the acknowledged one. -/
def Pending (buffer : HeadTailBuffer) (position : Nat) (taken : Bytes) : Prop :=
  match buffer.pendingReport with
  | none => buffer.utf8Tail = taken
  | some report => buffer.utf8Tail = [] ∧ report.startOffset = some position ∧
      report.maxBytes ≠ 0 ∧ Buffer.Covers report report.omittedBytes taken

/-- The shown projection is the one that the pending report would give again. -/
def Current (buffer : HeadTailBuffer) (shown : Report) : Prop :=
  match buffer.pendingReport with
  | none => shown.output = [] ∧ shown.ranges = none
  | some report => report.project shown.closed [] = (shown.output, shown.ranges, report)

/-- Every boundary between reports so far is one of the stream, unless bytes were omitted or
    a report was projected as the last one. -/
def Separate (stream : Bytes) (position : Nat) (reports : List Report) : Prop :=
  (∀ report ∈ reports, report.gap = none ∧ report.closed = false) →
    ∀ boundary, boundary = position ∨ boundary ∈ (coveredRanges reports).map (·.stop) →
      Boundary stream boundary

/-- The stream after a run: `done` is acknowledged, `taken` is in the report in progress and
    the buffer stands for `rest`. -/
structure Follows (reports : List Report) (poll : Poll) (done taken rest : Bytes) : Prop where
  accounts : Accounts done reports
  separate : Separate (done ++ taken) done.length reports
  pending : Pending poll.buffer done.length taken
  located : poll.buffer.startOffset = some (done ++ taken).length
  noLag : poll.buffer.unreportedLaggedChunks = 0
  covers : Buffer.Covers poll.buffer.toBuffer poll.buffer.unreportedOmittedBytes rest
  shown : ∀ report, poll.shown = some report → Current poll.buffer report

namespace Follows

variable {reports : List Report} {poll : Poll} {done taken rest : Bytes}

theorem start (maxBytes : Nat) : Follows [] ⟨.new maxBytes, none⟩ [] [] [] where
  accounts := .nil
  separate := by
    intro _ boundary isBoundary
    rcases isBoundary with rfl | member
    · exact boundary_zero _
    · cases member
  pending := rfl
  located := rfl
  noLag := rfl
  covers := Buffer.covers_new maxBytes
  shown := nofun

theorem push (follows : Follows reports poll done taken rest) (chunk : Bytes) :
    Follows reports ⟨poll.buffer.pushChunk chunk, poll.shown⟩ done taken (rest ++ chunk) := by
  obtain ⟨dropped, pushed, covers⟩ := Buffer.pushChunk_covers follows.covers chunk
  have unreported : (poll.buffer.pushChunk chunk).unreportedOmittedBytes =
      poll.buffer.unreportedOmittedBytes + dropped := by
    rw [HeadTailBuffer.pushChunk, pushed]
  have tail : (poll.buffer.pushChunk chunk).utf8Tail = poll.buffer.utf8Tail := by
    rw [HeadTailBuffer.pushChunk, pushed]
  refine ⟨follows.accounts, follows.separate, ?_, ?_, ?_, ?_, ?_⟩
  · have pending := follows.pending
    simp only [Pending, tail] at pending ⊢
    exact pending
  · rw [← follows.located, HeadTailBuffer.pushChunk, pushed]
  · rw [← follows.noLag, HeadTailBuffer.pushChunk, pushed]
  · rw [unreported]
    exact covers
  · exact follows.shown

theorem emptyReport_covers (buffer : HeadTailBuffer) :
    Buffer.Covers buffer.emptyReport buffer.emptyReport.omittedBytes [] :=
  have fresh := Buffer.covers_new UNIFIED_EXEC_OUTPUT_MAX_BYTES
  ⟨fresh.split, fresh.full, fresh.tailFits, fresh.zero⟩

/-- Beginning a report moves the held-back bytes into it. -/
theorem begin (follows : Follows reports poll done taken rest) :
    Follows reports ⟨poll.buffer.beginOutputReport, poll.shownAfter .beginReport⟩ done taken rest ∧
      poll.buffer.beginOutputReport.pendingReport.isSome := by
  cases isReport : poll.buffer.pendingReport with
  | some report =>
    simp only [HeadTailBuffer.beginOutputReport, Poll.shownAfter, isReport]
    exact ⟨follows, rfl⟩
  | none =>
    have held : poll.buffer.utf8Tail = taken := by
      have pending := follows.pending
      simpa only [Pending, isReport] using pending
    obtain ⟨covers, offset, limit⟩ :=
      Buffer.pushChunk_report (emptyReport_covers poll.buffer) poll.buffer.utf8Tail
    simp only [HeadTailBuffer.beginOutputReport, Poll.shownAfter, isReport]
    obtain ⟨split, full, fits, zero⟩ := follows.covers
    refine ⟨⟨follows.accounts, follows.separate, ⟨rfl, ?_, ?_, ?_⟩, follows.located, follows.noLag,
      ⟨split, full, fits, zero⟩, nofun⟩, rfl⟩
    · rw [offset, HeadTailBuffer.emptyReport, held, follows.located, Option.bind_some,
        List.length_append, if_pos (Nat.le_add_left _ _), Nat.add_sub_cancel]
    · rw [limit]
      exact (by decide : UNIFIED_EXEC_OUTPUT_MAX_BYTES ≠ 0)
    · rw [← held]
      exact covers

theorem collect (follows : Follows reports poll done taken rest) (cut : Nat) :
    Follows reports ⟨(poll.buffer.collectPendingOutput cut).2, none⟩ done (taken ++ rest) [] ∧
      (poll.buffer.collectPendingOutput cut).2.pendingReport.isSome := by
  obtain ⟨begun, isSome⟩ := follows.begin
  rw [HeadTailBuffer.collectPendingOutput]
  generalize poll.buffer.beginOutputReport = buffer at begun isSome
  obtain ⟨report, isReport⟩ := Option.isSome_iff_exists.mp isSome
  obtain ⟨accounts, separate, pending, located, noLag, covers, -⟩ := begun
  simp only [Pending, isReport] at pending
  obtain ⟨noTail, offset, positive, reportCovers⟩ := pending
  obtain ⟨drained, offset', limit⟩ := Buffer.drainInto_report covers reportCovers positive noLag
    (by rw [located]; exact Option.some_ne_none _) cut
  have length := covers.length
  simp only [isReport, Option.getD_some]
  refine ⟨⟨accounts, ?_, ⟨noTail, by rw [offset', offset], by rw [limit]; exact positive, drained⟩,
    ?_, rfl, ?_, nofun⟩, rfl⟩
  · intro good boundary isBoundary
    rw [← List.append_assoc]
    exact (separate good boundary isBoundary).append rest
  · show buffer.startOffset.map _ = _
    rw [located, Option.map_some, ← length, ← List.append_assoc, @List.length_append _ (done ++ taken) rest]
  · show Buffer.Covers _ 0 []
    refine ⟨⟨[], rfl, rfl⟩, ?_, Nat.zero_le _, covers.zero⟩
    simp [Buffer.drainInto]

theorem project (follows : Follows reports poll done taken rest) (closed : Bool) :
    Follows reports ⟨poll.buffer.apply (.project closed), poll.shownAfter (.project closed)⟩
      done taken rest ∧
    (poll.buffer.apply (.project closed)).pendingReport.isSome =
      poll.buffer.pendingReport.isSome := by
  obtain ⟨accounts, separate, pending, located, noLag, covers, shown⟩ := follows
  cases isReport : poll.buffer.pendingReport with
  | none =>
    simp only [HeadTailBuffer.apply, Poll.shownAfter, HeadTailBuffer.projectedPendingOutput, isReport]
    refine ⟨⟨accounts, separate, pending, located, noLag, covers, ?_⟩, trivial⟩
    rintro report ⟨⟩
    simp only [Current, isReport]
    trivial
  | some report =>
    simp only [Pending, isReport] at pending
    obtain ⟨noTail, offset, positive, reportCovers⟩ := pending
    obtain ⟨front, kept, -, isKept, -⟩ := Buffer.project_shows closed offset reportCovers
    simp only [HeadTailBuffer.apply, Poll.shownAfter, HeadTailBuffer.projectedPendingOutput, isReport]
    refine ⟨⟨accounts, separate, ?_, located, noLag, covers, ?_⟩, rfl⟩
    · refine ⟨noTail, ?_⟩
      rw [isKept]
      obtain ⟨split, full, fits, zero⟩ := reportCovers
      exact ⟨offset, positive, split, full, fits, zero⟩
    · rintro shown ⟨⟩
      exact Buffer.project_again report closed

/-- The report of the last acknowledgement joins the separated ones. -/
theorem separate_snoc {front kept : Bytes} {report : Report}
    (separate : Separate (done ++ (front ++ kept)) done.length reports)
    (shows : report.Shows done.length front)
    (isHeld : report.gap = none → report.closed = false → kept = Buffer.held (front ++ kept) ∨ front = []) :
    Separate (done ++ (front ++ kept)) (done ++ front).length (reports ++ [report]) := by
  intro good boundary isBoundary
  have before : ∀ report ∈ reports, report.gap = none ∧ report.closed = false :=
    fun report member => good report (List.mem_append_left _ member)
  obtain ⟨noGap, isOpen⟩ := good report (List.mem_append_right _ (List.mem_singleton_self _))
  have last : Boundary (done ++ (front ++ kept)) (done ++ front).length := by
    rcases isHeld noGap isOpen with isHeld | rfl
    · exact boundary_held (separate before done.length (.inl rfl)) isHeld
    · rw [List.append_nil]
      exact separate before done.length (.inl rfl)
  rw [coveredRanges_snoc, List.map_append, List.mem_append] at isBoundary
  rcases isBoundary with rfl | member | member
  · exact last
  · exact separate before boundary (.inr member)
  cases shows with
  | nothing noRanges =>
    rw [noRanges] at member
    cases member
  | whole bytes named =>
    obtain rfl : boundary = done.length + front.length := by simpa [named] using member
    rwa [List.length_append] at last
  | gapped before omitted after _ named =>
    rw [Report.gap, named] at noGap
    cases noGap

/-- An acknowledgement moves the shown bytes from the report to the acknowledged ones. -/
theorem acknowledge (follows : Follows reports poll done taken rest) {report : Report}
    (isShown : poll.shown = some report) :
    ∃ front kept, taken = front ++ kept ∧
      (poll.buffer.pendingReport.isSome → report.closed = true → kept = []) ∧
      Follows (reports ++ [report]) ⟨poll.buffer.acknowledgePendingOutput, none⟩
        (done ++ front) kept rest := by
  obtain ⟨accounts, separate, pending, located, noLag, covers, shown⟩ := follows
  have current := shown report isShown
  cases isReport : poll.buffer.pendingReport with
  | none =>
    simp only [Current, isReport] at current
    simp only [HeadTailBuffer.acknowledgePendingOutput, isReport]
    have shows : report.Shows done.length [] := .nothing current.2 current.1
    refine ⟨[], taken, rfl, nofun, .snoc [] report accounts shows, ?_, ?_, ?_, noLag, covers,
      nofun⟩
    · rw [List.append_assoc]
      exact separate_snoc separate shows (fun _ _ => .inr rfl)
    · rw [List.append_nil]
      exact pending
    · rw [List.append_nil]
      exact located
  | some pendingReport =>
    simp only [Pending, isReport] at pending
    simp only [Current, isReport] at current
    obtain ⟨noTail, offset, positive, reportCovers⟩ := pending
    obtain ⟨front, kept, rfl, isKept, closes, shows, isHeld⟩ :=
      Buffer.project_shows report.closed offset reportCovers
    rw [current] at isKept shows isHeld
    have tail : pendingReport.utf8Tail = kept := congrArg (·.utf8Tail) isKept
    simp only [HeadTailBuffer.acknowledgePendingOutput, isReport]
    obtain ⟨split, full, fits, zero⟩ := covers
    refine ⟨front, kept, rfl, fun _ => closes, .snoc front report accounts shows, ?_, tail, ?_,
      noLag, ⟨split, full, fits, zero⟩, nofun⟩
    · rw [List.append_assoc]
      exact separate_snoc separate shows (fun noGap isOpen => .inl (isHeld isOpen noGap))
    · rw [List.append_assoc]
      exact located

theorem step (follows : Follows reports poll done taken rest) {op : Op} {emitted : List Report}
    {next : Poll} (stepped : okStep Poll.step poll op emitted next) :
    ∃ done' taken' rest', done' ++ taken' ++ rest' = done ++ taken ++ rest ++ op.pushed ∧
      Follows (reports ++ emitted) next done' taken' rest' := by
  obtain ⟨rfl, ⟨rfl, report, isShown, rfl⟩ | ⟨isOther, rfl⟩⟩ := Poll.step_ok stepped
  · obtain ⟨front, kept, rfl, -, next⟩ := follows.acknowledge isShown
    exact ⟨done ++ front, kept, rest, by simp [Op.pushed], next⟩
  rw [List.append_nil]
  cases op with
  | push chunk => exact ⟨done, taken, rest ++ chunk, by simp [Op.pushed], follows.push chunk⟩
  | beginReport => exact ⟨done, taken, rest, by simp [Op.pushed], follows.begin.1⟩
  | collect cut =>
    exact ⟨done, taken ++ rest, [], by simp [Op.pushed], (follows.collect cut).1⟩
  | project closed => exact ⟨done, taken, rest, by simp [Op.pushed], (follows.project closed).1⟩
  | acknowledge => exact absurd rfl isOther

/-- Every run keeps the stream split into what is acknowledged, taken and buffered. -/
theorem run {maxBytes : Nat} {ops : List Op} {reports : List Report} {poll : Poll}
    (ran : Trace (okStep Poll.step) ⟨.new maxBytes, none⟩ ops reports poll) :
    ∃ done taken rest, done ++ taken ++ rest = pushed ops ∧
      Follows reports poll done taken rest := by
  refine @Trace.invariant Poll Op Report (okStep Poll.step) ⟨.new maxBytes, none⟩
    (fun ops reports poll => ∃ done taken rest,
      done ++ taken ++ rest = pushed ops ∧ Follows reports poll done taken rest)
    ⟨[], [], [], rfl, start maxBytes⟩ ?_ _ _ _ ran
  rintro ops reports poll op emitted next ⟨done, taken, rest, split, follows⟩ stepped
  obtain ⟨done', taken', rest', split', follows'⟩ := follows.step stepped
  refine ⟨done', taken', rest', ?_, follows'⟩
  rw [split', split, pushed_snoc]

/-- After a collect that only projections follow, everything pushed is in the report. -/
theorem run_collected {maxBytes cut : Nat} {body more : List Op} {reports : List Report}
    {poll : Poll} (projections : ∀ op ∈ more, ∃ closed, op = .project closed)
    (ran : Trace (okStep Poll.step) ⟨.new maxBytes, none⟩ (body ++ .collect cut :: more) reports poll) :
    ∃ done taken, done ++ taken = pushed body ∧ Follows reports poll done taken [] ∧
      poll.buffer.pendingReport.isSome := by
  induction more using List.reverseRecOn generalizing reports poll with
  | nil =>
    obtain ⟨before, emitted, state, rfl, first, stepped⟩ := ran.last
    obtain ⟨done, taken, rest, split, follows⟩ := run first
    obtain ⟨rfl, rfl⟩ := Poll.stepped_quiet stepped nofun
    obtain ⟨collected, isSome⟩ := follows.collect cut
    rw [List.append_nil]
    exact ⟨done, taken ++ rest, by rw [← split, List.append_assoc], collected, isSome⟩
  | append_singleton more op ih =>
    rw [← List.cons_append, ← List.append_assoc] at ran
    obtain ⟨before, emitted, state, rfl, first, stepped⟩ := ran.last
    obtain ⟨done, taken, split, follows, isSome⟩ := ih
      (fun op member => projections op (List.mem_append_left _ member)) first
    obtain ⟨closed, rfl⟩ := projections op (List.mem_append_right _ (List.mem_singleton_self _))
    obtain ⟨rfl, rfl⟩ := Poll.stepped_quiet stepped nofun
    obtain ⟨projected, same⟩ := follows.project closed
    rw [List.append_nil]
    exact ⟨done, taken, split, projected, by rw [← isSome, ← same]⟩

end Follows

namespace Buffer

/-- The buffer with other held-back bytes. -/
def retail (buffer : Buffer) (tail : Bytes) : Buffer := { buffer with utf8Tail := tail }

theorem apply_ite_retail (condition : Prop) [Decidable condition] (first second : Buffer)
    (tail : Bytes) : (if condition then first else second).retail tail =
      if condition then first.retail tail else second.retail tail := by
  split <;> rfl

theorem pushToTail_retail (buffer : Buffer) (tail chunk : Bytes) :
    (buffer.retail tail).pushToTail chunk = (buffer.pushToTail chunk).retail tail := by
  simp only [pushToTail, trimTailToBudget, apply_ite_retail]
  rfl

theorem pushChunk_retail (buffer : Buffer) (tail chunk : Bytes) :
    (buffer.retail tail).pushChunk chunk = (buffer.pushChunk chunk).retail tail := by
  simp only [pushChunk, apply_ite_retail, ← pushToTail_retail]
  rfl

theorem recordLaggedChunks_retail (buffer : Buffer) (tail : Bytes) (skipped : Nat) :
    (buffer.retail tail).recordLaggedChunks skipped =
      (buffer.recordLaggedChunks skipped).retail tail := by
  simp only [recordLaggedChunks]
  split <;> rfl

theorem drainInto_retail (source target : Buffer) (tail : Bytes) (cut : Nat) :
    source.drainInto (target.retail tail) cut =
      ((source.drainInto target cut).1, (source.drainInto target cut).2.1,
        (source.drainInto target cut).2.2.retail tail) := by
  have opened (target : Buffer) (omitted : Nat) :
      (if 0 < omitted then (target.retail tail).openGap omitted else target.retail tail) =
        (if 0 < omitted then target.openGap omitted else target).retail tail := by
    split <;> rfl
  simp only [drainInto]
  rw [← recordLaggedChunks_retail, ← pushChunk_retail, ← pushChunk_retail, ← opened,
    ← pushChunk_retail]
  rfl

theorem project_retail (report : Buffer) (tail : Bytes) (closed : Bool) :
    (report.retail tail).project closed [] = report.project closed [] := by
  cases closed <;> rfl

end Buffer

namespace HeadTailBuffer

/-- Two buffers that differ at most in the held-back bytes of a pending report. -/
def SameButHeld (first second : HeadTailBuffer) : Prop :=
  first = second ∨ ∃ report tail, second.pendingReport = some report ∧
    first = { second with pendingReport := some (report.retail tail) }

theorem SameButHeld.project {first second : HeadTailBuffer} (same : SameButHeld first second)
    (closed : Bool) :
    first.projectedPendingOutput closed [] = second.projectedPendingOutput closed [] := by
  rcases same with rfl | ⟨report, tail, isReport, rfl⟩
  · rfl
  · simp only [projectedPendingOutput, isReport, Buffer.project_retail]

theorem SameButHeld.apply {first second : HeadTailBuffer} (same : SameButHeld first second)
    {op : Op} (unacknowledged : op ≠ .acknowledge) : SameButHeld (first.apply op) (second.apply op) := by
  cases op with
  | acknowledge => exact absurd rfl unacknowledged
  | project closed =>
    left
    exact congrArg Prod.snd (same.project closed)
  | push chunk =>
    rcases same with rfl | ⟨report, tail, isReport, rfl⟩
    · exact .inl rfl
    · exact .inr ⟨report, tail, isReport, rfl⟩
  | beginReport =>
    rcases same with rfl | ⟨report, tail, isReport, rfl⟩
    · exact .inl rfl
    · refine .inr ⟨report, tail, ?_, ?_⟩ <;>
        simp only [HeadTailBuffer.apply, beginOutputReport, isReport]
  | collect cut =>
    rcases same with rfl | ⟨report, tail, isReport, rfl⟩
    · exact .inl rfl
    · refine .inr ⟨(second.toBuffer.drainInto report cut).2.2, tail, ?_, ?_⟩
      · simp only [HeadTailBuffer.apply, collectPendingOutput, beginOutputReport, isReport,
          Option.getD_some]
      · simp only [HeadTailBuffer.apply, collectPendingOutput, beginOutputReport, isReport,
          Option.getD_some, Buffer.drainInto_retail]

theorem sameButHeld_projected (buffer : HeadTailBuffer) (closed : Bool) :
    SameButHeld (buffer.apply (.project closed)) buffer := by
  cases isReport : buffer.pendingReport with
  | none => simp only [HeadTailBuffer.apply, projectedPendingOutput, isReport, SameButHeld, true_or]
  | some report =>
    right
    refine ⟨report, (report.project closed []).2.2.utf8Tail, isReport, ?_⟩
    simp only [HeadTailBuffer.apply, projectedPendingOutput, isReport]
    cases closed <;> rfl

/-- A projection that is not acknowledged does not change what a later one answers. -/
theorem projection_erased (buffer : HeadTailBuffer) (closed : Bool) {ops : List Op}
    (unacknowledged : .acknowledge ∉ ops) (later : Bool) :
    ((ops.foldl apply (buffer.apply (.project closed))).projectedPendingOutput later []) =
      (ops.foldl apply buffer).projectedPendingOutput later [] := by
  have same : ∀ first second, SameButHeld first second →
      SameButHeld (ops.foldl apply first) (ops.foldl apply second) := by
    induction ops with
    | nil => exact fun _ _ same => same
    | cons op ops ih =>
      intro first second same
      rw [List.mem_cons, not_or] at unacknowledged
      exact ih unacknowledged.2 _ _ (same.apply (Ne.symm unacknowledged.1))
  exact (same _ _ (sameButHeld_projected buffer closed)).project later

end HeadTailBuffer

/-- The reports tell the stream exactly once. Without omitted bytes they are the stream and,
    when only the last one was projected as final, none of them ends inside a character. -/
structure ExactlyOnce (stream : Bytes) (reports : List Report) : Prop where
  accounts : Accounts stream reports
  tiles : Tiles 0 (coveredRanges reports) stream.length
  whole : (∀ report ∈ reports, report.gap = none) → (reports.map (·.output)).flatten = stream
  characters : (∀ report ∈ reports, report.gap = none) →
    (∀ report ∈ reports.dropLast, report.closed = false) →
    ∀ index width, Utf8.readFront (stream.drop index) = .scalar width →
      ∀ range ∈ coveredRanges reports, ¬ (index < range.stop ∧ range.stop < index + width)

/-- For every buffer size and every run of pushes, collects, projections and acknowledgements
    that ends with a final projection of everything pushed, the acknowledged reports tell the
    stream exactly once; and a projection that is not acknowledged is forgotten. -/
theorem output_reported_exactly_once {maxBytes cut : Nat} {body more : List Op}
    {reports : List Report} {poll : Poll}
    (projections : ∀ op ∈ more, ∃ closed, op = .project closed)
    (ran : runAll Poll.step ⟨.new maxBytes, none⟩
      (body ++ .collect cut :: more ++ [.project true] ++ [.acknowledge]) = .ok (reports, poll)) :
    ExactlyOnce (pushed body) reports ∧
      ∀ (buffer : HeadTailBuffer) (closed later : Bool) (ops : List Op), .acknowledge ∉ ops →
        (ops.foldl HeadTailBuffer.apply (buffer.apply (.project closed))).projectedPendingOutput
            later [] =
          (ops.foldl HeadTailBuffer.apply buffer).projectedPendingOutput later [] := by
  refine ⟨?_, fun buffer closed later ops unacknowledged =>
    buffer.projection_erased closed unacknowledged later⟩
  obtain ⟨before, emitted, shown, rfl, projecting, acknowledged⟩ := (trace_of_runAll ran).last
  obtain ⟨before, quiet, collected, rfl, collecting, projected⟩ := projecting.last
  obtain ⟨rfl, rfl⟩ := Poll.stepped_quiet projected nofun
  obtain ⟨rfl, ⟨-, report, isShown, rfl⟩ | ⟨isOther, -⟩⟩ := Poll.step_ok acknowledged
  swap
  · exact absurd rfl isOther
  obtain ⟨done, taken, split, follows, isSome⟩ := Follows.run_collected projections collecting
  obtain ⟨projected, same⟩ := follows.project true
  rw [List.append_nil]
  obtain ⟨front, kept, rfl, closes, final⟩ := projected.acknowledge isShown
  have isClosed : report.closed = true := by
    obtain rfl := Option.some.inj isShown
    rfl
  obtain rfl : kept = [] := closes (by rw [same]; exact isSome) isClosed
  rw [List.append_nil] at split
  rw [split] at final
  refine ⟨final.accounts, final.accounts.tiles, final.accounts.output_eq, ?_⟩
  intro noGap isOpen index width read range member
  rw [List.dropLast_concat] at isOpen
  rw [coveredRanges_snoc, List.mem_append] at member
  rcases member with member | member
  · have boundary := follows.separate (fun report member =>
      ⟨noGap report (List.mem_append_left _ member), isOpen report member⟩) range.stop
      (.inr (List.mem_map_of_mem member))
    rw [List.append_nil, split] at boundary
    exact boundary [] index width (by rwa [List.append_nil])
  -- the last report ends with the stream
  have tiles := final.accounts.tiles
  obtain ⟨-, fits, -⟩ := Utf8.readFront_scalar read
  rw [Option.mem_toList] at member
  rw [coveredRanges_snoc, member] at tiles
  have last : range.stop = (pushed body).length := tiles_last tiles
  rw [List.length_drop] at fits
  omega

/-- A two-byte character is pushed in two parts, with an acknowledged report in between. -/
theorem output_reported_exactly_once_split_character :
    ExactlyOnce [0x61, 0xc3, 0xa9]
      [⟨false, [0x61], some ⟨⟨0, 1⟩, none⟩⟩, ⟨true, [0xc3, 0xa9], some ⟨⟨1, 3⟩, none⟩⟩] :=
  have projections : ∀ op ∈ ([] : List Op), ∃ closed, op = .project closed := nofun
  (@output_reported_exactly_once 16 0
    [.push [0x61, 0xc3], .collect 0, .project false, .acknowledge, .push [0xa9]] [] _ _
    projections rfl).1

namespace Buffer

/-- The retained bytes are within budgets that are within a limit. -/
def Bounded (limit : Nat) (buffer : Buffer) : Prop :=
  buffer.head.length ≤ buffer.headBudget ∧ buffer.tail.length ≤ buffer.tailBudget ∧
    buffer.headBudget + buffer.tailBudget ≤ limit

variable {limit : Nat} {buffer : Buffer}

theorem bounded_new (maxBytes : Nat) : (Buffer.new maxBytes).Bounded maxBytes := by
  refine ⟨Nat.zero_le _, Nat.zero_le _, ?_⟩
  dsimp only [Buffer.new]
  omega

theorem pushToTail_bounded (bounded : buffer.Bounded limit) (chunk : Bytes) :
    (buffer.pushToTail chunk).Bounded limit := by
  obtain ⟨head, tail, budgets⟩ := id bounded
  unfold pushToTail
  dsimp only [trimTailToBudget]
  repeat' split
  · exact bounded
  · exact bounded
  all_goals
    refine ⟨head, ?_, budgets⟩
    simp only [recordOmittedBytes, List.length_drop]
    omega

theorem pushChunk_bounded (bounded : buffer.Bounded limit) (chunk : Bytes) :
    (buffer.pushChunk chunk).Bounded limit := by
  obtain ⟨head, tail, budgets⟩ := id bounded
  unfold pushChunk
  repeat' split
  · exact bounded
  · exact bounded
  · apply pushToTail_bounded
    refine ⟨?_, tail, budgets⟩
    simp only [List.length_append, List.length_take]
    omega

theorem openGap_bounded (bounded : buffer.Bounded limit) (omitted : Nat) :
    (buffer.openGap omitted).Bounded limit :=
  ⟨le_refl _, Nat.zero_le _, (Nat.add_le_add_right bounded.1 _).trans bounded.2.2⟩

theorem recordLaggedChunks_bounded (bounded : buffer.Bounded limit) (skipped : Nat) :
    (buffer.recordLaggedChunks skipped).Bounded limit := by
  unfold recordLaggedChunks
  split <;> exact bounded

theorem drainInto_bounded (bounded : buffer.Bounded limit) (source : Buffer) (cut : Nat) :
    (source.drainInto buffer cut).2.2.Bounded limit := by
  apply recordLaggedChunks_bounded
  apply pushChunk_bounded
  apply pushChunk_bounded
  split
  · apply openGap_bounded
    apply pushChunk_bounded
    exact bounded
  · apply pushChunk_bounded
    exact bounded

theorem project_bounded (bounded : buffer.Bounded limit) (closed : Bool) :
    (buffer.project closed []).2.2.Bounded limit := by
  unfold project
  dsimp only
  split <;> exact bounded

end Buffer

namespace HeadTailBuffer

/-- The buffer is within a limit, and its report within that of reports. -/
def Bounded (limit : Nat) (buffer : HeadTailBuffer) : Prop :=
  buffer.toBuffer.Bounded limit ∧
    ∀ report ∈ buffer.pendingReport, report.Bounded UNIFIED_EXEC_OUTPUT_MAX_BYTES

variable {limit : Nat} {buffer : HeadTailBuffer}

theorem beginOutputReport_bounded (bounded : buffer.Bounded limit) :
    buffer.beginOutputReport.Bounded limit := by
  unfold beginOutputReport
  split
  · exact bounded
  · refine ⟨bounded.1, ?_⟩
    rintro _ ⟨⟩
    apply Buffer.pushChunk_bounded
    exact Buffer.bounded_new _

theorem apply_bounded (bounded : buffer.Bounded limit) (op : Op) :
    (buffer.apply op).Bounded limit := by
  cases op with
  | push chunk => exact ⟨Buffer.pushChunk_bounded bounded.1 chunk, bounded.2⟩
  | beginReport => exact beginOutputReport_bounded bounded
  | collect cut =>
    obtain ⟨⟨-, -, budgets⟩, reports⟩ := beginOutputReport_bounded bounded
    refine ⟨⟨Nat.zero_le _, Nat.zero_le _, budgets⟩, ?_⟩
    rintro _ ⟨⟩
    apply Buffer.drainInto_bounded
    cases isReport : buffer.beginOutputReport.pendingReport with
    | none => exact Buffer.bounded_new _
    | some report => exact reports report isReport
  | project closed =>
    show (buffer.projectedPendingOutput closed []).2.Bounded limit
    unfold projectedPendingOutput
    split
    · exact bounded
    · next report isReport =>
      refine ⟨bounded.1, ?_⟩
      rintro _ ⟨⟩
      exact Buffer.project_bounded (bounded.2 report isReport) closed
  | acknowledge =>
    show buffer.acknowledgePendingOutput.Bounded limit
    unfold acknowledgePendingOutput
    split
    · exact bounded
    · exact ⟨bounded.1, nofun⟩

/-- The buffer after an operation and a lag of some chunks, also of none. -/
def after (buffer : HeadTailBuffer) (event : Op × Nat) : HeadTailBuffer :=
  { buffer.apply event.1 with
    toBuffer := (buffer.apply event.1).toBuffer.recordLaggedChunks event.2 }

/-- However pushes, lags and reports interleave, a buffer and its report each retain no more than
    their limit. -/
theorem retention_bounded (maxBytes : Nat) (events : List (Op × Nat)) :
    (events.foldl after (.new maxBytes)).retainedBytes ≤ maxBytes ∧
      ∀ report ∈ (events.foldl after (.new maxBytes)).pendingReport,
        report.retainedBytes ≤ UNIFIED_EXEC_OUTPUT_MAX_BYTES := by
  have fits : ∀ {limit buffer}, Buffer.Bounded limit buffer → buffer.retainedBytes ≤ limit :=
    fun ⟨head, tail, budgets⟩ => (Nat.add_le_add head tail).trans budgets
  have kept : (events.foldl after (.new maxBytes)).Bounded maxBytes := by
    apply List.foldlRecOn
    · exact ⟨Buffer.bounded_new maxBytes, nofun⟩
    · intro buffer bounded event _
      have applied := apply_bounded bounded event.1
      exact ⟨Buffer.recordLaggedChunks_bounded applied.1 event.2, applied.2⟩
  exact ⟨fits kept.1, fun report isReport => fits (kept.2 report isReport)⟩

end HeadTailBuffer

end Codex.UnifiedExec
