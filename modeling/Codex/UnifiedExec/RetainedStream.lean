import Codex.UnifiedExec.Retention

/-!
# Reading a cumulative stream

`RetainedStream` of `core/src/unified_exec/head_tail_buffer.rs`: a cursor reads the retained bytes of
a stream in producer coordinates, in pieces that say whether bytes were lost before them. The ring
buffer of the tail hands out two slices; `cut` is the length of the first.
-/

namespace Codex.UnifiedExec

/-- `StreamLayout` (`head_tail_buffer.rs:491`). -/
structure StreamLayout where
  head : Nat
  omitted : Nat
  lagSeams : List Nat
  lagOverflow : Option (Nat × Nat)
  deriving DecidableEq, Repr

/-- `RetainedStream` (`head_tail_buffer.rs:500`). -/
structure RetainedStream where
  head : Bytes
  tail : Bytes × Bytes
  omitted : Nat
  lagSeams : List Nat
  lagOverflow : Option (Nat × Nat)
  deriving DecidableEq, Repr

/-- `stream_layout` (`head_tail_buffer.rs:347`). -/
def Buffer.streamLayout (buffer : Buffer) : StreamLayout :=
  ⟨buffer.head.length, buffer.omittedBytes, buffer.lagSeams, buffer.lagOverflow⟩

/-- `retained_stream` (`head_tail_buffer.rs:357`). -/
def Buffer.retainedStream (buffer : Buffer) (cut : Nat) : RetainedStream where
  head := buffer.head
  tail := (buffer.tail.take cut, buffer.tail.drop cut)
  omitted := buffer.omittedBytes
  lagSeams := buffer.lagSeams
  lagOverflow := buffer.lagOverflow

/-- A call of the visitor. -/
structure Piece where
  start : Nat
  bytes : Bytes
  joined : Bool
  deriving DecidableEq, Repr

/-- The state of a visit between two calls. -/
structure Scan where
  position : Nat
  joined : Bool
  seams : List Nat
  deriving DecidableEq, Repr

/-- The seams up to a position are passed: one at the position parts it from what is before. -/
def passSeams (position : Nat) : Bool → List Nat → Bool × List Nat
  | joined, [] => (joined, [])
  | joined, seam :: rest =>
      if seam ≤ position then passSeams position (joined && seam != position) rest
      else (joined, seam :: rest)

variable {position stop : Nat} {joined : Bool} {seams : List Nat}

theorem passSeams_rest {seam : Nat}
    (next : (passSeams position joined seams).2.head? = some seam) : position < seam := by
  induction seams generalizing joined with
  | nil => cases next
  | cons first rest ih =>
    rw [passSeams] at next
    split at next
    · exact ih next
    next later =>
      obtain rfl := Option.some_inj.mp next
      exact Nat.lt_of_not_le later

/-- Where a piece stops. -/
def stopAt (seams : List Nat) (stop : Nat) : Nat := (seams.head?.map (min · stop)).getD stop

theorem lt_stopAt (inside : position < stop) (joined : Bool)
    (seams : List Nat) : position < stopAt (passSeams position joined seams).2 stop := by
  rw [stopAt]
  cases next : (passSeams position joined seams).2.head? with
  | none => exact inside
  | some seam => exact lt_min (passSeams_rest next) inside

/-- The loop over one slice (`head_tail_buffer.rs:576`). -/
def visitSlice (unknown : Nat × Nat) (start : Nat) (bytes : Bytes) (scan : Scan) :
    List Piece × Scan :=
  if _inside : scan.position < start + bytes.length then
    if _known : unknown.1 ≤ scan.position ∧ scan.position < unknown.2 then
      visitSlice unknown start bytes { scan with position := unknown.2, joined := false }
    else
      let passed := passSeams scan.position scan.joined scan.seams
      let stop := stopAt passed.2 (start + bytes.length)
      let rest := visitSlice unknown start bytes ⟨stop, true, passed.2⟩
      (⟨scan.position, (bytes.drop (scan.position - start)).take (stop - scan.position),
        passed.1⟩ :: rest.1, rest.2)
  else ([], scan)
termination_by start + bytes.length - scan.position
decreasing_by
  · omega
  · exact Nat.sub_lt_sub_left _inside (lt_stopAt _inside scan.joined scan.seams)

/-- One slice of a visit. What is before it is skipped. -/
def visitPart (unknown : Nat × Nat) (start : Nat) (bytes : Bytes) (scan : Scan) :
    List Piece × Scan :=
  if start + bytes.length ≤ scan.position then ([], scan)
  else
    visitSlice unknown start bytes
      (if scan.position < start then { scan with position := start, joined := false } else scan)

namespace RetainedStream

/-- `frozen` (`head_tail_buffer.rs:509`). -/
def frozen (snapshot : Bytes) (layout : StreamLayout) : RetainedStream :=
  let marker := if 0 < layout.omitted then (omittedOutputMarker layout.omitted).length else 0
  let head := min layout.head snapshot.length
  { head := snapshot.take head
    tail := (snapshot.drop (head + marker), [])
    omitted := layout.omitted
    lagSeams := layout.lagSeams
    lagOverflow := layout.lagOverflow }

def tailStart (stream : RetainedStream) : Nat := stream.head.length + stream.omitted

def total (stream : RetainedStream) : Nat :=
  stream.tailStart + stream.tail.1.length + stream.tail.2.length

/-- `lost_since` (`head_tail_buffer.rs:543`). -/
def lostSince (stream : RetainedStream) (after : Nat) (closed : Bool) : Bool :=
  let examined (seam : Nat) : Bool := decide (seam < stream.total) || closed
  (decide (0 < stream.omitted) && decide (after < stream.tailStart)) ||
    (stream.lagSeams.dropWhile (· < after)).head?.any examined ||
    stream.lagOverflow.any fun span => decide (after ≤ span.2) && examined (max span.1 after)

/-- The bytes of the span are skipped. -/
def unknown (stream : RetainedStream) : Nat × Nat := stream.lagOverflow.getD (0, 0)

/-- The seams that a visit meets. -/
def seamsFrom (stream : RetainedStream) (cursor : Nat) : List Nat :=
  stream.lagSeams.dropWhile (· < cursor) ++ (stream.lagOverflow.map Prod.fst).toList

/-- `visit_since` (`head_tail_buffer.rs:561`): the calls of the visitor and the position after the
    last byte. -/
def visitSince (stream : RetainedStream) (cursor : Nat) : List Piece × Nat :=
  let head := visitPart stream.unknown 0 stream.head ⟨cursor, true, stream.seamsFrom cursor⟩
  let front := visitPart stream.unknown stream.tailStart stream.tail.1 head.2
  let back := visitPart stream.unknown (stream.tailStart + stream.tail.1.length) stream.tail.2
    front.2
  (head.1 ++ front.1 ++ back.1, stream.total)

end RetainedStream

/-- The bytes of a piece at their coordinates. Inside a piece a byte is joined to the one before. -/
def trace (start : Nat) (joined : Bool) : Bytes → List (Nat × UInt8 × Bool)
  | [] => []
  | byte :: bytes => (start, byte, joined) :: trace (start + 1) true bytes

def Piece.trace (piece : Piece) : List (Nat × UInt8 × Bool) :=
  UnifiedExec.trace piece.start piece.joined piece.bytes

/-- What decides the marks of a visit: the bytes, which coordinates are visited, and the seams. -/
structure Marks where
  cursor : Nat
  byteAt : Nat → UInt8
  visible : Nat → Bool
  isSeam : Nat → Bool

namespace Marks

variable (marks : Marks)

/-- A byte is joined to the one before it when that is visited and no seam parts them. -/
def isJoined (x : Nat) : Bool := !marks.isSeam x && (x == marks.cursor || marks.visible (x - 1))

/-- The marks of some coordinates. -/
def between (low high : Nat) : List (Nat × UInt8 × Bool) :=
  ((List.range' low (high - low)).filter marks.visible).map fun x =>
    (x, marks.byteAt x, marks.isJoined x)

theorem between_append {low middle high : Nat} (first : low ≤ middle) (second : middle ≤ high) :
    marks.between low middle ++ marks.between middle high = marks.between low high := by
  have split_ : List.range' low (middle - low) ++ List.range' middle (high - middle) =
      List.range' low (high - low) := by
    have joined := @List.range'_append low (middle - low) (high - middle) 1
    rw [Nat.one_mul, Nat.add_sub_cancel' first] at joined
    rw [joined]
    congr 1
    omega
  rw [between, between, between, ← List.map_append, ← List.filter_append, split_]

theorem between_invisible {low high : Nat}
    (invisible : ∀ x, low ≤ x → x < high → marks.visible x = false) : marks.between low high = [] := by
  have none_ : (List.range' low (high - low)).filter marks.visible = [] := by
    rw [List.filter_eq_nil_iff]
    intro x member
    rw [List.mem_range'_1] at member
    rw [invisible x member.1 (by omega)]
    exact Bool.false_ne_true
  rw [between, none_, List.map_nil]

end Marks

theorem trace_eq {byteAt : Nat → UInt8} {bytes : Bytes} {start : Nat}
    (same : ∀ i, i < bytes.length → bytes.getD i 0 = byteAt (start + i)) (flag : Nat → Bool)
    (first : bytes ≠ [] → flag start = joined)
    (later : ∀ x, start < x → x < start + bytes.length → flag x = true) :
    trace start joined bytes =
      (List.range' start bytes.length).map fun x => (x, byteAt x, flag x) := by
  induction bytes generalizing start joined with
  | nil => rfl
  | cons byte bytes ih =>
    have own := same 0 (Nat.zero_lt_succ _)
    rw [List.getD_cons_zero, Nat.add_zero] at own
    rw [trace, List.length_cons, List.range'_succ, List.map_cons, ← own,
      first (List.cons_ne_nil _ _)]
    congr 1
    refine ih ?_ ?_ ?_
    · intro i inside
      have next := same (i + 1) (by rw [List.length_cons]; omega)
      rw [List.getD_cons_succ] at next
      rw [next]
      congr 1
      omega
    · intro nonempty
      refine later _ (Nat.lt_succ_self _) ?_
      have positive := List.length_pos_iff.mpr nonempty
      rw [List.length_cons]
      omega
    · intro x after inside
      refine later x (by omega) ?_
      rw [List.length_cons]
      omega

/-- A visit goes on in order, and is joined truly: a piece is parted from what is before it by a seam
    at its start, or by skipped coordinates since the last byte or the cursor. -/
def JoinsAt (isSeam : Nat → Prop) : Nat → List Piece → Prop
  | _, [] => True
  | stop, piece :: rest =>
      stop ≤ piece.start ∧ (piece.joined = false ↔ isSeam piece.start ∨ ∃ x, stop ≤ x ∧ x < piece.start) ∧
        JoinsAt isSeam (piece.start + piece.bytes.length) rest

/-- Where the bytes of some pieces end. -/
def endOf (stop : Nat) (pieces : List Piece) : Nat :=
  (pieces.getLast?.map fun piece => piece.start + piece.bytes.length).getD stop

theorem endOf_cons (stop : Nat) (piece : Piece) (rest : List Piece) :
    endOf stop (piece :: rest) = endOf (piece.start + piece.bytes.length) rest := by
  cases rest with
  | nil => rfl
  | cons next rest =>
    rw [endOf, endOf, List.getLast?_cons_cons, List.getLast?_eq_some_getLast (List.cons_ne_nil _ _)]
    rfl

theorem JoinsAt.append {isSeam : Nat → Prop} {before after : List Piece}
    (first : JoinsAt isSeam stop before) (second : JoinsAt isSeam (endOf stop before) after) :
    JoinsAt isSeam stop (before ++ after) := by
  induction before generalizing stop with
  | nil => exact second
  | cons piece rest ih =>
    rw [endOf_cons] at second
    exact ⟨first.1, first.2.1, ih first.2.2 second⟩

/-- The state of a visit at a position: the last byte that it visited ended at `stop`. -/
structure Scan.Fits (marks : Marks) (stop : Nat) (scan : Scan) : Prop where
  cursor : marks.cursor ≤ scan.position
  ended : stop ≤ scan.position
  joined : scan.joined = true ↔ stop = scan.position
  before : scan.joined = (scan.position == marks.cursor || marks.visible (scan.position - 1))
  sorted : scan.seams.Pairwise (· < ·)
  seams : ∀ x, scan.position ≤ x → (x ∈ scan.seams ↔ marks.isSeam x = true)

theorem passSeams_eq (sorted : seams.Pairwise (· < ·)) : passSeams position joined seams =
      (joined && decide (position ∉ seams), seams.filter (position < ·)) := by
  induction seams generalizing joined with
  | nil => simp [passSeams]
  | cons seam rest ih =>
    obtain ⟨below, others⟩ := List.pairwise_cons.mp sorted
    rw [passSeams]
    split
    next passed =>
      rw [ih others, List.filter_cons_of_neg (by simpa using passed)]
      by_cases same : position = seam
      · simp [same]
      · have other : (seam != position) = true := bne_iff_ne.mpr (Ne.symm same)
        simp [same, other]
    next later =>
      have all : ∀ x ∈ seam :: rest, position < x := by
        intro x member
        rcases List.mem_cons.mp member with rfl | inRest
        · exact Nat.lt_of_not_le later
        · exact (Nat.lt_of_not_le later).trans (below x inRest)
      have absent : position ∉ seam :: rest := fun member => Nat.lt_irrefl _ (all _ member)
      rw [List.filter_eq_self.mpr fun x member => by simpa using all x member]
      simp [absent]

section Slices

variable {marks : Marks} {first last : Nat} {start : Nat} {bytes : Bytes}

/-- What a visit leaves of a slice. -/
structure Visited (marks : Marks) (stop limit : Nat) (scan : Scan) (pieces : List Piece)
    (next : Scan) : Prop where
  position : scan.position ≤ next.position
  limit : limit ≤ next.position
  marked : pieces.flatMap Piece.trace = marks.between scan.position next.position
  joins : JoinsAt (marks.isSeam · = true) stop pieces
  nonempty : ∀ piece ∈ pieces, piece.bytes ≠ []
  fits : next.Fits marks (endOf stop pieces)

/-- What a slice has to do with the marks. -/
structure Slice (marks : Marks) (unknown : Nat × Nat) (start : Nat) (bytes : Bytes) : Prop where
  holds : ∀ i, i < bytes.length → bytes.getD i 0 = marks.byteAt (start + i)
  visible : ∀ x, start ≤ x → x < start + bytes.length →
    marks.visible x = !decide (unknown.1 ≤ x ∧ x < unknown.2)
  /-- Nothing of the span is visited. -/
  hidden : ∀ x, unknown.1 ≤ x → x < unknown.2 → marks.visible x = false
  /-- The span starts at a seam. -/
  seam : unknown.1 < unknown.2 → marks.isSeam unknown.1 = true

theorem stopAt_le_stop (seams : List Nat) (stop : Nat) : stopAt seams stop ≤ stop := by
  rw [stopAt]
  cases seams.head? with
  | none => exact Nat.le_refl _
  | some seam => exact Nat.min_le_right _ _

theorem stopAt_le_seam (sorted : seams.Pairwise (· < ·)) {x : Nat} (member : x ∈ seams)
    (stop : Nat) : stopAt seams stop ≤ x := by
  cases seams with
  | nil => cases member
  | cons seam rest =>
    have le : seam ≤ x := by
      rcases List.mem_cons.mp member with rfl | later
      · exact Nat.le_refl _
      · exact ((List.pairwise_cons.mp sorted).1 x later).le
    exact (Nat.min_le_left seam stop).trans le

variable {scan : Scan}

theorem visitSlice_spec {unknown : Nat × Nat} (slice : Slice marks unknown start bytes)
    (fits : scan.Fits marks stop) (inside : start ≤ scan.position) :
    Visited marks stop (start + bytes.length) scan (visitSlice unknown start bytes scan).1
      (visitSlice unknown start bytes scan).2 := by
  induction scan using visitSlice.induct unknown start bytes
    generalizing stop with
  | case1 scan within known ih =>
    rw [visitSlice, dif_pos within, dif_pos known]
    have later : scan.position < unknown.2 := known.2
    have moved : ({ scan with position := unknown.2, joined := false } : Scan).Fits marks stop := by
      have hidden := slice.hidden (unknown.2 - 1) (by omega) (by omega)
      refine ⟨fits.cursor.trans later.le, fits.ended.trans later.le, ?_, ?_, fits.sorted, ?_⟩
      · simp only
        refine ⟨fun joined => (by cases joined), fun same => ?_⟩
        have before := fits.ended
        omega
      · simp only
        have cursor := fits.cursor
        rw [hidden, Bool.or_false, eq_comm, beq_eq_false_iff_ne]
        omega
      · intro x after
        exact fits.seams x (later.le.trans after)
    have rest := ih moved (inside.trans later.le)
    refine ⟨later.le.trans rest.position, rest.limit, ?_, rest.joins, rest.nonempty, rest.fits⟩
    rw [rest.marked, ← marks.between_append later.le rest.position]
    simp only
    rw [marks.between_invisible fun x from_ below => slice.hidden x (by omega) below,
      List.nil_append]
  | case2 scan within notKnown passed stopped =>
    rename_i ih
    rw [visitSlice, dif_pos within, dif_neg notKnown]
    have isPassed : passed = (scan.joined && decide (scan.position ∉ scan.seams),
      scan.seams.filter (scan.position < ·)) := passSeams_eq fits.sorted
    have later : scan.position < stopped := lt_stopAt within scan.joined scan.seams
    have limit : stopped ≤ start + bytes.length := stopAt_le_stop passed.2 _
    have stops : ∀ x ∈ passed.2, stopped ≤ x := fun x member =>
      stopAt_le_seam (isPassed ▸ fits.sorted.filter _) member _
    change Visited marks stop (start + bytes.length) scan (⟨scan.position,
      (bytes.drop (scan.position - start)).take (stopped - scan.position), passed.1⟩ ::
        (visitSlice unknown start bytes ⟨stopped, true, passed.2⟩).1)
          (visitSlice unknown start bytes ⟨stopped, true, passed.2⟩).2
    clear_value stopped
    have sorted : passed.2.Pairwise (· < ·) := by
      rw [isPassed]
      exact fits.sorted.filter _
    have noSeam : ∀ x, scan.position < x → x < stopped →
        marks.isSeam x = false := by
      intro x after below
      rw [← Bool.not_eq_true]
      intro isSeam
      have member : x ∈ passed.2 := by
        rw [isPassed, List.mem_filter]
        exact ⟨(fits.seams x after.le).mpr isSeam, by simpa using after⟩
      have stop_ := stops x member
      omega
    have visible : ∀ x, scan.position ≤ x → x < stopped →
        marks.visible x = true := by
      intro x after below
      rw [slice.visible x (inside.trans after) (by omega), Bool.not_eq_true',
        decide_eq_false_iff_not]
      rintro ⟨low, high⟩
      by_cases started : unknown.1 ≤ scan.position
      · exact notKnown ⟨started, by omega⟩
      · have isSeam := slice.seam (by omega)
        rw [noSeam unknown.1 (by omega) (by omega)] at isSeam
        cases isSeam
    have length : ((bytes.drop (scan.position - start)).take
        (stopped - scan.position)).length =
          stopped - scan.position := by
      rw [List.length_take, List.length_drop]
      omega
    have ended : scan.position + (stopped - scan.position) = stopped := by omega
    have moved : (⟨stopped, true, passed.2⟩ : Scan).Fits marks stopped := by
      refine ⟨fits.cursor.trans later.le, Nat.le_refl _, by simp, ?_, sorted, ?_⟩
      · simp only
        rw [visible (stopped - 1) (by omega) (by omega), Bool.or_true]
      · intro x after
        simp only at after ⊢
        rw [isPassed, List.mem_filter, ← fits.seams x (later.le.trans after)]
        have isLater : scan.position < x := Nat.lt_of_lt_of_le later after
        simp [isLater]
    have rest := ih moved (inside.trans later.le)
    have joinedHere : marks.isJoined scan.position = passed.1 := by
      rw [Marks.isJoined, ← fits.before, isPassed, Bool.and_comm]
      congr 1
      have same := fits.seams scan.position (Nat.le_refl _)
      cases isSeam : marks.isSeam scan.position with
      | true => simp [same.mpr isSeam]
      | false =>
        rw [isSeam] at same
        simp [same]
    refine ⟨later.le.trans rest.position, rest.limit, ?_, ?_, ?_, ?_⟩
    · rw [List.flatMap_cons, rest.marked, ← marks.between_append later.le rest.position]
      congr 1
      rw [Piece.trace, trace_eq _ marks.isJoined (fun _ => joinedHere)]
      · rw [length, Marks.between, List.filter_eq_self.mpr]
        intro x member
        rw [List.mem_range'_1] at member
        exact visible x member.1 (by omega)
      · intro x after below
        simp only at after below
        rw [length, ended] at below
        rw [Marks.isJoined, noSeam x after below, visible (x - 1) (by omega) (by omega),
          Bool.or_true]
        rfl
      intro i below
      simp only at below ⊢
      rw [length] at below
      have byte := slice.holds (scan.position - start + i) (by omega)
      rw [List.getD_eq_getElem?_getD, List.getElem?_take_of_lt below, List.getElem?_drop,
        ← List.getD_eq_getElem?_getD, byte]
      congr 1
      omega
    · refine ⟨fits.ended, ?_, ?_⟩
      · simp only
        rw [← joinedHere, Marks.isJoined, ← fits.before, Bool.and_eq_false_iff]
        have skipped : scan.joined = false ↔ ∃ x, stop ≤ x ∧ x < scan.position := by
          rw [← Bool.not_eq_true, fits.joined]
          refine ⟨fun different => ⟨stop, Nat.le_refl _, ?_⟩, ?_⟩
          · exact Nat.lt_of_le_of_ne fits.ended different
          · rintro ⟨x, from_, below⟩ same
            omega
        rw [skipped]
        simp
      · simp only
        rw [length, ended]
        exact rest.joins
    · intro piece member
      rcases List.mem_cons.mp member with rfl | inRest
      · intro empty
        simp only at empty
        rw [empty, List.length_nil] at length
        omega
      · exact rest.nonempty piece inRest
    · rw [endOf_cons]
      simp only
      rw [length, ended]
      exact rest.fits
  | case3 scan outside =>
    rw [visitSlice, dif_neg outside]
    refine ⟨Nat.le_refl _, Nat.le_of_not_lt outside, ?_, trivial, fun piece member => ?_, fits⟩
    · rw [marks.between_invisible fun x from_ below => absurd (Nat.lt_of_le_of_lt from_ below)
        (Nat.lt_irrefl _)]
      rfl
    · cases member

/-- A slice of a visit, after what is before it. -/
theorem visitPart_spec {unknown : Nat × Nat} (slice : Slice marks unknown start bytes)
    (fits : scan.Fits marks stop)
    (gap : ∀ x, scan.position ≤ x → x < start → marks.visible x = false) :
    Visited marks stop (start + bytes.length) scan (visitPart unknown start bytes scan).1
      (visitPart unknown start bytes scan).2 := by
  rw [visitPart]
  split
  next passed =>
    refine ⟨Nat.le_refl _, passed, ?_, trivial, fun piece member => ?_, fits⟩
    · rw [marks.between_invisible fun x from_ below => absurd (Nat.lt_of_le_of_lt from_ below)
        (Nat.lt_irrefl _)]
      rfl
    · cases member
  · split
    next before =>
      have moved : ({ scan with position := start, joined := false } : Scan).Fits marks stop := by
        have hidden := gap (start - 1) (by omega) (by omega)
        have cursor := fits.cursor
        have ended := fits.ended
        refine ⟨cursor.trans before.le, ended.trans before.le, ?_, ?_, fits.sorted, ?_⟩
        · simp only
          exact ⟨fun joined => (by cases joined), fun same => absurd same (by omega)⟩
        · simp only
          rw [hidden, Bool.or_false, eq_comm, beq_eq_false_iff_ne]
          omega
        · intro x after
          exact fits.seams x (before.le.trans after)
      have rest := visitSlice_spec slice moved (Nat.le_refl start)
      refine ⟨before.le.trans rest.position, rest.limit, ?_, rest.joins, rest.nonempty, rest.fits⟩
      rw [rest.marked, ← marks.between_append before.le rest.position, marks.between_invisible gap,
        List.nil_append]
    next after => exact visitSlice_spec slice fits (Nat.le_of_not_lt after)

theorem Visited.append {limit other : Nat} {middle next : Scan} {before after : List Piece}
    (first : Visited marks stop limit scan before middle)
    (second : Visited marks (endOf stop before) other middle after next) :
    Visited marks stop other scan (before ++ after) next := by
  refine ⟨first.position.trans second.position, second.limit, ?_, first.joins.append second.joins,
    ?_, ?_⟩
  · rw [List.flatMap_append, first.marked, second.marked,
      marks.between_append first.position second.position]
  · intro piece member
    rcases List.mem_append.mp member with inBefore | inAfter
    · exact first.nonempty piece inBefore
    · exact second.nonempty piece inAfter
  have ended : endOf stop (before ++ after) = endOf (endOf stop before) after := by
    rw [endOf, endOf, List.getLast?_append]
    cases after.getLast? with
    | none => rfl
    | some piece => rfl
  rw [ended]
  exact second.fits

/-- The slices of a stream and the marks of a visit. -/
structure RetainedStream.Shows (stream : RetainedStream) (marks : Marks) : Prop where
  head : Slice marks stream.unknown 0 stream.head
  front : Slice marks stream.unknown stream.tailStart stream.tail.1
  back : Slice marks stream.unknown (stream.tailStart + stream.tail.1.length) stream.tail.2
  gap : ∀ x, stream.head.length ≤ x → x < stream.tailStart → marks.visible x = false
  outside : ∀ x, stream.total ≤ x → marks.visible x = false
  sorted : (stream.seamsFrom marks.cursor).Pairwise (· < ·)
  seams : ∀ x, marks.cursor ≤ x →
    (x ∈ stream.seamsFrom marks.cursor ↔ marks.isSeam x = true)

/-- What a visit shows. -/
theorem RetainedStream.visitSince_spec {stream : RetainedStream} (shows : stream.Shows marks) :
    (stream.visitSince marks.cursor).1.flatMap Piece.trace =
        marks.between marks.cursor stream.total ∧
      JoinsAt (marks.isSeam · = true) marks.cursor (stream.visitSince marks.cursor).1 ∧
      ∀ piece ∈ (stream.visitSince marks.cursor).1, piece.bytes ≠ [] := by
  have start : (⟨marks.cursor, true, stream.seamsFrom marks.cursor⟩ : Scan).Fits marks
      marks.cursor := by
    refine ⟨Nat.le_refl _, Nat.le_refl _, by simp, ?_, shows.sorted, shows.seams⟩
    simp
  have head := visitPart_spec shows.head start fun x _ below => absurd below (Nat.not_lt_zero x)
  have front := visitPart_spec shows.front head.fits fun x after below =>
    shows.gap x (by have limit := head.limit; omega) below
  have both := head.append front
  have back := visitPart_spec shows.back both.fits fun x after below => absurd after (by
    have limit := front.limit
    omega)
  have all := both.append back
  refine ⟨?_, all.joins, all.nonempty⟩
  refine Eq.trans all.marked ?_
  simp only
  have limit := all.limit
  have position := all.position
  simp only at position
  change stream.total ≤ _ at limit
  rcases Nat.le_total marks.cursor stream.total with inside | outside
  · rw [← marks.between_append inside limit, marks.between_invisible fun x after _ =>
      shows.outside x after, List.append_nil]
  · rw [marks.between_invisible fun x after _ => shows.outside x (outside.trans after),
      Marks.between, Nat.sub_eq_zero_of_le outside]
    rfl

end Slices

end Codex.UnifiedExec
