import Codex.UnifiedExec.RetainedStream

/-!
# Cursor reads over a history

What cursor reads of `core/src/unified_exec/head_tail_buffer.rs` report after any pushes and lags of
an undrained buffer.
-/

namespace Codex.UnifiedExec

/-! ## Histories -/

/-- A call on a cumulative stream. -/
inductive StreamOp where
  | push (chunk : Bytes)
  | lag (skipped : Nat)
  deriving DecidableEq, Repr

def Buffer.streamed (buffer : Buffer) : StreamOp → Buffer
  | .push chunk => buffer.pushChunk chunk
  | .lag skipped => buffer.recordLaggedChunks skipped

/-- The bytes of the producer, and the coordinates at which lags were recorded. -/
structure Produced where
  bytes : Bytes
  lags : List Nat
  deriving DecidableEq, Repr

def Produced.streamed (produced : Produced) : StreamOp → Produced
  | .push chunk => { produced with bytes := produced.bytes ++ chunk }
  | .lag skipped =>
      if 0 < skipped then { produced with lags := produced.lags ++ [produced.bytes.length] }
      else produced

/-- The buffer after a history. -/
def Buffer.after (headBudget tailBudget : Nat) (ops : List StreamOp) : Buffer :=
  ops.foldl Buffer.streamed (Buffer.fresh headBudget tailBudget)

def Produced.after (ops : List StreamOp) : Produced := ops.foldl Produced.streamed ⟨[], []⟩

/-- What holds of the seams of a buffer after a history. -/
structure Tracks (headBudget tailBudget : Nat) (produced : Produced) (buffer : Buffer) : Prop where
  holds : buffer.Holds headBudget tailBudget produced.bytes
  sorted : buffer.lagSeams.Pairwise (· < ·)
  recorded : ∀ x ∈ buffer.lagSeams, x ∈ produced.lags
  below : ∀ x ∈ produced.lags, x ≤ produced.bytes.length
  span : ∀ first last, buffer.lagOverflow = some (first, last) → first ≤ last ∧
    first ∈ produced.lags ∧ last ∈ produced.lags ∧ (∀ x ∈ buffer.lagSeams, x < first) ∧
      ∀ x ∈ produced.lags, x ≤ last
  /-- A lag is a seam, or in the span of the overflow, or in the omitted middle. -/
  found : ∀ x ∈ produced.lags, x ∈ buffer.lagSeams ∨
    (∃ first last, buffer.lagOverflow = some (first, last) ∧ first ≤ x ∧ x ≤ last) ∨
      (buffer.head.length ≤ x ∧ x < buffer.tailStart)

section Tracks

variable {headBudget tailBudget : Nat} {produced : Produced} {buffer : Buffer} {bytes : Bytes}

theorem Buffer.Holds.head_length (holds : buffer.Holds headBudget tailBudget bytes) :
    buffer.head.length = min headBudget bytes.length := by
  rw [holds.head, List.length_take]

theorem Buffer.Holds.tail_length (holds : buffer.Holds headBudget tailBudget bytes) :
    buffer.tail.length = min (bytes.length - headBudget) tailBudget := by
  rw [holds.tail, length_rtake, List.length_drop]

/-- The coordinate after the last byte. -/
theorem Buffer.Holds.total (holds : buffer.Holds headBudget tailBudget bytes) :
    buffer.retainedBytes + buffer.omittedBytes = bytes.length := by
  rw [Buffer.retainedBytes, holds.head_length, holds.tail_length, holds.omitted]
  omega

/-- The last bytes are in the tail, from its start on. -/
theorem Buffer.Holds.tail_eq (holds : buffer.Holds headBudget tailBudget bytes) :
    buffer.tail = bytes.drop buffer.tailStart := by
  rw [holds.tail, List.rtake, List.drop_drop, List.length_drop, Buffer.tailStart,
    holds.head_length, holds.omitted]
  by_cases short : bytes.length ≤ headBudget
  · rw [List.drop_eq_nil_of_le (by omega), List.drop_eq_nil_of_le (by omega)]
  · congr 1
    omega

theorem Tracks.start : Tracks headBudget tailBudget ⟨[], []⟩ (Buffer.fresh headBudget tailBudget) where
  holds := by
    have start : Buffer.fresh headBudget tailBudget = Buffer.holding headBudget tailBudget [] := by
      simp [Buffer.holding, Buffer.fresh]
    rw [start]
    exact Buffer.holds_holding []
  sorted := List.Pairwise.nil
  recorded x member := by cases member
  below x member := by cases member
  span first last found := by cases found
  found x member := by cases member

theorem Tracks.push (tracks : Tracks headBudget tailBudget produced buffer) (chunk : Bytes) :
    Tracks headBudget tailBudget { produced with bytes := produced.bytes ++ chunk }
      (buffer.pushChunk chunk) := by
  have holds := tracks.holds
  have pushed := holds.pushChunk_eq chunk
  have next : (buffer.pushChunk chunk).Holds headBudget tailBudget (produced.bytes ++ chunk) := by
    rw [pushed]
    exact ⟨holds.maxBytes, holds.ofHead, holds.ofTail, rfl, rfl, rfl⟩
  have seams : (buffer.pushChunk chunk).lagSeams = buffer.lagSeams := by rw [pushed]
  have overflow : (buffer.pushChunk chunk).lagOverflow = buffer.lagOverflow := by rw [pushed]
  refine ⟨next, ?_, ?_, ?_, ?_, ?_⟩
  · rw [seams]
    exact tracks.sorted
  · rw [seams]
    exact tracks.recorded
  · intro x member
    simp only
    rw [List.length_append]
    exact (tracks.below x member).trans (Nat.le_add_right _ _)
  · rw [seams, overflow]
    exact tracks.span
  intro x member
  rw [seams, overflow]
  rcases tracks.found x member with seam | span | ⟨after, before⟩
  · exact .inl seam
  · exact .inr (.inl span)
  refine .inr (.inr ?_)
  -- the head does not grow any more, and the middle does
  rw [Buffer.tailStart] at before ⊢
  rw [holds.head_length, holds.omitted] at before
  rw [holds.head_length] at after
  rw [next.head_length, next.omitted, List.length_append]
  omega

theorem getLast?_of_sorted {seams : List Nat} (sorted : seams.Pairwise (· < ·)) {position : Nat}
    (bound : ∀ x ∈ seams, x ≤ position) (other : seams.getLast? ≠ some position) :
    ∀ x ∈ seams, x < position := by
  intro x member
  refine Nat.lt_of_le_of_ne (bound x member) ?_
  rintro rfl
  obtain ⟨before, after, rfl⟩ := List.append_of_mem member
  cases after with
  | nil => exact other (by rw [List.getLast?_append]; rfl)
  | cons next after =>
    rw [List.pairwise_append] at sorted
    have less := (List.pairwise_cons.mp sorted.2.1).1 next List.mem_cons_self
    have le := bound next (by simp)
    omega

/-- The seams and the span that a lag looks at: those outside the omitted middle. -/
def Buffer.seamsOutside (buffer : Buffer) : List Nat :=
  buffer.lagSeams.filter fun seam => seam < buffer.head.length || buffer.tailStart ≤ seam

def Buffer.overflowOutside (buffer : Buffer) : Option (Nat × Nat) :=
  buffer.lagOverflow.filter fun span =>
    !(buffer.head.length ≤ span.1 && span.2 < buffer.tailStart)

/-- A lag is noted as a seam or by the span, which then ends at it and starts where the span
    before did or at the lag itself. -/
theorem lagSeamsAfter_spec {position : Nat} (sorted : buffer.seamsOutside.Pairwise (· < ·))
    (bound : ∀ x ∈ buffer.seamsOutside, x ≤ position) :
    (buffer.lagSeamsAfter position).1.Pairwise (· < ·) ∧
      (∀ x ∈ buffer.seamsOutside, x ∈ (buffer.lagSeamsAfter position).1) ∧
      (∀ x ∈ (buffer.lagSeamsAfter position).1, x ∈ buffer.seamsOutside ∨ x = position) ∧
      (∀ span, buffer.overflowOutside = some span →
        (buffer.lagSeamsAfter position).2 = some (span.1, position)) ∧
      (position ∈ (buffer.lagSeamsAfter position).1 ∨
        ∃ first, (buffer.lagSeamsAfter position).2 = some (first, position)) ∧
      ∀ first last, (buffer.lagSeamsAfter position).2 = some (first, last) →
        last = position ∧ (buffer.lagSeamsAfter position).1 = buffer.seamsOutside ∧
          ((∃ before, buffer.overflowOutside = some (first, before)) ∨
            first = position ∧ ∀ x ∈ buffer.seamsOutside, x < position) := by
  rw [Buffer.lagSeamsAfter, ← Buffer.seamsOutside, ← Buffer.overflowOutside]
  cases buffer.overflowOutside with
  | some span =>
    refine ⟨sorted, fun _ => id, fun _ => .inl, ?_, .inr ⟨span.1, rfl⟩, ?_⟩
    · rintro _ ⟨⟩
      rfl
    · rintro first last ⟨⟩
      exact ⟨rfl, rfl, .inl ⟨span.2, rfl⟩⟩
  | none =>
    dsimp only
    by_cases known : buffer.seamsOutside.getLast? = some position
    · rw [if_pos known]
      refine ⟨sorted, fun _ => id, fun _ => .inl, ?_, .inl (List.mem_of_getLast? known), ?_⟩
      · rintro _ ⟨⟩
      · rintro _ _ ⟨⟩
    have less := getLast?_of_sorted sorted bound known
    rw [if_neg known]
    by_cases room : buffer.seamsOutside.length < MAX_LAG_SEAMS
    · rw [if_pos room]
      refine ⟨?_, fun _ => List.mem_append_left _, ?_, ?_, .inl (by simp), ?_⟩
      · rw [List.pairwise_append]
        refine ⟨sorted, List.pairwise_singleton _ _, fun x member other isNow => ?_⟩
        rw [List.mem_singleton.mp isNow]
        exact less x member
      · simp
      · rintro _ ⟨⟩
      · rintro _ _ ⟨⟩
    · rw [if_neg room]
      refine ⟨sorted, fun _ => id, fun _ => .inl, ?_, .inr ⟨position, rfl⟩, ?_⟩
      · rintro _ ⟨⟩
      · rintro first last ⟨⟩
        exact ⟨rfl, rfl, .inr ⟨rfl, less⟩⟩

/-- A lag that was recorded before is still a seam outside the middle, or in the span, or in the
    middle. -/
theorem Tracks.stays (tracks : Tracks headBudget tailBudget produced buffer) {x : Nat}
    (member : x ∈ produced.lags) : x ∈ buffer.seamsOutside ∨
      (∃ first last, buffer.overflowOutside = some (first, last) ∧ first ≤ x ∧ x ≤ last) ∨
        (buffer.head.length ≤ x ∧ x < buffer.tailStart) := by
  rcases tracks.found x member with seam | ⟨first, last, found, low, high⟩ | middle
  · by_cases inMiddle : buffer.head.length ≤ x ∧ x < buffer.tailStart
    · exact .inr (.inr inMiddle)
    left
    rw [Buffer.seamsOutside, List.mem_filter]
    refine ⟨seam, ?_⟩
    simp only [Bool.or_eq_true, decide_eq_true_eq]
    omega
  · by_cases inMiddle : buffer.head.length ≤ first ∧ last < buffer.tailStart
    · exact .inr (.inr ⟨inMiddle.1.trans low, Nat.lt_of_le_of_lt high inMiddle.2⟩)
    refine .inr (.inl ⟨first, last, ?_, low, high⟩)
    rw [Buffer.overflowOutside, found, Option.filter_some, if_pos]
    simp only [Bool.not_eq_true', Bool.and_eq_false_iff, decide_eq_false_iff_not]
    omega
  · exact .inr (.inr middle)

theorem Tracks.lag (tracks : Tracks headBudget tailBudget produced buffer) {skipped : Nat}
    (positive : 0 < skipped) : Tracks headBudget tailBudget
      { produced with lags := produced.lags ++ [produced.bytes.length] }
      (buffer.recordLaggedChunks skipped) := by
  have holds := tracks.holds
  have seam_of : ∀ x ∈ buffer.seamsOutside, x ∈ buffer.lagSeams := fun x => List.mem_of_mem_filter
  have old_le : ∀ x ∈ produced.lags ++ [produced.bytes.length], x ≤ produced.bytes.length := by
    intro x member
    rcases List.mem_append.mp member with old | now
    · exact tracks.below x old
    · exact (List.mem_singleton.mp now).le
  have lag_mem : ∀ {x : Nat}, x ∈ produced.lags → x ∈ produced.lags ++ [produced.bytes.length] :=
    fun member => List.mem_append_left _ member
  have now_mem : produced.bytes.length ∈ produced.lags ++ [produced.bytes.length] :=
    List.mem_append_right _ (List.mem_singleton_self _)
  obtain ⟨sorted, stay, noted, extended, now, spans⟩ :=
    lagSeamsAfter_spec (tracks.sorted.filter _) fun x member =>
      tracks.below x (tracks.recorded x (seam_of x member))
  rw [Buffer.recordLaggedChunks, if_pos positive, holds.total]
  refine ⟨⟨holds.maxBytes, holds.ofHead, holds.ofTail, holds.head, holds.tail, holds.omitted⟩,
    sorted, ?_, old_le, ?_, ?_⟩
  · intro x member
    rcases noted x member with seam | rfl
    · exact lag_mem (tracks.recorded x (seam_of x seam))
    · exact now_mem
  · intro first last found
    obtain ⟨rfl, same, ⟨before, spanned⟩ | ⟨rfl, less⟩⟩ := spans first last found
    · obtain ⟨_, firstIn, _, above, _⟩ :=
        tracks.span first before (Option.filter_eq_some_iff.mp spanned).1
      refine ⟨tracks.below first firstIn, lag_mem firstIn, now_mem, ?_, old_le⟩
      intro x member
      exact above x (seam_of x (same ▸ member))
    · exact ⟨le_rfl, now_mem, now_mem, fun x member => less x (same ▸ member), old_le⟩
  intro x member
  rcases List.mem_append.mp member with old | isNow
  · rcases tracks.stays old with seam | ⟨first, last, spanned, low, _⟩ | inMiddle
    · exact .inl (stay x seam)
    · exact .inr (.inl ⟨first, _, extended _ spanned, low, tracks.below x old⟩)
    · exact .inr (.inr inMiddle)
  obtain rfl := List.mem_singleton.mp isNow
  rcases now with seam | ⟨first, spanned⟩
  · exact .inl seam
  · refine .inr (.inl ⟨first, _, spanned, ?_, le_rfl⟩)
    obtain ⟨-, -, ⟨before, old⟩ | ⟨rfl, -⟩⟩ := spans first _ spanned
    · exact tracks.below first (tracks.span first before (Option.filter_eq_some_iff.mp old).1).2.1
    · exact le_rfl

/-- What holds of the seams after any history. -/
theorem tracks_after (headBudget tailBudget : Nat) (ops : List StreamOp) :
    Tracks headBudget tailBudget (Produced.after ops) (Buffer.after headBudget tailBudget ops) := by
  induction ops using List.reverseRecOn with
  | nil => exact .start
  | append_singleton ops op ih =>
    rw [Produced.after, Buffer.after, List.foldl_append, List.foldl_append]
    change Tracks headBudget tailBudget ((Produced.after ops).streamed op)
      ((Buffer.after headBudget tailBudget ops).streamed op)
    cases op with
    | push chunk => exact ih.push chunk
    | lag skipped =>
      rw [Produced.streamed, Buffer.streamed]
      split
      next positive => exact ih.lag positive
      next none_ =>
        obtain rfl : skipped = 0 := by omega
        exact ih

end Tracks

/-! ## Marks of a buffer -/

/-- Whether the byte at a coordinate is retained. -/
def Buffer.isRetained (buffer : Buffer) (x : Nat) : Bool :=
  decide (x < buffer.head.length) ||
    (decide (buffer.tailStart ≤ x) && decide (x < buffer.retainedBytes + buffer.omittedBytes))

/-- Whether a coordinate is inside the span of the overflowed seams. -/
def Buffer.inSpan (buffer : Buffer) (x : Nat) : Bool :=
  buffer.lagOverflow.any fun span => decide (span.1 ≤ x) && decide (x < span.2)

def Buffer.marks (buffer : Buffer) (bytes : Bytes) (cursor : Nat) : Marks where
  cursor
  byteAt x := bytes.getD x 0
  visible x := buffer.isRetained x && !buffer.inSpan x
  isSeam x := buffer.lagSeams.contains x || buffer.lagOverflow.any fun span => span.1 == x

theorem mem_dropWhile_of_sorted {seams : List Nat} (sorted : seams.Pairwise (· < ·))
    {cursor x : Nat} : x ∈ seams.dropWhile (· < cursor) ↔ x ∈ seams ∧ cursor ≤ x := by
  induction seams with
  | nil => simp
  | cons seam rest ih =>
    obtain ⟨above, others⟩ := List.pairwise_cons.mp sorted
    by_cases passed : seam < cursor
    · rw [List.dropWhile_cons_of_pos (by simpa using passed), ih others, List.mem_cons]
      refine ⟨fun both => ⟨.inr both.1, both.2⟩, ?_⟩
      rintro ⟨rfl | member, later⟩
      · omega
      · exact ⟨member, later⟩
    rw [List.dropWhile_cons_of_neg (by simpa using passed), List.mem_cons]
    refine ⟨fun member => ⟨member, ?_⟩, And.left⟩
    rcases member with rfl | member
    · omega
    · have less := above x member
      omega

section Marks

variable {headBudget tailBudget : Nat} {produced : Produced} {buffer : Buffer}

theorem Tracks.visible_iff (tracks : Tracks headBudget tailBudget produced buffer)
    (cursor x : Nat) : (buffer.marks produced.bytes cursor).visible x = true ↔
      (x < buffer.head.length ∨ (buffer.tailStart ≤ x ∧ x < produced.bytes.length)) ∧
        buffer.inSpan x = false := by
  have total := tracks.holds.total
  simp only [Buffer.marks, Buffer.isRetained, total, Bool.and_eq_true, Bool.or_eq_true,
    decide_eq_true_eq, Bool.not_eq_true']

theorem inSpan_eq (buffer : Buffer) (cut x : Nat) : buffer.inSpan x =
    decide ((buffer.retainedStream cut).unknown.1 ≤ x ∧
      x < (buffer.retainedStream cut).unknown.2) := by
  rw [Buffer.inSpan, RetainedStream.unknown, Buffer.retainedStream]
  cases buffer.lagOverflow with
  | none => simp
  | some span => simp [Bool.decide_and]

theorem Tracks.slice (tracks : Tracks headBudget tailBudget produced buffer) (cut cursor : Nat)
    {start : Nat} {bytes : Bytes}
    (holds : ∀ i, i < bytes.length → bytes.getD i 0 = produced.bytes.getD (start + i) 0)
    (retained : ∀ x, start ≤ x → x < start + bytes.length →
      x < buffer.head.length ∨ (buffer.tailStart ≤ x ∧ x < produced.bytes.length)) :
    Slice (buffer.marks produced.bytes cursor) (buffer.retainedStream cut).unknown start bytes := by
  refine ⟨holds, ?_, ?_, ?_⟩
  · intro x after before
    rw [Bool.eq_iff_iff, tracks.visible_iff, ← inSpan_eq, Bool.not_eq_true']
    exact ⟨And.right, fun outside => ⟨retained x after before, outside⟩⟩
  · intro x low high
    rw [← Bool.not_eq_true, tracks.visible_iff, inSpan_eq buffer cut x,
      decide_eq_true (⟨low, high⟩ : _ ∧ _)]
    rintro ⟨_, outside⟩
    cases outside
  intro less
  rw [Buffer.marks]
  simp only
  rw [RetainedStream.unknown, Buffer.retainedStream] at less ⊢
  simp only at less ⊢
  cases overflow : buffer.lagOverflow with
  | none =>
    rw [overflow] at less
    cases less
  | some span => simp

/-- The slices of the buffer show its marks. -/
theorem Tracks.shows (tracks : Tracks headBudget tailBudget produced buffer) (cut cursor : Nat) :
    (buffer.retainedStream cut).Shows (buffer.marks produced.bytes cursor) := by
  have holds := tracks.holds
  have headLength := holds.head_length
  have tail := holds.tail_eq
  have total : (buffer.retainedStream cut).total = produced.bytes.length := by
    rw [← holds.total, RetainedStream.total, RetainedStream.tailStart, Buffer.retainedStream,
      Buffer.retainedBytes]
    simp only
    rw [List.length_take, List.length_drop]
    omega
  have tailEnd : buffer.tailStart + buffer.tail.length = produced.bytes.length := by
    rw [← holds.total, Buffer.tailStart, Buffer.retainedBytes]
    omega
  have front : (buffer.tail.take cut).length = min cut buffer.tail.length := List.length_take
  have inTail : ∀ i, i < buffer.tail.length →
      buffer.tail.getD i 0 = produced.bytes.getD (buffer.tailStart + i) 0 := by
    intro i inside
    rw [List.getD_eq_getElem?_getD, tail, List.getElem?_drop, ← List.getD_eq_getElem?_getD]
  refine ⟨tracks.slice cut cursor ?_ ?_, tracks.slice cut cursor ?_ ?_,
    tracks.slice cut cursor ?_ ?_, ?_, ?_, ?_, ?_⟩
  · intro i inside
    change i < buffer.head.length at inside
    change buffer.head.getD i 0 = _
    rw [headLength] at inside
    rw [Nat.zero_add, List.getD_eq_getElem?_getD, holds.head,
      List.getElem?_take_of_lt (by omega), ← List.getD_eq_getElem?_getD]
  · intro x _ below
    rw [Nat.zero_add] at below
    exact .inl below
  · intro i inside
    change i < (buffer.tail.take cut).length at inside
    change (buffer.tail.take cut).getD i 0 = _
    rw [front] at inside
    rw [List.getD_eq_getElem?_getD, List.getElem?_take_of_lt (by omega),
      ← List.getD_eq_getElem?_getD]
    exact inTail i (by omega)
  · intro x after below
    change x < buffer.tailStart + (buffer.tail.take cut).length at below
    rw [front] at below
    exact .inr ⟨after, by omega⟩
  · intro i inside
    change i < (buffer.tail.drop cut).length at inside
    change (buffer.tail.drop cut).getD i 0 =
      produced.bytes.getD (buffer.tailStart + (buffer.tail.take cut).length + i) 0
    rw [List.length_drop] at inside
    rw [List.getD_eq_getElem?_getD, List.getElem?_drop, ← List.getD_eq_getElem?_getD,
      inTail _ (by omega), front]
    congr 1
    omega
  · intro x after below
    change buffer.tailStart + (buffer.tail.take cut).length ≤ x at after
    change x < buffer.tailStart + (buffer.tail.take cut).length +
      (buffer.tail.drop cut).length at below
    rw [front, List.length_drop] at below
    exact .inr ⟨by omega, by omega⟩
  · intro x after below
    change buffer.head.length ≤ x at after
    change x < buffer.tailStart at below
    rw [← Bool.not_eq_true, tracks.visible_iff]
    rintro ⟨inHead | inTail_, _⟩
    · omega
    · omega
  · intro x after
    rw [total] at after
    rw [← Bool.not_eq_true, tracks.visible_iff]
    rintro ⟨inHead | inTail_, _⟩
    · omega
    · omega
  · change (buffer.lagSeams.dropWhile (· < cursor) ++
      (buffer.lagOverflow.map Prod.fst).toList).Pairwise (· < ·)
    rw [List.pairwise_append]
    refine ⟨tracks.sorted.sublist (List.dropWhile_sublist _), ?_, ?_⟩
    · cases buffer.lagOverflow with
      | none => exact List.Pairwise.nil
      | some span => exact List.pairwise_singleton _ _
    intro x member first isFirst
    cases overflow : buffer.lagOverflow with
    | none =>
      rw [overflow] at isFirst
      cases isFirst
    | some span =>
      rw [overflow] at isFirst
      obtain rfl := List.mem_singleton.mp isFirst
      exact (tracks.span span.1 span.2 overflow).2.2.2.1 x
        ((mem_dropWhile_of_sorted tracks.sorted).mp member).1
  · intro x after
    change x ∈ buffer.lagSeams.dropWhile (· < cursor) ++
      (buffer.lagOverflow.map Prod.fst).toList ↔ _
    change cursor ≤ x at after
    rw [List.mem_append, mem_dropWhile_of_sorted tracks.sorted, Buffer.marks]
    simp only [after, and_true, Bool.or_eq_true, List.contains_iff_mem]
    refine or_congr_right ?_
    cases buffer.lagOverflow with
    | none => simp
    | some span =>
      simp only [Option.map_some, Option.toList_some, List.mem_singleton, Option.any_some,
        beq_iff_eq]
      exact eq_comm

end Marks

/-! ## Reads -/

/-- The pieces of a visit are the retained bytes from the cursor on, but those in the span of
    overflowed seams, in order and at their coordinates. A piece is parted from what is before it
    exactly when bytes were skipped or a lag was recorded, and no lag is inside a piece. -/
structure TrueVisit (produced : Produced) (buffer : Buffer) (cursor : Nat) (pieces : List Piece) :
    Prop where
  coordinates : pieces.flatMap (fun piece => List.range' piece.start piece.bytes.length) =
    (List.range' cursor (produced.bytes.length - cursor)).filter fun x =>
      buffer.isRetained x && !buffer.inSpan x
  bytes : ∀ piece ∈ pieces, piece.bytes ≠ [] ∧
    piece.bytes = (produced.bytes.drop piece.start).take piece.bytes.length
  joins : JoinsAt (· ∈ produced.lags) cursor pieces
  apart : ∀ piece ∈ pieces, ∀ x ∈ produced.lags,
    ¬(piece.start < x ∧ x < piece.start + piece.bytes.length)

/-- A loss from a cursor on: an omitted byte, or a lag that is examined. -/
def LossFrom (produced : Produced) (buffer : Buffer) (cursor : Nat) (closed : Bool) : Prop :=
  (∃ x, cursor ≤ x ∧ buffer.head.length ≤ x ∧ x < buffer.tailStart) ∨
    ∃ x ∈ produced.lags, cursor ≤ x ∧ (x < produced.bytes.length ∨ closed = true)

/-- The stream that is read back from a snapshot of a buffer. -/
def Buffer.frozen (buffer : Buffer) : RetainedStream :=
  RetainedStream.frozen (buffer.toBytesWithLossNotice []) buffer.streamLayout

/-- Cursor reads after a history are complete and honest about loss. -/
structure HonestReads (headBudget tailBudget : Nat) (ops : List StreamOp) (cursor : Nat) : Prop where
  visits : ∀ cut, TrueVisit (Produced.after ops) (Buffer.after headBudget tailBudget ops) cursor
    (((Buffer.after headBudget tailBudget ops).retainedStream cut).visitSince cursor).1
  lost : ∀ cut closed,
    LossFrom (Produced.after ops) (Buffer.after headBudget tailBudget ops) cursor closed →
      ((Buffer.after headBudget tailBudget ops).retainedStream cut).lostSince cursor closed = true
  onlyLost : (∀ before, before <+: ops →
    (Buffer.after headBudget tailBudget before).lagOverflow = none) → ∀ cut closed,
      ((Buffer.after headBudget tailBudget ops).retainedStream cut).lostSince cursor closed = true →
        LossFrom (Produced.after ops) (Buffer.after headBudget tailBudget ops) cursor closed
  /-- The tail of a snapshot is one slice. -/
  snapshot : (Buffer.after headBudget tailBudget ops).frozen =
    (Buffer.after headBudget tailBudget ops).retainedStream
      (Buffer.after headBudget tailBudget ops).tail.length
  frozen : ∀ cut,
    ((Buffer.after headBudget tailBudget ops).frozen.visitSince cursor).1.flatMap Piece.trace =
      (((Buffer.after headBudget tailBudget ops).retainedStream cut).visitSince cursor).1.flatMap
        Piece.trace ∧
    ((Buffer.after headBudget tailBudget ops).frozen.visitSince cursor).2 =
      (((Buffer.after headBudget tailBudget ops).retainedStream cut).visitSince cursor).2 ∧
    ∀ closed, (Buffer.after headBudget tailBudget ops).frozen.lostSince cursor closed =
      ((Buffer.after headBudget tailBudget ops).retainedStream cut).lostSince cursor closed

/-- The cursor is the last overflowed seam, and the byte there is retained. -/
def AtLastOverflow (buffer : Buffer) (cursor : Nat) : Prop :=
  ∃ first, buffer.lagOverflow = some (first, cursor) ∧ first < cursor ∧
    buffer.isRetained cursor = true

section Reads

variable {headBudget tailBudget : Nat} {produced : Produced} {buffer : Buffer} {cursor : Nat}

/-- The coordinates and the bytes of a trace. -/
theorem map_trace (start : Nat) (joined : Bool) (bytes : Bytes) :
    (trace start joined bytes).map Prod.fst = List.range' start bytes.length := by
  induction bytes generalizing start joined with
  | nil => rfl
  | cons byte bytes ih =>
    rw [trace, List.map_cons, ih, List.length_cons, List.range'_succ]

theorem mem_trace {start i : Nat} {joined : Bool} {bytes : Bytes} (inside : i < bytes.length) :
    (start + i, bytes.getD i 0, if i = 0 then joined else true) ∈ trace start joined bytes := by
  induction bytes generalizing start i joined with
  | nil => cases inside
  | cons byte bytes ih =>
    cases i with
    | zero => exact List.mem_cons_self
    | succ i =>
      have later := @ih (start + 1) i true (Nat.lt_of_succ_lt_succ inside)
      rw [ite_self] at later
      rw [trace, if_neg (Nat.succ_ne_zero i), List.getD_cons_succ]
      refine List.mem_cons_of_mem _ ?_
      have same : start + (i + 1) = start + 1 + i := by omega
      rw [same]
      exact later

/-- What a mark of a visit says. -/
theorem Marks.of_mem_between {marks : Marks} {low high x : Nat} {byte : UInt8} {joined : Bool}
    (member : (x, byte, joined) ∈ marks.between low high) : low ≤ x ∧ marks.visible x = true ∧
      byte = marks.byteAt x ∧ joined = marks.isJoined x := by
  rw [Marks.between, List.mem_map] at member
  obtain ⟨y, listed, same⟩ := member
  simp only [Prod.mk.injEq] at same
  obtain ⟨rfl, rfl, rfl⟩ := same
  rw [List.mem_filter, List.mem_range'_1] at listed
  exact ⟨listed.1.1, listed.2, rfl, rfl⟩

/-- Seams are the lags that a visit can meet, but for the last one of an overflow. -/
theorem Tracks.joins (tracks : Tracks headBudget tailBudget produced buffer)
    (notLast : ¬AtLastOverflow buffer cursor) {pieces : List Piece} {stop : Nat}
    (visible : ∀ piece ∈ pieces, piece.bytes ≠ [] ∧ ∀ x, piece.start ≤ x →
      x < piece.start + piece.bytes.length →
        (buffer.marks produced.bytes cursor).visible x = true)
    (from_ : stop = cursor ∨
      (0 < stop ∧ (buffer.marks produced.bytes cursor).visible (stop - 1) = true))
    (joins : JoinsAt ((buffer.marks produced.bytes cursor).isSeam · = true) stop pieces) :
    JoinsAt (· ∈ produced.lags) stop pieces := by
  induction pieces generalizing stop with
  | nil => trivial
  | cons piece rest ih =>
    obtain ⟨ordered, joined, others⟩ := joins
    obtain ⟨nonempty, inside⟩ := visible piece List.mem_cons_self
    have positive := List.length_pos_iff.mpr nonempty
    have here := inside piece.start (Nat.le_refl _) (by omega)
    refine ⟨ordered, joined.trans ⟨?_, ?_⟩, ih (fun other member =>
      visible other (List.mem_cons_of_mem _ member)) (.inr ⟨by omega, ?_⟩) others⟩
    · rintro (seam | skipped)
      · left
        rw [Buffer.marks] at seam
        simp only [Bool.or_eq_true, List.contains_iff_mem] at seam
        rcases seam with listed | isFirst
        · exact tracks.recorded _ listed
        cases overflow : buffer.lagOverflow with
        | none =>
          rw [overflow] at isFirst
          cases isFirst
        | some span =>
          rw [overflow, Option.any_some, beq_iff_eq] at isFirst
          rw [← isFirst]
          exact (tracks.span span.1 span.2 overflow).2.1
      · exact .inr skipped
    · rintro (lag | skipped)
      · rw [tracks.visible_iff] at here
        rcases tracks.found _ lag with listed | ⟨first, last, overflow, low, high⟩ | middle
        · left
          rw [Buffer.marks]
          simp [listed]
        · -- the lag is the last one of the span, as it is visited
          have outside := here.2
          rw [Buffer.inSpan, overflow, Option.any_some, Bool.and_eq_false_iff,
            decide_eq_false_iff_not, decide_eq_false_iff_not] at outside
          have isLast : piece.start = last := by omega
          by_cases single : first = last
          · left
            rw [Buffer.marks]
            simp [overflow, single, isLast]
          right
          refine ⟨stop, Nat.le_refl _, Nat.lt_of_le_of_ne ordered ?_⟩
          rintro rfl
          rcases from_ with isCursor | ⟨_, before⟩
          · refine notLast ⟨first, ?_, by omega, ?_⟩
            · rw [overflow, ← isLast, isCursor]
            · have total := tracks.holds.total
              rw [← isCursor, Buffer.isRetained, total]
              simpa using here.1
          · rw [tracks.visible_iff, Buffer.inSpan, overflow, Option.any_some,
              Bool.and_eq_false_iff, decide_eq_false_iff_not, decide_eq_false_iff_not] at before
            omega
        · omega
      · exact .inr skipped
    · exact inside _ (by omega) (by omega)

theorem Tracks.total_eq (tracks : Tracks headBudget tailBudget produced buffer) (cut : Nat) :
    (buffer.retainedStream cut).total = produced.bytes.length := by
  rw [← tracks.holds.total, RetainedStream.total, RetainedStream.tailStart, Buffer.retainedStream,
    Buffer.retainedBytes]
  simp only
  rw [List.length_take, List.length_drop]
  omega

/-- A visit is true, when the cursor is not the last overflowed seam. -/
theorem Tracks.trueVisit (tracks : Tracks headBudget tailBudget produced buffer)
    (notLast : ¬AtLastOverflow buffer cursor) (cut : Nat) :
    TrueVisit produced buffer cursor ((buffer.retainedStream cut).visitSince cursor).1 := by
  obtain ⟨marked, joins, nonempty⟩ := RetainedStream.visitSince_spec (tracks.shows cut cursor)
  change (((buffer.retainedStream cut).visitSince cursor).1.flatMap Piece.trace) = _ at marked
  change JoinsAt _ cursor ((buffer.retainedStream cut).visitSince cursor).1 at joins
  change ∀ piece ∈ ((buffer.retainedStream cut).visitSince cursor).1, _ at nonempty
  rw [tracks.total_eq] at marked
  generalize ((buffer.retainedStream cut).visitSince cursor).1 = pieces at marked joins nonempty
  -- a byte of a piece is one of the marks
  have mark : ∀ piece ∈ pieces, ∀ i, i < piece.bytes.length →
      (buffer.marks produced.bytes cursor).visible (piece.start + i) = true ∧
        piece.bytes.getD i 0 = produced.bytes.getD (piece.start + i) 0 ∧
          (0 < i → (buffer.marks produced.bytes cursor).isJoined (piece.start + i) = true) := by
    intro piece member i inside
    have inTrace := @mem_trace piece.start _ piece.joined _ inside
    have listed : (piece.start + i, piece.bytes.getD i 0, if i = 0 then piece.joined else true) ∈
        pieces.flatMap Piece.trace := List.mem_flatMap.mpr ⟨piece, member, inTrace⟩
    rw [marked] at listed
    obtain ⟨_, visible, byte, joined⟩ := Marks.of_mem_between listed
    refine ⟨visible, byte, fun positive => ?_⟩
    rw [← joined, if_neg (Nat.ne_of_gt positive)]
  have visible : ∀ piece ∈ pieces, ∀ x, piece.start ≤ x → x < piece.start + piece.bytes.length →
      (buffer.marks produced.bytes cursor).visible x = true := by
    intro piece member x after below
    have own := (mark piece member (x - piece.start) (by omega)).1
    rwa [Nat.add_sub_cancel' after] at own
  refine ⟨?_, ?_, tracks.joins notLast (fun piece member => ⟨nonempty piece member,
    visible piece member⟩) (.inl rfl) joins, ?_⟩
  · have coordinates := congrArg (List.map Prod.fst) marked
    rw [List.map_flatMap, Marks.between, List.map_map] at coordinates
    have starts : (fun piece : Piece => piece.trace.map Prod.fst) =
        fun piece => List.range' piece.start piece.bytes.length := by
      funext piece
      exact map_trace _ _ _
    rw [starts] at coordinates
    refine coordinates.trans ?_
    exact List.map_id _
  · intro piece member
    have some_ := nonempty piece member
    have positive := List.length_pos_iff.mpr some_
    have last := visible piece member (piece.start + (piece.bytes.length - 1)) (by omega) (by omega)
    rw [tracks.visible_iff] at last
    have headLength := tracks.holds.head_length
    have inside : piece.start + piece.bytes.length ≤ produced.bytes.length := by omega
    refine ⟨some_, List.ext_getElem ?_ ?_⟩
    · rw [List.length_take, List.length_drop]
      omega
    · intro i first second
      have byte := (mark piece member i first).2.1
      rw [List.getD_eq_getElem _ _ first, List.getD_eq_getElem _ _ (by omega)] at byte
      rw [byte, List.getElem_take, List.getElem_drop]
  · rintro piece member x lag ⟨after, below⟩
    have joined := (mark piece member (x - piece.start) (by omega)).2.2 (by omega)
    rw [Nat.add_sub_cancel' after.le, Marks.isJoined, Bool.and_eq_true, Bool.not_eq_true',
      Buffer.marks] at joined
    have here := visible piece member x after.le below
    have before := visible piece member (x - 1) (by omega) (by omega)
    rw [tracks.visible_iff] at here before
    have noSeam := joined.1
    simp only [Bool.or_eq_false_iff] at noSeam
    rcases tracks.found x lag with listed | ⟨first, last, overflow, low, high⟩ | middle
    · rw [List.contains_iff_mem.mpr listed] at noSeam
      cases noSeam.1
    · have outside := here.2
      have outsideBefore := before.2
      have notFirst := noSeam.2
      rw [Buffer.inSpan, overflow, Option.any_some, Bool.and_eq_false_iff, decide_eq_false_iff_not,
        decide_eq_false_iff_not] at outside outsideBefore
      rw [overflow, Option.any_some, beq_eq_false_iff_ne] at notFirst
      simp only at notFirst outside outsideBefore
      omega
    · omega

/-- At the last overflowed seam the first piece is joined, though a lag was recorded there. -/
theorem Tracks.not_trueVisit (tracks : Tracks headBudget tailBudget produced buffer)
    (atLast : AtLastOverflow buffer cursor) (cut : Nat) :
    ¬TrueVisit produced buffer cursor ((buffer.retainedStream cut).visitSince cursor).1 := by
  intro visit
  obtain ⟨first, overflow, less, retained⟩ := atLast
  obtain ⟨_, _, lastIn, above, _⟩ := tracks.span first cursor overflow
  obtain ⟨marked, _, nonempty⟩ := RetainedStream.visitSince_spec (tracks.shows cut cursor)
  change (((buffer.retainedStream cut).visitSince cursor).1.flatMap Piece.trace) = _ at marked
  rw [tracks.total_eq] at marked
  have joins := visit.joins
  have some_ : ∀ piece ∈ ((buffer.retainedStream cut).visitSince cursor).1, piece.bytes ≠ [] :=
    nonempty
  generalize ((buffer.retainedStream cut).visitSince cursor).1 = pieces at marked joins some_
  have inside : cursor < produced.bytes.length := by
    have total := tracks.holds.total
    have headLength := tracks.holds.head_length
    rw [Buffer.isRetained, total, Bool.or_eq_true, Bool.and_eq_true, decide_eq_true_eq,
      decide_eq_true_eq, decide_eq_true_eq] at retained
    omega
  have visible : (buffer.marks produced.bytes cursor).visible cursor = true := by
    simp [Buffer.marks, Buffer.inSpan, overflow, retained]
  have noSeam : (buffer.marks produced.bytes cursor).isSeam cursor = false := by
    rw [Buffer.marks]
    simp only [Bool.or_eq_false_iff]
    refine ⟨?_, ?_⟩
    · rw [← Bool.not_eq_true, List.contains_iff_mem]
      intro listed
      have seam := above cursor listed
      omega
    · rw [overflow, Option.any_some, beq_eq_false_iff_ne]
      exact Nat.ne_of_lt less
  -- the first mark is at the cursor, and joined
  have start : ∃ byte rest, (buffer.marks produced.bytes cursor).between cursor
      produced.bytes.length = (cursor, byte, true) :: rest := by
    obtain ⟨length, isLength⟩ := Nat.exists_eq_add_of_lt inside
    rw [Marks.between, isLength]
    have count : cursor + length + 1 - cursor = length + 1 := by omega
    have joined : (buffer.marks produced.bytes cursor).isJoined cursor = true := by
      rw [Marks.isJoined, noSeam]
      simp [Buffer.marks]
    rw [count, List.range'_succ, List.filter_cons_of_pos visible, List.map_cons, joined]
    exact ⟨_, _, rfl⟩
  obtain ⟨byte, rest, isStart⟩ := start
  replace marked := marked.trans isStart
  cases pieces with
  | nil => cases marked
  | cons piece others =>
    have here := some_ piece List.mem_cons_self
    obtain ⟨start, bytes, joined⟩ := piece
    cases bytes with
    | nil => exact here rfl
    | cons own bytes =>
      rw [List.flatMap_cons, Piece.trace, trace, List.cons_append] at marked
      obtain ⟨same, _⟩ := List.cons.inj marked
      simp only [Prod.mk.injEq] at same
      obtain ⟨rfl, _, rfl⟩ := same
      have parted := joins.2.1.mpr (.inl lastIn)
      cases parted

/-- A snapshot of a buffer is read back with its tail in one slice. -/
theorem Buffer.frozen_eq (buffer : Buffer) :
    buffer.frozen = buffer.retainedStream buffer.tail.length := by
  have tail : ∀ marker : Bytes, (buffer.head ++ marker ++ buffer.tail ++ []).drop
      (buffer.head.length + marker.length) = buffer.tail := by
    intro marker
    rw [List.append_nil, ← List.length_append, List.drop_left]
  have head : ∀ marker : Bytes, (buffer.head ++ marker ++ buffer.tail ++ []).take
      (min buffer.head.length (buffer.head ++ marker ++ buffer.tail ++ []).length) =
        buffer.head := by
    intro marker
    rw [Nat.min_eq_left (by simp only [List.length_append]; omega), List.append_nil,
      List.append_assoc, List.take_left]
  have headLength : ∀ marker : Bytes, min buffer.head.length
      (buffer.head ++ marker ++ buffer.tail ++ []).length = buffer.head.length := by
    intro marker
    rw [Nat.min_eq_left]
    simp only [List.length_append]
    omega
  rw [frozen, RetainedStream.frozen, Buffer.streamLayout, toBytesWithLossNotice, retainedStream]
  simp only
  rw [List.take_length, List.drop_length]
  by_cases omitted : 0 < buffer.omittedBytes
  · rw [if_pos omitted, if_pos omitted, head, headLength, tail]
  · rw [if_neg omitted, if_neg omitted, head, headLength]
    have none_ := tail []
    rw [List.length_nil] at none_
    rw [none_]

/-- What a scan of lost bytes examines. -/
theorem Tracks.lostSince (tracks : Tracks headBudget tailBudget produced buffer) {cut : Nat}
    {closed : Bool} (loss : LossFrom produced buffer cursor closed) :
    (buffer.retainedStream cut).lostSince cursor closed = true := by
  have omission : ∀ x, cursor ≤ x → buffer.head.length ≤ x → x < buffer.tailStart →
      (buffer.retainedStream cut).lostSince cursor closed = true := by
    intro x after low high
    rw [RetainedStream.lostSince, Bool.or_eq_true, Bool.or_eq_true, Bool.and_eq_true,
      decide_eq_true_eq, decide_eq_true_eq]
    refine .inl (.inl ⟨?_, ?_⟩)
    · rw [Buffer.tailStart] at high
      change 0 < buffer.omittedBytes
      omega
    · change cursor < buffer.tailStart
      omega
  rcases loss with ⟨x, after, low, high⟩ | ⟨x, lag, after, examined⟩
  · exact omission x after low high
  rcases tracks.found x lag with listed | ⟨first, last, overflow, low, high⟩ | ⟨low, high⟩
  · rw [RetainedStream.lostSince, Bool.or_eq_true, Bool.or_eq_true, tracks.total_eq]
    refine .inl (.inr ?_)
    change (buffer.lagSeams.dropWhile (· < cursor)).head?.any _ = true
    have member := (mem_dropWhile_of_sorted tracks.sorted).mpr ⟨listed, after⟩
    have sorted := tracks.sorted.sublist (List.dropWhile_sublist (· < cursor))
    generalize buffer.lagSeams.dropWhile (· < cursor) = seams at member sorted
    cases seams with
    | nil => cases member
    | cons seam rest =>
      have le : seam ≤ x := by
        rcases List.mem_cons.mp member with rfl | later
        · exact Nat.le_refl _
        · exact ((List.pairwise_cons.mp sorted).1 x later).le
      rw [List.head?_cons, Option.any_some, Bool.or_eq_true, decide_eq_true_eq]
      exact examined.imp_left fun inside => Nat.lt_of_le_of_lt le inside
  · rw [RetainedStream.lostSince, Bool.or_eq_true, tracks.total_eq]
    right
    change buffer.lagOverflow.any _ = true
    rw [overflow, Option.any_some, Bool.and_eq_true, Bool.or_eq_true, decide_eq_true_eq,
      decide_eq_true_eq]
    exact ⟨after.trans high, examined.imp_left fun inside =>
      Nat.lt_of_le_of_lt (Nat.max_le.mpr ⟨low, after⟩) inside⟩
  · exact omission x after low high

theorem Tracks.lossFrom (tracks : Tracks headBudget tailBudget produced buffer) {cut : Nat}
    {closed : Bool} (none_ : buffer.lagOverflow = none)
    (lost : (buffer.retainedStream cut).lostSince cursor closed = true) :
    LossFrom produced buffer cursor closed := by
  rw [RetainedStream.lostSince, Bool.or_eq_true, Bool.or_eq_true, Bool.and_eq_true,
    decide_eq_true_eq, decide_eq_true_eq, tracks.total_eq] at lost
  rcases lost with (⟨omitted, before⟩ | seam) | overflow
  · change 0 < buffer.omittedBytes at omitted
    change cursor < buffer.tailStart at before
    refine .inl ⟨max cursor buffer.head.length, Nat.le_max_left _ _, Nat.le_max_right _ _, ?_⟩
    rw [Buffer.tailStart] at before ⊢
    omega
  · change (buffer.lagSeams.dropWhile (· < cursor)).head?.any _ = true at seam
    cases isSeam : (buffer.lagSeams.dropWhile (· < cursor)).head? with
    | none =>
      rw [isSeam] at seam
      cases seam
    | some x =>
      rw [isSeam, Option.any_some, Bool.or_eq_true, decide_eq_true_eq] at seam
      obtain ⟨listed, after⟩ := (mem_dropWhile_of_sorted tracks.sorted).mp
        (List.mem_of_head? isSeam)
      exact .inr ⟨x, tracks.recorded x listed, after, seam⟩
  · change buffer.lagOverflow.any _ = true at overflow
    rw [none_] at overflow
    cases overflow

end Reads

/-- Cursor reads are complete and honest about loss, unless the cursor is the last overflowed seam:
    there the first piece is joined to what is before it. -/
theorem honestReads_iff (headBudget tailBudget : Nat) (ops : List StreamOp) (cursor : Nat) :
    HonestReads headBudget tailBudget ops cursor ↔
      ¬AtLastOverflow (Buffer.after headBudget tailBudget ops) cursor := by
  have tracks := tracks_after headBudget tailBudget ops
  refine ⟨fun honest atLast => tracks.not_trueVisit atLast 0 (honest.visits 0), fun notLast => ?_⟩
  refine ⟨tracks.trueVisit notLast, fun cut closed => tracks.lostSince, ?_, Buffer.frozen_eq _, ?_⟩
  · intro never cut closed lost
    exact tracks.lossFrom (never ops (List.prefix_refl ops)) lost
  intro cut
  have traces : ∀ cut, (((Buffer.after headBudget tailBudget ops).retainedStream cut).visitSince
      cursor).1.flatMap Piece.trace =
        ((Buffer.after headBudget tailBudget ops).marks (Produced.after ops).bytes cursor).between
          cursor (Produced.after ops).bytes.length := by
    intro cut
    have marked := (RetainedStream.visitSince_spec (tracks.shows cut cursor)).1
    rw [tracks.total_eq] at marked
    exact marked
  rw [Buffer.frozen_eq]
  refine ⟨(traces _).trans (traces cut).symm, ?_, fun closed => ?_⟩
  · rw [RetainedStream.visitSince, RetainedStream.visitSince]
    simp only
    rw [tracks.total_eq, tracks.total_eq]
  · rw [RetainedStream.lostSince, RetainedStream.lostSince, tracks.total_eq, tracks.total_eq]
    rfl

/-! ## An overflow -/

section Overflow

variable {headBudget tailBudget : Nat} {produced : Produced} {buffer : Buffer}

/-- A byte and a lag, while the head has room. -/
theorem Tracks.round (tracks : Tracks headBudget tailBudget produced buffer)
    (room : produced.bytes.length < headBudget) (byte : UInt8) :
    (buffer.lagOverflow = none → buffer.lagSeams.length < MAX_LAG_SEAMS →
      ((buffer.pushChunk [byte]).recordLaggedChunks 1).lagSeams.length =
          buffer.lagSeams.length + 1 ∧
        ((buffer.pushChunk [byte]).recordLaggedChunks 1).lagOverflow = none) ∧
    (buffer.lagOverflow = none → buffer.lagSeams.length = MAX_LAG_SEAMS →
      ((buffer.pushChunk [byte]).recordLaggedChunks 1).lagOverflow =
        some (produced.bytes.length + 1, produced.bytes.length + 1)) ∧
    ∀ first last, buffer.lagOverflow = some (first, last) →
      ((buffer.pushChunk [byte]).recordLaggedChunks 1).lagOverflow =
        some (first, produced.bytes.length + 1) := by
  have pushed := tracks.holds.pushChunk_eq [byte]
  have next := (tracks.push [byte]).holds
  have seams : (buffer.pushChunk [byte]).lagSeams = buffer.lagSeams := by rw [pushed]
  have overflow : (buffer.pushChunk [byte]).lagOverflow = buffer.lagOverflow := by rw [pushed]
  have length : (produced.bytes ++ [byte]).length = produced.bytes.length + 1 := by
    rw [List.length_append, List.length_singleton]
  have total := next.total
  have head := next.head_length
  have omitted := next.omitted
  simp only at total head omitted
  rw [length] at total head omitted
  have tailStart : (buffer.pushChunk [byte]).tailStart = produced.bytes.length + 1 := by
    rw [Buffer.tailStart]
    omega
  -- nothing is in the omitted middle
  have allSeams : buffer.lagSeams.filter (fun seam =>
      seam < (buffer.pushChunk [byte]).head.length ||
        (buffer.pushChunk [byte]).tailStart ≤ seam) = buffer.lagSeams := by
    rw [List.filter_eq_self]
    intro x _
    simp only [Bool.or_eq_true, decide_eq_true_eq]
    omega
  have last : buffer.lagSeams.getLast? ≠ some (produced.bytes.length + 1) := by
    intro isLast
    have member := List.mem_of_getLast? isLast
    have below := tracks.below _ (tracks.recorded _ member)
    omega
  have lagged : ((buffer.pushChunk [byte]).recordLaggedChunks 1).lagSeams =
        ((buffer.pushChunk [byte]).lagSeamsAfter (produced.bytes.length + 1)).1 ∧
      ((buffer.pushChunk [byte]).recordLaggedChunks 1).lagOverflow =
        ((buffer.pushChunk [byte]).lagSeamsAfter (produced.bytes.length + 1)).2 := by
    rw [Buffer.recordLaggedChunks, if_pos Nat.one_pos, total]
    exact ⟨rfl, rfl⟩
  rw [lagged.1, lagged.2, Buffer.lagSeamsAfter, seams, overflow, allSeams]
  refine ⟨fun none_ room_ => ?_, fun none_ full => ?_, fun first latest found => ?_⟩
  · rw [none_, Option.filter_none]
    simp only
    rw [if_neg last, if_pos room_, List.length_append, List.length_singleton]
    exact ⟨rfl, rfl⟩
  · rw [none_, Option.filter_none]
    simp only
    rw [if_neg last, if_neg (by omega)]
  · obtain ⟨le, _, lastIn, _⟩ := tracks.span first latest found
    rw [found, Option.filter_some, if_pos]
    simp only [Bool.not_eq_true', Bool.and_eq_false_iff, decide_eq_false_iff_not]
    omega

/-- Rounds of a byte and a lag. -/
def lagRounds (count : Nat) : List StreamOp :=
  (List.replicate count [StreamOp.push [0x61], .lag 1]).flatten

theorem after_lagRounds_succ (count : Nat) :
    Buffer.after headBudget tailBudget (lagRounds (count + 1)) =
        ((Buffer.after headBudget tailBudget (lagRounds count)).pushChunk
          [0x61]).recordLaggedChunks 1 ∧
      (Produced.after (lagRounds (count + 1))).bytes =
        (Produced.after (lagRounds count)).bytes ++ [0x61] := by
  have rounds : lagRounds (count + 1) = lagRounds count ++ [StreamOp.push [0x61], .lag 1] := by
    rw [lagRounds, List.replicate_succ', List.flatten_append, List.flatten_singleton]
    rfl
  rw [rounds, Buffer.after, Produced.after, List.foldl_append, List.foldl_append]
  exact ⟨rfl, rfl⟩

theorem length_lagRounds (count : Nat) : (Produced.after (lagRounds count)).bytes.length = count := by
  induction count with
  | zero => rfl
  | succ count ih =>
    rw [(@after_lagRounds_succ 0 0 count).2, List.length_append, ih,
      List.length_singleton]

/-- Each round records a seam, until the list is full. -/
theorem seams_lagRounds {count : Nat} (few : count ≤ MAX_LAG_SEAMS) (room : count ≤ headBudget) :
    (Buffer.after headBudget tailBudget (lagRounds count)).lagSeams.length = count ∧
      (Buffer.after headBudget tailBudget (lagRounds count)).lagOverflow = none := by
  induction count with
  | zero => exact ⟨rfl, rfl⟩
  | succ count ih =>
    obtain ⟨length, none_⟩ := ih (by omega) (by omega)
    have step := (tracks_after headBudget tailBudget (lagRounds count)).round
      (by rw [length_lagRounds]; omega) 0x61
    rw [(after_lagRounds_succ count).1]
    obtain ⟨seams, overflow⟩ := step.1 none_ (by omega)
    exact ⟨by rw [seams, length], overflow⟩

/-- Two more rounds than there are seams make a span of two lags. -/
theorem atLastOverflow_lagRounds {count : Nat} (full : count = MAX_LAG_SEAMS)
    (room : count + 2 < headBudget) :
    AtLastOverflow (Buffer.after headBudget tailBudget (lagRounds (count + 2) ++ [.push [0x62]]))
      (count + 2) := by
  obtain ⟨length, none_⟩ := @seams_lagRounds headBudget tailBudget _
    full.le (by omega)
  have first := ((tracks_after headBudget tailBudget (lagRounds count)).round
    (by rw [length_lagRounds]; omega) 0x61).2.1 none_ (by rw [length, full])
  rw [← (after_lagRounds_succ count).1, length_lagRounds] at first
  have second := ((tracks_after headBudget tailBudget (lagRounds (count + 1))).round
    (by rw [length_lagRounds]; omega) 0x61).2.2 _ _ first
  rw [← (after_lagRounds_succ (count + 1)).1, length_lagRounds] at second
  have tracks := tracks_after headBudget tailBudget (lagRounds (count + 2))
  have pushed := tracks.holds.pushChunk_eq [0x62]
  have isAfter : Buffer.after headBudget tailBudget (lagRounds (count + 2) ++ [.push [0x62]]) =
      (Buffer.after headBudget tailBudget (lagRounds (count + 2))).pushChunk [0x62] := by
    rw [Buffer.after, List.foldl_append]
    rfl
  have next := (tracks.push [0x62]).holds
  rw [← isAfter] at next
  refine ⟨count + 1, ?_, by omega, ?_⟩
  · rw [isAfter, pushed]
    exact second
  have head := next.head_length
  simp only at head
  rw [List.length_append, length_lagRounds, List.length_singleton] at head
  rw [Buffer.isRetained, Bool.or_eq_true, decide_eq_true_eq]
  left
  omega

end Overflow

/-- A reader at the last of too many lags takes the byte there as joined to the one before. -/
theorem overflowed_not_honest : ¬HonestReads (UNIFIED_EXEC_OUTPUT_MAX_BYTES / 2)
    (UNIFIED_EXEC_OUTPUT_MAX_BYTES / 2) (lagRounds (MAX_LAG_SEAMS + 2) ++ [.push [0x62]])
      (MAX_LAG_SEAMS + 2) := by
  intro honest
  have most : MAX_LAG_SEAMS + 2 < UNIFIED_EXEC_OUTPUT_MAX_BYTES / 2 := by decide
  exact (tracks_after _ _ _).not_trueVisit (atLastOverflow_lagRounds rfl most) 0 (honest.visits 0)

end Codex.UnifiedExec
