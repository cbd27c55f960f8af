import Codex.UnifiedExec.HeadTailBuffer

/-!
# What a buffer retains

The head, the tail and the counters of `core/src/unified_exec/head_tail_buffer.rs` as functions of
the bytes that were pushed, whatever the chunks were.
-/

namespace Codex.UnifiedExec

variable {α : Type}

theorem rtake_eq_self {l : List α} {n : Nat} (short : l.length ≤ n) : l.rtake n = l := by
  rw [List.rtake, Nat.sub_eq_zero_of_le short, List.drop_zero]

theorem length_rtake (l : List α) (n : Nat) : (l.rtake n).length = min l.length n := by
  rw [List.rtake, List.length_drop]
  omega

/-- The last elements of a list that is cut first. -/
theorem rtake_append_rtake (l m : List α) (n : Nat) :
    (l.rtake n ++ m).rtake n = (l ++ m).rtake n := by
  rcases Nat.le_total l.length n with short | long
  · rw [rtake_eq_self short]
  have cut : l.rtake n ++ m = (l ++ m).drop (l.length - n) := by
    rw [List.rtake, List.drop_append_of_le_length (Nat.sub_le _ _)]
  have length : (l.rtake n ++ m).length = n + m.length := by
    rw [List.length_append, length_rtake, Nat.min_eq_right long]
  have twice : (l.rtake n ++ m).rtake n = (l.rtake n ++ m).drop m.length := by
    rw [List.rtake, length, Nat.add_sub_cancel_left]
  rw [twice, cut, List.drop_drop, List.rtake, List.length_append]
  congr 1
  omega

namespace Buffer

/-- A buffer with a capacity that is split in this way. -/
def fresh (headBudget tailBudget : Nat) : Buffer where
  maxBytes := headBudget + tailBudget
  headBudget
  tailBudget

/-- A new buffer splits its capacity. -/
theorem new_eq_fresh (maxBytes : Nat) :
    Buffer.new maxBytes = fresh (maxBytes / 2) (maxBytes - maxBytes / 2) := by
  rw [Buffer.new, fresh, Nat.add_sub_cancel' (Nat.div_le_self maxBytes 2)]

/-- What is pushed behind the head. -/
theorem pushToTail_eq {buffer : Buffer} (fits : buffer.tail.length ≤ buffer.tailBudget)
    (chunk : Bytes) : buffer.pushToTail chunk =
      { buffer with
        tail := (buffer.tail ++ chunk).rtake buffer.tailBudget
        omittedBytes := buffer.omittedBytes +
          (buffer.tail.length + chunk.length - buffer.tailBudget)
        unreportedOmittedBytes := buffer.unreportedOmittedBytes +
          (buffer.tail.length + chunk.length - buffer.tailBudget) } := by
  unfold pushToTail
  split
  next empty =>
    rw [empty, List.append_nil, rtake_eq_self fits, List.length_nil, Nat.add_zero,
      Nat.sub_eq_zero_of_le fits]
    rfl
  · split
    next noTail =>
      have empty : buffer.tail = [] := List.eq_nil_of_length_eq_zero (by omega)
      rw [recordOmittedBytes, empty, noTail, List.rtake_zero, List.length_nil, Nat.zero_add,
        Nat.sub_zero]
    · split
      next long =>
        have kept : (chunk.drop (chunk.length - buffer.tailBudget)).length = buffer.tailBudget := by
          rw [List.length_drop]
          omega
        have last : (buffer.tail ++ chunk).rtake buffer.tailBudget =
            chunk.drop (chunk.length - buffer.tailBudget) := by
          rw [List.rtake, List.length_append, List.drop_append]
          have all : buffer.tail.drop (buffer.tail.length + chunk.length - buffer.tailBudget) =
              [] := List.drop_eq_nil_of_le (by omega)
          rw [all, List.nil_append]
          congr 1
          omega
        have count : buffer.tail.length + (chunk.length - buffer.tailBudget) =
            buffer.tail.length + chunk.length - buffer.tailBudget := by omega
        simp only
        rw [kept, last, count]
        rfl
      · unfold trimTailToBudget
        simp only
        split
        next excess =>
          rw [recordOmittedBytes, List.rtake, List.length_append]
        next within =>
          have short : (buffer.tail ++ chunk).length ≤ buffer.tailBudget := by omega
          have none_ : buffer.tail.length + chunk.length - buffer.tailBudget = 0 := by
            rw [List.length_append] at short
            omega
          rw [rtake_eq_self short, none_]
          rfl

/-- A buffer holds the bytes that its budgets allow. -/
structure Holds (headBudget tailBudget : Nat) (bytes : Bytes) (buffer : Buffer) : Prop where
  maxBytes : buffer.maxBytes = headBudget + tailBudget
  ofHead : buffer.headBudget = headBudget
  ofTail : buffer.tailBudget = tailBudget
  head : buffer.head = bytes.take headBudget
  tail : buffer.tail = (bytes.drop headBudget).rtake tailBudget
  omitted : buffer.omittedBytes = bytes.length - headBudget - tailBudget

/-- The buffer that some bytes leave. -/
def holding (headBudget tailBudget : Nat) (bytes : Bytes) : Buffer :=
  { fresh headBudget tailBudget with
    head := bytes.take headBudget
    tail := (bytes.drop headBudget).rtake tailBudget
    omittedBytes := bytes.length - headBudget - tailBudget
    unreportedOmittedBytes := bytes.length - headBudget - tailBudget }

variable {headBudget tailBudget : Nat} {bytes : Bytes} {buffer : Buffer}

theorem holds_holding (bytes : Bytes) :
    Holds headBudget tailBudget bytes (holding headBudget tailBudget bytes) :=
  ⟨rfl, rfl, rfl, rfl, rfl, rfl⟩

/-- A push adds to what a buffer holds, and changes nothing else. -/
theorem Holds.pushChunk_eq (holds : Holds headBudget tailBudget bytes buffer) (chunk : Bytes) :
    buffer.pushChunk chunk =
      { buffer with
        head := (bytes ++ chunk).take headBudget
        tail := ((bytes ++ chunk).drop headBudget).rtake tailBudget
        omittedBytes := (bytes ++ chunk).length - headBudget - tailBudget
        unreportedOmittedBytes := buffer.unreportedOmittedBytes +
          ((bytes ++ chunk).length - headBudget - tailBudget -
            (bytes.length - headBudget - tailBudget)) } := by
  unfold pushChunk
  split
  next empty =>
    rw [empty, List.append_nil, Nat.sub_self, ← holds.head, ← holds.tail, ← holds.omitted]
    rfl
  · split
    next nothing =>
      -- a buffer without capacity counts what it drops
      rw [holds.maxBytes] at nothing
      obtain ⟨rfl, rfl⟩ := Nat.add_eq_zero_iff.mp nothing
      have head : buffer.head = [] := by rw [holds.head, List.take_zero]
      have tail : buffer.tail = [] := by rw [holds.tail, List.rtake_zero]
      simp only [recordOmittedBytes, holds.omitted, List.take_zero, List.rtake_zero, Nat.sub_zero,
        List.length_append, Nat.add_sub_cancel_left]
      congr 1
    · -- the head takes what fits, the rest goes to the tail
      simp only
      rw [holds.head, holds.ofHead, List.length_take]
      generalize isLen : min (headBudget - min headBudget bytes.length) chunk.length = headLen
      have front : chunk.take headLen = chunk.take (headBudget - bytes.length) := by
        rw [List.take_eq_take_iff]
        omega
      have back : chunk.drop headLen = chunk.drop (headBudget - bytes.length) := by
        by_cases inside : headBudget - bytes.length ≤ chunk.length
        · congr 1
          omega
        · rw [List.drop_eq_nil_of_le (by omega), List.drop_eq_nil_of_le (by omega)]
      have head : bytes.take headBudget ++ chunk.take headLen = (bytes ++ chunk).take headBudget := by
        rw [List.take_append, front]
      have rest : bytes.drop headBudget ++ chunk.drop headLen =
          (bytes ++ chunk).drop headBudget := by
        rw [List.drop_append, back]
      have tailLength : buffer.tail.length = min (bytes.length - headBudget) tailBudget := by
        rw [holds.tail, length_rtake, List.length_drop]
      rw [pushToTail_eq (by
        change buffer.tail.length ≤ buffer.tailBudget
        rw [tailLength, holds.ofTail]
        omega)]
      simp only
      have tail : (buffer.tail ++ chunk.drop headLen).rtake buffer.tailBudget =
          ((bytes ++ chunk).drop headBudget).rtake tailBudget := by
        rw [holds.tail, holds.ofTail, rtake_append_rtake, rest]
      have dropped : buffer.tail.length + (chunk.drop headLen).length - buffer.tailBudget =
          (bytes ++ chunk).length - headBudget - tailBudget -
            (bytes.length - headBudget - tailBudget) := by
        rw [tailLength, holds.ofTail, List.length_drop, List.length_append]
        omega
      have omitted : buffer.omittedBytes + ((bytes ++ chunk).length - headBudget - tailBudget -
          (bytes.length - headBudget - tailBudget)) =
            (bytes ++ chunk).length - headBudget - tailBudget := by
        rw [holds.omitted, List.length_append]
        omega
      rw [head, tail, dropped, omitted]

theorem pushChunk_holding (bytes chunk : Bytes) :
    (holding headBudget tailBudget bytes).pushChunk chunk =
      holding headBudget tailBudget (bytes ++ chunk) := by
  rw [(holds_holding bytes).pushChunk_eq chunk]
  have count : bytes.length - headBudget - tailBudget +
      ((bytes ++ chunk).length - headBudget - tailBudget -
        (bytes.length - headBudget - tailBudget)) =
      (bytes ++ chunk).length - headBudget - tailBudget := by
    rw [List.length_append]
    omega
  simp only [holding, fresh]
  rw [count]

/-- What any chunks leave is what their bytes leave. -/
theorem pushChunks_eq (chunks : List Bytes) :
    chunks.foldl pushChunk (fresh headBudget tailBudget) =
      holding headBudget tailBudget chunks.flatten := by
  have run : ∀ (bytes : Bytes), chunks.foldl pushChunk (holding headBudget tailBudget bytes) =
      holding headBudget tailBudget (bytes ++ chunks.flatten) := by
    induction chunks with
    | nil =>
      intro bytes
      rw [List.foldl_nil, List.flatten_nil, List.append_nil]
    | cons chunk rest ih =>
      intro bytes
      rw [List.foldl_cons, pushChunk_holding, ih, List.flatten_cons, List.append_assoc]
  have start : fresh headBudget tailBudget = holding headBudget tailBudget [] := by
    simp [holding, fresh]
  rw [start, run [], List.nil_append]

/-- Retention does not depend on the chunks: the head is the first bytes, the tail the last of the
    others, and what is between them is counted. -/
theorem retention_independent_of_chunks (headBudget tailBudget : Nat) (chunks : List Bytes) :
    (chunks.foldl pushChunk (fresh headBudget tailBudget)).head =
        chunks.flatten.take headBudget ∧
      (chunks.foldl pushChunk (fresh headBudget tailBudget)).head.length =
        min chunks.flatten.length headBudget ∧
      (chunks.foldl pushChunk (fresh headBudget tailBudget)).tail =
        chunks.flatten.drop (chunks.flatten.length -
          min (chunks.flatten.length - headBudget) tailBudget) ∧
      (chunks.foldl pushChunk (fresh headBudget tailBudget)).tail.length =
        min (chunks.flatten.length - headBudget) tailBudget ∧
      (chunks.foldl pushChunk (fresh headBudget tailBudget)).omittedBytes =
        chunks.flatten.length - headBudget - tailBudget ∧
      (∀ before, before <+: chunks →
        (before.foldl pushChunk (fresh headBudget tailBudget)).retainedBytes ≤
          headBudget + tailBudget) ∧
      ∀ others : List Bytes, others.flatten = chunks.flatten →
        others.foldl pushChunk (fresh headBudget tailBudget) =
          chunks.foldl pushChunk (fresh headBudget tailBudget) := by
  have tail : ((chunks.flatten.drop headBudget).rtake tailBudget) =
      chunks.flatten.drop (chunks.flatten.length -
        min (chunks.flatten.length - headBudget) tailBudget) := by
    rw [List.rtake, List.drop_drop, List.length_drop]
    by_cases short : chunks.flatten.length ≤ headBudget
    · rw [List.drop_eq_nil_of_le (by omega), List.drop_eq_nil_of_le (by omega)]
    · congr 1
      omega
  rw [pushChunks_eq]
  refine ⟨rfl, ?_, tail, ?_, rfl, ?_, ?_⟩
  · rw [holding, List.length_take, Nat.min_comm]
  · rw [holding, length_rtake, List.length_drop]
  · intro before _
    rw [pushChunks_eq, retainedBytes, holding]
    simp only
    rw [List.length_take, length_rtake]
    omega
  · intro others same
    rw [pushChunks_eq, same]

end Buffer

end Codex.UnifiedExec
