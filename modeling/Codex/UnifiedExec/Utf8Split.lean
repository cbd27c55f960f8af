import Codex.Lib.Utf8Boundary
import Codex.UnifiedExec.HeadTailBuffer

/-!
# Splitting a stream at character boundaries

`split_valid_utf8_prefix_with_max` of `core/src/unified_exec/head_tail_buffer.rs:19` and the loops
that apply it: what arrives from a process is appended to the pending bytes, valid pieces of
bounded size are emitted from their front, and the rest is flushed when the stream ends.
-/

namespace Codex.UnifiedExec

/-- Where `split_valid_utf8_prefix_with_max` divides the buffer. -/
def splitLength (buffer : Bytes) (maxBytes : Nat) (flushIncomplete : Bool) : Option Nat :=
  if buffer.isEmpty || maxBytes = 0 then none
  else
    let maxLen := min buffer.length maxBytes
    match Utf8.fromUtf8 (buffer.take maxLen) with
    | .ok _ => some maxLen
    | .error error =>
        if error.validUpTo > 0 then some error.validUpTo
        -- definitively invalid bytes make progress, and at the end of the stream so does a
        -- sequence that stays incomplete
        else if error.errorLen.isSome || flushIncomplete then some 1
        else none

/-- `split_valid_utf8_prefix_with_max`: the emitted prefix and the remaining buffer. -/
def splitValidUtf8PrefixWithMax (buffer : Bytes) (maxBytes : Nat) (flushIncomplete : Bool) :
    Option (Bytes × Bytes) :=
  (splitLength buffer maxBytes flushIncomplete).map buffer.splitAt

/-- The loop `while let Some(prefix) = split_valid_utf8_prefix_with_max(..)`: the pieces and what
    remains. Every round removes a byte, so the length of the buffer is enough fuel. -/
def splitAll (maxBytes : Nat) (flushIncomplete : Bool) : Nat → Bytes → List Bytes × Bytes
  | 0, remaining => ([], remaining)
  | fuel + 1, remaining =>
      match splitValidUtf8PrefixWithMax remaining maxBytes flushIncomplete with
      | none => ([], remaining)
      | some (piece, remaining) =>
          let rest := splitAll maxBytes flushIncomplete fuel remaining
          (piece :: rest.1, rest.2)

/-- A stream of output deltas: what was emitted and what is pending. -/
structure DeltaStream where
  emitted : List Bytes := []
  pending : Bytes := []
  deriving DecidableEq, Repr

namespace DeltaStream

/-- `emit_pending` (`async_watcher.rs:727`), as long as deltas are not suppressed. -/
def emitPending (maxBytes : Nat) (flushIncomplete : Bool) (stream : DeltaStream) : DeltaStream :=
  let split := splitAll maxBytes flushIncomplete stream.pending.length stream.pending
  { emitted := stream.emitted ++ split.1, pending := split.2 }

/-- A chunk arrives and more may come. -/
def receive (maxBytes : Nat) (stream : DeltaStream) (chunk : Bytes) : DeltaStream :=
  emitPending maxBytes false { stream with pending := stream.pending ++ chunk }

def receiveAll (maxBytes : Nat) (chunks : List Bytes) : DeltaStream :=
  chunks.foldl (receive maxBytes) {}

/-- The end of the stream. -/
def finish (maxBytes : Nat) (stream : DeltaStream) : DeltaStream :=
  emitPending maxBytes true stream

end DeltaStream

example : (DeltaStream.receiveAll 4 [[0x61, 0xe2], [0x82, 0xac, 0xff, 0xf0]]) =
    { emitted := [[0x61], [0xe2, 0x82, 0xac], [0xff]], pending := [0xf0] } := by decide

/-- A piece that may be emitted: valid text within the limit, or a single byte. -/
def IsPiece (maxBytes : Nat) (piece : Bytes) : Prop :=
  (Utf8.fromUtf8 piece = .ok () ∧ piece ≠ [] ∧ piece.length ≤ maxBytes) ∨ piece.length = 1

/-- No scalar value that stands anywhere in the input lies across the end of a piece. -/
def Undivided (input : Bytes) (pieces : List Bytes) : Prop :=
  ∀ front back, pieces = front ++ back → Utf8.CleanCut input front.flatten.length

/-- What is pending while more input may come: nothing or an incomplete sequence that can still
    be completed, and every such sequence at the end of the input. -/
def HoldsBack (input pending : Bytes) : Prop :=
  (pending = [] ∨ Utf8.Completable pending) ∧
    ∀ front suffix, input = front ++ suffix → Utf8.Completable suffix → pending = suffix

variable {buffer : Bytes} {maxBytes : Nat}

/-- Everything that a split can do when the maximum holds a whole scalar value: tiled bytes, an
    invalid byte, or an incomplete buffer that waits or is flushed byte by byte. -/
theorem splitLength_cases (enough : 4 ≤ maxBytes) (nonempty : buffer ≠ [])
    (flushIncomplete : Bool) :
    (∃ length, splitLength buffer maxBytes flushIncomplete = some length ∧ 0 < length ∧
        length ≤ buffer.length ∧ length ≤ maxBytes ∧ Utf8.Tiled (buffer.take length)) ∨
      ((∃ errorLen, Utf8.readFront buffer = .invalid errorLen) ∧
        splitLength buffer maxBytes flushIncomplete = some 1) ∨
      (Utf8.readFront buffer = .incomplete ∧
        splitLength buffer maxBytes flushIncomplete =
          if flushIncomplete then some 1 else none) := by
  have positive := List.length_pos_iff.mpr nonempty
  have proper : ¬ (buffer.isEmpty || decide (maxBytes = 0)) = true := by
    simp only [Bool.or_eq_true, List.isEmpty_iff, decide_eq_true_eq, not_or]
    exact ⟨nonempty, by omega⟩
  have front : Utf8.readFront (buffer.take (min buffer.length maxBytes)) =
      Utf8.readFront buffer := by
    rw [List.take_eq_take_min, Nat.min_comm buffer.length, Nat.min_assoc, Nat.min_self,
      ← List.take_eq_take_min]
    exact Utf8.readFront_take_of_le enough buffer
  rw [splitLength, if_neg proper]
  dsimp only
  split
  · next valid =>
    exact .inl ⟨_, rfl, by omega, by omega, by omega, (Utf8.fromUtf8_ok_iff _).mp valid⟩
  next error found =>
  obtain ⟨valid, position, before, tiled, reason⟩ := Utf8.validate_error (Nat.le_refl _) found
  rw [Nat.zero_add] at position
  rw [List.length_take] at before
  rw [position]
  split
  · next some =>
    rw [List.take_take, Nat.min_eq_left (by omega)] at tiled
    exact .inl ⟨valid, rfl, some, by omega, by omega, tiled⟩
  next none =>
  obtain rfl : valid = 0 := by omega
  rw [List.drop_zero, front] at reason
  rcases reason with ⟨errorLen, known, invalid⟩ | ⟨unknown, incomplete⟩
  · rw [known]
    exact .inr (.inl ⟨⟨errorLen, invalid⟩, rfl⟩)
  · rw [unknown]
    exact .inr (.inr ⟨incomplete, rfl⟩)

/-- The loop ends at an empty buffer, or before an incomplete one when more input may come. -/
theorem splitValidUtf8PrefixWithMax_none {flushIncomplete : Bool} (enough : 4 ≤ maxBytes)
    (stuck : splitValidUtf8PrefixWithMax buffer maxBytes flushIncomplete = none) :
    buffer = [] ∨ flushIncomplete = false ∧ Utf8.Completable buffer := by
  by_cases empty : buffer = []
  · exact .inl empty
  right
  rw [splitValidUtf8PrefixWithMax, Option.map_eq_none_iff] at stuck
  rcases splitLength_cases enough empty flushIncomplete with
    ⟨length, found, -⟩ | ⟨-, found⟩ | ⟨incomplete, found⟩
  · rw [found] at stuck
    cases stuck
  · rw [found] at stuck
    cases stuck
  · rw [found] at stuck
    cases flushIncomplete with
    | false => exact ⟨rfl, (Utf8.completable_iff buffer).mpr ⟨empty, incomplete⟩⟩
    | true => cases stuck

/-- One split removes a piece from the front. The cut behind it stays clean for everything that
    may still arrive, or for the buffer itself when the stream has ended. -/
theorem splitValidUtf8PrefixWithMax_some {piece remaining : Bytes} {flushIncomplete : Bool}
    (enough : 4 ≤ maxBytes) (split : splitValidUtf8PrefixWithMax buffer maxBytes flushIncomplete =
      some (piece, remaining)) :
    buffer = piece ++ remaining ∧ piece ≠ [] ∧ IsPiece maxBytes piece ∧
      ∀ done more, flushIncomplete = false ∨ more = [] →
        Utf8.CleanCut (done ++ (buffer ++ more)) done.length →
          Utf8.CleanCut (done ++ (buffer ++ more)) (done ++ piece).length := by
  obtain ⟨length, found, cut⟩ := Option.map_eq_some_iff.mp split
  rw [List.splitAt_eq, Prod.mk.injEq] at cut
  obtain ⟨rfl, rfl⟩ := cut
  have nonempty : buffer ≠ [] := by
    rintro rfl
    cases found
  have positive := List.length_pos_iff.mpr nonempty
  have single : (buffer.take 1).length = 1 := by
    rw [List.length_take]
    omega
  refine ⟨(List.take_append_drop _ _).symm, ?_⟩
  rcases splitLength_cases enough nonempty flushIncomplete with
    ⟨valid, other, some, inside, fits, tiled⟩ | ⟨⟨errorLen, invalid⟩, other⟩ | ⟨incomplete, other⟩
  · rw [other, Option.some.injEq] at found
    subst found
    have sized : (buffer.take valid).length = valid := List.length_take_of_le inside
    have proper : buffer.take valid ≠ [] := List.ne_nil_of_length_pos (by omega)
    refine ⟨proper, .inl ⟨(Utf8.fromUtf8_ok_iff _).mpr tiled, proper, by omega⟩, ?_⟩
    intro done more _ clean
    rw [← List.take_append_drop valid buffer, List.append_assoc] at clean ⊢
    rw [List.take_left' sized]
    exact clean.tiled tiled
  · rw [other, Option.some.injEq] at found
    subst found
    refine ⟨List.ne_nil_of_length_pos (by omega), .inr single, ?_⟩
    intro done more _ clean
    rw [List.length_append, single]
    apply clean.single
    intro width read
    rw [Utf8.readFront_append (by rw [invalid]; intro wrong; cases wrong), invalid] at read
    cases read
  cases flushIncomplete with
  | false =>
    rw [other] at found
    cases found
  | true =>
    rw [other, if_pos rfl, Option.some.injEq] at found
    subst found
    refine ⟨List.ne_nil_of_length_pos (by omega), .inr single, ?_⟩
    intro done more ended clean
    rcases ended with waits | rfl
    · cases waits
    rw [List.length_append, single]
    apply clean.single
    intro width read
    rw [List.append_nil, incomplete] at read
    cases read

/-- The run lemma of the loop: nothing is lost, every piece is one that may be emitted, every cut
    is clean and the loop has ended. -/
theorem splitAll_spec {maxBytes fuel : Nat} {flushIncomplete : Bool} {buffer : Bytes}
    (enough : 4 ≤ maxBytes) (fuelled : buffer.length ≤ fuel) :
    (splitAll maxBytes flushIncomplete fuel buffer).1.flatten ++
        (splitAll maxBytes flushIncomplete fuel buffer).2 = buffer ∧
      (∀ piece ∈ (splitAll maxBytes flushIncomplete fuel buffer).1, IsPiece maxBytes piece) ∧
      splitValidUtf8PrefixWithMax (splitAll maxBytes flushIncomplete fuel buffer).2 maxBytes
        flushIncomplete = none ∧
      ∀ done more, flushIncomplete = false ∨ more = [] →
        Utf8.CleanCut (done ++ (buffer ++ more)) done.length →
          ∀ front back, (splitAll maxBytes flushIncomplete fuel buffer).1 = front ++ back →
            Utf8.CleanCut (done ++ (buffer ++ more)) (done ++ front.flatten).length := by
  induction fuel generalizing buffer with
  | zero =>
    obtain rfl := List.eq_nil_of_length_eq_zero (Nat.le_zero.mp fuelled)
    refine ⟨rfl, ?_, rfl, ?_⟩
    · intro piece member
      cases member
    · intro done more _ clean front back cut
      obtain ⟨rfl, -⟩ := List.append_eq_nil_iff.mp cut.symm
      rw [List.flatten_nil, List.append_nil]
      exact clean
  | succ fuel ih =>
    rw [splitAll]
    split
    · next stuck =>
      refine ⟨rfl, ?_, stuck, ?_⟩
      · intro piece member
        cases member
      · intro done more _ clean front back cut
        obtain ⟨rfl, -⟩ := List.append_eq_nil_iff.mp cut.symm
        rw [List.flatten_nil, List.append_nil]
        exact clean
    next piece remaining found =>
    obtain ⟨rfl, nonempty, ok, keeps⟩ := splitValidUtf8PrefixWithMax_some enough found
    have positive := List.length_pos_iff.mpr nonempty
    rw [List.length_append] at fuelled
    obtain ⟨whole, pieces, ended, cuts⟩ := @ih remaining (by omega)
    refine ⟨?_, ?_, ended, ?_⟩
    · rw [List.flatten_cons, List.append_assoc, whole]
    · intro other member
      rcases List.mem_cons.mp member with rfl | member
      · exact ok
      · exact pieces other member
    intro done more ended clean front back cut
    cases front with
    | nil =>
      rw [List.flatten_nil, List.append_nil]
      exact clean
    | cons head front =>
      rw [List.cons_append, List.cons.injEq] at cut
      obtain ⟨rfl, cut⟩ := cut
      have next := keeps done more ended clean
      rw [List.append_assoc, ← List.append_assoc done] at next ⊢
      rw [List.flatten_cons, ← List.append_assoc done]
      exact cuts (done ++ piece) more ended next front back cut

namespace DeltaStream

/-- The invariant of a stream that is not finished. -/
structure Accounted (maxBytes : Nat) (received : Bytes) (stream : DeltaStream) : Prop where
  whole : stream.emitted.flatten ++ stream.pending = received
  pieces : ∀ piece ∈ stream.emitted, IsPiece maxBytes piece
  cuts : ∀ more front back, stream.emitted = front ++ back →
    Utf8.CleanCut (received ++ more) front.flatten.length

theorem Accounted.emitPending {received : Bytes} {stream : DeltaStream}
    (accounted : Accounted maxBytes received stream) (enough : 4 ≤ maxBytes)
    (flushIncomplete : Bool) :
    (stream.emitPending maxBytes flushIncomplete).emitted.flatten ++
        (stream.emitPending maxBytes flushIncomplete).pending = received ∧
      (∀ piece ∈ (stream.emitPending maxBytes flushIncomplete).emitted, IsPiece maxBytes piece) ∧
      splitValidUtf8PrefixWithMax (stream.emitPending maxBytes flushIncomplete).pending maxBytes
        flushIncomplete = none ∧
      ∀ more, flushIncomplete = false ∨ more = [] → ∀ front back,
        (stream.emitPending maxBytes flushIncomplete).emitted = front ++ back →
          Utf8.CleanCut (received ++ more) front.flatten.length := by
  obtain ⟨rfl, pieces, cuts⟩ := accounted
  obtain ⟨whole, split, ended, clean⟩ :=
    @splitAll_spec maxBytes stream.pending.length flushIncomplete stream.pending enough
      (Nat.le_refl _)
  refine ⟨?_, ?_, ended, ?_⟩
  · show (stream.emitted ++ _).flatten ++ _ = _
    rw [List.flatten_append, List.append_assoc]
    exact congrArg (stream.emitted.flatten ++ ·) whole
  · intro piece member
    rcases List.mem_append.mp member with earlier | new
    · exact pieces piece earlier
    · exact split piece new
  intro more allowed front back cut
  rcases List.append_eq_append_iff.mp cut with ⟨new, rfl, divided⟩ | ⟨old, divided, -⟩
  · rw [List.flatten_append, List.append_assoc]
    apply clean _ _ allowed _ new back divided
    rw [← List.append_assoc]
    exact cuts more stream.emitted [] (List.append_nil _).symm
  · exact cuts more front old divided

theorem Accounted.receive {received : Bytes} {stream : DeltaStream}
    (accounted : Accounted maxBytes received stream) (enough : 4 ≤ maxBytes) (chunk : Bytes) :
    Accounted maxBytes (received ++ chunk) (stream.receive maxBytes chunk) := by
  have arrived : Accounted maxBytes (received ++ chunk)
      { stream with pending := stream.pending ++ chunk } := by
    refine ⟨?_, accounted.pieces, ?_⟩
    · show stream.emitted.flatten ++ (stream.pending ++ chunk) = received ++ chunk
      rw [← List.append_assoc, accounted.whole]
    · intro more front back cut
      rw [List.append_assoc]
      exact accounted.cuts (chunk ++ more) front back cut
  obtain ⟨whole, pieces, -, cuts⟩ := arrived.emitPending enough false
  exact ⟨whole, pieces, fun more => cuts more (.inl rfl)⟩

theorem accounted_receiveAll (enough : 4 ≤ maxBytes) (chunks : List Bytes) :
    Accounted maxBytes chunks.flatten (receiveAll maxBytes chunks) := by
  induction chunks using List.reverseRecOn with
  | nil =>
    refine ⟨rfl, ?_, ?_⟩
    · intro piece member
      cases member
    · intro more front back cut
      obtain ⟨rfl, -⟩ := List.append_eq_nil_iff.mp cut.symm
      exact Utf8.CleanCut.zero _
  | append_singleton chunks chunk ih =>
    rw [receiveAll, List.foldl_concat, List.flatten_append, List.flatten_singleton]
    exact ih.receive enough chunk

/-- Between two chunks the loop has run to its end. -/
theorem receiveAll_ended (enough : 4 ≤ maxBytes) (chunks : List Bytes) :
    splitValidUtf8PrefixWithMax (receiveAll maxBytes chunks).pending maxBytes false = none := by
  induction chunks using List.reverseRecOn with
  | nil => rfl
  | append_singleton chunks chunk _ =>
    rw [receiveAll, List.foldl_concat]
    exact (splitAll_spec enough (Nat.le_refl _)).2.2.1

theorem holdsBack_receiveAll (enough : 4 ≤ maxBytes) (chunks : List Bytes) :
    HoldsBack chunks.flatten (receiveAll maxBytes chunks).pending := by
  have accounted := accounted_receiveAll enough chunks
  have waiting : (receiveAll maxBytes chunks).pending = [] ∨
      Utf8.Completable (receiveAll maxBytes chunks).pending := by
    rcases splitValidUtf8PrefixWithMax_none enough (receiveAll_ended enough chunks) with
      empty | ⟨-, completable⟩
    · exact .inl empty
    · exact .inr completable
  refine ⟨waiting, ?_⟩
  intro front suffix ends completable
  have whole := accounted.whole
  rw [ends] at whole
  have last : ∀ more, Utf8.CleanCut (front ++ suffix ++ more)
      (receiveAll maxBytes chunks).emitted.flatten.length := by
    intro more
    have clean := accounted.cuts more _ [] (List.append_nil _).symm
    rw [ends] at clean
    exact clean
  have inside : (receiveAll maxBytes chunks).emitted.flatten.length ≤ (front ++ suffix).length := by
    rw [← whole, List.length_append]
    omega
  have before := Utf8.CleanCut.le_of_completable last completable inside
  obtain ⟨held, pending⟩ : ∃ held, (receiveAll maxBytes chunks).pending = held ++ suffix := by
    rcases List.append_eq_append_iff.mp whole with ⟨held, -, pending⟩ | ⟨held, emitted, rest⟩
    · exact ⟨held, pending⟩
    · rw [emitted, List.length_append] at before
      obtain rfl := List.eq_nil_of_length_eq_zero (show held.length = 0 by omega)
      exact ⟨[], rest.symm⟩
  rw [pending]
  rcases waiting with empty | whole
  · rw [pending, List.append_eq_nil_iff] at empty
    exact absurd empty.2 completable.1
  · rw [pending] at whole
    rw [whole.eq_of_append completable, List.nil_append]

end DeltaStream

/-- Splitting loses nothing and divides no character. However the input is cut into chunks, what
    was emitted and what is pending make up what arrived, the loop has ended, and exactly an
    incomplete sequence that can be completed is held back. When the stream is finished, the
    pieces make up the input, each is valid text within the maximum or a single byte, and none
    of their ends lies inside a scalar value of the input. -/
theorem deltaStream_splits {maxBytes : Nat} (enough : 4 ≤ maxBytes) (chunks : List Bytes) :
    ((DeltaStream.receiveAll maxBytes chunks).emitted.flatten ++
        (DeltaStream.receiveAll maxBytes chunks).pending = chunks.flatten ∧
      splitValidUtf8PrefixWithMax (DeltaStream.receiveAll maxBytes chunks).pending maxBytes false =
        none ∧
      HoldsBack chunks.flatten (DeltaStream.receiveAll maxBytes chunks).pending) ∧
    ((DeltaStream.receiveAll maxBytes chunks).finish maxBytes).emitted.flatten = chunks.flatten ∧
      ((DeltaStream.receiveAll maxBytes chunks).finish maxBytes).pending = [] ∧
      (∀ piece ∈ ((DeltaStream.receiveAll maxBytes chunks).finish maxBytes).emitted,
        IsPiece maxBytes piece) ∧
      Undivided chunks.flatten
        ((DeltaStream.receiveAll maxBytes chunks).finish maxBytes).emitted := by
  have accounted := DeltaStream.accounted_receiveAll enough chunks
  refine ⟨⟨accounted.whole, DeltaStream.receiveAll_ended enough chunks,
    DeltaStream.holdsBack_receiveAll enough chunks⟩, ?_⟩
  obtain ⟨whole, pieces, ended, cuts⟩ := accounted.emitPending enough true
  have flushed : ((DeltaStream.receiveAll maxBytes chunks).finish maxBytes).pending = [] := by
    rcases splitValidUtf8PrefixWithMax_none enough ended with empty | ⟨waits, -⟩
    · exact empty
    · cases waits
  refine ⟨?_, flushed, pieces, ?_⟩
  · rw [← whole]
    show _ = _ ++ ((DeltaStream.receiveAll maxBytes chunks).finish maxBytes).pending
    rw [flushed, List.append_nil]
    rfl
  · intro front back cut
    have clean := cuts [] (.inr rfl) front back cut
    rw [List.append_nil] at clean
    exact clean

/-- A three-byte character that the maximum would divide, after an invalid byte. -/
theorem deltaStream_splits_straddling :
    ((DeltaStream.receiveAll 4 [[0xff, 0x61, 0x62, 0xe2, 0x82], [0xac]]).finish 4).emitted.flatten =
      [[0xff, 0x61, 0x62, 0xe2, 0x82], [0xac]].flatten :=
  (deltaStream_splits (by decide) [[0xff, 0x61, 0x62, 0xe2, 0x82], [0xac]]).2.1

end Codex.UnifiedExec
