import Codex.Lib.CharBoundary
import Codex.Lib.Slice

/-!
# Truncation of the middle of a text

`utils/string/src/truncate.rs`. What panics in the source is `none`.
-/

namespace Codex.Truncation

open Text

def APPROX_BYTES_PER_TOKEN : Nat := 4

/-- `usize::saturating_mul`. -/
def saturatingMul (a b : Nat) : Nat := min (a * b) (2 ^ 64 - 1)

/-- `token_byte_estimate` (`truncate.rs:218`). -/
def tokenByteEstimate (bytes : Nat) : Nat := Slice.divCeil bytes APPROX_BYTES_PER_TOKEN

/-- `approx_token_count` (`truncate.rs:156`). -/
def approxTokenCount (text : Text) : Nat := tokenByteEstimate (utf8Len text)

/-- `approx_bytes_for_tokens` (`truncate.rs:222`). -/
def approxBytesForTokens (tokens : Nat) : Nat := saturatingMul tokens APPROX_BYTES_PER_TOKEN

/-- `split_budget` (`truncate.rs:237`). -/
def splitBudget (budget : Nat) : Nat × Nat := (budget / 2, budget - budget / 2)

/-- `split_boundaries` (`truncate.rs:227`). -/
def splitBoundaries (s : Text) (beginningBytes endBytes : Nat) : Option (Text × Text) :=
  let prefixEnd := floorCharBoundary s (min beginningBytes (utf8Len s))
  let suffixStart := max (ceilCharBoundary s (utf8Len s - endBytes)) prefixEnd
  (getTo s prefixEnd).bind fun left => (getFrom s suffixStart).map fun right => (left, right)

/-- `format_truncation_marker` (`truncate.rs:242`). -/
def formatTruncationMarker (useTokens : Bool) (removedCount : Nat) : Text :=
  if useTokens then
    "…approximately ".toList ++ (Nat.repr removedCount).toList ++ " tokens truncated…".toList
  else "…".toList ++ (Nat.repr removedCount).toList ++ " chars truncated…".toList

/-- `removed_units` (`truncate.rs:250`). -/
def removedUnits (useTokens : Bool) (removedBytes removedChars : Nat) : Nat :=
  if useTokens then tokenByteEstimate removedBytes else removedChars

/-- `assemble_truncated_output` (`truncate.rs:258`). -/
def assembleTruncatedOutput (front back marker : Text) : Text := front ++ marker ++ back

/-- `truncate_with_byte_estimate` (`truncate.rs:114`). -/
def truncateWithByteEstimate (s : Text) (maxBytes : Nat) (useTokens : Bool) : Option Text :=
  if s = [] then some []
  else if maxBytes = 0 then
    some (formatTruncationMarker useTokens
      (removedUnits useTokens (utf8Len s) (if useTokens then 0 else s.length)))
  else if utf8Len s ≤ maxBytes then some s
  else
    (splitBoundaries s (splitBudget maxBytes).1 (splitBudget maxBytes).2).bind fun halves =>
      (checkedSub (utf8Len s) (utf8Len halves.2)).bind fun stop =>
        (if useTokens then some 0
          else (getRange s (utf8Len halves.1) stop).map List.length).bind fun removedChars =>
          (checkedSub (utf8Len s) (utf8Len halves.1)).bind fun behind =>
            (checkedSub behind (utf8Len halves.2)).map fun removedBytes =>
              assembleTruncatedOutput halves.1 halves.2 <|
                formatTruncationMarker useTokens (removedUnits useTokens removedBytes removedChars)

/-- `truncate_middle_chars` (`truncate.rs:7`). -/
def truncateMiddleChars (s : Text) (maxBytes : Nat) : Option Text :=
  truncateWithByteEstimate s maxBytes false

/-- The loop that fills the prefix (`truncate.rs:20`). -/
def pushPrefix (leftBudget : Nat) : Text → List Text → Option Text
  | front, [] => some front
  | front, part :: parts =>
      (checkedSub leftBudget (utf8Len front)).bind fun remaining =>
        if remaining < utf8Len part then
          (getTo part (floorCharBoundary part remaining)).map fun head => front ++ head
        else pushPrefix leftBudget (front ++ part) parts

/-- The loop that collects the suffix from the last part on (`truncate.rs:30`). -/
def pushSuffix : Nat → List Text → List Text → Option (List Text)
  | _, suffixParts, [] => some suffixParts
  | remaining, suffixParts, part :: parts =>
      if remaining < utf8Len part then
        (getFrom part (ceilCharBoundary part (utf8Len part - remaining))).map fun tail =>
          suffixParts ++ [tail]
      else pushSuffix (remaining - utf8Len part) (suffixParts ++ [part]) parts

/-- `truncate_middle_chars_from_parts` (`truncate.rs:13`). -/
def truncateMiddleCharsFromParts (parts : List Text) (maxBytes : Nat) : Option Text :=
  if (parts.map utf8Len).sum ≤ maxBytes then some parts.flatten
  else
    (pushPrefix (splitBudget maxBytes).1 [] parts).bind fun front =>
      (pushSuffix (splitBudget maxBytes).2 [] parts.reverse).bind fun suffixParts =>
        let back := suffixParts.reverse.flatten
        (checkedSub (parts.map List.length).sum front.length).bind fun behind =>
          (checkedSub behind back.length).map fun removedChars =>
            assembleTruncatedOutput front back (formatTruncationMarker false removedChars)

/-- `rescale` (`truncate.rs:79`). -/
def rescale (contentTokens markerTokens bytes tokens : Nat) : Nat :=
  saturatingMul bytes contentTokens / max (tokens - markerTokens) 1

/-- The loop (`truncate.rs:85`). -/
def searchBudget (s : Text) (maxTokens contentTokens markerTokens attempt contentBytes : Nat)
    (underfilled : Option (Nat × Text)) : Option Text :=
  (truncateWithByteEstimate s contentBytes true).bind fun truncated =>
    let tokens := approxTokenCount truncated
    if tokens ≤ maxTokens then
      -- Retry once from the rescaled size, and keep this fit.
      let grown := min (rescale contentTokens markerTokens contentBytes tokens) (utf8Len s - 1)
      if first : attempt = 0 ∧ contentBytes < grown then
        searchBudget s maxTokens contentTokens markerTokens (attempt + 1) grown
          (some (contentBytes, truncated))
      else
        some (((underfilled.filter fun fit => contentBytes ≤ fit.1).map Prod.snd).getD truncated)
    else if _exhausted : contentBytes = 0 then some ((underfilled.map Prod.snd).getD [])
    else
      let minimumStep := if attempt < 3 then 1 else Slice.divCeil contentBytes 8
      searchBudget s maxTokens contentTokens markerTokens (attempt + 1)
        (min (rescale contentTokens markerTokens contentBytes tokens) (contentBytes - minimumStep))
        underfilled
termination_by (if attempt = 0 then 1 else 0, contentBytes)
decreasing_by
  · rw [if_pos first.1]
    exact Prod.Lex.left _ _ Nat.zero_lt_one
  have positive : 0 < minimumStep := by
    simp only [minimumStep]
    split
    · exact Nat.one_pos
    · exact Slice.divCeil_pos (by decide) (Nat.pos_of_ne_zero _exhausted)
  by_cases first : attempt = 0
  · rw [if_pos first]
    exact Prod.Lex.left _ _ Nat.zero_lt_one
  · rw [if_neg first]
    refine Prod.Lex.right _ ?_
    apply lt_of_le_of_lt (Nat.min_le_right _ _)
    exact Nat.sub_lt (Nat.pos_of_ne_zero _exhausted) positive

/-- `truncate_middle_with_token_budget` (`truncate.rs:53`): the text, and the count of its tokens
    where it was truncated. -/
def truncateMiddleWithTokenBudget (s : Text) (maxTokens : Nat) : Option (Text × Option Nat) :=
  if s = [] then some ([], none)
  else
    let totalTokens := approxTokenCount s
    if maxTokens = 0 then some ([], some totalTokens)
    else if totalTokens ≤ maxTokens then some (s, none)
    else
      let markerTokens :=
        approxTokenCount (formatTruncationMarker true (tokenByteEstimate (utf8Len s)))
      let contentTokens := maxTokens - markerTokens
      let contentBytes := min (saturatingMul (utf8Len s) contentTokens / totalTokens)
        (approxBytesForTokens contentTokens)
      (searchBudget s maxTokens contentTokens markerTokens 0 contentBytes none).map fun text =>
        (text, some totalTokens)

/-- The text with a part in the middle replaced by the marker that counts it. -/
def IsCut (useTokens : Bool) (s result : Text) : Prop :=
  ∃ front removed back, s = front ++ removed ++ back ∧
    result = front ++ formatTruncationMarker useTokens
      (removedUnits useTokens (utf8Len removed) removed.length) ++ back

/-- The part that a budget of bytes leaves out. -/
structure Leaves (s : Text) (beginningBytes endBytes : Nat) (front removed back : Text) : Prop where
  split : s = front ++ removed ++ back
  floor : utf8Len front = floorCharBoundary s beginningBytes
  ceil : utf8Len (front ++ removed) = ceilCharBoundary s (utf8Len s - endBytes)

variable {s front removed back : Text}

theorem exists_leaves {beginningBytes endBytes : Nat}
    (inside : beginningBytes + endBytes ≤ utf8Len s) :
    ∃ front removed back, Leaves s beginningBytes endBytes front removed back := by
  obtain ⟨front, rest, split, frontSize, frontLe⟩ := exists_floorCharBoundary s beginningBytes
  obtain ⟨before, back, splitBack, beforeSize, beforeLe⟩ :=
    exists_ceilCharBoundary (Nat.sub_le (utf8Len s) endBytes)
  obtain ⟨removed, isRemoved, _⟩ :=
    exists_append_of_utf8Len_le (split.symm.trans splitBack) (by omega)
  subst isRemoved
  exact ⟨front, removed, back, splitBack, frontSize, beforeSize⟩

theorem Leaves.splitBoundaries {beginningBytes endBytes : Nat}
    (leaves : Leaves s beginningBytes endBytes front removed back)
    (inside : beginningBytes ≤ utf8Len s) :
    splitBoundaries s beginningBytes endBytes = some (front, back) := by
  obtain ⟨split, floor, ceil⟩ := leaves
  have order : utf8Len front ≤ utf8Len (front ++ removed) := by
    rw [utf8Len_append]
    exact Nat.le_add_right _ _
  rw [Truncation.splitBoundaries, Nat.min_eq_left inside, ← floor, ← ceil, Nat.max_eq_left order]
  have toFront : getTo s (utf8Len front) = some front := by
    rw [split, List.append_assoc, getTo_append]
  have fromBack : getFrom s (utf8Len (front ++ removed)) = some back := by
    rw [split, getFrom_append]
  rw [toFront, Option.bind_some, fromBack, Option.map_some]

/-- Without a budget nothing is retained. -/
theorem Leaves.of_zero (leaves : Leaves s 0 0 front removed back) :
    front = [] ∧ removed = s ∧ back = [] := by
  obtain ⟨split, floor, ceil⟩ := leaves
  have frontNil : front = [] :=
    utf8Len_eq_zero (floor.trans (Nat.le_zero.mp (floorCharBoundary_le s 0)))
  rw [frontNil, List.nil_append, Nat.sub_zero, ceilCharBoundary_utf8Len] at ceil
  rw [frontNil, List.nil_append] at split
  obtain ⟨same, backNil⟩ := eq_of_append_eq (split.symm.trans (List.append_nil s).symm) ceil
  exact ⟨frontNil, same, backNil⟩

/-- What is returned for a budget below the size of the text. -/
theorem truncateWithByteEstimate_eq {maxBytes : Nat} (useTokens : Bool)
    (below : maxBytes < utf8Len s)
    (leaves : Leaves s (splitBudget maxBytes).1 (splitBudget maxBytes).2 front removed back) :
    truncateWithByteEstimate s maxBytes useTokens =
      some (front ++ formatTruncationMarker useTokens
        (removedUnits useTokens (utf8Len removed) removed.length) ++ back) := by
  have nonempty : s ≠ [] := by
    rintro rfl
    exact absurd below (Nat.not_lt_zero maxBytes)
  rw [truncateWithByteEstimate, if_neg nonempty]
  by_cases zero : maxBytes = 0
  · rw [if_pos zero]
    rw [zero] at leaves
    obtain ⟨rfl, rfl, rfl⟩ := leaves.of_zero
    rw [List.nil_append, List.append_nil]
    cases useTokens <;> rfl
  rw [if_neg zero, if_neg (Nat.not_le.mpr below)]
  have half : (splitBudget maxBytes).1 ≤ maxBytes := Nat.div_le_self maxBytes 2
  have size : utf8Len s = utf8Len back + utf8Len (front ++ removed) := by
    rw [leaves.split, utf8Len_append, Nat.add_comm]
  have sizeFront : utf8Len s = utf8Len front + (utf8Len back + utf8Len removed) := by
    rw [size, utf8Len_append]
    omega
  have chars : (if useTokens then some 0
      else (getRange s (utf8Len front) (utf8Len (front ++ removed))).map List.length) =
      some (if useTokens then 0 else removed.length) := by
    cases useTokens with
    | true => rfl
    | false =>
      rw [leaves.split, getRange_append]
      rfl
  rw [leaves.splitBoundaries (by omega), Option.bind_some, size, checkedSub_add,
    Option.bind_some, ← size, chars, Option.bind_some, sizeFront, checkedSub_add,
    Option.bind_some, checkedSub_add, Option.map_some]
  cases useTokens <;> rfl

theorem splitBudget_add (maxBytes : Nat) :
    (splitBudget maxBytes).1 + (splitBudget maxBytes).2 = maxBytes :=
  Nat.add_sub_of_le (Nat.div_le_self maxBytes 2)

theorem truncateWithByteEstimate_isCut {maxBytes : Nat} (useTokens : Bool)
    (below : maxBytes < utf8Len s) :
    ∃ result, truncateWithByteEstimate s maxBytes useTokens = some result ∧
      IsCut useTokens s result := by
  obtain ⟨front, removed, back, leaves⟩ :=
    exists_leaves ((splitBudget_add maxBytes).trans_le below.le)
  exact ⟨_, truncateWithByteEstimate_eq useTokens below leaves, front, removed, back,
    leaves.split, rfl⟩

theorem utf8Len_flatten (parts : List Text) :
    utf8Len parts.flatten = (parts.map utf8Len).sum := by
  induction parts with
  | nil => rfl
  | cons part parts ih => rw [List.flatten_cons, utf8Len_append, ih, List.map_cons, List.sum_cons]

/-- The prefix of the parts is the prefix of their concatenation. -/
theorem pushPrefix_spec {leftBudget : Nat} {acc : Text} {parts : List Text} {front back : Text}
    (fits : utf8Len acc ≤ leftBudget) (split : parts.flatten = front ++ back)
    (size : utf8Len front = floorCharBoundary parts.flatten (leftBudget - utf8Len acc)) :
    pushPrefix leftBudget acc parts = some (acc ++ front) := by
  induction parts generalizing acc front with
  | nil =>
    have nothing : front = [] := by
      rw [List.flatten_nil] at split
      exact (List.nil_eq_append_iff.mp split).1
    rw [pushPrefix, nothing, List.append_nil]
  | cons part parts ih =>
    rw [pushPrefix, checkedSub, if_pos fits, Option.bind_some]
    rw [List.flatten_cons] at split size
    rw [floorCharBoundary_append] at size
    split
    · next short =>
      rw [if_neg (Nat.not_le.mpr short)] at size
      obtain ⟨head, tail, isPart, headSize, _⟩ :=
        exists_floorCharBoundary part (leftBudget - utf8Len acc)
      have same : head = front := by
        rw [isPart, List.append_assoc] at split
        exact (eq_of_append_eq split (headSize.trans size.symm)).1
      rw [← headSize]
      conv_lhs => rw [isPart]
      rw [getTo_append, Option.map_some, same]
    next long =>
    have le := Nat.not_lt.mp long
    rw [if_pos le] at size
    obtain ⟨more, isFront, rest⟩ := exists_append_of_utf8Len_le split (by omega)
    rw [isFront, ← List.append_assoc]
    apply ih
    · rw [utf8Len_append]
      omega
    · exact rest
    · rw [isFront, utf8Len_append] at size
      rw [utf8Len_append, ← Nat.sub_sub]
      omega

/-- The suffix of the parts is the suffix of their concatenation. -/
theorem pushSuffix_spec {remaining : Nat} {acc parts : List Text} {front back : Text}
    (split : parts.reverse.flatten = front ++ back)
    (size : utf8Len front =
      ceilCharBoundary parts.reverse.flatten (utf8Len parts.reverse.flatten - remaining)) :
    ∃ suffixParts, pushSuffix remaining acc parts = some suffixParts ∧
      suffixParts.reverse.flatten = back ++ acc.reverse.flatten := by
  induction parts generalizing remaining acc back with
  | nil =>
    refine ⟨acc, rfl, ?_⟩
    have nothing : back = [] := by
      rw [List.reverse_nil, List.flatten_nil] at split
      exact (List.nil_eq_append_iff.mp split).2
    rw [nothing, List.nil_append]
  | cons part parts ih =>
    rw [List.reverse_cons, List.flatten_append, List.flatten_singleton] at split size
    generalize before : parts.reverse.flatten = whole at split size
    rw [utf8Len_append, ceilCharBoundary_append] at size
    rw [pushSuffix]
    split
    · next short =>
      rw [if_neg (by omega)] at size
      obtain ⟨head, tail, isPart, headSize, _⟩ :=
        exists_ceilCharBoundary (Nat.sub_le (utf8Len part) remaining)
      have index : utf8Len whole + utf8Len part - remaining - utf8Len whole =
          utf8Len part - remaining := by omega
      rw [index, ← headSize, ← utf8Len_append] at size
      rw [isPart, ← List.append_assoc] at split
      obtain ⟨_, isBack⟩ := eq_of_append_eq split size.symm
      refine ⟨acc ++ [tail], ?_, ?_⟩
      · rw [← headSize]
        conv_lhs => rw [isPart]
        rw [getFrom_append, Option.map_some]
      · rw [List.reverse_append, List.reverse_singleton, List.singleton_append, List.flatten_cons,
          isBack]
    · next long =>
      rw [if_pos (by omega)] at size
      have index : utf8Len whole + utf8Len part - remaining =
          utf8Len whole - (remaining - utf8Len part) := by omega
      rw [index] at size
      obtain ⟨_, _, isWhole, cutSize, _⟩ :=
        exists_ceilCharBoundary (Nat.sub_le (utf8Len whole) (remaining - utf8Len part))
      have le : utf8Len front ≤ utf8Len whole := by
        rw [size, ← cutSize, isWhole, utf8Len_append]
        exact Nat.le_add_right _ _
      obtain ⟨middle, isFront, isBack⟩ := exists_append_of_utf8Len_le split.symm le
      obtain ⟨suffixParts, pushed, all⟩ :=
        @ih (remaining - utf8Len part) (acc ++ [part]) middle (before.trans isFront)
          (by rw [before]; exact size)
      refine ⟨suffixParts, pushed, ?_⟩
      rw [all, isBack, List.reverse_append, List.reverse_singleton, List.singleton_append,
        List.flatten_cons, List.append_assoc]

/-- The parts are truncated as their concatenation is. -/
theorem truncateMiddleCharsFromParts_flatten (parts : List Text) (maxBytes : Nat) :
    truncateMiddleCharsFromParts parts maxBytes = truncateMiddleChars parts.flatten maxBytes ∧
      (truncateMiddleChars parts.flatten maxBytes).isSome := by
  rw [truncateMiddleCharsFromParts, ← utf8Len_flatten]
  split
  · next fits =>
    rw [truncateMiddleChars, truncateWithByteEstimate]
    by_cases empty : parts.flatten = []
    · rw [if_pos empty, empty]
      exact ⟨rfl, rfl⟩
    · have positive : maxBytes ≠ 0 := by
        rintro rfl
        exact empty (utf8Len_eq_zero (Nat.le_zero.mp fits))
      rw [if_neg empty, if_neg positive, if_pos fits]
      exact ⟨rfl, rfl⟩
  next exceeds =>
  have below := Nat.not_le.mp exceeds
  obtain ⟨front, removed, back, leaves⟩ :=
    exists_leaves ((splitBudget_add maxBytes).trans_le below.le)
  rw [truncateMiddleChars, truncateWithByteEstimate_eq false below leaves]
  refine ⟨?_, rfl⟩
  obtain ⟨split, floor, ceil⟩ := leaves
  have filled := @pushPrefix_spec (splitBudget maxBytes).1 [] parts front (removed ++ back)
    (Nat.zero_le _) (split.trans (List.append_assoc _ _ _)) floor
  rw [filled, List.nil_append, Option.bind_some]
  obtain ⟨suffixParts, pushed, isBack⟩ :=
    @pushSuffix_spec (splitBudget maxBytes).2 [] parts.reverse (front ++ removed) back
      (by rw [List.reverse_reverse]; exact split) (by rw [List.reverse_reverse]; exact ceil)
  rw [List.reverse_nil, List.flatten_nil, List.append_nil] at isBack
  rw [pushed, Option.bind_some, isBack]
  have chars : (parts.map List.length).sum = front.length + (back.length + removed.length) := by
    rw [← List.length_flatten, split, List.length_append, List.length_append]
    omega
  rw [chars, checkedSub_add, Option.bind_some, checkedSub_add, Option.map_some]
  rfl

/-- What the search may return. -/
def FitsBudget (s : Text) (maxTokens : Nat) (result : Text) : Prop :=
  approxTokenCount result ≤ maxTokens ∧ (result = [] ∨ IsCut true s result)

variable {s : Text} {maxTokens contentTokens markerTokens : Nat}

/-- The step of the search below the size of the text. -/
theorem searchBudget_step {attempt contentBytes : Nat} {underfilled : Option (Nat × Text)}
    (below : contentBytes < utf8Len s)
    (kept : ∀ fit, underfilled = some fit → FitsBudget s maxTokens fit.2) :
    (∃ result, searchBudget s maxTokens contentTokens markerTokens attempt contentBytes
        underfilled = some result ∧ FitsBudget s maxTokens result) ∨
      (attempt = 0 ∧ ∃ grown truncated, grown < utf8Len s ∧ FitsBudget s maxTokens truncated ∧
        searchBudget s maxTokens contentTokens markerTokens attempt contentBytes underfilled =
          searchBudget s maxTokens contentTokens markerTokens (attempt + 1) grown
            (some (contentBytes, truncated))) ∨
      ∃ smaller < contentBytes,
        searchBudget s maxTokens contentTokens markerTokens attempt contentBytes underfilled =
          searchBudget s maxTokens contentTokens markerTokens (attempt + 1) smaller
            underfilled := by
  obtain ⟨truncated, isTruncated, isCut⟩ := truncateWithByteEstimate_isCut true below
  rw [searchBudget, isTruncated, Option.bind_some]
  dsimp only
  split
  · next fits =>
    have truncatedFits : FitsBudget s maxTokens truncated := ⟨fits, .inr isCut⟩
    split
    · next first =>
      refine .inr (.inl ⟨first.1, _, truncated, ?_, truncatedFits, rfl⟩)
      exact lt_of_le_of_lt (Nat.min_le_right _ _) (by omega)
    · refine .inl ⟨_, rfl, ?_⟩
      cases found : underfilled.filter fun fit => contentBytes ≤ fit.1 with
      | none => exact truncatedFits
      | some fit => exact kept fit (Option.filter_eq_some_iff.mp found).1
  split
  · refine .inl ⟨_, rfl, ?_⟩
    cases underfilled with
    | none => exact ⟨Nat.zero_le _, .inl rfl⟩
    | some fit => exact kept fit rfl
  next remaining =>
  refine .inr (.inr ⟨_, ?_, rfl⟩)
  apply lt_of_le_of_lt (Nat.min_le_right _ _)
  apply Nat.sub_lt (Nat.pos_of_ne_zero remaining)
  split
  · exact Nat.one_pos
  · exact Slice.divCeil_pos (by decide) (Nat.pos_of_ne_zero remaining)

/-- After the first attempt the budget only shrinks. -/
theorem searchBudget_later {attempt contentBytes : Nat} {underfilled : Option (Nat × Text)}
    (later : attempt ≠ 0) (below : contentBytes < utf8Len s)
    (kept : ∀ fit, underfilled = some fit → FitsBudget s maxTokens fit.2) :
    ∃ result, searchBudget s maxTokens contentTokens markerTokens attempt contentBytes
      underfilled = some result ∧ FitsBudget s maxTokens result := by
  induction contentBytes using Nat.strong_induction_on generalizing attempt with
  | _ contentBytes ih =>
    rcases @searchBudget_step s maxTokens contentTokens markerTokens attempt contentBytes
      underfilled below kept with returned | ⟨first, _⟩ | ⟨smaller, less, same⟩
    · exact returned
    · exact absurd first later
    · rw [same]
      exact ih smaller less (Nat.succ_ne_zero attempt) (less.trans below)

theorem searchBudget_fits {contentBytes : Nat} (below : contentBytes < utf8Len s) :
    ∃ result, searchBudget s maxTokens contentTokens markerTokens 0 contentBytes none =
      some result ∧ FitsBudget s maxTokens result := by
  have noFit : ∀ fit : Nat × Text, none = some fit → FitsBudget s maxTokens fit.2 := by
    intro fit isFit
    cases isFit
  rcases @searchBudget_step s maxTokens contentTokens markerTokens 0 contentBytes none below noFit
    with returned | ⟨_, grown, truncated, grownBelow, fits, same⟩ | ⟨smaller, less, same⟩
  · exact returned
  · rw [same]
    apply searchBudget_later (Nat.succ_ne_zero 0) grownBelow
    intro fit isFit
    rw [← Option.some.inj isFit]
    exact fits
  · rw [same]
    exact searchBudget_later (Nat.succ_ne_zero 0) (less.trans below) noFit

/-- The estimate of a text is within a budget when its bytes are. -/
theorem approxTokenCount_le_iff {text : Text} {tokens : Nat} :
    approxTokenCount text ≤ tokens ↔ utf8Len text ≤ tokens * APPROX_BYTES_PER_TOKEN :=
  Slice.divCeil_le_iff (by decide)

/-- A text within a positive budget is returned as it is, and any other is cut to its budget. -/
theorem truncateMiddleWithTokenBudget_fits (s : Text) (maxTokens : Nat) :
    ∃ result original, truncateMiddleWithTokenBudget s maxTokens = some (result, original) ∧
      (result = s ↔ s = [] ∨ 0 < maxTokens ∧ approxTokenCount s ≤ maxTokens) ∧
      (original = none ↔ result = s) ∧
      (result ≠ s → original = some (approxTokenCount s) ∧
        approxTokenCount result ≤ maxTokens ∧ (result = [] ∨ IsCut true s result)) := by
  rw [truncateMiddleWithTokenBudget]
  by_cases empty : s = []
  · rw [if_pos empty]
    refine ⟨[], none, rfl, ?_, ?_, fun different => absurd empty.symm different⟩
    · exact ⟨fun _ => .inl empty, fun _ => empty.symm⟩
    · exact ⟨fun _ => empty.symm, fun _ => rfl⟩
  rw [if_neg empty]
  -- What is shorter than the text is not the text.
  have truncated : ∀ result, result ≠ s → (approxTokenCount result ≤ maxTokens) →
      (result = [] ∨ IsCut true s result) → ¬(0 < maxTokens ∧ approxTokenCount s ≤ maxTokens) →
      ∃ text original, some (result, some (approxTokenCount s)) = some (text, original) ∧
        (text = s ↔ s = [] ∨ 0 < maxTokens ∧ approxTokenCount s ≤ maxTokens) ∧
        (original = none ↔ text = s) ∧
        (text ≠ s → original = some (approxTokenCount s) ∧
          approxTokenCount text ≤ maxTokens ∧ (text = [] ∨ IsCut true s text)) := by
    intro result different fits cut exceeds
    refine ⟨result, _, rfl, ?_, ?_, fun _ => ⟨rfl, fits, cut⟩⟩
    · exact iff_of_false different (not_or.mpr ⟨empty, exceeds⟩)
    · exact iff_of_false (Option.some_ne_none _) different
  by_cases zero : maxTokens = 0
  · rw [if_pos zero]
    apply truncated [] (Ne.symm empty) (Nat.zero_le _) (.inl rfl)
    exact fun positive => absurd zero (Nat.pos_iff_ne_zero.mp positive.1)
  rw [if_neg zero]
  by_cases fits : approxTokenCount s ≤ maxTokens
  · rw [if_pos fits]
    refine ⟨s, none, rfl, ?_, ?_, fun different => absurd rfl different⟩
    · exact iff_of_true rfl (.inr ⟨Nat.pos_of_ne_zero zero, fits⟩)
    · exact iff_of_true rfl rfl
  rw [if_neg fits]
  have below : ∀ average, min average (approxBytesForTokens (maxTokens - approxTokenCount
      (formatTruncationMarker true (tokenByteEstimate (utf8Len s))))) < utf8Len s := by
    intro average
    apply lt_of_le_of_lt (Nat.min_le_right _ _)
    apply lt_of_le_of_lt (Nat.min_le_left _ _)
    rw [approxTokenCount_le_iff, Nat.not_le] at fits
    exact lt_of_le_of_lt (Nat.mul_le_mul_right _ (Nat.sub_le _ _)) fits
  obtain ⟨result, searched, resultFits, cut⟩ := searchBudget_fits (below _)
  dsimp only
  rw [searched, Option.map_some]
  apply truncated result _ resultFits cut (fun both => fits both.2)
  rintro rfl
  exact fits resultFits

/-- Middle truncation keeps its budget, and its two forms agree. -/
theorem truncateMiddle_spec (s : Text) (maxTokens : Nat) (parts : List Text) (maxBytes : Nat) :
    (∃ result original, truncateMiddleWithTokenBudget s maxTokens = some (result, original) ∧
      (result = s ↔ s = [] ∨ 0 < maxTokens ∧ approxTokenCount s ≤ maxTokens) ∧
      (original = none ↔ result = s) ∧
      (result ≠ s → original = some (approxTokenCount s) ∧
        approxTokenCount result ≤ maxTokens ∧ (result = [] ∨ IsCut true s result))) ∧
      truncateMiddleCharsFromParts parts maxBytes = truncateMiddleChars parts.flatten maxBytes ∧
      (truncateMiddleChars parts.flatten maxBytes).isSome :=
  ⟨truncateMiddleWithTokenBudget_fits s maxTokens,
    truncateMiddleCharsFromParts_flatten parts maxBytes⟩

end Codex.Truncation
