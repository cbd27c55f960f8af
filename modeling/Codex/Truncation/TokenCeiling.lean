import Codex.Truncation.JsonOutline

/-!
# Truncation to a ceiling of tokens

`utils/output-truncation/src/lib.rs`: a text over its budget keeps its head, a sample of its middle
and its tail, or its head and tail only, at line boundaries where there are some. What panics in
the source, and a loop that does not end, is `none`.
-/

namespace Codex.Truncation

open Text

/-! ## Retained regions -/

/-- `str::find('\n')`. -/
def findFeed (text : Text) : Option Nat :=
  if '\n' ∈ text then some (utf8Len (firstLine text)) else none

/-- `str::rfind('\n')`. -/
def rfindFeed (text : Text) : Option Nat :=
  if '\n' ∈ text then some (utf8Len text - utf8Len (lastLine text) - 1) else none

/-- A text behind a line feed. -/
def endsInFeed (text : Text) : Bool := text.getLast? = some '\n'

/-- `retained_text` (`lib.rs:588`): where the text starts in the content, and the text. -/
def retainedText (content : Text) (start stop : Nat) : Option (Nat × Text) := do
  let start := min start stop
  let region ← getRange content start stop
  let before ← getTo content start
  let lineStart :=
    if start = 0 ∨ endsInFeed before then 0
    else ((findFeed region).map (· + 1)).getD (utf8Len region)
  let lineEnd :=
    if stop = utf8Len content ∨ endsInFeed region then utf8Len region
    else ((rfindFeed region).map (· + 1)).getD 0
  if lineStart < lineEnd then
    let text ← getRange region lineStart lineEnd
    some (start + lineStart, text)
  else some (start, region)

/-! ## The head and the tail -/

def MARKER : Text := "\n[...]\n".toList

def ELLIPSIS : Text := "…".toList

/-- One attempt of the loop of `truncate_middle_to_token_ceiling` (`lib.rs:623`). -/
def headAndTail (content marker : Text) (bytes : Nat) : Option Text := do
  let half := if marker.isEmpty then bytes else Slice.divCeil bytes 2
  let head :=
    if floorCharBoundary content half = 0 then floorCharBoundary content bytes else half
  let tail ← checkedSub bytes head
  let front ← retainedText content 0 (floorCharBoundary content head)
  let tailStart ← checkedSub (utf8Len content) tail
  let back ← retainedText content (ceilCharBoundary content tailStart) (utf8Len content)
  some (front.2 ++ marker ++ back.2)

/-- The loop (`lib.rs:622`). An attempt over the budget that does not shrink is made again. -/
def middleLoop (content marker : Text) (maxTokens bytes : Nat) : Option Text :=
  (headAndTail content marker bytes).bind fun candidate =>
    let tokens := approxTokenCount candidate
    if tokens ≤ maxTokens then some candidate
    else
      (checkedSub maxTokens (approxTokenCount marker)).bind fun contentTokens =>
        (checkedSub tokens (approxTokenCount marker)).bind fun candidateTokens =>
          let smaller := min (saturatingMul bytes contentTokens / candidateTokens)
            (bytes - Slice.divCeil bytes 8)
          if _shrinks : smaller < bytes then middleLoop content marker maxTokens smaller else none
termination_by bytes

/-- The marker between the head and the tail (`lib.rs:612`). -/
def middleMarker (maxTokens : Nat) : Text :=
  if approxTokenCount MARKER + 4 ≤ maxTokens then MARKER
  else if 0 < maxTokens then ELLIPSIS
  else []

/-- `truncate_middle_to_token_ceiling` (`lib.rs:610`). -/
def truncateMiddleToTokenCeiling (content : Text) (maxTokens : Nat) : Option Text :=
  let marker := middleMarker maxTokens
  (checkedSub maxTokens (approxTokenCount marker)).bind fun contentTokens =>
    middleLoop content marker maxTokens
      (min (approxBytesForTokens contentTokens) (utf8Len content))

/-! ## Lines -/

/-- The line numbers of an omitted run, and whether a line at its ends is partly retained. -/
structure LineSpan where
  first : Nat
  last : Nat
  boundary : Bool
  deriving DecidableEq, Repr

/-- `omitted_line_span` (`lib.rs:216`). -/
def omittedLineSpan (content : Text) (start stop : Nat) : Option LineSpan := do
  let before ← getTo content start
  let omitted ← getRange content start stop
  let through ← getTo content stop
  let first := before.count '\n' + 1
  let last ← checkedSub (first + omitted.count '\n') (if endsInFeed through then 1 else 0)
  let boundary := (0 < start && !endsInFeed before) ||
    (stop < utf8Len content && 0 < stop && !endsInFeed through)
  some ⟨first, last, boundary⟩

/-- The text of `omitted_line_marker_at_lines` (`lib.rs:195`) with an offset of zero. -/
def omittedLineMarker (span : LineSpan) (total : Nat) : Text :=
  "\n[omitted lines ".toList ++ printNat span.first ++ "-".toList ++ printNat span.last ++
    " of ".toList ++ printNat total ++
    (if span.boundary then "; boundary lines partially retained".toList else []) ++ "]\n".toList

/-- `str::lines().count()`. -/
def lineCount (content : Text) : Nat := (splitInclusive content).length

/-! ## The head, a middle and the tail -/

def BEFORE_MIDDLE : Text := "\n[omitted before retained middle]\n".toList

def AFTER_MIDDLE : Text := "\n[omitted after retained middle]\n".toList

/-- The three retained texts, the last two with their places (`lib.rs:511`). -/
def sampleRegions (content : Text) (retainedBytes : Nat) :
    Option (Text × (Nat × Text) × (Nat × Text)) := do
  let head := saturatingMul retainedBytes 2 / 5
  let middle := retainedBytes / 5
  let behindHead ← checkedSub retainedBytes head
  let tail ← checkedSub behindHead middle
  let around ← checkedSub (utf8Len content) middle
  let middleStart := around / 2
  let headText ← retainedText content 0 (floorCharBoundary content head)
  let middleText ← retainedText content (ceilCharBoundary content middleStart)
    (floorCharBoundary content (middleStart + middle))
  let tailStart ← checkedSub (utf8Len content) tail
  let tailText ← retainedText content (ceilCharBoundary content tailStart) (utf8Len content)
  some (headText.2, middleText, tailText)

/-- One attempt of the loop of `truncate_over_budget_lines_with_markers` (`lib.rs:510`): the
    candidate, and the line ranges that it reports. -/
def attempt (content : Text) (retainedBytes : Nat) (lineMarkers : Bool) :
    Option (Text × List (Nat × Nat)) :=
  (sampleRegions content retainedBytes).bind fun (headText, middleText, tailText) =>
    if lineMarkers then
      (omittedLineSpan content (utf8Len headText) middleText.1).bind fun before =>
        (omittedLineSpan content (middleText.1 + utf8Len middleText.2) tailText.1).map fun after =>
          (headText ++ omittedLineMarker before (lineCount content) ++ middleText.2 ++
              omittedLineMarker after (lineCount content) ++ tailText.2,
            ([before, after].filter fun span => span.first ≤ span.last).map fun span =>
              (span.first, span.last))
    else some (headText ++ BEFORE_MIDDLE ++ middleText.2 ++ AFTER_MIDDLE ++ tailText.2, [])

/-- The loop (`lib.rs:510`). -/
def regionsLoop (content : Text) (maxTokens markerTokens : Nat) (lineMarkers : Bool)
    (retainedBytes : Nat) : Option (Text × List (Nat × Nat)) :=
  (attempt content retainedBytes lineMarkers).bind fun (candidate, omitted) =>
    let actualTokens := approxTokenCount candidate
    if actualTokens ≤ maxTokens then some (candidate, omitted)
    else
      (checkedSub maxTokens markerTokens).bind fun contentTokens =>
        (checkedSub actualTokens markerTokens).bind fun candidateTokens =>
          let smaller := min (saturatingMul retainedBytes contentTokens / candidateTokens)
            (retainedBytes - Slice.divCeil retainedBytes 8)
          if _small : smaller < 3 then
            (truncateMiddleToTokenCeiling content maxTokens).map fun text => (text, [])
          else regionsLoop content maxTokens markerTokens lineMarkers smaller
termination_by retainedBytes
decreasing_by
  have positive : 0 < retainedBytes := by omega
  have step := Slice.divCeil_pos (by decide : 0 < 8) positive
  omega

/-- `truncate_over_budget_lines_with_markers` (`lib.rs:483`). -/
def truncateOverBudgetLinesWithMarkers (content : Text) (maxTokens : Nat) (lineMarkers : Bool) :
    Option (Text × List (Nat × Nat)) :=
  let markerTokens := approxTokenCount BEFORE_MIDDLE + approxTokenCount AFTER_MIDDLE
  if maxTokens ≤ markerTokens + 4 then
    (truncateMiddleToTokenCeiling content maxTokens).map fun text => (text, [])
  else
    (checkedSub maxTokens markerTokens).bind fun contentTokens =>
      regionsLoop content maxTokens markerTokens lineMarkers
        (min (approxBytesForTokens contentTokens) (utf8Len content - 1))

section Serde

variable (serde : SerdeJson)

/-- `truncate_over_budget_text_with_markers` (`lib.rs:466`). -/
def truncateOverBudgetTextWithMarkers (content : Text) (maxTokens : Nat) (lineMarkers : Bool) :
    Option (Text × List (Nat × Nat)) :=
  if maxTokens = 0 then some ([], [])
  else
    (outlineOversizedJsonLines serde content maxTokens).bind fun outlined =>
      match outlined with
      | some outlined =>
          if approxTokenCountExceeds outlined maxTokens then
            truncateOverBudgetLinesWithMarkers outlined maxTokens lineMarkers
          else some (outlined, [])
      | none => truncateOverBudgetLinesWithMarkers content maxTokens lineMarkers

/-- `truncate_text_to_token_ceiling` (`lib.rs:166`) with the function it wraps. -/
def truncateTextToTokenCeiling (content : Text) (maxTokens : Nat) : Option Text :=
  if approxTokenCountExceeds content maxTokens then
    if maxTokens = 0 then some []
    else (truncateOverBudgetTextWithMarkers serde content maxTokens false).map Prod.fst
  else some content

/-- `truncate_text_with_line_markers` (`lib.rs:186`). -/
def truncateTextWithLineMarkers (content : Text) (maxTokens : Nat) : Option Text :=
  if approxTokenCountExceeds content maxTokens then
    (truncateOverBudgetTextWithMarkers serde content maxTokens true).map Prod.fst
  else some content

/-- `TruncatedTextOutput` (`lib.rs:71`). -/
structure TruncatedTextOutput where
  text : Text
  wasTruncated : Bool
  deriving DecidableEq, Repr

/-- The header of a truncated text (`lib.rs:686`). -/
def truncationWarning (content : Text) : Text :=
  "Warning: truncated output (estimated original tokens: ".toList ++
    printNat (approxTokenCount content) ++ ")\nTotal output lines: ".toList ++
    printNat (lineCount content) ++ "\n\n".toList

/-- `formatted_truncate_text_to_token_ceiling` (`lib.rs:664`). -/
def formattedTruncateTextToTokenCeiling (content : Text) (maxTokens : Nat) (lineMarkers : Bool) :
    Option (TruncatedTextOutput × List (Nat × Nat)) :=
  if maxTokens = 0 then some (⟨[], !content.isEmpty⟩, [])
  else if approxTokenCount content ≤ maxTokens then some (⟨content, false⟩, [])
  else
    let warning := truncationWarning content
    let warningTokens := approxTokenCount warning
    if saturatingMul warningTokens 2 < maxTokens then
      (checkedSub maxTokens warningTokens).bind fun textTokens =>
        (truncateOverBudgetTextWithMarkers serde content textTokens lineMarkers).map
          fun (text, omitted) => (⟨warning ++ text, true⟩, omitted)
    else
      (truncateOverBudgetTextWithMarkers serde content maxTokens lineMarkers).map
        fun (text, omitted) => (⟨text, true⟩, omitted)

end Serde

/-! ## What is retained -/

section Regions

variable {content : Text} {start stop : Nat}

theorem utf8Len_feed (text : Text) : utf8Len (text ++ ['\n']) = utf8Len text + 1 := by
  rw [utf8Len_append]
  rfl

/-- The line behind the first line feed starts at a boundary. -/
theorem findFeed_spec {text : Text} {index : Nat} (found : findFeed text = some index) :
    ∃ front back, text = front ++ back ∧ utf8Len front = index + 1 := by
  rw [findFeed] at found
  split at found
  next feed =>
    obtain ⟨middle, whole, _⟩ := exists_lines feed
    refine ⟨firstLine text ++ ['\n'], middle ++ lastLine text, ?_, ?_⟩
    · rw [List.append_assoc, List.singleton_append]
      exact whole
    · rw [utf8Len_feed, Option.some_inj.mp found]
  · cases found

/-- The last line feed ends at a boundary. -/
theorem rfindFeed_spec {text : Text} {index : Nat} (found : rfindFeed text = some index) :
    ∃ front back, text = front ++ back ∧ utf8Len front = index + 1 := by
  rw [rfindFeed] at found
  split at found
  next feed =>
    obtain ⟨middle, whole, _⟩ := exists_lines feed
    refine ⟨firstLine text ++ '\n' :: middle, lastLine text, ?_, ?_⟩
    · rw [List.append_assoc, List.cons_append]
      exact whole
    have size := congrArg utf8Len whole
    have feedSize : utf8Len ('\n' :: middle) = utf8Len middle + 1 := by
      rw [utf8Len_cons, Nat.add_comm]
      rfl
    have feedSizeAll : utf8Len ('\n' :: (middle ++ lastLine text)) =
        utf8Len middle + utf8Len (lastLine text) + 1 := by
      rw [utf8Len_cons, utf8Len_append, Nat.add_comm]
      rfl
    rw [utf8Len_append, feedSizeAll] at size
    rw [utf8Len_append, feedSize, ← Option.some_inj.mp found]
    omega
  · cases found

/-- A region that is snapped to lines is retained between two boundaries. -/
theorem retainedText_append {before region after : Text}
    (split : content = before ++ region ++ after) :
    ∃ dropped kept cut, region = dropped ++ kept ++ cut ∧
      retainedText content (utf8Len before) (utf8Len (before ++ region)) =
        some (utf8Len (before ++ dropped), kept) ∧
      (before = [] → dropped = []) ∧ (after = [] → cut = []) := by
  have le : utf8Len before ≤ utf8Len (before ++ region) := by
    rw [utf8Len_append]
    exact Nat.le_add_right _ _
  have slice : getRange content (utf8Len before) (utf8Len (before ++ region)) = some region := by
    rw [split, getRange_append]
  have front : getTo content (utf8Len before) = some before := by
    rw [split, List.append_assoc, getTo_append]
  simp only [retainedText, Nat.min_eq_left le, slice, front, Option.bind_eq_bind,
    Option.bind_some]
  generalize lineStartIs : (if utf8Len before = 0 ∨ endsInFeed before = true then 0
    else ((findFeed region).map (· + 1)).getD (utf8Len region)) = lineStart
  generalize lineEndIs : (if utf8Len (before ++ region) = utf8Len content ∨
    endsInFeed region = true then utf8Len region
      else ((rfindFeed region).map (· + 1)).getD 0) = lineEnd
  have starts : ∃ dropped rest, region = dropped ++ rest ∧ utf8Len dropped = lineStart ∧
      (before = [] → dropped = []) := by
    split at lineStartIs
    · exact ⟨[], region, rfl, lineStartIs, fun _ => rfl⟩
    next notStart =>
      have nonempty : before ≠ [] := by
        rintro rfl
        exact notStart (.inl rfl)
      cases found : findFeed region with
      | none =>
        rw [found] at lineStartIs
        exact ⟨region, [], (List.append_nil _).symm, lineStartIs,
          fun empty => absurd empty nonempty⟩
      | some index =>
        rw [found] at lineStartIs
        obtain ⟨dropped, rest, isRegion, size⟩ := findFeed_spec found
        exact ⟨dropped, rest, isRegion, size.trans lineStartIs,
          fun empty => absurd empty nonempty⟩
  have ends : ∃ rest cut, region = rest ++ cut ∧ utf8Len rest = lineEnd ∧
      (after = [] → cut = []) := by
    split at lineEndIs
    · exact ⟨region, [], (List.append_nil _).symm, lineEndIs, fun _ => rfl⟩
    next notEnd =>
      have nonempty : after ≠ [] := by
        rintro rfl
        rw [List.append_nil] at split
        exact notEnd (.inl (by rw [split]))
      cases found : rfindFeed region with
      | none =>
        rw [found] at lineEndIs
        exact ⟨[], region, rfl, lineEndIs, fun empty => absurd empty nonempty⟩
      | some index =>
        rw [found] at lineEndIs
        obtain ⟨rest, cut, isRegion, size⟩ := rfindFeed_spec found
        exact ⟨rest, cut, isRegion, size.trans lineEndIs, fun empty => absurd empty nonempty⟩
  obtain ⟨dropped, rest, isRegion, droppedSize, atStart⟩ := starts
  obtain ⟨kept, cut, isRegionEnd, keptSize, atEnd⟩ := ends
  by_cases some_ : lineStart < lineEnd
  · rw [if_pos some_]
    obtain ⟨middle, isKept, _⟩ := exists_append_of_utf8Len_le
      (isRegion.symm.trans isRegionEnd) (by omega)
    rw [isKept] at isRegionEnd
    refine ⟨dropped, middle, cut, isRegionEnd, ?_, atStart, atEnd⟩
    have inner : getRange region lineStart lineEnd = some middle := by
      rw [← droppedSize, ← keptSize, isKept]
      conv_lhs => rw [isRegionEnd]
      exact getRange_append _ _ _
    rw [inner, Option.bind_some, utf8Len_append, droppedSize]
  · rw [if_neg some_]
    refine ⟨[], region, [], ?_, ?_, fun _ => rfl, fun _ => rfl⟩
    · rw [List.nil_append, List.append_nil]
    · rw [List.append_nil]

theorem floorCharBoundary_isCharBoundary (content : Text) (offset : Nat) :
    isCharBoundary content (floorCharBoundary content offset) = true := by
  obtain ⟨front, back, split, size, _⟩ := exists_floorCharBoundary content offset
  rw [← size]
  conv_lhs => rw [split]
  exact isCharBoundary_append front back

variable {offset : Nat}

theorem ceilCharBoundary_spec (inside : offset ≤ utf8Len content) :
    isCharBoundary content (ceilCharBoundary content offset) = true ∧
      offset ≤ ceilCharBoundary content offset ∧
      ceilCharBoundary content offset ≤ utf8Len content := by
  obtain ⟨front, back, split, size, le⟩ := exists_ceilCharBoundary inside
  rw [← size]
  refine ⟨?_, le, ?_⟩
  · conv_lhs => rw [split]
    exact isCharBoundary_append front back
  · rw [split, utf8Len_append]
    exact Nat.le_add_right _ _

/-- A character has at most four bytes. -/
theorem lt_floorCharBoundary_add (inside : offset ≤ utf8Len content) :
    offset < floorCharBoundary content offset + 4 := by
  induction content generalizing offset with
  | nil =>
    have zero : offset = 0 := Nat.le_zero.mp inside
    omega
  | cons c text ih =>
    have size := Char.utf8Size_le_four c
    rw [utf8Len_cons] at inside
    rw [floorCharBoundary]
    split
    next fits =>
      have := @ih (offset - c.utf8Size) (by omega)
      omega
    next => omega

/-- What is retained between two boundaries, where the first may be behind the second. -/
theorem exists_retainedText (startBoundary : isCharBoundary content start = true)
    (stopBoundary : isCharBoundary content stop = true) :
    ∃ front kept back, content = front ++ kept ++ back ∧
      retainedText content start stop = some (utf8Len front, kept) ∧
      min start stop ≤ utf8Len front ∧ utf8Len (front ++ kept) ≤ stop ∧
      (start = 0 → front = []) ∧ (stop = utf8Len content → back = []) := by
  have same : retainedText content start stop = retainedText content (min start stop) stop := by
    simp only [retainedText, Nat.min_assoc, Nat.min_self]
  have minBoundary : isCharBoundary content (min start stop) = true := by
    rcases Nat.le_total start stop with le | le
    · rwa [Nat.min_eq_left le]
    · rwa [Nat.min_eq_right le]
  obtain ⟨before, rest, split, beforeSize⟩ := isCharBoundary_iff.mp minBoundary
  obtain ⟨through, after, splitStop, stopSize⟩ := isCharBoundary_iff.mp stopBoundary
  obtain ⟨region, isThrough, _⟩ := exists_append_of_utf8Len_le (split.symm.trans splitStop)
    (by rw [beforeSize, stopSize]; exact Nat.min_le_right _ _)
  rw [isThrough] at splitStop stopSize
  obtain ⟨dropped, kept, cut, isRegion, retained, atStart, atEnd⟩ := retainedText_append splitStop
  rw [beforeSize, stopSize, ← same] at retained
  refine ⟨before ++ dropped, kept, cut ++ after, ?_, retained, ?_, ?_, ?_, ?_⟩
  · rw [splitStop, isRegion]
    simp only [List.append_assoc]
  · rw [utf8Len_append, beforeSize]
    exact Nat.le_add_right _ _
  · rw [← stopSize, isRegion]
    simp only [utf8Len_append]
    omega
  · intro zero
    have empty : before = [] := utf8Len_eq_zero (by rw [beforeSize, zero, Nat.zero_min])
    rw [empty, atStart empty, List.append_nil]
  intro whole
  have empty : after = [] := by
    apply utf8Len_eq_zero
    have size := congrArg utf8Len splitStop
    rw [utf8Len_append] at size
    omega
  rw [atEnd empty, empty, List.append_nil]

/-- What is retained from the start. -/
theorem exists_retainedFront :
    ∃ kept back, content = kept ++ back ∧
      retainedText content 0 (floorCharBoundary content offset) = some (0, kept) ∧
      utf8Len kept ≤ offset := by
  obtain ⟨front, kept, back, split, retained, _, within, atStart, _⟩ := exists_retainedText
    (isCharBoundary_append [] content) (floorCharBoundary_isCharBoundary content offset)
  obtain rfl := atStart rfl
  exact ⟨kept, back, split, retained, within.trans (floorCharBoundary_le content offset)⟩

/-- What is retained up to the end. -/
theorem exists_retainedBack (inside : offset ≤ utf8Len content) :
    ∃ front kept, content = front ++ kept ∧
      retainedText content (ceilCharBoundary content offset) (utf8Len content) =
        some (utf8Len front, kept) ∧ offset ≤ utf8Len front := by
  obtain ⟨boundary, above, below⟩ := ceilCharBoundary_spec inside
  have whole : isCharBoundary content (utf8Len content) = true := by
    have boundary := isCharBoundary_append content []
    rwa [List.append_nil] at boundary
  obtain ⟨front, kept, back, split, retained, behind, _, _, atEnd⟩ :=
    exists_retainedText boundary whole
  obtain rfl := atEnd rfl
  rw [List.append_nil] at split
  rw [Nat.min_eq_left below] at behind
  exact ⟨front, kept, split, retained, above.trans behind⟩

end Regions

/-! ## The head and the tail of a text -/

section Middle

variable {content marker : Text} {maxTokens bytes : Nat}

theorem headAndTail_spec (marker : Text) (inside : bytes ≤ utf8Len content) :
    ∃ front dropped back, content = front ++ dropped ++ back ∧
      headAndTail content marker bytes = some (front ++ marker ++ back) ∧
      utf8Len (front ++ back) ≤ bytes := by
  rw [headAndTail]
  generalize halfIs : (if marker.isEmpty then bytes else Slice.divCeil bytes 2) = half
  have halfLe : half ≤ bytes := by
    rw [← halfIs]
    split
    · exact le_rfl
    · rw [Slice.divCeil_le_iff (by decide)]
      omega
  generalize headIs : (if floorCharBoundary content half = 0 then floorCharBoundary content bytes
    else half) = head
  have headLe : head ≤ bytes := by
    rw [← headIs]
    split
    · exact floorCharBoundary_le content bytes
    · exact halfLe
  obtain ⟨front, rest, split, frontRetained, frontSize⟩ := @exists_retainedFront content head
  obtain ⟨before, back, splitBack, backRetained, beforeSize⟩ :=
    @exists_retainedBack content (utf8Len content - (bytes - head)) (Nat.sub_le _ _)
  obtain ⟨dropped, isBefore, _⟩ :=
    exists_append_of_utf8Len_le (split.symm.trans splitBack) (by omega)
  rw [isBefore] at splitBack
  refine ⟨front, dropped, back, splitBack, ?_, ?_⟩
  · simp only [checkedSub, if_pos headLe, if_pos ((Nat.sub_le bytes head).trans inside),
      frontRetained, backRetained, Option.bind_eq_bind, Option.bind_some]
  · have size := congrArg utf8Len splitBack
    have beforeIs := congrArg utf8Len isBefore
    simp only [utf8Len_append] at size beforeIs ⊢
    omega

/-- The head and the tail of a text around a marker, within a budget. -/
def EndsWithin (source : Text) (maxTokens : Nat) (marker result : Text) : Prop :=
  approxTokenCount result ≤ maxTokens ∧
    ∃ front dropped back, source = front ++ dropped ++ back ∧ result = front ++ marker ++ back

theorem middleLoop_spec (fits : approxTokenCount marker ≤ maxTokens)
    (inside : bytes ≤ utf8Len content) :
    ∃ result, middleLoop content marker maxTokens bytes = some result ∧
      EndsWithin content maxTokens marker result := by
  induction bytes using Nat.strong_induction_on with
  | _ bytes ih =>
    obtain ⟨front, dropped, back, split, isCandidate, size⟩ := headAndTail_spec marker inside
    rw [middleLoop, isCandidate, Option.bind_some]
    dsimp only
    by_cases within : approxTokenCount (front ++ marker ++ back) ≤ maxTokens
    · rw [if_pos within]
      exact ⟨_, rfl, within, front, dropped, back, split, rfl⟩
    have positive : 0 < bytes := by
      by_contra none
      have empty : front ++ back = [] := utf8Len_eq_zero (by omega)
      rw [List.append_eq_nil_iff] at empty
      rw [empty.1, empty.2, List.nil_append, List.append_nil] at within
      exact within fits
    have step := Slice.divCeil_pos (by decide : 0 < 8) positive
    have order : approxTokenCount marker ≤ approxTokenCount (front ++ marker ++ back) := by
      omega
    rw [if_neg within, checkedSub, if_pos fits, Option.bind_some, checkedSub, if_pos order,
      Option.bind_some, dif_pos (by omega)]
    exact ih _ (by omega) (by omega)

theorem middleMarker_fits (maxTokens : Nat) :
    approxTokenCount (middleMarker maxTokens) ≤ maxTokens := by
  have markerTokens : approxTokenCount MARKER = 2 := by decide
  have ellipsisTokens : approxTokenCount ELLIPSIS = 1 := by decide
  have emptyTokens : approxTokenCount [] = 0 := by decide
  rw [middleMarker]
  split
  · omega
  · split
    · omega
    · omega

theorem truncateMiddleToTokenCeiling_spec (content : Text) (maxTokens : Nat) :
    ∃ result, truncateMiddleToTokenCeiling content maxTokens = some result ∧
      EndsWithin content maxTokens (middleMarker maxTokens) result := by
  have fits := middleMarker_fits maxTokens
  rw [truncateMiddleToTokenCeiling, checkedSub, if_pos fits, Option.bind_some]
  exact middleLoop_spec fits (Nat.min_le_right _ _)

end Middle

/-! ## Line numbers -/

/-- The number of the line that the text behind `before` continues. -/
def lineNumber (before : Text) : Nat := before.count '\n' + 1

/-- Every line with a character in a gap behind `before` is in the span. -/
def LineSpan.Covers (span : LineSpan) (before gap : Text) : Prop :=
  ∀ front c back, gap = front ++ c :: back →
    span.first ≤ lineNumber (before ++ front) ∧ lineNumber (before ++ front) ≤ span.last

theorem endsInFeed_append_singleton (text : Text) (c : Char) :
    endsInFeed (text ++ [c]) = true ↔ c = '\n' := by
  rw [endsInFeed, decide_eq_true_eq, List.getLast?_concat, Option.some_inj]

/-- The span of a gap that is not empty covers it. -/
theorem omittedLineSpan_spec {content before gap after : Text}
    (split : content = before ++ gap ++ after) (nonempty : gap ≠ []) :
    ∃ span, omittedLineSpan content (utf8Len before) (utf8Len (before ++ gap)) = some span ∧
      span.first ≤ span.last ∧ span.Covers before gap := by
  obtain ⟨front, last, isGap⟩ : ∃ front last, gap = front ++ [last] := by
    rcases List.eq_nil_or_concat gap with empty | ⟨front, last, isGap⟩
    · exact absurd empty nonempty
    · exact ⟨front, last, isGap.trans List.concat_eq_append⟩
  have toStart : getTo content (utf8Len before) = some before := by
    rw [split, List.append_assoc, getTo_append]
  have toStop : getTo content (utf8Len (before ++ gap)) = some (before ++ gap) := by
    rw [split, getTo_append]
  have range : getRange content (utf8Len before) (utf8Len (before ++ gap)) = some gap := by
    rw [split, getRange_append]
  -- The last character of the gap ends the last line, or starts to.
  have lastLine : (if endsInFeed (before ++ gap) then 1 else 0) =
      (if last = '\n' then 1 else 0) := by
    rw [isGap, ← List.append_assoc]
    simp only [endsInFeed_append_singleton]
  have count : gap.count '\n' = front.count '\n' + (if last = '\n' then 1 else 0) := by
    rw [isGap, List.count_append, List.count_singleton]
    simp only [beq_iff_eq]
  have fits : (if last = '\n' then 1 else 0) ≤ before.count '\n' + 1 + gap.count '\n' := by
    omega
  simp only [omittedLineSpan, toStart, toStop, range, lastLine, checkedSub, if_pos fits,
    Option.bind_eq_bind, Option.bind_some]
  refine ⟨_, rfl, ?_, ?_⟩
  · change before.count '\n' + 1 ≤ before.count '\n' + 1 + gap.count '\n' - _
    omega
  intro inner c back isInner
  change before.count '\n' + 1 ≤ lineNumber (before ++ inner) ∧ lineNumber (before ++ inner) ≤
    before.count '\n' + 1 + gap.count '\n' - _
  have within : inner.count '\n' ≤ front.count '\n' := by
    apply List.Sublist.count_le
    apply List.IsPrefix.sublist
    have isPrefix : inner <+: front ++ [last] := by
      rw [← isGap, isInner]
      exact List.prefix_append _ _
    rcases List.prefix_concat_iff.mp isPrefix with whole | inFront
    · have size := congrArg List.length (isGap.symm.trans isInner)
      rw [← whole] at size
      simp at size
    · exact inFront
  rw [lineNumber, List.count_append]
  omega

/-! ## The head, a middle and the tail of a text -/

section Sample

variable {content : Text} {retainedBytes : Nat}

/-- The three regions do not overlap, and where enough of the text is left out both gaps have a
    character. -/
theorem sampleRegions_spec (below : retainedBytes + 16 ≤ utf8Len content)
    (small : retainedBytes < 2 ^ 63) :
    ∃ head first middle second tail,
      content = head ++ first ++ middle ++ second ++ tail ∧
      sampleRegions content retainedBytes =
        some (head, (utf8Len (head ++ first), middle),
          (utf8Len (head ++ first ++ middle ++ second), tail)) ∧
      first ≠ [] ∧ second ≠ [] := by
  have twice : saturatingMul retainedBytes 2 = retainedBytes * 2 := by
    rw [saturatingMul, Nat.min_eq_left]
    omega
  rw [sampleRegions, twice]
  generalize headIs : retainedBytes * 2 / 5 = headSize
  generalize middleIs : retainedBytes / 5 = middleSize
  generalize startIs : (utf8Len content - middleSize) / 2 = middleStart
  have startInside : middleStart ≤ utf8Len content := by omega
  obtain ⟨head, behindHead, splitHead, headRetained, headLe⟩ :=
    @exists_retainedFront content headSize
  obtain ⟨startBoundary, startLe, _⟩ := ceilCharBoundary_spec startInside
  obtain ⟨front, middle, back, splitMiddle, middleRetained, frontGe, middleLe, _, _⟩ :=
    exists_retainedText startBoundary
      (floorCharBoundary_isCharBoundary content (middleStart + middleSize))
  obtain ⟨before, tail, splitTail, tailRetained, beforeGe⟩ := @exists_retainedBack content
    (utf8Len content - (retainedBytes - headSize - middleSize)) (Nat.sub_le _ _)
  -- The middle may start before its sample by less than a character.
  have middleFloor := floorCharBoundary_le content (middleStart + middleSize)
  have middleFloorGe := @lt_floorCharBoundary_add content (middleStart + middleSize) (by omega)
  have frontFar : headSize < utf8Len front := by
    have := (min_le_iff.mp frontGe)
    omega
  obtain ⟨first, isFront, _⟩ := exists_append_of_utf8Len_le
    (splitHead.symm.trans (splitMiddle.trans (List.append_assoc _ _ _))) (by omega)
  have tailFar : utf8Len (front ++ middle) < utf8Len before := by omega
  obtain ⟨second, isBefore, _⟩ := exists_append_of_utf8Len_le
    (splitMiddle.symm.trans splitTail) tailFar.le
  rw [isBefore, isFront] at splitTail
  refine ⟨head, first, middle, second, tail, splitTail, ?_, ?_, ?_⟩
  · rw [isBefore, isFront] at tailRetained
    rw [isFront] at middleRetained
    simp only [checkedSub, if_pos (show headSize ≤ retainedBytes by omega),
      if_pos (show middleSize ≤ retainedBytes - headSize by omega),
      if_pos (show middleSize ≤ utf8Len content by omega), startIs,
      if_pos (show retainedBytes - headSize - middleSize ≤ utf8Len content by omega),
      headRetained, middleRetained, tailRetained, Option.bind_eq_bind, Option.bind_some]
  · rintro rfl
    rw [List.append_nil] at isFront
    rw [isFront] at frontFar
    omega
  · rintro rfl
    rw [List.append_nil] at isBefore
    rw [isBefore] at tailFar
    exact absurd tailFar (lt_irrefl _)

end Sample

/-- What a text over its budget may be shown as, with the line ranges reported for it. -/
inductive Shown (lineMarkers : Bool) (source : Text) : Text → List (Nat × Nat) → Prop where
  | whole : Shown lineMarkers source source []
  | ends (front dropped back marker : Text) (split : source = front ++ dropped ++ back)
      (isMarker : marker = MARKER ∨ marker = ELLIPSIS) :
      Shown lineMarkers source (front ++ marker ++ back) []
  | regions (head first middle second tail : Text) (unmarked : lineMarkers = false)
      (split : source = head ++ first ++ middle ++ second ++ tail) :
      Shown lineMarkers source (head ++ BEFORE_MIDDLE ++ middle ++ AFTER_MIDDLE ++ tail) []
  /-- The ranges are printed in the markers, and every line with a character in a gap is in
      the range of the gap. -/
  | lines (head first middle second tail : Text) (before after : LineSpan)
      (marked : lineMarkers = true) (split : source = head ++ first ++ middle ++ second ++ tail)
      (coversFirst : before.Covers head first)
      (coversSecond : after.Covers (head ++ first ++ middle) second) :
      Shown lineMarkers source
        (head ++ omittedLineMarker before (lineCount source) ++ middle ++
          omittedLineMarker after (lineCount source) ++ tail)
        [(before.first, before.last), (after.first, after.last)]

section Loops

variable {content : Text} {maxTokens markerTokens retainedBytes : Nat} {lineMarkers : Bool}

theorem attempt_spec (below : retainedBytes + 16 ≤ utf8Len content)
    (small : retainedBytes < 2 ^ 63) :
    ∃ candidate omitted, attempt content retainedBytes lineMarkers = some (candidate, omitted) ∧
      Shown lineMarkers content candidate omitted := by
  obtain ⟨head, first, middle, second, tail, split, sampled, firstSome, secondSome⟩ :=
    sampleRegions_spec below small
  rw [attempt, sampled, Option.bind_some]
  cases lineMarkers with
  | false => exact ⟨_, _, rfl, .regions head first middle second tail rfl split⟩
  | true =>
    obtain ⟨before, isBefore, beforeOrder, coversFirst⟩ := omittedLineSpan_spec
      (split.trans (by simp only [List.append_assoc] :
        _ = head ++ first ++ (middle ++ second ++ tail))) firstSome
    obtain ⟨after, isAfter, afterOrder, coversSecond⟩ := omittedLineSpan_spec split secondSome
    rw [utf8Len_append (head ++ first) middle] at isAfter
    simp only [if_true, isBefore, isAfter, Option.bind_some, Option.map_some]
    have both : ([before, after].filter fun span => span.first ≤ span.last) = [before, after] := by
      simp [beforeOrder, afterOrder]
    rw [both]
    exact ⟨_, _, rfl, .lines head first middle second tail before after rfl split coversFirst
      coversSecond⟩

/-- What is returned for a text over a positive budget. -/
def ShownWithin (content : Text) (maxTokens : Nat) (lineMarkers : Bool)
    (returned : Option (Text × List (Nat × Nat))) : Prop :=
  ∃ text omitted, returned = some (text, omitted) ∧ approxTokenCount text ≤ maxTokens ∧
    Shown lineMarkers content text omitted

theorem middle_shownWithin (positive : 0 < maxTokens) :
    ShownWithin content maxTokens lineMarkers
      ((truncateMiddleToTokenCeiling content maxTokens).map fun text => (text, [])) := by
  obtain ⟨text, isText, fits, front, dropped, back, split, rfl⟩ :=
    truncateMiddleToTokenCeiling_spec content maxTokens
  rw [isText]
  refine ⟨_, _, rfl, fits, .ends front dropped back _ split ?_⟩
  rw [middleMarker]
  split
  · exact .inl rfl
  · exact .inr rfl

theorem regionsLoop_spec (positive : 0 < maxTokens) (markerFits : markerTokens ≤ maxTokens)
    (small : retainedBytes < 2 ^ 63) (below : retainedBytes + 16 ≤ utf8Len content) :
    ShownWithin content maxTokens lineMarkers
      (regionsLoop content maxTokens markerTokens lineMarkers retainedBytes) := by
  induction retainedBytes using Nat.strong_induction_on with
  | _ retainedBytes ih =>
    obtain ⟨candidate, omitted, isCandidate, shown⟩ :=
      @attempt_spec content retainedBytes lineMarkers below small
    rw [regionsLoop, isCandidate, Option.bind_some]
    dsimp only
    by_cases within : approxTokenCount candidate ≤ maxTokens
    · rw [if_pos within]
      exact ⟨_, _, rfl, within, shown⟩
    have order : markerTokens ≤ approxTokenCount candidate := by omega
    rw [if_neg within, checkedSub, if_pos markerFits, Option.bind_some, checkedSub,
      if_pos order, Option.bind_some]
    split
    · exact middle_shownWithin positive
    next large =>
      have some_ : 0 < retainedBytes := by omega
      have step := Slice.divCeil_pos (by decide : 0 < 8) some_
      exact ih _ (by omega) (by omega) (by omega)

theorem truncateOverBudgetLinesWithMarkers_spec (positive : 0 < maxTokens)
    (exceeds : maxTokens < approxTokenCount content) (small : maxTokens < 2 ^ 61) :
    ShownWithin content maxTokens lineMarkers
      (truncateOverBudgetLinesWithMarkers content maxTokens lineMarkers) := by
  have markers : approxTokenCount BEFORE_MIDDLE + approxTokenCount AFTER_MIDDLE = 18 := by decide
  have bytes := (Slice.lt_divCeil_iff (by decide)).mp exceeds
  rw [APPROX_BYTES_PER_TOKEN] at bytes
  rw [truncateOverBudgetLinesWithMarkers, markers]
  split
  · exact middle_shownWithin positive
  next large =>
    rw [checkedSub, if_pos (by omega), Option.bind_some]
    have retained : min (approxBytesForTokens (maxTokens - 18)) (utf8Len content - 1) ≤
        (maxTokens - 18) * 4 :=
      (Nat.min_le_left _ _).trans (Nat.min_le_left _ _)
    exact regionsLoop_spec positive (by omega) (by omega) (by omega)

end Loops

/-! ## The ceiling -/

/-- A `str`: it has at most `isize::MAX` bytes. -/
structure Str where
  text : Text
  size : utf8Len text < 2 ^ 63

section Ceiling

variable (serde : SerdeJson)

/-- A text is cut to a budget: within it, it is the text with its oversized JSON lines outlined, or
    markers and parts of that. -/
structure CutTo (content : Text) (maxTokens : Nat) (lineMarkers : Bool) (text : Text)
    (omitted : List (Nat × Nat)) : Prop where
  fits : approxTokenCount text ≤ maxTokens
  empty : maxTokens = 0 → text = [] ∧ omitted = []
  shown : 0 < maxTokens →
    Shown lineMarkers (outlinedText serde content maxTokens) text omitted
  plain : 0 < maxTokens →
    (∀ line ∈ splitInclusive content, outlineLine serde maxTokens line = none) →
      Shown lineMarkers content text omitted

variable {serde} {content : Text} {maxTokens : Nat}

theorem approxTokenCountExceeds_iff :
    approxTokenCountExceeds content maxTokens = true ↔ maxTokens < approxTokenCount content :=
  decide_eq_true_iff

/-- A text over its budget is cut to it. -/
theorem truncateOverBudgetTextWithMarkers_spec (serde : SerdeJson) (lineMarkers : Bool)
    (exceeds : maxTokens < approxTokenCount content) (small : maxTokens < 2 ^ 61) :
    ∃ text omitted,
      truncateOverBudgetTextWithMarkers serde content maxTokens lineMarkers =
        some (text, omitted) ∧ CutTo serde content maxTokens lineMarkers text omitted := by
  rw [truncateOverBudgetTextWithMarkers]
  by_cases zero : maxTokens = 0
  · rw [if_pos zero]
    refine ⟨[], [], rfl, Nat.zero_le _, fun _ => ⟨rfl, rfl⟩, ?_, ?_⟩
    · intro positive
      omega
    · intro positive
      omega
  have positive : 0 < maxTokens := Nat.pos_of_ne_zero zero
  rw [if_neg zero, outlineOversizedJsonLines_eq, Option.bind_some]
  cases anyOutlined : (splitInclusive content).any fun line =>
      (outlineLine serde maxTokens line).isSome with
  | false =>
    have same : outlinedText serde content maxTokens = content := by
      rw [outlinedText, map_outlinedLine_of_none anyOutlined, flatten_splitInclusive]
    obtain ⟨text, omitted, isText, fits, shown⟩ :=
      @truncateOverBudgetLinesWithMarkers_spec content maxTokens lineMarkers positive exceeds small
    rw [if_neg Bool.false_ne_true]
    refine ⟨text, omitted, isText, fits, fun isZero => absurd isZero zero, ?_, fun _ _ => shown⟩
    intro _
    rwa [same]
  | true =>
    have outlined : ¬ ∀ line ∈ splitInclusive content, outlineLine serde maxTokens line = none := by
      intro none
      obtain ⟨line, member, isOutlined⟩ := List.any_eq_true.mp anyOutlined
      rw [none line member] at isOutlined
      cases isOutlined
    rw [if_pos rfl]
    dsimp only
    split
    next exceedsOutlined =>
      rw [approxTokenCountExceeds_iff] at exceedsOutlined
      obtain ⟨text, omitted, isText, fits, shown⟩ :=
        @truncateOverBudgetLinesWithMarkers_spec _ maxTokens lineMarkers positive exceedsOutlined
          small
      exact ⟨text, omitted, isText, fits, fun isZero => absurd isZero zero, fun _ => shown,
        fun _ none => absurd none outlined⟩
    next within =>
      rw [approxTokenCountExceeds_iff, not_lt] at within
      exact ⟨_, _, rfl, within, fun isZero => absurd isZero zero, fun _ => .whole,
        fun _ none => absurd none outlined⟩

/-- A header and a text within their budgets are within the sum. -/
theorem approxTokenCount_append_le (front back : Text) :
    approxTokenCount (front ++ back) ≤ approxTokenCount front + approxTokenCount back := by
  rw [approxTokenCount_le_iff, utf8Len_append, Nat.add_mul]
  exact Nat.add_le_add (approxTokenCount_le_iff.mp le_rfl) (approxTokenCount_le_iff.mp le_rfl)

/-- A text within its ceiling is returned as it is. A text over its ceiling is cut to it, with or
    without a header that the budget makes room for, and where the lines are marked, every line
    that is not shown in full is in a range that is printed and reported. -/
theorem truncate_to_token_ceiling (serde : SerdeJson) (content : Str) (maxTokens : Nat) :
    (∃ text, truncateTextToTokenCeiling serde content.text maxTokens = some text ∧
      (approxTokenCount content.text ≤ maxTokens → text = content.text) ∧
      (maxTokens < approxTokenCount content.text →
        ∃ omitted, CutTo serde content.text maxTokens false text omitted)) ∧
    (∃ text, truncateTextWithLineMarkers serde content.text maxTokens = some text ∧
      (approxTokenCount content.text ≤ maxTokens → text = content.text) ∧
      (maxTokens < approxTokenCount content.text →
        ∃ omitted, CutTo serde content.text maxTokens true text omitted)) ∧
    ∀ lineMarkers, ∃ output omitted,
      formattedTruncateTextToTokenCeiling serde content.text maxTokens lineMarkers =
        some (output, omitted) ∧
      (approxTokenCount content.text ≤ maxTokens → output.text = content.text ∧ omitted = []) ∧
      (maxTokens < approxTokenCount content.text → approxTokenCount output.text ≤ maxTokens ∧
        (CutTo serde content.text maxTokens lineMarkers output.text omitted ∨
          ∃ text, output.text = truncationWarning content.text ++ text ∧
            CutTo serde content.text
              (maxTokens - approxTokenCount (truncationWarning content.text)) lineMarkers text
              omitted)) := by
  obtain ⟨content, size⟩ := content
  dsimp only
  have small : maxTokens < approxTokenCount content → maxTokens < 2 ^ 61 := by
    intro exceeds
    have bytes := (Slice.lt_divCeil_iff (by decide)).mp exceeds
    rw [APPROX_BYTES_PER_TOKEN] at bytes
    omega
  rcases Nat.lt_or_ge maxTokens (approxTokenCount content) with exceeds | within
  · have tooLong := approxTokenCountExceeds_iff.mpr exceeds
    have notWithin : ¬ approxTokenCount content ≤ maxTokens := Nat.not_le.mpr exceeds
    refine ⟨?_, ?_, ?_⟩
    · obtain ⟨text, omitted, isText, cut⟩ :=
        truncateOverBudgetTextWithMarkers_spec serde false exceeds (small exceeds)
      refine ⟨text, ?_, fun fits => absurd fits notWithin, fun _ => ⟨omitted, cut⟩⟩
      rw [truncateTextToTokenCeiling, if_pos tooLong]
      split
      next zero => rw [(cut.empty zero).1]
      next => rw [isText, Option.map_some]
    · obtain ⟨text, omitted, isText, cut⟩ :=
        truncateOverBudgetTextWithMarkers_spec serde true exceeds (small exceeds)
      refine ⟨text, ?_, fun fits => absurd fits notWithin, fun _ => ⟨omitted, cut⟩⟩
      rw [truncateTextWithLineMarkers, if_pos tooLong, isText, Option.map_some]
    intro lineMarkers
    obtain ⟨text, omitted, isText, cut⟩ :=
      truncateOverBudgetTextWithMarkers_spec serde lineMarkers exceeds (small exceeds)
    rw [formattedTruncateTextToTokenCeiling]
    by_cases zero : maxTokens = 0
    · rw [if_pos zero]
      obtain ⟨rfl, rfl⟩ := cut.empty zero
      exact ⟨_, _, rfl, fun fits => absurd fits notWithin, fun _ => ⟨cut.fits, .inl cut⟩⟩
    rw [if_neg zero, if_neg notWithin]
    dsimp only
    split
    next room =>
      have less : approxTokenCount (truncationWarning content) ≤ maxTokens := by
        rw [saturatingMul] at room
        have := small exceeds
        omega
      obtain ⟨text, omitted, isText, cut⟩ := truncateOverBudgetTextWithMarkers_spec serde
        lineMarkers ((Nat.sub_le maxTokens
          (approxTokenCount (truncationWarning content))).trans_lt exceeds)
        ((Nat.sub_le _ _).trans_lt (small exceeds))
      rw [checkedSub, if_pos less, Option.bind_some, isText, Option.map_some]
      refine ⟨_, _, rfl, fun fits => absurd fits notWithin, fun _ => ⟨?_, .inr ⟨text, rfl, cut⟩⟩⟩
      have sum := approxTokenCount_append_le (truncationWarning content) text
      have := cut.fits
      change approxTokenCount (truncationWarning content ++ text) ≤ maxTokens
      omega
    next =>
      rw [isText, Option.map_some]
      exact ⟨_, _, rfl, fun fits => absurd fits notWithin, fun _ => ⟨cut.fits, .inl cut⟩⟩
  · have notLong : ¬ approxTokenCountExceeds content maxTokens = true := by
      rw [approxTokenCountExceeds_iff]
      exact Nat.not_lt.mpr within
    have notExceeds : ¬ maxTokens < approxTokenCount content := Nat.not_lt.mpr within
    refine ⟨⟨content, ?_, fun _ => rfl, fun exceeds => absurd exceeds notExceeds⟩,
      ⟨content, ?_, fun _ => rfl, fun exceeds => absurd exceeds notExceeds⟩, ?_⟩
    · rw [truncateTextToTokenCeiling, if_neg notLong]
    · rw [truncateTextWithLineMarkers, if_neg notLong]
    intro lineMarkers
    rw [formattedTruncateTextToTokenCeiling]
    split
    next zero =>
      have empty : content = [] := by
        apply utf8Len_eq_zero
        have none := approxTokenCount_le_iff.mp (zero ▸ within)
        omega
      exact ⟨_, _, rfl, fun _ => ⟨empty.symm, rfl⟩, fun exceeds => absurd exceeds notExceeds⟩
    next =>
      exact ⟨_, _, rfl, fun _ => ⟨rfl, rfl⟩, fun exceeds => absurd exceeds notExceeds⟩

end Ceiling

end Codex.Truncation
