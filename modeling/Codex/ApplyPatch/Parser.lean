import Codex.ApplyPatch.StreamingParser

/-!
# `parse_patch`

`apply-patch/src/parser.rs`. A whole patch is trimmed, its first and last line are checked,
a shell heredoc around it is removed, and the rest goes through the streaming parser in one
delta. The text that was parsed is kept, and parsing it again gives the same patch: this is
what the application of a verified patch relies on.
-/

namespace Codex.ApplyPatch

open Codex.Text

def MAX_PATCH_INPUT_BYTES : Nat := 64 * 1024 * 1024

def checkStartAndEndLinesStrict (firstLine lastLine : Text) : Except ParseError Unit :=
  if trim firstLine = BEGIN_PATCH_MARKER ∧ trim lastLine = END_PATCH_MARKER then .ok ()
  else if trim firstLine ≠ BEGIN_PATCH_MARKER then .error firstLineError
  else .error lastLineError

/-- The closure `boundaries` of `parse_patch`. -/
def boundaries (source : Text) : Except ParseError Unit :=
  checkStartAndEndLinesStrict (firstLine source) (lastLine source)

/-- The slice of a text between its first and its last line feed. -/
def betweenLineFeeds (patch : Text) : Text :=
  (((patch.dropWhile (fun c => c != '\n')).drop 1).rdropWhile (fun c => c != '\n')).dropLast

/-- The test for a shell heredoc: its opening line, its closing line and two lines between. -/
def isHeredoc (patch : Text) : Bool :=
  (stripCarriageReturn (firstLine patch) = "<<EOF".toList ||
      stripCarriageReturn (firstLine patch) = "<<'EOF'".toList ||
      stripCarriageReturn (firstLine patch) = "<<\"EOF\"".toList) &&
    trim (lastLine patch) = "EOF".toList && 3 ≤ patch.count '\n'

/-- The text that goes to the streaming parser. -/
def unwrapPatch (patch : Text) : Except ParseError Text :=
  match boundaries patch with
  | .ok () => .ok patch
  | .error originalError =>
      if isHeredoc patch then
        match boundaries (betweenLineFeeds patch) with
        | .ok () => .ok (betweenLineFeeds patch)
        | .error error => .error error
      else .error originalError

/-- One delta and `into_parts`. -/
def parseParts (patch : Text) :
    Except ParseError (List Hunk × Option Text × List FileRevisionGuard) :=
  match pushDeltaInPlace {} patch with
  | (.error error, _) => .error error
  | (.ok (), parser) => intoParts parser

/-- `parse_patch` (`parser.rs:133`). -/
def parsePatch (patch : Text) : Except ParseError ApplyPatchArgs :=
  if MAX_PATCH_INPUT_BYTES < utf8Len patch then
    .error (.invalidPatchError "PATCH input exceeds the 67108864-byte limit".toList)
  else
    match unwrapPatch (trim patch) with
    | .error error => .error error
    | .ok patch =>
        match parseParts patch with
        | .error error => .error error
        | .ok (hunks, environmentId, revisionGuards) =>
            .ok { hunks, revisionGuards, patch, environmentId }

theorem boundaries_ok_iff {source : Text} :
    boundaries source = .ok () ↔
      trim (firstLine source) = BEGIN_PATCH_MARKER ∧ trim (lastLine source) = END_PATCH_MARKER := by
  unfold boundaries checkStartAndEndLinesStrict
  split
  · next ends => simp [ends]
  · next ends =>
    split <;> simp [ends]

variable {patch text line : Text}

theorem parsePatch_ok_iff {args : ApplyPatchArgs} :
    parsePatch patch = .ok args ↔
      utf8Len patch ≤ MAX_PATCH_INPUT_BYTES ∧ unwrapPatch (trim patch) = .ok args.patch ∧
      parseParts args.patch = .ok (args.hunks, args.environmentId, args.revisionGuards) := by
  unfold parsePatch
  constructor
  · intro parsed
    split at parsed
    · cases parsed
    next fits =>
    split at parsed
    · cases parsed
    next text unwrapped =>
    split at parsed
    · cases parsed
    · next hunks environmentId revisionGuards parts =>
      cases parsed
      exact ⟨Nat.le_of_not_lt fits, unwrapped, parts⟩
  · rintro ⟨fits, unwrapped, parts⟩
    simp only [if_neg (Nat.not_lt.mpr fits), unwrapped, parts]

theorem trim_stripCarriageReturn (line : Text) : trim (stripCarriageReturn line) = trim line := by
  unfold stripCarriageReturn
  rcases List.eq_nil_or_concat line with rfl | ⟨init, last, rfl⟩
  · simp
  · rw [List.concat_eq_append]
    by_cases isReturn : last = '\r'
    · rw [isReturn, stripSuffix_concat, Option.getD_some, trim_concat_of_blank (by decide)]
    · rw [stripSuffix_concat_ne isReturn, Option.getD_none]

/-- Characters without line feed only fill the buffer. -/
theorem untilError_pushChar_single (single : '\n' ∉ text) (parser : StreamingPatchParser) :
    untilError pushChar parser text =
      (.ok (), { parser with lineBuffer := parser.lineBuffer ++ text }) := by
  induction text generalizing parser with
  | nil => simp [untilError]
  | cons c text ih =>
    rw [List.mem_cons, not_or] at single
    simp only [untilError, pushChar, if_neg (Ne.symm single.1)]
    rw [ih single.2]
    simp

/-- A line with its line feed is one call of `endLine`. -/
theorem untilError_pushChar_line (single : '\n' ∉ line) (parser : StreamingPatchParser)
    (rest : Text) :
    untilError pushChar parser (line ++ '\n' :: rest) =
      match endLine { parser with lineBuffer := parser.lineBuffer ++ line } with
      | (.error error, parser) => (.error error, parser)
      | (.ok (), parser) => untilError pushChar parser rest := by
  rw [untilError_append, untilError_pushChar_single single]
  rfl

/-- The parser after the opening line. -/
def startedParser : StreamingPatchParser := ⟨[], { mode := .startedPatch }, 1⟩

/-- The opening line only has to trim to its marker. -/
theorem endLine_begin (opening : trim line = BEGIN_PATCH_MARKER) :
    endLine { lineBuffer := line } = (.ok (), startedParser) := by
  simp [endLine, processLine, trim_stripCarriageReturn, opening, startedParser]

/-- A run over complete lines leaves an empty buffer. -/
theorem lineBuffer_after_lines {middle : Text} {parser next : StreamingPatchParser}
    (empty : parser.lineBuffer = []) (complete : middle = [] ∨ ∃ init, middle = init ++ ['\n'])
    (ran : untilError pushChar parser middle = (.ok (), next)) : next.lineBuffer = [] := by
  rcases complete with rfl | ⟨init, rfl⟩
  · cases ran
    exact empty
  rw [untilError_append] at ran
  split at ran
  · cases ran
  rw [untilError_singleton] at ran
  simp only [pushChar, if_true, endLine] at ran
  split at ran
  · cases ran
  · cases ran
    rfl

/-- The last line only has to trim to its marker. -/
theorem finishInPlace_end (closing : trim line = END_PATCH_MARKER) (parser : StreamingPatchParser) :
    finishInPlace { parser with lineBuffer := line } =
      finishInPlace { parser with lineBuffer := trimEnd line } := by
  have visible : trimEnd line ≠ [] := by
    intro blank
    rw [← trim_trimEnd, blank] at closing
    exact absurd closing (by decide)
  have nonempty : line ≠ [] := by
    rintro rfl
    exact visible rfl
  unfold finishInPlace
  simp only [if_neg visible, if_neg nonempty, trim_trimEnd, closing, true_and]
  split
  · rfl
  next inside =>
  -- the other modes read only the trimmed line
  have same : ∀ n, processLine parser.state n line = processLine parser.state n (trimEnd line) := by
    intro n
    unfold processLine
    simp only [trim_trimEnd]
    cases mode : parser.state.mode <;> simp [mode, StreamingParserMode.endsAtMarker] at inside ⊢
  rw [same]

/-- Trimming a text with good boundaries changes neither what is parsed nor the boundaries. -/
theorem parseParts_trim (bounded : boundaries text = .ok ()) :
    parseParts (trim text) = parseParts text ∧ boundaries (trim text) = .ok () := by
  obtain ⟨opening, closing⟩ := boundaries_ok_iff.mp bounded
  have feed : '\n' ∈ text := by
    by_contra single
    rw [firstLine_of_single single] at opening
    rw [lastLine_of_single single, opening] at closing
    exact absurd closing (by decide)
  obtain ⟨middle, split, single, complete⟩ := exists_lines feed
  have singleLast := not_mem_lastLine text
  generalize firstLine text = first at opening split single
  generalize lastLine text = last at closing split singleLast
  subst split
  have visibleFirst : trimStart first ≠ [] := by
    intro blank
    rw [← trim_trimStart, blank] at opening
    exact absurd opening (by decide)
  have visibleLast : trimEnd last ≠ [] := by
    intro blank
    rw [← trim_trimEnd, blank] at closing
    exact absurd closing (by decide)
  have trimmed : trim (first ++ '\n' :: (middle ++ last)) =
      trimStart first ++ '\n' :: (middle ++ trimEnd last) := by
    rw [trim, trimStart_append visibleFirst, ← List.cons_append, ← List.append_assoc,
      trimEnd_append visibleLast]
    simp
  have singleFirst : '\n' ∉ trimStart first :=
    fun member => single ((List.dropWhile_suffix _).mem member)
  have singleEnd : '\n' ∉ trimEnd last :=
    fun member => singleLast ((List.rdropWhile_prefix _ _).mem member)
  rw [trimmed]
  refine ⟨?_, ?_⟩
  · simp only [parseParts, pushDeltaInPlace_eq_chars]
    rw [untilError_pushChar_line singleFirst, untilError_pushChar_line single]
    simp only [List.nil_append]
    rw [endLine_begin (by rw [trim_trimStart, opening]), endLine_begin opening]
    simp only
    rw [untilError_append, untilError_append]
    rcases ran : untilError pushChar startedParser middle with ⟨error | ⟨⟩, parser⟩
    · rfl
    · have empty := lineBuffer_after_lines rfl complete ran
      simp only [untilError_pushChar_single singleEnd, untilError_pushChar_single singleLast, empty,
        List.nil_append, intoParts, finishInPlace_end closing]
  · rw [boundaries_ok_iff, firstLine_append_feed singleFirst, lastLine_append_feed]
    refine ⟨by rw [trim_trimStart, opening], ?_⟩
    rcases complete with rfl | ⟨init, rfl⟩
    · rw [List.nil_append, lastLine_of_single singleEnd, trim_trimEnd, closing]
    · rw [List.append_assoc, List.singleton_append, lastLine_append_feed,
        lastLine_of_single singleEnd, trim_trimEnd, closing]

theorem unwrapPatch_ok (unwrapped : unwrapPatch patch = .ok text) :
    boundaries text = .ok () ∧ text.Sublist patch := by
  unfold unwrapPatch at unwrapped
  split at unwrapped
  · next bounded =>
    cases unwrapped
    exact ⟨bounded, List.Sublist.refl _⟩
  split at unwrapped
  · split at unwrapped
    · next bounded =>
      cases unwrapped
      refine ⟨bounded, ?_⟩
      exact (List.dropLast_sublist _).trans ((List.rdropWhile_prefix _ _).sublist.trans
        ((List.drop_sublist _ _).trans (List.dropWhile_suffix _).sublist))
    · cases unwrapped
  · cases unwrapped

/-- Whatever text was accepted, the text kept in the result is accepted again, with the same
    hunks, guards and environment id. -/
theorem parsePatch_reparse {args : ApplyPatchArgs} (parsed : parsePatch patch = .ok args) :
    ∃ again, parsePatch args.patch = .ok again ∧ again.hunks = args.hunks ∧
      again.revisionGuards = args.revisionGuards ∧ again.environmentId = args.environmentId := by
  obtain ⟨fits, unwrapped, parts⟩ := parsePatch_ok_iff.mp parsed
  obtain ⟨bounded, sublist⟩ := unwrapPatch_ok unwrapped
  obtain ⟨same, boundedTrim⟩ := parseParts_trim bounded
  refine ⟨{ args with patch := trim args.patch }, parsePatch_ok_iff.mpr ⟨?_, ?_, ?_⟩, rfl, rfl, rfl⟩
  · exact (utf8Len_le_of_sublist (sublist.trans (trim_sublist patch))).trans fits
  · simp only [unwrapPatch, boundedTrim]
  · rw [same, parts]

/-- A patch without a heredoc around it streams, in whatever deltas, to what the whole patch is
    parsed to, errors and their line numbers included. -/
theorem parsePatch_eq_parseDeltas {deltas : List Text}
    (fits : utf8Len deltas.flatten ≤ MAX_PATCH_INPUT_BYTES)
    (bounded : boundaries deltas.flatten = .ok ()) :
    parsePatch deltas.flatten = (parseDeltas deltas).map fun parts =>
      { hunks := parts.1, revisionGuards := parts.2.2, patch := trim deltas.flatten,
        environmentId := parts.2.1 } := by
  obtain ⟨same, trimmed⟩ := parseParts_trim bounded
  have streamed : parseDeltas deltas = parseParts deltas.flatten := by
    rw [parseDeltas, feed_eq_feed_flatten, feed, untilError_singleton]
    rfl
  simp only [parsePatch, if_neg (Nat.not_lt.mpr fits), unwrapPatch, trimmed, same, streamed]
  cases parseParts deltas.flatten <;> rfl

/-- A deletion that is cut in the middle of its path. -/
theorem parsePatch_eq_parseDeltas_cut :
    parsePatch "*** Begin Patch\n*** Delete File: ab\n*** End Patch".toList =
      .ok { hunks := [.deleteFile "ab".toList], revisionGuards := [], environmentId := none,
            patch := "*** Begin Patch\n*** Delete File: ab\n*** End Patch".toList } :=
  (@parsePatch_eq_parseDeltas ["*** Begin Patch\n*** Delete File: a".toList,
    "b\n*** End Patch".toList] (by decide) (by decide)).trans (by decide)

end Codex.ApplyPatch
