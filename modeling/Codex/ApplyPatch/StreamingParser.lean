import Codex.ApplyPatch.Hunk

/-!
# The streaming patch parser

`apply-patch/src/streaming_parser.rs`. Text arrives in deltas cut anywhere; complete lines
go through a machine with one mode for each kind of hunk. Every error of `process_line` is
returned before it touches the state, so `processLine` returns the new state only on
success; a call on the parser returns its result and the parser it leaves.
-/

namespace Codex.ApplyPatch

open Codex.Text

def BEGIN_PATCH_MARKER : Text := "*** Begin Patch".toList
def END_PATCH_MARKER : Text := "*** End Patch".toList
def ADD_FILE_MARKER : Text := "*** Add File: ".toList
def DELETE_FILE_MARKER : Text := "*** Delete File: ".toList
def UPDATE_FILE_MARKER : Text := "*** Update File: ".toList
def MOVE_TO_MARKER : Text := "*** Move to: ".toList
def GUARD_FILE_MARKER : Text := "*** Guard File: ".toList
def EXPECT_MARKER : Text := "*** Expect: ".toList
def EOF_MARKER : Text := "*** End of File".toList
def CHANGE_CONTEXT_MARKER : Text := "@@ ".toList
def EMPTY_CHANGE_CONTEXT_MARKER : Text := "@@".toList
def ENVIRONMENT_ID_MARKER : Text := "*** Environment ID:".toList

/-- The two literals of an `Expect` line. -/
def ABSENT : Text := "absent".toList
def SHA256_MARKER : Text := "sha256:".toList

inductive StreamingParserMode where
  | notStarted
  | startedPatch
  | guardFile
  | addFile
  | deleteFile
  | updateFile (hunkLineNumber : Nat)
  | endedPatch
  deriving DecidableEq, Repr

/-- The modes in which `finish_in_place` takes a last line without line feed as the end. -/
def StreamingParserMode.endsAtMarker : StreamingParserMode → Bool
  | .startedPatch | .addFile | .deleteFile | .updateFile _ => true
  | .notStarted | .guardFile | .endedPatch => false

structure StreamingParserState where
  mode : StreamingParserMode := .notStarted
  hunks : List Hunk := []
  environmentId : Option Text := none
  revisionGuards : List FileRevisionGuard := []
  pendingGuard : Option Text := none
  deriving DecidableEq

structure StreamingPatchParser where
  lineBuffer : Text := []
  state : StreamingParserState := {}
  lineNumber : Nat := 0
  deriving DecidableEq

def unexpectedLine (line : Text) (lineNumber : Nat) : ParseError :=
  .invalidHunkError
    ("Unexpected line found in update hunk: '".toList ++ line ++
      ("'. Every line should start with ' ' (context line), '+' (added line), " ++
        "or '-' (removed line)").toList)
    lineNumber

def expectedContextMarker (line : Text) (lineNumber : Nat) : ParseError :=
  .invalidHunkError
    ("Expected update hunk to start with a @@ context marker, got: '".toList ++ line ++ ['\''])
    lineNumber

def noLines (lineNumber : Nat) : ParseError :=
  .invalidHunkError "Update hunk does not contain any lines".toList lineNumber

def invalidHeader (trimmed : Text) (lineNumber : Nat) : ParseError :=
  .invalidHunkError
    (['\''] ++ trimmed ++
      ("' is not a valid hunk header. Valid hunk headers: '*** Add File: \x7bpath\x7d', " ++
        "'*** Delete File: \x7bpath\x7d', '*** Update File: \x7bpath\x7d'").toList)
    lineNumber

def firstLineError : ParseError :=
  .invalidPatchError "The first line of the patch must be '*** Begin Patch'".toList

def lastLineError : ParseError :=
  .invalidPatchError "The last line of the patch must be '*** End Patch'".toList

/-- The test for a chunk that has been opened and has no lines yet. -/
def chunkIsEmpty (chunk : UpdateFileChunk) : Bool :=
  chunk.oldLines.isEmpty && chunk.newLines.isEmpty

/-- `ensure_update_hunk_is_not_empty` (`streaming_parser.rs:67`). -/
def ensureUpdateHunkIsNotEmpty (state : StreamingParserState) (lineNumber : Nat) (line : Text) :
    Except ParseError Unit :=
  match state.hunks.getLast? with
  | some (.updateFile path movePath chunks) =>
      match state.mode, chunks, movePath with
      | .updateFile hunkLineNumber, [], none =>
          .error (.invalidHunkError
            ("Update file hunk for path '".toList ++ path ++ "' is empty".toList) hunkLineNumber)
      | _, _, _ =>
          if chunks.getLast?.any chunkIsEmpty then
            if line = END_PATCH_MARKER then .error (noLines lineNumber)
            else .error (unexpectedLine line lineNumber)
          else .ok ()
  | _ => .ok ()

/-- A header line that opens the hunk `hunk` after the check on the one before it. -/
def openHunk (state : StreamingParserState) (lineNumber : Nat) (trimmed : Text) (hunk : Hunk)
    (mode : StreamingParserMode) : Except ParseError (Option StreamingParserState) :=
  match ensureUpdateHunkIsNotEmpty state lineNumber trimmed with
  | .error error => .error error
  | .ok () => .ok (some { state with hunks := state.hunks ++ [hunk], mode })

/-- The environment line of `handle_hunk_headers_and_end_patch`. -/
def setEnvironmentId (state : StreamingParserState) (environmentId : Text) :
    Except ParseError (Option StreamingParserState) :=
  if state.revisionGuards ≠ [] then
    .error (.invalidPatchError "Environment ID must precede revision guards".toList)
  else if state.environmentId ≠ none then
    .error (.invalidPatchError
      "apply_patch environment_id cannot be specified more than once".toList)
  else if trim environmentId = [] then
    .error (.invalidPatchError "apply_patch environment_id cannot be empty".toList)
  else .ok (some { state with environmentId := some (trim environmentId) })

/-- `handle_hunk_headers_and_end_patch` (`streaming_parser.rs:104`); `none` is `Ok(false)`. -/
def handleHunkHeadersAndEndPatch (state : StreamingParserState) (lineNumber : Nat)
    (trimmed : Text) : Except ParseError (Option StreamingParserState) :=
  match stripPrefix GUARD_FILE_MARKER trimmed with
  | some path =>
      if state.mode ≠ .startedPatch ∨ path = [] then
        .error (.invalidPatchError
          "Revision guards must name a file before any file hunks".toList)
      else .ok (some { state with pendingGuard := some path, mode := .guardFile })
  | none =>
  match (if state.mode = .startedPatch then stripPrefix ENVIRONMENT_ID_MARKER trimmed else none) with
  | some environmentId => setEnvironmentId state environmentId
  | none =>
  if trimmed = END_PATCH_MARKER then
    match ensureUpdateHunkIsNotEmpty state lineNumber trimmed with
    | .error error => .error error
    | .ok () => .ok (some { state with mode := .endedPatch })
  else
  match stripPrefix ADD_FILE_MARKER trimmed with
  | some path => openHunk state lineNumber trimmed (.addFile path []) .addFile
  | none =>
  match stripPrefix DELETE_FILE_MARKER trimmed with
  | some path => openHunk state lineNumber trimmed (.deleteFile path) .deleteFile
  | none =>
  match stripPrefix UPDATE_FILE_MARKER trimmed with
  | some path =>
      openHunk state lineNumber trimmed (.updateFile path none []) (.updateFile lineNumber)
  | none => .ok none

/-- The line after a guard header. -/
def processGuardLine (state : StreamingParserState) (trimmed : Text) :
    Except ParseError StreamingParserState :=
  let push (expectedSha256 : Option SourceHashRef) : Except ParseError StreamingParserState :=
    match state.pendingGuard with
    | none => .error (.invalidPatchError "Revision guard is missing its path".toList)
    | some path =>
        .ok { state with
          pendingGuard := none
          revisionGuards := state.revisionGuards ++ [⟨path, expectedSha256⟩]
          mode := .startedPatch }
  match stripPrefix EXPECT_MARKER trimmed with
  | none =>
      .error (.invalidPatchError ("Guard File must be followed by *** Expect: ".toList ++
        SourceHashRef.FORM ++ " or *** Expect: absent".toList))
  | some expected =>
      if expected = ABSENT then push none
      else
        match stripPrefix SHA256_MARKER expected with
        | none =>
            .error (.invalidPatchError ("Revision guard requires ".toList ++
              SourceHashRef.FORM ++ " or absent".toList))
        | some hash =>
            match SourceHashRef.parse hash with
            | .error error =>
                .error (.invalidPatchError ("Revision guard: ".toList ++ error.display ++
                  ", or absent".toList))
            | .ok hash => push (some hash)

/-- A content line of an added file, or `None` when the line is none. -/
def processAddLine (state : StreamingParserState) (line : Text) : Option StreamingParserState :=
  match stripPrefix ['+'] line, state.hunks.getLast? with
  | some lineToAdd, some (.addFile path contents) =>
      some { state with
        hunks := state.hunks.dropLast ++ [.addFile path (contents ++ lineToAdd ++ ['\n'])] }
  | _, _ => none

/-- One line of a chunk: the four `chunk.line_kinds.push` branches of the source. -/
def pushChunkLine (chunks : List UpdateFileChunk) (kind : UpdateLineKind) (text : Text) :
    List UpdateFileChunk :=
  let chunks := if chunks = [] then [{}] else chunks
  match chunks.getLast? with
  | none => chunks
  | some chunk =>
      chunks.dropLast ++ [{ chunk with
        lineKinds := chunk.lineKinds ++ [kind]
        oldLines := if kind = .add then chunk.oldLines else chunk.oldLines ++ [text]
        newLines := if kind = .remove then chunk.newLines else chunk.newLines ++ [text] }]

/-- The branches of `process_line` that read the body of an update hunk, on its move path and
    chunks (`streaming_parser.rs:316`). -/
def processUpdateBody (lineNumber : Nat) (line : Text) (movePath : Option Text)
    (chunks : List UpdateFileChunk) : Except ParseError (Option Text × List UpdateFileChunk) :=
  let updateLine := trimEnd line
  let isContextMarker := updateLine = EMPTY_CHANGE_CONTEXT_MARKER ∨
    CHANGE_CONTEXT_MARKER <+: updateLine
  let ended := chunks.getLast?.any UpdateFileChunk.isEndOfFile
  let empty := chunks.getLast?.any chunkIsEmpty
  if ended ∧ updateLine = [] then .ok (movePath, chunks)
  else if ended ∧ ¬ isContextMarker then .error (expectedContextMarker line lineNumber)
  else
  match (if chunks = [] ∧ movePath = none then stripPrefix MOVE_TO_MARKER updateLine else none) with
  | some moveToPath => .ok (some moveToPath, chunks)
  | none =>
  if isContextMarker ∧ empty then .error (unexpectedLine line lineNumber)
  else if updateLine = EMPTY_CHANGE_CONTEXT_MARKER then .ok (movePath, chunks ++ [{}])
  else
  match stripPrefix CHANGE_CONTEXT_MARKER updateLine with
  | some changeContext =>
      .ok (movePath, chunks ++ [{ changeContext := some changeContext }])
  | none =>
  if updateLine = EOF_MARKER then
    if empty then .error (noLines lineNumber)
    else
      match chunks.getLast? with
      | none => .ok (movePath, chunks)
      | some chunk => .ok (movePath, chunks.dropLast ++ [{ chunk with isEndOfFile := true }])
  else
  match line with
  | [] => .ok (movePath, pushChunkLine chunks .context [])
  | ' ' :: text => .ok (movePath, pushChunkLine chunks .context text)
  | '+' :: text => .ok (movePath, pushChunkLine chunks .add text)
  | '-' :: text => .ok (movePath, pushChunkLine chunks .remove text)
  | _ =>
      if chunks.getLast?.any (fun chunk => !chunkIsEmpty chunk) then
        .error (expectedContextMarker line lineNumber)
      else .error (unexpectedLine line lineNumber)

/-- `process_line` (`streaming_parser.rs:228`). -/
def processLine (state : StreamingParserState) (lineNumber : Nat) (line : Text) :
    Except ParseError StreamingParserState :=
  let trimmed := trim line
  match state.mode with
  | .notStarted =>
      if trimmed = BEGIN_PATCH_MARKER then .ok { state with mode := .startedPatch }
      else .error firstLineError
  | .guardFile => processGuardLine state trimmed
  | .startedPatch =>
      match handleHunkHeadersAndEndPatch state lineNumber trimmed with
      | .error error => .error error
      | .ok (some state) => .ok state
      | .ok none => .error (invalidHeader trimmed lineNumber)
  | .addFile =>
      match handleHunkHeadersAndEndPatch state lineNumber trimmed with
      | .error error => .error error
      | .ok (some state) => .ok state
      | .ok none =>
          match processAddLine state line with
          | some state => .ok state
          | none => .error (invalidHeader trimmed lineNumber)
  | .deleteFile =>
      match handleHunkHeadersAndEndPatch state lineNumber trimmed with
      | .error error => .error error
      | .ok (some state) => .ok state
      | .ok none => .error (invalidHeader trimmed lineNumber)
  | .updateFile _ =>
      match handleHunkHeadersAndEndPatch state lineNumber (trimEnd line) with
      | .error error => .error error
      | .ok (some state) => .ok state
      | .ok none =>
          match state.hunks.getLast? with
          | some (.updateFile path movePath chunks) =>
              match processUpdateBody lineNumber line movePath chunks with
              | .error error => .error error
              | .ok (movePath, chunks) =>
                  .ok { state with
                    hunks := state.hunks.dropLast ++ [.updateFile path movePath chunks] }
          | _ => .error (unexpectedLine line lineNumber)
  | .endedPatch => if trimmed = [] then .ok state else .error lastLineError

/-- `line.truncate(line.strip_suffix('\r')…)`: drop one carriage return at the end. -/
def stripCarriageReturn (line : Text) : Text := (stripSuffix ['\r'] line).getD line

/-- A line that a line feed completed. -/
def endLine (parser : StreamingPatchParser) : Except ParseError Unit × StreamingPatchParser :=
  let line := stripCarriageReturn parser.lineBuffer
  let lineNumber := parser.lineNumber + 1
  match processLine parser.state lineNumber line with
  | .error error => (.error error, { parser with lineBuffer := [], lineNumber })
  | .ok state => (.ok (), { lineBuffer := [], state, lineNumber })

/-- The body of the loop of `push_delta_in_place` for one segment. -/
def pushSegment (parser : StreamingPatchParser) (segment : Text) :
    Except ParseError Unit × StreamingPatchParser :=
  match stripSuffix ['\n'] segment with
  | some line => endLine { parser with lineBuffer := parser.lineBuffer ++ line }
  | none => (.ok (), { parser with lineBuffer := parser.lineBuffer ++ segment })

/-- Apply a step to each item in order, until the first error. -/
def untilError {Item : Type}
    (step : StreamingPatchParser → Item → Except ParseError Unit × StreamingPatchParser) :
    StreamingPatchParser → List Item → Except ParseError Unit × StreamingPatchParser
  | parser, [] => (.ok (), parser)
  | parser, item :: items =>
      match step parser item with
      | (.error error, parser) => (.error error, parser)
      | (.ok (), parser) => untilError step parser items

/-- `push_delta_in_place` (`streaming_parser.rs:170`). -/
def pushDeltaInPlace (parser : StreamingPatchParser) (delta : Text) :
    Except ParseError Unit × StreamingPatchParser :=
  untilError pushSegment parser (splitInclusive delta)

/-- `finish_in_place` (`streaming_parser.rs:195`). -/
def finishInPlace (parser : StreamingPatchParser) :
    Except ParseError Unit × StreamingPatchParser :=
  let ended (parser : StreamingPatchParser) : Except ParseError Unit × StreamingPatchParser :=
    if parser.state.mode = .endedPatch then (.ok (), parser) else (.error lastLineError, parser)
  if parser.lineBuffer = [] then ended parser
  else
    let line := parser.lineBuffer
    let lineNumber := parser.lineNumber + 1
    let parser := { parser with lineBuffer := [], lineNumber }
    if trim line = END_PATCH_MARKER ∧ parser.state.mode.endsAtMarker = true then
      match ensureUpdateHunkIsNotEmpty parser.state lineNumber (trim line) with
      | .error error => (.error error, parser)
      | .ok () => ended { parser with state := { parser.state with mode := .endedPatch } }
    else
      match processLine parser.state lineNumber line with
      | .error error => (.error error, parser)
      | .ok state => ended { parser with state }

/-- `into_parts`: the hunks, the environment id and the revision guards. -/
def intoParts (parser : StreamingPatchParser) :
    Except ParseError (List Hunk × Option Text × List FileRevisionGuard) :=
  match finishInPlace parser with
  | (.error error, _) => .error error
  | (.ok (), parser) =>
      .ok (parser.state.hunks, parser.state.environmentId, parser.state.revisionGuards)

/-- Feed the deltas one by one until the first error. -/
def feed (deltas : List Text) : Except ParseError Unit × StreamingPatchParser :=
  untilError pushDeltaInPlace {} deltas

/-- A whole parse of a text that arrives as these deltas. -/
def parseDeltas (deltas : List Text) :
    Except ParseError (List Hunk × Option Text × List FileRevisionGuard) :=
  match feed deltas with
  | (.error error, _) => .error error
  | (.ok (), parser) => intoParts parser

/-- The parser one character at a time. -/
def pushChar (parser : StreamingPatchParser) (c : Char) :
    Except ParseError Unit × StreamingPatchParser :=
  if c = '\n' then endLine parser
  else (.ok (), { parser with lineBuffer := parser.lineBuffer ++ [c] })

section UntilError

variable {Item : Type}
  {step : StreamingPatchParser → Item → Except ParseError Unit × StreamingPatchParser}

theorem untilError_append (parser : StreamingPatchParser) (first second : List Item) :
    untilError step parser (first ++ second) =
      match untilError step parser first with
      | (.error error, parser) => (.error error, parser)
      | (.ok (), parser) => untilError step parser second := by
  induction first generalizing parser with
  | nil => rfl
  | cons item items ih =>
    simp only [List.cons_append, untilError]
    split
    · rfl
    · exact ih _

theorem untilError_singleton (parser : StreamingPatchParser) (item : Item) :
    untilError step parser [item] = step parser item := by
  simp only [untilError]
  split
  · next stepped => exact stepped.symm
  · next stepped => exact stepped.symm

end UntilError

/-- Moving a character that is no line feed from the segment to the buffer. -/
theorem pushSegment_cons {c : Char} (notFeed : c ≠ '\n') (parser : StreamingPatchParser)
    (segment : Text) :
    pushSegment parser (c :: segment) =
      pushSegment { parser with lineBuffer := parser.lineBuffer ++ [c] } segment := by
  unfold pushSegment
  rw [stripSuffix_cons notFeed]
  cases stripSuffix ['\n'] segment with
  | none => simp
  | some line => simp

/-- The segments of a delta do what its characters do one by one. -/
theorem pushDeltaInPlace_eq_chars (parser : StreamingPatchParser) (delta : Text) :
    pushDeltaInPlace parser delta = untilError pushChar parser delta := by
  unfold pushDeltaInPlace
  induction delta generalizing parser with
  | nil => rfl
  | cons c text ih =>
    by_cases isFeed : c = '\n'
    · subst isFeed
      have segment : pushSegment parser ['\n'] = pushChar parser '\n' := by
        simp [pushSegment, pushChar, show stripSuffix ['\n'] ['\n'] = some [] from rfl]
      simp only [splitInclusive, if_true, untilError, segment]
      split
      · rfl
      · exact ih _
    have buffered : untilError pushChar parser (c :: text) =
        untilError pushChar { parser with lineBuffer := parser.lineBuffer ++ [c] } text := by
      simp [untilError, pushChar, isFeed]
    rw [buffered, ← ih, splitInclusive, if_neg isFeed]
    cases splitInclusive text with
    | nil =>
      rw [untilError_singleton, pushSegment_cons isFeed]
      simp [pushSegment, untilError]
    | cons segment segments =>
      simp only [untilError, pushSegment_cons isFeed]

/-- Feeding deltas is feeding the characters of their concatenation. -/
theorem untilError_pushDeltaInPlace (parser : StreamingPatchParser) (deltas : List Text) :
    untilError pushDeltaInPlace parser deltas = untilError pushChar parser deltas.flatten := by
  induction deltas generalizing parser with
  | nil => rfl
  | cons delta deltas ih =>
    rw [List.flatten_cons, untilError_append, ← pushDeltaInPlace_eq_chars]
    simp only [untilError]
    split
    · rfl
    · exact ih _

theorem feed_eq_feed_flatten (deltas : List Text) : feed deltas = feed [deltas.flatten] := by
  rw [feed, feed, untilError_pushDeltaInPlace, untilError_pushDeltaInPlace]
  simp

/-- However a text is cut into deltas, feeding them up to the first error and finishing gives
    what the text gives in one call: the same hunks, environment id and guards or the same
    error, and the same parser even after an error. What is visible after some deltas depends
    on their concatenation only. -/
theorem parse_independent_of_deltas :
    (∀ deltas : List Text, parseDeltas deltas = parseDeltas [deltas.flatten] ∧
      (feed deltas).1 = (pushDeltaInPlace {} deltas.flatten).1 ∧
      finishInPlace (feed deltas).2 = finishInPlace (pushDeltaInPlace {} deltas.flatten).2) ∧
    ∃ visible : Text → List Hunk, ∀ (deltas : List Text) (count : Nat),
      (feed (deltas.take count)).2.state.hunks = visible (deltas.take count).flatten := by
  have single : ∀ text : Text, feed [text] = pushDeltaInPlace {} text :=
    fun text => untilError_singleton {} text
  refine ⟨?_, fun text => (feed [text]).2.state.hunks, ?_⟩
  · intro deltas
    have same := feed_eq_feed_flatten deltas
    refine ⟨?_, ?_, ?_⟩
    · rw [parseDeltas, parseDeltas, same]
    · rw [same, single]
    · rw [same, single]
  · intro deltas count
    rw [feed_eq_feed_flatten]

end Codex.ApplyPatch
