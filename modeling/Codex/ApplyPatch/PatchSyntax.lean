import Codex.ApplyPatch.Parser

/-!
# The patch syntax

The documented grammar (`tools/src/builtin_specs/apply_patch.lark` and the environment header
of `apply_patch_spec.rs`) as a printer on abstract patches, and the round trip through
`parse_patch`: a well-formed patch is read back as it was meant.
-/

namespace Codex.ApplyPatch.PatchSyntax

open Codex.Text

/-- One context, added or removed line of a chunk. -/
structure ChunkLine where
  kind : UpdateLineKind
  text : Text
  deriving DecidableEq, Repr

structure Chunk where
  context : Option Text := none
  lines : List ChunkLine
  isEndOfFile : Bool := false
  deriving DecidableEq, Repr

/-- A hunk as it is written. An update may leave out the marker of its first chunk when that
    has no context (`bareFirst`). -/
inductive FileChange where
  | add (path : Text) (lines : List Text)
  | delete (path : Text)
  | update (path : Text) (movePath : Option Text) (bareFirst : Bool) (chunks : List Chunk)
  deriving DecidableEq, Repr

structure Patch where
  environmentId : Option Text := none
  revisionGuards : List FileRevisionGuard := []
  changes : List FileChange := []
  deriving DecidableEq

/-! ## Meaning -/

/-- The chunk of the parser's data: the old lines are those that are not added, the new lines
    those that are not removed. -/
def Chunk.meaning (chunk : Chunk) : UpdateFileChunk where
  changeContext := chunk.context
  oldLines := (chunk.lines.filter (fun line => line.kind != .add)).map ChunkLine.text
  newLines := (chunk.lines.filter (fun line => line.kind != .remove)).map ChunkLine.text
  lineKinds := chunk.lines.map ChunkLine.kind
  isEndOfFile := chunk.isEndOfFile

/-- Lines with their line feeds. -/
def joinLines (lines : List Text) : Text := lines.flatMap (fun line => line ++ ['\n'])

def FileChange.meaning : FileChange → Hunk
  | .add path lines => .addFile path (joinLines lines)
  | .delete path => .deleteFile path
  | .update path movePath _ chunks => .updateFile path movePath (chunks.map Chunk.meaning)

/-! ## Printing -/

def ChunkLine.print (line : ChunkLine) : Text :=
  (match line.kind with
    | .context => ' '
    | .add => '+'
    | .remove => '-') :: line.text

def contextMarker : Option Text → Text
  | none => EMPTY_CHANGE_CONTEXT_MARKER
  | some context => CHANGE_CONTEXT_MARKER ++ context

/-- The lines of a chunk after its marker. -/
def Chunk.body (chunk : Chunk) : List Text :=
  chunk.lines.map ChunkLine.print ++ if chunk.isEndOfFile then [EOF_MARKER] else []

def Chunk.print (chunk : Chunk) : List Text := contextMarker chunk.context :: chunk.body

def printChunks : Bool → List Chunk → List Text
  | true, first :: chunks => first.body ++ chunks.flatMap Chunk.print
  | _, chunks => chunks.flatMap Chunk.print

def FileChange.print : FileChange → List Text
  | .add path lines => (ADD_FILE_MARKER ++ path) :: lines.map (fun line => '+' :: line)
  | .delete path => [DELETE_FILE_MARKER ++ path]
  | .update path movePath bareFirst chunks =>
      (UPDATE_FILE_MARKER ++ path) ::
        (movePath.toList.map (fun path => MOVE_TO_MARKER ++ path) ++ printChunks bareFirst chunks)

/-- What a guard expects, as it is written. -/
def expectation : Option SourceHashRef → Text
  | none => ABSENT
  | some expected => SHA256_MARKER ++ expected.hash

def printGuard (guard : FileRevisionGuard) : List Text :=
  [GUARD_FILE_MARKER ++ guard.path,
    EXPECT_MARKER ++ expectation guard.expectedSha256]

/-- The lines between the opening and the closing line. -/
def Patch.body (patch : Patch) : List Text :=
  patch.environmentId.toList.map (fun id => ENVIRONMENT_ID_MARKER ++ ' ' :: id) ++
    patch.revisionGuards.flatMap printGuard ++ patch.changes.flatMap FileChange.print

/-- The patch text; the line feed after the last line is optional. -/
def Patch.print (patch : Patch) (lastFeed : Bool) : Text :=
  joinLines (BEGIN_PATCH_MARKER :: patch.body) ++ END_PATCH_MARKER ++
    if lastFeed then ['\n'] else []

/-! ## Well-formedness -/

/-- A path or an id: trimmed, not empty and on one line. -/
def IsName (name : Text) : Prop := trim name = name ∧ name ≠ [] ∧ '\n' ∉ name

structure ChunkLine.WellFormed (line : ChunkLine) : Prop where
  single : '\n' ∉ line.text
  noReturn : line.text.getLast? ≠ some '\r'

structure Chunk.WellFormed (chunk : Chunk) : Prop where
  nonempty : chunk.lines ≠ []
  lines : ∀ line ∈ chunk.lines, line.WellFormed
  context : ∀ context ∈ chunk.context, trimEnd context = context ∧ context ≠ [] ∧ '\n' ∉ context

def FileChange.WellFormed : FileChange → Prop
  | .add path lines => IsName path ∧ ∀ line ∈ lines, '\n' ∉ line ∧ '\r' ∉ line
  | .delete path => IsName path
  | .update path movePath bareFirst chunks =>
      IsName path ∧ (∀ path ∈ movePath, IsName path) ∧ (chunks ≠ [] ∨ movePath ≠ none) ∧
      (∀ chunk ∈ chunks, chunk.WellFormed) ∧
      (bareFirst = true → ∀ chunk ∈ chunks.head?, chunk.context = none)

structure Patch.WellFormed (patch : Patch) : Prop where
  environmentId : ∀ id ∈ patch.environmentId, IsName id
  revisionGuards : ∀ guard ∈ patch.revisionGuards, IsName guard.path
  changes : ∀ change ∈ patch.changes, change.WellFormed

/-! ## Markers -/

/-- A line that begins with another marker: the two differ inside their first seven
    characters, `*** Xyz`. -/
def Apart (written marker : Text) : Prop :=
  7 ≤ written.length ∧ 7 ≤ marker.length ∧ written.take 7 ≠ marker.take 7

instance (written marker : Text) : Decidable (Apart written marker) :=
  inferInstanceAs (Decidable (_ ∧ _))

variable {written marker line path : Text} {state : StreamingParserState} {patch : Patch}

theorem Apart.not_prefix (apart : Apart written marker) (rest : Text) :
    ¬ marker <+: written ++ rest := by
  obtain ⟨writtenLong, markerLong, differs⟩ := apart
  apply not_prefix_of_take 7 markerLong
  rw [List.take_append_of_le_length writtenLong]
  exact differs

theorem Apart.stripPrefix (apart : Apart written marker) (rest : Text) :
    stripPrefix marker (written ++ rest) = none :=
  stripPrefix_of_not_prefix (apart.not_prefix rest)

theorem Apart.ne (apart : Apart written marker) (rest : Text) :
    written ++ rest ≠ marker := by
  intro same
  exact apart.not_prefix rest (same ▸ List.prefix_rfl)

/-- Every header marker begins with an asterisk. -/
theorem not_prefix_of_head {text : Text} (star : marker.head? = some '*')
    (other : text.head? ≠ some '*') : ¬ marker <+: text := by
  rintro ⟨rest, rfl⟩
  apply other
  rw [List.head?_append, star]
  rfl

theorem handle_of_head {text : Text} (other : text.head? ≠ some '*')
    (state : StreamingParserState) (n : Nat) :
    handleHunkHeadersAndEndPatch state n text = .ok none := by
  have none_of : ∀ marker : Text, marker.head? = some '*' → stripPrefix marker text = none :=
    fun marker star => stripPrefix_of_not_prefix (not_prefix_of_head star other)
  have notEnd : text ≠ END_PATCH_MARKER := by
    rintro rfl
    exact other rfl
  simp only [handleHunkHeadersAndEndPatch, none_of GUARD_FILE_MARKER rfl,
    none_of ENVIRONMENT_ID_MARKER rfl, none_of ADD_FILE_MARKER rfl, none_of DELETE_FILE_MARKER rfl,
    none_of UPDATE_FILE_MARKER rfl, ite_self, if_neg notEnd]

/-! ## Reading lines -/

/-- The state after complete lines, without the character buffer. -/
def readLines : Nat → StreamingParserState → List Text → Except ParseError StreamingParserState
  | _, state, [] => .ok state
  | n, state, line :: lines =>
      match processLine state (n + 1) line with
      | .error error => .error error
      | .ok state => readLines (n + 1) state lines

theorem readLines_append {n : Nat} {middle final : StreamingParserState} {first second : List Text}
    (front : readLines n state first = .ok middle)
    (back : readLines (n + first.length) middle second = .ok final) :
    readLines n state (first ++ second) = .ok final := by
  induction first generalizing n state with
  | nil =>
    cases front
    exact back
  | cons line lines ih =>
    simp only [List.cons_append, readLines] at front ⊢
    split at front
    · cases front
    · apply ih front
      rw [← back, List.length_cons]
      congr 1
      omega

/-- A line that the character buffer hands over as it is. -/
structure PlainLine (line : Text) : Prop where
  single : '\n' ∉ line
  noReturn : stripCarriageReturn line = line

theorem stripCarriageReturn_of_getLast (last : line.getLast? ≠ some '\r') :
    stripCarriageReturn line = line := by
  unfold stripCarriageReturn
  rcases List.eq_nil_or_concat line with rfl | ⟨init, c, rfl⟩
  · simp
  · rw [List.concat_eq_append] at last ⊢
    have different : c ≠ '\r' := by
      rintro rfl
      exact last (by simp)
    rw [stripSuffix_concat_ne different, Option.getD_none]

/-- A line without trailing white space ends in no carriage return. -/
theorem stripCarriageReturn_of_trimEnd (trimmed : trimEnd line = line) :
    stripCarriageReturn line = line := by
  apply stripCarriageReturn_of_getLast
  intro last
  rcases List.eq_nil_or_concat line with rfl | ⟨init, c, rfl⟩
  · cases last
  rw [List.concat_eq_append] at last trimmed
  obtain rfl : c = '\r' := by simpa using last
  rw [trimEnd_concat, if_pos (by decide)] at trimmed
  have shorter := (List.rdropWhile_prefix isWhitespace init).length_le
  rw [← trimEnd, trimmed, List.length_append, List.length_singleton] at shorter
  omega

/-- Complete lines through the character buffer. -/
theorem untilError_joinLines {lines : List Text} {n : Nat} {final : StreamingParserState}
    (plain : ∀ line ∈ lines, PlainLine line) (read : readLines n state lines = .ok final)
    (rest : Text) :
    untilError pushChar ⟨[], state, n⟩ (joinLines lines ++ rest) =
      untilError pushChar ⟨[], final, n + lines.length⟩ rest := by
  induction lines generalizing n state with
  | nil =>
    cases read
    rfl
  | cons line lines ih =>
    simp only [readLines] at read
    split at read
    · cases read
    next next processed =>
    have head := plain line (by simp)
    have ended : endLine ⟨line, state, n⟩ = (.ok (), ⟨[], next, n + 1⟩) := by
      simp only [endLine, head.noReturn, processed]
    have split : joinLines (line :: lines) ++ rest = line ++ '\n' :: (joinLines lines ++ rest) := by
      simp [joinLines]
    rw [split, untilError_pushChar_line head.single]
    simp only [List.nil_append, ended]
    rw [ih (fun other member => plain other (List.mem_cons_of_mem _ member)) read]
    congr 2
    rw [List.length_cons]
    omega

/-! ## Headers -/

theorem trimEnd_of_trim {text : Text} (trimmed : trim text = text) : trimEnd text = text := by
  rw [← trimmed, trim, trimEnd_trimEnd]

/-- A marker with a name behind it is trimmed. -/
theorem trim_marker_append {marker name : Text} (star : marker.head? = some '*')
    (isName : IsName name) :
    trim (marker ++ name) = marker ++ name ∧ trimEnd (marker ++ name) = marker ++ name := by
  obtain ⟨trimmed, nonempty, -⟩ := isName
  have stop : trimEnd (marker ++ name) = marker ++ name := by
    rw [trimEnd_append (by rw [trimEnd_of_trim trimmed]; exact nonempty), trimEnd_of_trim trimmed]
  refine ⟨trim_eq_self ?_ stop, stop⟩
  cases marker with
  | nil => cases star
  | cons c marker =>
    cases star
    rw [List.cons_append, trimStart_cons]
    rfl

theorem plainLine_marker {marker name : Text} (star : marker.head? = some '*')
    (single : '\n' ∉ marker) (isName : IsName name) : PlainLine (marker ++ name) where
  single member := by
    rcases List.mem_append.mp member with inMarker | inName
    · exact single inMarker
    · exact isName.2.2 inName
  noReturn := stripCarriageReturn_of_trimEnd (trim_marker_append star isName).2

/-- Between two hunks: a header line is accepted. -/
structure Ready (state : StreamingParserState) : Prop where
  mode : state.mode.endsAtMarker = true
  complete : ∀ n line, ensureUpdateHunkIsNotEmpty state n line = .ok ()

/-- A header that is its own trimmed line is read in every mode that takes headers. -/
theorem processLine_header {state next : StreamingParserState} {n : Nat} {line : Text}
    (mode : state.mode.endsAtMarker = true) (trimmed : trim line = line)
    (handled : handleHunkHeadersAndEndPatch state n line = .ok (some next)) :
    processLine state n line = .ok next := by
  unfold processLine
  cases isMode : state.mode with
  | notStarted | guardFile | endedPatch =>
    rw [isMode] at mode
    cases mode
  | startedPatch | addFile | deleteFile | updateFile =>
    simp only [trimmed, trimEnd_of_trim trimmed, handled]

theorem openHunk_ready (ready : Ready state) (n : Nat) (line : Text) (hunk : Hunk)
    (mode : StreamingParserMode) :
    openHunk state n line hunk mode =
      .ok (some { state with hunks := state.hunks ++ [hunk], mode }) := by
  simp only [openHunk, ready.complete]

/-- The header of an added file. -/
theorem handle_add (ready : Ready state) (n : Nat) (path : Text) :
    handleHunkHeadersAndEndPatch state n (ADD_FILE_MARKER ++ path) =
      .ok (some { state with hunks := state.hunks ++ [.addFile path []], mode := .addFile }) := by
  have guard : Apart ADD_FILE_MARKER GUARD_FILE_MARKER := by decide
  have environment : Apart ADD_FILE_MARKER ENVIRONMENT_ID_MARKER := by decide
  have stop : Apart ADD_FILE_MARKER END_PATCH_MARKER := by decide
  simp only [handleHunkHeadersAndEndPatch, guard.stripPrefix, environment.stripPrefix, ite_self,
    if_neg (stop.ne path), stripPrefix_append, openHunk_ready ready]

/-- The header of a deleted file. -/
theorem handle_delete (ready : Ready state) (n : Nat) (path : Text) :
    handleHunkHeadersAndEndPatch state n (DELETE_FILE_MARKER ++ path) =
      .ok (some { state with hunks := state.hunks ++ [.deleteFile path], mode := .deleteFile }) := by
  have guard : Apart DELETE_FILE_MARKER GUARD_FILE_MARKER := by decide
  have environment : Apart DELETE_FILE_MARKER ENVIRONMENT_ID_MARKER := by decide
  have stop : Apart DELETE_FILE_MARKER END_PATCH_MARKER := by decide
  have add : Apart DELETE_FILE_MARKER ADD_FILE_MARKER := by decide
  simp only [handleHunkHeadersAndEndPatch, guard.stripPrefix, environment.stripPrefix, ite_self,
    if_neg (stop.ne path), add.stripPrefix, stripPrefix_append, openHunk_ready ready]

/-- The header of an updated file. -/
theorem handle_update (ready : Ready state) (n : Nat) (path : Text) :
    handleHunkHeadersAndEndPatch state n (UPDATE_FILE_MARKER ++ path) =
      .ok (some { state with
        hunks := state.hunks ++ [.updateFile path none []], mode := .updateFile n }) := by
  have guard : Apart UPDATE_FILE_MARKER GUARD_FILE_MARKER := by decide
  have environment : Apart UPDATE_FILE_MARKER ENVIRONMENT_ID_MARKER := by decide
  have stop : Apart UPDATE_FILE_MARKER END_PATCH_MARKER := by decide
  have add : Apart UPDATE_FILE_MARKER ADD_FILE_MARKER := by decide
  have delete : Apart UPDATE_FILE_MARKER DELETE_FILE_MARKER := by decide
  simp only [handleHunkHeadersAndEndPatch, guard.stripPrefix, environment.stripPrefix, ite_self,
    if_neg (stop.ne path), add.stripPrefix, delete.stripPrefix, stripPrefix_append,
    openHunk_ready ready]

/-- A move line is no header inside an update hunk. -/
theorem handle_move {k : Nat} (mode : state.mode = .updateFile k) (n : Nat) (path : Text) :
    handleHunkHeadersAndEndPatch state n (MOVE_TO_MARKER ++ path) = .ok none := by
  have guard : Apart MOVE_TO_MARKER GUARD_FILE_MARKER := by decide
  have stop : Apart MOVE_TO_MARKER END_PATCH_MARKER := by decide
  have add : Apart MOVE_TO_MARKER ADD_FILE_MARKER := by decide
  have delete : Apart MOVE_TO_MARKER DELETE_FILE_MARKER := by decide
  have update : Apart MOVE_TO_MARKER UPDATE_FILE_MARKER := by decide
  have notStarted : ¬ state.mode = .startedPatch := by simp [mode]
  simp only [handleHunkHeadersAndEndPatch, guard.stripPrefix, if_neg notStarted,
    if_neg (stop.ne path), add.stripPrefix, delete.stripPrefix, update.stripPrefix]

/-- The end-of-file marker is no header inside an update hunk. -/
theorem handle_endOfFile {k : Nat} (mode : state.mode = .updateFile k) (n : Nat) :
    handleHunkHeadersAndEndPatch state n EOF_MARKER = .ok none := by
  have other : ∀ marker, ¬ marker <+: EOF_MARKER → stripPrefix marker EOF_MARKER = none :=
    fun _ => stripPrefix_of_not_prefix
  have notStarted : ¬ state.mode = .startedPatch := by simp [mode]
  simp only [handleHunkHeadersAndEndPatch, if_neg notStarted, other GUARD_FILE_MARKER (by decide),
    other ADD_FILE_MARKER (by decide), other DELETE_FILE_MARKER (by decide),
    other UPDATE_FILE_MARKER (by decide),
    if_neg (show ¬ EOF_MARKER = END_PATCH_MARKER by decide)]

/-! ## Added files -/

theorem head_trimEnd_cons (c : Char) (text : Text) :
    (trimEnd (c :: text)).head? = none ∨ (trimEnd (c :: text)).head? = some c := by
  rw [trimEnd_cons]
  split
  · split
    · exact .inl rfl
    · exact .inr rfl
  · exact .inr rfl

/-- A content line is added to the file of the last hunk. -/
theorem processLine_addLine {before : List Hunk} {contents : Text} (mode : state.mode = .addFile)
    (last : state.hunks = before ++ [.addFile path contents]) (n : Nat) (line : Text) :
    processLine state n ('+' :: line) =
      .ok { state with
        hunks := before ++ [.addFile path (contents ++ line ++ ['\n'])] } := by
  have trimmed : trim ('+' :: line) = '+' :: trimEnd line := by
    rw [trim, trimStart_cons, if_neg (by decide), trimEnd_cons_of_visible (by decide)]
  have handled := @handle_of_head ('+' :: trimEnd line) (by simp) state n
  have added : stripPrefix ['+'] ('+' :: line) = some line := stripPrefix_append ['+'] line
  simp only [processLine, mode, trimmed, handled, processAddLine, added, last]
  simp

theorem readLines_addLines {state : StreamingParserState} {before : List Hunk} {path : Text}
    (mode : state.mode = .addFile) (n : Nat) (contents : Text) (lines : List Text) :
    readLines n { state with hunks := before ++ [.addFile path contents] }
        (lines.map (fun line => '+' :: line)) =
      .ok { state with hunks := before ++ [.addFile path (contents ++ joinLines lines)] } := by
  induction lines generalizing n contents with
  | nil => simp [readLines, joinLines]
  | cons line lines ih =>
    simp only [List.map_cons, readLines]
    rw [processLine_addLine (by simpa using mode) rfl]
    simp only
    rw [ih]
    simp [joinLines]

/-! ## Update hunks -/

/-- The state inside the update hunk of a file. -/
def inUpdate (base : StreamingParserState) (k : Nat) (path : Text) (movePath : Option Text)
    (chunks : List UpdateFileChunk) : StreamingParserState :=
  { base with hunks := base.hunks ++ [.updateFile path movePath chunks], mode := .updateFile k }

section Update

variable {base : StreamingParserState} {k n : Nat} {path : Text} {movePath movePath' : Option Text}
  {chunks chunks' : List UpdateFileChunk}

theorem processLine_body
    (noHeader : handleHunkHeadersAndEndPatch (inUpdate base k path movePath chunks) n
      (trimEnd line) = .ok none)
    (body : processUpdateBody n line movePath chunks = .ok (movePath', chunks')) :
    processLine (inUpdate base k path movePath chunks) n line =
      .ok (inUpdate base k path movePath' chunks') := by
  have mode : (inUpdate base k path movePath chunks).mode = .updateFile k := rfl
  have last : (inUpdate base k path movePath chunks).hunks.getLast? =
      some (.updateFile path movePath chunks) := by
    simp [inUpdate]
  simp only [processLine, mode, noHeader, last, body]
  simp [inUpdate]

/-- What a body line that is no marker of any kind can start with. -/
def Unmarked (text : Text) : Prop := text.head? ≠ some '*' ∧ text.head? ≠ some '@'

theorem unmarked_print (line : ChunkLine) : Unmarked (trimEnd line.print) := by
  unfold ChunkLine.print Unmarked
  rcases head_trimEnd_cons (match line.kind with
    | .context => ' '
    | .add => '+'
    | .remove => '-') line.text with blank | visible
  · rw [blank]
    simp
  · rw [visible]
    cases line.kind <;> simp

theorem processUpdateBody_line (line : ChunkLine)
    (opened : chunks.getLast?.any UpdateFileChunk.isEndOfFile = false) :
    processUpdateBody n line.print movePath chunks =
      .ok (movePath, pushChunkLine chunks line.kind line.text) := by
  obtain ⟨noStar, noAt⟩ := unmarked_print line
  have noPrefix : ∀ marker : Text, marker.head? = some '@' → ¬ marker <+: trimEnd line.print := by
    rintro marker at_ ⟨rest, same⟩
    rw [← same, List.head?_append, at_] at noAt
    exact noAt rfl
  have notEmptyMarker : ¬ trimEnd line.print = EMPTY_CHANGE_CONTEXT_MARKER := by
    intro same
    exact noPrefix EMPTY_CHANGE_CONTEXT_MARKER rfl (same ▸ List.prefix_rfl)
  have notContext := noPrefix CHANGE_CONTEXT_MARKER rfl
  have notMove : stripPrefix MOVE_TO_MARKER (trimEnd line.print) = none :=
    stripPrefix_of_not_prefix (not_prefix_of_head rfl noStar)
  have notEnd : ¬ trimEnd line.print = EOF_MARKER := by
    intro same
    rw [same] at noStar
    exact noStar rfl
  simp only [processUpdateBody, opened, notMove, ite_self, notEmptyMarker, notContext,
    stripPrefix_of_not_prefix notContext, notEnd, or_self, false_and, if_false,
    Bool.false_eq_true]
  unfold ChunkLine.print
  cases line.kind <;> rfl

/-- A chunk in the middle of its lines. -/
def partialChunk (context : Option Text) (lines : List ChunkLine) : UpdateFileChunk :=
  Chunk.meaning { context, lines }

theorem pushChunkLine_open (context : Option Text) (done : List ChunkLine) (line : ChunkLine) :
    pushChunkLine (chunks ++ [partialChunk context done]) line.kind line.text =
      chunks ++ [partialChunk context (done ++ [line])] := by
  have nonempty : ¬ chunks ++ [partialChunk context done] = [] := by simp
  unfold pushChunkLine
  simp only [if_neg nonempty, List.getLast?_concat, List.dropLast_concat]
  cases kind : line.kind <;> simp [partialChunk, Chunk.meaning, kind]

/-- The first line of a chunk without marker opens it. -/
theorem pushChunkLine_bare (line : ChunkLine) :
    pushChunkLine [] line.kind line.text = [partialChunk none [line]] :=
  @pushChunkLine_open [] none [] line

theorem readLines_chunkLines (context : Option Text) (done lines : List ChunkLine) :
    readLines n (inUpdate base k path movePath (chunks ++ [partialChunk context done]))
        (lines.map ChunkLine.print) =
      .ok (inUpdate base k path movePath (chunks ++ [partialChunk context (done ++ lines)])) := by
  induction lines generalizing n done with
  | nil => simp [readLines]
  | cons line lines ih =>
    have opened : (chunks ++ [partialChunk context done]).getLast?.any
        UpdateFileChunk.isEndOfFile = false := by
      simp [partialChunk, Chunk.meaning]
    have body := @processUpdateBody_line (n + 1) movePath _ line opened
    rw [pushChunkLine_open] at body
    simp only [List.map_cons, readLines]
    rw [processLine_body (handle_of_head (unmarked_print line).1 _ _) body]
    simp only
    rw [ih]
    simp

theorem chunkIsEmpty_meaning {chunk : Chunk} (nonempty : chunk.lines ≠ []) :
    chunkIsEmpty chunk.meaning = false := by
  obtain ⟨line, lines, isLines⟩ := List.exists_cons_of_ne_nil nonempty
  cases kind : line.kind <;> simp [chunkIsEmpty, Chunk.meaning, isLines, kind]

/-- The end-of-file marker after the lines of a chunk. -/
theorem readLines_endOfFile {context : Option Text} {lines : List ChunkLine}
    (nonempty : lines ≠ []) :
    readLines n (inUpdate base k path movePath (chunks ++ [partialChunk context lines]))
        [EOF_MARKER] =
      .ok (inUpdate base k path movePath
        (chunks ++ [Chunk.meaning { context, lines, isEndOfFile := true }])) := by
  have visible : trimEnd EOF_MARKER = EOF_MARKER := by decide
  have occupied : chunkIsEmpty (partialChunk context lines) = false :=
    @chunkIsEmpty_meaning { context, lines } nonempty
  have body : processUpdateBody (n + 1) EOF_MARKER movePath
      (chunks ++ [partialChunk context lines]) =
        .ok (movePath, chunks ++ [Chunk.meaning { context, lines, isEndOfFile := true }]) := by
    have opened : (partialChunk context lines).isEndOfFile = false := rfl
    have nonemptyChunks : ¬ chunks ++ [partialChunk context lines] = [] := by simp
    have notEmptyMarker : ¬ EOF_MARKER = EMPTY_CHANGE_CONTEXT_MARKER := by decide
    have notContext : ¬ CHANGE_CONTEXT_MARKER <+: EOF_MARKER := by decide
    simp only [processUpdateBody, visible, List.getLast?_concat, Option.any_some, opened, occupied,
      nonemptyChunks, notEmptyMarker, notContext, stripPrefix_of_not_prefix notContext,
      List.dropLast_concat, Bool.false_eq_true, false_and, and_false, or_self, if_false, if_true]
    rfl
  simp only [readLines]
  rw [processLine_body (by rw [visible]; exact handle_endOfFile rfl _) body]

/-- The lines of a chunk after its marker. -/
theorem readLines_chunkBody {chunk : Chunk} (nonempty : chunk.lines ≠ []) :
    readLines n (inUpdate base k path movePath (chunks ++ [partialChunk chunk.context []]))
        chunk.body =
      .ok (inUpdate base k path movePath (chunks ++ [chunk.meaning])) := by
  apply readLines_append (readLines_chunkLines chunk.context [] chunk.lines)
  cases ended : chunk.isEndOfFile with
  | false =>
    simp [readLines, partialChunk, Chunk.meaning, ended]
  | true =>
    rw [if_pos rfl, List.nil_append, readLines_endOfFile nonempty]
    simp [Chunk.meaning, ended]

/-- The chunks so far are finished: the last one has lines. -/
def Settled (chunks : List UpdateFileChunk) : Prop := chunks.getLast?.any chunkIsEmpty = false

/-- A marker line opens a chunk behind finished ones. -/
theorem processUpdateBody_marker {context : Option Text} (settled : Settled chunks)
    (written : ∀ text ∈ context, trimEnd text = text ∧ text ≠ []) :
    trimEnd (contextMarker context) = contextMarker context ∧
    processUpdateBody n (contextMarker context) movePath chunks =
      .ok (movePath, chunks ++ [partialChunk context []]) := by
  unfold Settled at settled
  cases context with
  | none =>
    have visible : trimEnd EMPTY_CHANGE_CONTEXT_MARKER = EMPTY_CHANGE_CONTEXT_MARKER := by decide
    have noMove : stripPrefix MOVE_TO_MARKER EMPTY_CHANGE_CONTEXT_MARKER = none := by decide
    have notBlank : ¬ EMPTY_CHANGE_CONTEXT_MARKER = [] := by decide
    refine ⟨visible, ?_⟩
    simp only [contextMarker, processUpdateBody, visible, settled, noMove, ite_self, notBlank,
      true_or, not_true_eq_false, and_false, if_false, if_true, Bool.false_eq_true]
    rfl
  | some text =>
    obtain ⟨trimmed, nonempty⟩ := written text rfl
    have visible : trimEnd (CHANGE_CONTEXT_MARKER ++ text) = CHANGE_CONTEXT_MARKER ++ text := by
      rw [trimEnd_append (by rw [trimmed]; exact nonempty), trimmed]
    have noMove : stripPrefix MOVE_TO_MARKER (CHANGE_CONTEXT_MARKER ++ text) = none :=
      stripPrefix_of_not_prefix (not_prefix_of_head rfl (by simp [CHANGE_CONTEXT_MARKER]))
    have notBlank : ¬ CHANGE_CONTEXT_MARKER ++ text = [] := by simp [nonempty]
    have longer : ¬ CHANGE_CONTEXT_MARKER ++ text = EMPTY_CHANGE_CONTEXT_MARKER := by
      intro same
      have lengths := congrArg List.length same
      rw [List.length_append, show CHANGE_CONTEXT_MARKER.length = 3 by decide,
        show EMPTY_CHANGE_CONTEXT_MARKER.length = 2 by decide] at lengths
      omega
    refine ⟨visible, ?_⟩
    simp only [contextMarker, processUpdateBody, visible, settled, noMove, ite_self, notBlank,
      longer, List.prefix_append, or_true, not_true_eq_false, and_false, if_false,
      stripPrefix_append, Bool.false_eq_true]
    rfl

theorem settled_concat {chunk : Chunk} (nonempty : chunk.lines ≠ []) :
    Settled (chunks ++ [chunk.meaning]) := by
  unfold Settled
  rw [List.getLast?_concat, Option.any_some, chunkIsEmpty_meaning nonempty]

/-- A chunk with its marker. -/
theorem readLines_chunk {chunk : Chunk} (settled : Settled chunks) (wellFormed : chunk.WellFormed) :
    readLines n (inUpdate base k path movePath chunks) chunk.print =
      .ok (inUpdate base k path movePath (chunks ++ [chunk.meaning])) := by
  have written : ∀ text ∈ chunk.context, trimEnd text = text ∧ text ≠ [] :=
    fun text member => ⟨(wellFormed.context text member).1, (wellFormed.context text member).2.1⟩
  obtain ⟨visible, body⟩ := @processUpdateBody_marker (n + 1) movePath chunks chunk.context settled
    written
  have noHeader : handleHunkHeadersAndEndPatch (inUpdate base k path movePath chunks) (n + 1)
      (trimEnd (contextMarker chunk.context)) = .ok none := by
    rw [visible]
    apply handle_of_head
    cases chunk.context with
    | none => decide
    | some text => simp [contextMarker, CHANGE_CONTEXT_MARKER]
  simp only [Chunk.print, readLines]
  rw [processLine_body noHeader body]
  exact readLines_chunkBody wellFormed.nonempty

theorem readLines_chunks {written : List Chunk} (settled : Settled chunks)
    (wellFormed : ∀ chunk ∈ written, chunk.WellFormed) :
    readLines n (inUpdate base k path movePath chunks) (written.flatMap Chunk.print) =
        .ok (inUpdate base k path movePath (chunks ++ written.map Chunk.meaning)) ∧
      Settled (chunks ++ written.map Chunk.meaning) := by
  induction written generalizing n chunks with
  | nil => simpa [readLines] using settled
  | cons chunk written ih =>
    have head := wellFormed chunk (by simp)
    obtain ⟨read, settled'⟩ := @ih (n + chunk.print.length) (chunks ++ [chunk.meaning])
      (settled_concat head.nonempty) (fun other member => wellFormed other (by simp [member]))
    rw [List.append_assoc, List.singleton_append] at read settled'
    exact ⟨readLines_append (readLines_chunk settled head) read, settled'⟩

/-- All chunks of an update hunk, the first with or without its marker. -/
theorem readLines_printChunks {bareFirst : Bool} {written : List Chunk}
    (wellFormed : ∀ chunk ∈ written, chunk.WellFormed)
    (bare : bareFirst = true → ∀ chunk ∈ written.head?, chunk.context = none) :
    readLines n (inUpdate base k path movePath []) (printChunks bareFirst written) =
        .ok (inUpdate base k path movePath (written.map Chunk.meaning)) ∧
      Settled (written.map Chunk.meaning) := by
  have marked := @readLines_chunks base k n path movePath [] written rfl wellFormed
  rw [List.nil_append] at marked
  match bareFirst, written with
  | false, _ => exact marked
  | true, [] => exact marked
  | true, first :: rest =>
    have head := wellFormed first (by simp)
    obtain ⟨read, settled⟩ := @readLines_chunks base k (n + first.body.length) path movePath
      [first.meaning] rest (@settled_concat [] first head.nonempty)
      (fun other member => wellFormed other (by simp [member]))
    refine ⟨readLines_append ?_ read, settled⟩
    -- the first line opens the chunk that the marker would have opened
    have opened := @readLines_chunkBody base k n path movePath [] first head.nonempty
    simp only [List.nil_append, bare rfl first rfl] at opened
    rw [← opened]
    obtain ⟨line, lines, isLines⟩ := List.exists_cons_of_ne_nil head.nonempty
    have pushed : pushChunkLine [partialChunk none []] line.kind line.text =
        [partialChunk none [line]] := @pushChunkLine_open [] none [] line
    have same : ∀ chunks : List UpdateFileChunk, chunks = [] ∨ chunks = [partialChunk none []] →
        processLine (inUpdate base k path movePath chunks) (n + 1) line.print =
          .ok (inUpdate base k path movePath [partialChunk none [line]]) := by
      rintro chunks (rfl | rfl)
      · exact processLine_body (handle_of_head (unmarked_print line).1 _ _)
          (by rw [processUpdateBody_line line rfl, pushChunkLine_bare])
      · exact processLine_body (handle_of_head (unmarked_print line).1 _ _)
          (by rw [processUpdateBody_line line rfl, pushed])
    simp only [Chunk.body, isLines, List.map_cons, List.cons_append, readLines]
    rw [same [] (.inl rfl), same _ (.inr rfl)]

/-- After its chunks, or a move, an update hunk is complete. -/
theorem ready_inUpdate (settled : Settled chunks) (nonempty : chunks ≠ [] ∨ movePath ≠ none) :
    Ready (inUpdate base k path movePath chunks) where
  mode := rfl
  complete n line := by
    have last : (inUpdate base k path movePath chunks).hunks.getLast? =
        some (.updateFile path movePath chunks) := by
      simp [inUpdate]
    have full : chunks.getLast?.any chunkIsEmpty = false := settled
    simp only [ensureUpdateHunkIsNotEmpty, last]
    split
    · simp at nonempty
    · simp [full]

theorem processLine_move {target : Text} (isName : IsName target) :
    processLine (inUpdate base k path none []) n (MOVE_TO_MARKER ++ target) =
      .ok (inUpdate base k path (some target) []) := by
  have visible := (@trim_marker_append MOVE_TO_MARKER target rfl isName).2
  refine processLine_body (by rw [visible]; exact handle_move rfl n target) ?_
  simp [processUpdateBody, visible]

end Update

/-! ## Whole changes -/

theorem ready_of_last (mode : state.mode.endsAtMarker = true)
    (last : ∀ path movePath chunks, state.hunks.getLast? ≠ some (.updateFile path movePath chunks)) :
    Ready state where
  mode := mode
  complete n line := by
    unfold ensureUpdateHunkIsNotEmpty
    split
    · next found => exact absurd found (last _ _ _)
    · rfl

/-- A change is read as its meaning and leaves the parser ready for the next. -/
theorem readLines_change {change : FileChange} (ready : Ready state)
    (wellFormed : change.WellFormed) (n : Nat) :
    ∃ mode, readLines n state change.print =
        .ok { state with hunks := state.hunks ++ [change.meaning], mode } ∧
      Ready { state with hunks := state.hunks ++ [change.meaning], mode } := by
  cases change with
  | add path lines =>
    obtain ⟨isName, -⟩ := wellFormed
    refine ⟨.addFile, ?_, ready_of_last rfl (by simp [FileChange.meaning])⟩
    have header := processLine_header ready.mode (trim_marker_append rfl isName).1
      (handle_add ready (n + 1) path)
    simp only [FileChange.print, readLines, header]
    exact @readLines_addLines { state with mode := .addFile } state.hunks path rfl (n + 1) [] lines
  | delete path =>
    refine ⟨.deleteFile, ?_, ready_of_last rfl (by simp [FileChange.meaning])⟩
    have header := processLine_header ready.mode (trim_marker_append rfl wellFormed).1
      (handle_delete ready (n + 1) path)
    simp only [FileChange.print, readLines, header]
    rfl
  | update path movePath bareFirst chunks =>
    obtain ⟨isName, moveNames, nonempty, chunksWellFormed, bare⟩ := wellFormed
    have header := processLine_header ready.mode (trim_marker_append rfl isName).1
      (handle_update ready (n + 1) path)
    have settled := (@readLines_printChunks state (n + 1) n path movePath bareFirst chunks
      chunksWellFormed bare).2
    refine ⟨.updateFile (n + 1), ?_, ready_inUpdate settled (by simpa using nonempty)⟩
    simp only [FileChange.print, readLines, header]
    cases movePath with
    | none =>
      exact (readLines_printChunks chunksWellFormed bare).1
    | some target =>
      have moved := @processLine_move state (n + 1) (n + 1 + 1) path target (moveNames target rfl)
      simp only [Option.toList_some, List.map_cons, List.map_nil, List.singleton_append, readLines]
      unfold inUpdate at moved
      rw [moved]
      exact (readLines_printChunks chunksWellFormed bare).1

theorem readLines_changes {changes : List FileChange} (ready : Ready state)
    (wellFormed : ∀ change ∈ changes, change.WellFormed) (n : Nat) :
    ∃ mode, readLines n state (changes.flatMap FileChange.print) =
        .ok { state with hunks := state.hunks ++ changes.map FileChange.meaning, mode } ∧
      Ready { state with hunks := state.hunks ++ changes.map FileChange.meaning, mode } := by
  induction changes generalizing n state with
  | nil => exact ⟨state.mode, by simp [readLines], by simpa using ready⟩
  | cons change changes ih =>
    obtain ⟨mode, read, ready'⟩ := readLines_change ready (wellFormed change (by simp)) n
    obtain ⟨mode', read', ready''⟩ := ih ready'
      (fun other member => wellFormed other (by simp [member])) (n + change.print.length)
    refine ⟨mode', ?_, by simpa using ready''⟩
    simpa using readLines_append read read'

/-! ## Guards and the environment -/

theorem handle_guard (mode : state.mode = .startedPatch) (nonempty : path ≠ []) (n : Nat) :
    handleHunkHeadersAndEndPatch state n (GUARD_FILE_MARKER ++ path) =
      .ok (some { state with pendingGuard := some path, mode := .guardFile }) := by
  simp [handleHunkHeadersAndEndPatch, mode, nonempty]

theorem handle_environment (mode : state.mode = .startedPatch)
    (unguarded : state.revisionGuards = []) (unset : state.environmentId = none) {id : Text}
    (isName : IsName id) (n : Nat) :
    handleHunkHeadersAndEndPatch state n (ENVIRONMENT_ID_MARKER ++ ' ' :: id) =
      .ok (some { state with environmentId := some id }) := by
  have guard : Apart ENVIRONMENT_ID_MARKER GUARD_FILE_MARKER := by decide
  have trimmed : trim (' ' :: id) = id := by
    rw [trim, trimStart_cons, if_pos (by decide)]
    exact isName.1
  have nonempty := isName.2.1
  simp [handleHunkHeadersAndEndPatch, guard.stripPrefix, mode, setEnvironmentId, unguarded, unset,
    trimmed, nonempty]

theorem parse_hash (expected : SourceHashRef) : SourceHashRef.parse expected.hash = .ok expected := by
  obtain ⟨hash, short, long, digits⟩ := expected
  have hex : hash.all isAsciiHexdigit = true :=
    List.all_eq_true.mpr (fun c member => (digits c member).1)
  have lower : hash.map toAsciiLowercase = hash := by
    rw [List.map_congr_left (fun c member => (digits c member).2), List.map_id']
  simp only [SourceHashRef.parse, dif_pos hex, dif_neg (Nat.not_lt.mpr short),
    dif_neg (Nat.not_lt.mpr long), lower]

theorem hex_visible {c : Char} (hex : isAsciiHexdigit c = true) : isWhitespace c = false := by
  simp only [isAsciiHexdigit, Bool.or_eq_true, Bool.and_eq_true, decide_eq_true_eq,
    char_le_iff] at hex
  have zero : '0'.toNat = 48 := rfl
  have nine : '9'.toNat = 57 := rfl
  have lowerA : 'a'.toNat = 97 := rfl
  have lowerF : 'f'.toNat = 102 := rfl
  have upperA : 'A'.toNat = 65 := rfl
  have upperF : 'F'.toNat = 70 := rfl
  have codes : 48 ≤ c.toNat ∧ c.toNat ≤ 102 := by omega
  simp only [isWhitespace, Bool.or_eq_false_iff, Bool.and_eq_false_iff, decide_eq_false_iff_not,
    beq_eq_false_iff_ne]
  omega

theorem visible_of_all {text : Text} (all : text.all (fun c => !isWhitespace c) = true) :
    ∀ c ∈ text, isWhitespace c = false := by
  simpa using all

theorem isName_expectation (expected : Option SourceHashRef) : IsName (expectation expected) := by
  have visible : ∀ c ∈ expectation expected, isWhitespace c = false := by
    cases expected with
    | none => exact visible_of_all rfl
    | some expected =>
      intro c member
      rcases List.mem_append.mp member with marker | digit
      · exact visible_of_all rfl c marker
      · exact hex_visible (expected.wellFormed.2.2 c digit).1
  refine ⟨trim_of_visible visible, ?_, fun feed => absurd (visible _ feed) (by decide)⟩
  cases expected with
  | none => decide
  | some expected => exact List.append_ne_nil_of_left_ne_nil (by decide) _

theorem hash_ne_absent (hash : Text) : SHA256_MARKER ++ hash ≠ ABSENT := by
  intro same
  have heads := congrArg List.head? same
  rw [List.head?_append, show SHA256_MARKER.head? = some 's' from rfl, Option.some_or,
    show ABSENT.head? = some 'a' from rfl] at heads
  exact absurd heads (by decide)

/-- The second line of a guard completes it. -/
theorem processGuardLine_expectation (pending : state.pendingGuard = some path)
    (expected : Option SourceHashRef) :
    processGuardLine state (EXPECT_MARKER ++ expectation expected) =
      .ok { state with
        pendingGuard := none
        revisionGuards := state.revisionGuards ++ [⟨path, expected⟩]
        mode := .startedPatch } := by
  unfold processGuardLine
  rw [stripPrefix_append, pending]
  cases expected with
  | none => exact if_pos rfl
  | some expected =>
    dsimp only [expectation]
    rw [if_neg (hash_ne_absent expected.hash), stripPrefix_append]
    dsimp only
    rw [parse_hash]

/-- A guard is read as two lines of an opened patch. -/
theorem readLines_guard (mode : state.mode = .startedPatch) (unguarded : state.pendingGuard = none)
    {guard : FileRevisionGuard} (isName : IsName guard.path) (n : Nat) :
    readLines n state (printGuard guard) =
      .ok { state with revisionGuards := state.revisionGuards ++ [guard] } := by
  have header := processLine_header (by rw [mode]; rfl) (trim_marker_append rfl isName).1
    (handle_guard mode isName.2.1 (n + 1))
  have trimmed := (@trim_marker_append EXPECT_MARKER (expectation guard.expectedSha256) rfl
    (isName_expectation guard.expectedSha256)).1
  have expect : processLine { state with pendingGuard := some guard.path, mode := .guardFile }
      (n + 1 + 1) (EXPECT_MARKER ++ expectation guard.expectedSha256) =
        .ok { state with revisionGuards := state.revisionGuards ++ [guard] } := by
    simp only [processLine, trimmed]
    rw [processGuardLine_expectation rfl]
    simp only [← mode, ← unguarded]
  simp only [printGuard, readLines, header, expect]

theorem readLines_guards {state : StreamingParserState} {guards : List FileRevisionGuard}
    (mode : state.mode = .startedPatch) (unguarded : state.pendingGuard = none)
    (names : ∀ guard ∈ guards, IsName guard.path) (n : Nat) :
    readLines n state (guards.flatMap printGuard) =
      .ok { state with revisionGuards := state.revisionGuards ++ guards } := by
  induction guards generalizing n state with
  | nil => simp [readLines]
  | cons guard guards ih =>
    have rest := @ih { state with revisionGuards := state.revisionGuards ++ [guard] } mode unguarded
      (fun other member => names other (by simp [member])) (n + (printGuard guard).length)
    rw [List.append_assoc, List.singleton_append] at rest
    exact readLines_append (readLines_guard mode unguarded (names guard (by simp)) n) rest

/-- The whole text between the opening and the closing line. -/
theorem readLines_body (wellFormed : patch.WellFormed) (n : Nat) :
    ∃ state, readLines n { mode := .startedPatch } patch.body = .ok state ∧ Ready state ∧
      state.hunks = patch.changes.map FileChange.meaning ∧
      state.environmentId = patch.environmentId ∧ state.revisionGuards = patch.revisionGuards := by
  have environment : ∀ n, readLines n ({ mode := .startedPatch } : StreamingParserState)
      (patch.environmentId.toList.map (fun id => ENVIRONMENT_ID_MARKER ++ ' ' :: id)) =
        .ok { mode := .startedPatch, environmentId := patch.environmentId } := by
    intro n
    cases isId : patch.environmentId with
    | none => rfl
    | some id =>
      have isName := wellFormed.environmentId id isId
      have trimmed := (@trim_marker_append (ENVIRONMENT_ID_MARKER ++ [' ']) id rfl isName).1
      rw [List.append_assoc, List.singleton_append] at trimmed
      have header := @processLine_header { mode := .startedPatch } _ _ _ rfl trimmed
        (handle_environment rfl rfl rfl isName (n + 1))
      simp only [Option.toList_some, List.map_cons, List.map_nil, readLines, header]
  have guards := @readLines_guards { mode := .startedPatch, environmentId := patch.environmentId }
    patch.revisionGuards rfl rfl wellFormed.revisionGuards
  have opened : Ready ({ mode := .startedPatch, environmentId := patch.environmentId, revisionGuards :=
      [] ++ patch.revisionGuards } : StreamingParserState) := ready_of_last rfl (by simp)
  obtain ⟨mode, changes, ready⟩ := readLines_changes opened wellFormed.changes
    (n + (patch.environmentId.toList.map (fun id => ENVIRONMENT_ID_MARKER ++ ' ' :: id) ++
      patch.revisionGuards.flatMap printGuard).length)
  exact ⟨_, readLines_append (readLines_append (environment n) (guards _)) changes, ready, rfl, rfl,
    rfl⟩

/-! ## Every printed line is plain -/

theorem plainLine_sigil {c : Char} {text : Text} (sigil : c ≠ '\n' ∧ c ≠ '\r')
    (single : '\n' ∉ text) (noReturn : text.getLast? ≠ some '\r') : PlainLine (c :: text) where
  single member := by
    rcases List.mem_cons.mp member with same | inText
    · exact sigil.1 same.symm
    · exact single inText
  noReturn := by
    apply stripCarriageReturn_of_getLast
    cases text with
    | nil => simpa using sigil.2
    | cons head text => simpa using noReturn

theorem plainLine_chunk {chunk : Chunk} (wellFormed : chunk.WellFormed) :
    ∀ line ∈ chunk.print, PlainLine line := by
  intro line member
  simp only [Chunk.print, Chunk.body, List.mem_cons, List.mem_append, List.mem_map] at member
  rcases member with rfl | ⟨written, member, rfl⟩ | ended
  · cases isContext : chunk.context with
    | none => exact ⟨by decide, by decide⟩
    | some context =>
      obtain ⟨trimmed, nonempty, single⟩ := wellFormed.context context isContext
      refine ⟨?_, stripCarriageReturn_of_trimEnd ?_⟩
      · intro feed
        rcases List.mem_append.mp feed with marker | inContext
        · exact absurd marker (by decide)
        · exact single inContext
      · rw [contextMarker, trimEnd_append (by rw [trimmed]; exact nonempty), trimmed]
  · have plain := wellFormed.lines written member
    refine plainLine_sigil ?_ plain.single plain.noReturn
    cases written.kind <;> decide
  · split at ended
    · obtain rfl := List.mem_singleton.mp ended
      exact ⟨by decide, by decide⟩
    · cases ended

/-- Leaving out the first marker leaves out a line. -/
theorem mem_printChunks {bareFirst : Bool} {chunks : List Chunk}
    (member : line ∈ printChunks bareFirst chunks) : ∃ chunk ∈ chunks, line ∈ chunk.print := by
  have marked : line ∈ chunks.flatMap Chunk.print → ∃ chunk ∈ chunks, line ∈ chunk.print :=
    List.mem_flatMap.mp
  match bareFirst, chunks with
  | false, _ => exact marked member
  | true, [] => exact marked member
  | true, first :: rest =>
    rcases List.mem_append.mp member with inBody | later
    · exact ⟨first, by simp, List.mem_cons_of_mem _ inBody⟩
    · obtain ⟨chunk, inRest, written⟩ := List.mem_flatMap.mp later
      exact ⟨chunk, by simp [inRest], written⟩

theorem plainLine_change {change : FileChange} (wellFormed : change.WellFormed) :
    ∀ line ∈ change.print, PlainLine line := by
  intro line member
  cases change with
  | add path lines =>
    obtain ⟨isName, plain⟩ := wellFormed
    rcases List.mem_cons.mp member with rfl | member
    · exact plainLine_marker rfl (by decide) isName
    · obtain ⟨text, inLines, rfl⟩ := List.mem_map.mp member
      refine plainLine_sigil (by decide) (plain text inLines).1 ?_
      exact fun last => (plain text inLines).2 (List.mem_of_getLast? last)
  | delete path =>
    obtain rfl := List.mem_singleton.mp member
    exact plainLine_marker rfl (by decide) wellFormed
  | update path movePath bareFirst chunks =>
    obtain ⟨isName, moveNames, -, chunksWellFormed, -⟩ := wellFormed
    rcases List.mem_cons.mp member with rfl | member
    · exact plainLine_marker rfl (by decide) isName
    · rcases List.mem_append.mp member with moved | inChunks
      · obtain ⟨target, isTarget, rfl⟩ := List.mem_map.mp moved
        exact plainLine_marker rfl (by decide) (moveNames target (Option.mem_toList.mp isTarget))
      · obtain ⟨chunk, inChunks, written⟩ := mem_printChunks inChunks
        exact plainLine_chunk (chunksWellFormed chunk inChunks) line written

theorem plainLine_body (wellFormed : patch.WellFormed) :
    ∀ line ∈ patch.body, PlainLine line := by
  intro line member
  simp only [Patch.body, List.mem_append, List.mem_map, List.mem_flatMap] at member
  rcases member with (⟨id, isId, rfl⟩ | ⟨guard, inGuards, written⟩) | ⟨change, inChanges, written⟩
  · have isName := wellFormed.environmentId id (Option.mem_toList.mp isId)
    have plain := @plainLine_marker (ENVIRONMENT_ID_MARKER ++ [' ']) id rfl (by decide) isName
    rwa [List.append_assoc, List.singleton_append] at plain
  · simp only [printGuard, List.mem_cons, List.not_mem_nil, or_false] at written
    rcases written with rfl | rfl
    · exact plainLine_marker rfl (by decide) (wellFormed.revisionGuards guard inGuards)
    · exact plainLine_marker rfl (by decide) (isName_expectation _)
  · exact plainLine_change (wellFormed.changes change inChanges) line written

/-! ## The round trip -/

/-- The printed patch parses, to what it means. -/
def Patch.readsBack (patch : Patch) (lastFeed : Bool) : Bool :=
  match parsePatch (patch.print lastFeed) with
  | .ok args =>
      args.hunks = patch.changes.map FileChange.meaning ∧
        args.environmentId = patch.environmentId ∧ args.revisionGuards = patch.revisionGuards
  | .error _ => false

/-- The text that goes to the streaming parser. -/
def Patch.text (patch : Patch) : Text :=
  joinLines (BEGIN_PATCH_MARKER :: patch.body) ++ END_PATCH_MARKER

theorem text_eq (patch : Patch) :
    patch.text = BEGIN_PATCH_MARKER ++ '\n' :: (joinLines patch.body ++ END_PATCH_MARKER) := by
  simp [Patch.text, joinLines]

theorem trim_print (patch : Patch) (lastFeed : Bool) : trim (patch.print lastFeed) = patch.text := by
  have visible : trimEnd END_PATCH_MARKER = END_PATCH_MARKER := by decide
  have trimmed : trim patch.text = patch.text := by
    refine trim_eq_self ?_ ?_
    · rw [text_eq]
      rfl
    · rw [Patch.text, trimEnd_append (by rw [visible]; decide), visible]
  cases lastFeed with
  | false =>
    show trim (patch.text ++ []) = _
    rw [List.append_nil, trimmed]
  | true =>
    show trim (patch.text ++ ['\n']) = _
    rw [trim_concat_of_blank (by decide), trimmed]

/-- The closing line is the last line of the text. -/
theorem boundaries_text (patch : Patch) : boundaries patch.text = .ok () := by
  have closing : lastLine (joinLines patch.body ++ END_PATCH_MARKER) = END_PATCH_MARKER := by
    rcases List.eq_nil_or_concat patch.body with empty | ⟨lines, line, isBody⟩
    · rw [empty]
      decide
    · have split : joinLines patch.body ++ END_PATCH_MARKER =
          (joinLines lines ++ line) ++ '\n' :: END_PATCH_MARKER := by
        simp [isBody, joinLines]
      rw [split, lastLine_append_feed]
      decide
  rw [boundaries_ok_iff, text_eq, firstLine_append_feed (by decide), lastLine_append_feed, closing]
  decide

theorem parseParts_text (wellFormed : patch.WellFormed) :
    parseParts patch.text =
      .ok (patch.changes.map FileChange.meaning, patch.environmentId, patch.revisionGuards) := by
  obtain ⟨state, read, ready, hunks, environmentId, revisionGuards⟩ := readLines_body wellFormed 1
  have opened : readLines 0 {} (BEGIN_PATCH_MARKER :: patch.body) = .ok state := by
    have begun : processLine {} (0 + 1) BEGIN_PATCH_MARKER = .ok { mode := .startedPatch } := by
      decide
    simp only [readLines, begun]
    exact read
  have plain : ∀ line ∈ BEGIN_PATCH_MARKER :: patch.body, PlainLine line := by
    intro line member
    rcases List.mem_cons.mp member with rfl | member
    · exact ⟨by decide, by decide⟩
    · exact plainLine_body wellFormed line member
  have trimmed : trim END_PATCH_MARKER = END_PATCH_MARKER := by decide
  have visible : ¬ END_PATCH_MARKER = [] := by decide
  have pushed := untilError_joinLines plain opened END_PATCH_MARKER
  rw [@untilError_pushChar_single END_PATCH_MARKER (by decide)] at pushed
  simp only [parseParts, pushDeltaInPlace_eq_chars, Patch.text, pushed, List.nil_append, intoParts,
    finishInPlace, if_neg visible, trimmed, ready.mode, ready.complete, and_self, if_true, hunks,
    environmentId, revisionGuards]

theorem readsBack_iff {lastFeed : Bool} :
    patch.readsBack lastFeed = true ↔ ∃ args, parsePatch (patch.print lastFeed) = .ok args ∧
      args.hunks = patch.changes.map FileChange.meaning ∧
      args.environmentId = patch.environmentId ∧ args.revisionGuards = patch.revisionGuards := by
  unfold Patch.readsBack
  cases parsePatch (patch.print lastFeed) with
  | error error => simp
  | ok args => simp

/-- A well-formed patch within the size limit is read back as it was meant; and whatever text
    `parse_patch` accepts, it accepts the text it kept, with the same result. -/
theorem print_parse_round_trip {patch : Patch} (wellFormed : patch.WellFormed) {lastFeed : Bool}
    (fits : utf8Len (patch.print lastFeed) ≤ MAX_PATCH_INPUT_BYTES) :
    patch.readsBack lastFeed = true ∧
    ∀ text args, parsePatch text = .ok args →
      ∃ again, parsePatch args.patch = .ok again ∧ again.hunks = args.hunks ∧
        again.revisionGuards = args.revisionGuards ∧ again.environmentId = args.environmentId := by
  refine ⟨readsBack_iff.mpr ⟨⟨patch.changes.map FileChange.meaning, patch.revisionGuards,
    patch.text, patch.environmentId⟩, ?_, rfl, rfl, rfl⟩, fun _ _ => parsePatch_reparse⟩
  rw [parsePatch_ok_iff]
  refine ⟨fits, ?_, parseParts_text wellFormed⟩
  rw [trim_print]
  simp only [unwrapPatch, boundaries_text]

/-- A guarded patch with a move, a bare first chunk, a second chunk at the end of the file and
    an added file. -/
def samplePatch : Patch where
  environmentId := some ['e', '1']
  revisionGuards := [⟨['a'], none⟩]
  changes :=
    [.update ['a'] (some ['b']) true
        [{ lines := [⟨.context, []⟩, ⟨.remove, ['x']⟩] },
          { context := some ['f', '(', ')'], lines := [⟨.add, ['@', '@']⟩], isEndOfFile := true }],
      .add ['c'] [['+'], []]]

theorem print_parse_round_trip_sample : samplePatch.readsBack true = true := by
  have name : ∀ c : Char, isWhitespace c = false → IsName [c] := by
    intro c visible
    refine ⟨trim_of_visible (by simpa using visible), by simp, ?_⟩
    intro feed
    rw [← List.mem_singleton.mp feed] at visible
    exact absurd visible (by decide)
  have wellFormed : samplePatch.WellFormed := by
    refine ⟨?_, ?_, ?_⟩
    · intro id isId
      cases isId
      exact ⟨by decide, by decide, by decide⟩
    · intro guard member
      obtain rfl := List.mem_singleton.mp member
      exact name 'a' (by decide)
    intro change member
    simp only [samplePatch, List.mem_cons, List.not_mem_nil, or_false] at member
    rcases member with rfl | rfl
    · refine ⟨name 'a' (by decide), ?_, .inl (by simp), ?_, by simp⟩
      · intro path isPath
        cases isPath
        exact name 'b' (by decide)
      intro chunk member
      simp only [List.mem_cons, List.not_mem_nil, or_false] at member
      rcases member with rfl | rfl
      · refine ⟨by simp, ?_, by simp⟩
        intro line member
        simp only [List.mem_cons, List.not_mem_nil, or_false] at member
        rcases member with rfl | rfl <;> exact ⟨by decide, by decide⟩
      refine ⟨by simp, ?_, ?_⟩
      · intro line member
        obtain rfl := List.mem_singleton.mp member
        exact ⟨by decide, by decide⟩
      · intro context isContext
        cases isContext
        exact ⟨by decide, by decide, by decide⟩
    · exact ⟨name 'c' (by decide), by decide⟩
  exact (@print_parse_round_trip samplePatch wellFormed true (by decide +kernel)).1

/-! ## What the syntax cannot carry -/

/-- The conditions of the grammar's prose alone: paths trimmed, contexts trimmed at the right,
    chunks with lines, added lines without carriage return. -/
structure Patch.Described (patch : Patch) : Prop where
  environmentId : ∀ id ∈ patch.environmentId, trim id = id ∧ id ≠ []
  revisionGuards : ∀ guard ∈ patch.revisionGuards, trim guard.path = guard.path ∧ guard.path ≠ []
  changes : ∀ change ∈ patch.changes,
    match change with
    | .add path lines => trim path = path ∧ ∀ line ∈ lines, '\n' ∉ line ∧ '\r' ∉ line
    | .delete path => trim path = path
    | .update path movePath _ chunks =>
        trim path = path ∧ (∀ path ∈ movePath, trim path = path) ∧
        (chunks ≠ [] ∨ movePath ≠ none) ∧
        ∀ chunk ∈ chunks, chunk.lines ≠ [] ∧ (∀ line ∈ chunk.lines, '\n' ∉ line.text) ∧
          ∀ context ∈ chunk.context, trimEnd context = context

/-- A context line that ends in a carriage return. -/
def carriageReturnPatch : Patch where
  changes := [.update ['a'] none false [{ lines := [⟨.context, ['x', '\r']⟩] }]]

/-- A context that is present and empty. -/
def emptyContextPatch : Patch where
  changes := [.update ['a'] none false [{ context := some [], lines := [⟨.context, ['x']⟩] }]]

/-- A path that is trimmed and empty. -/
def emptyPathPatch : Patch where
  changes := [.delete []]

/-- An added file with one line of this length. -/
def longLinePatch (length : Nat) : Patch where
  changes := [.add ['a'] [List.replicate length 'a']]

theorem longLinePatch_described (length : Nat) : (longLinePatch length).Described := by
  refine ⟨by simp [longLinePatch], by simp [longLinePatch], ?_⟩
  intro change member
  obtain rfl := List.mem_singleton.mp member
  refine ⟨by decide, ?_⟩
  intro line member
  obtain rfl := List.mem_singleton.mp member
  refine ⟨fun feed => ?_, fun ret => ?_⟩
  · exact absurd (List.eq_of_mem_replicate feed) (by decide)
  · exact absurd (List.eq_of_mem_replicate ret) (by decide)

/-- A text over the limit is refused. -/
theorem longLinePatch_refused {length : Nat} (exceeds : MAX_PATCH_INPUT_BYTES < length) :
    (longLinePatch length).readsBack true = false := by
  have line : (List.replicate length 'a').Sublist ((longLinePatch length).print true) := by
    have split : (longLinePatch length).print true =
        joinLines [BEGIN_PATCH_MARKER, ADD_FILE_MARKER ++ ['a']] ++ ['+'] ++
          (List.replicate length 'a' ++ (['\n'] ++ END_PATCH_MARKER ++ ['\n'])) := by
      simp [Patch.print, Patch.body, longLinePatch, FileChange.print, joinLines]
    rw [split]
    exact (List.sublist_append_left _ _).trans (List.sublist_append_right _ _)
  have long : length ≤ utf8Len ((longLinePatch length).print true) := by
    have counted : utf8Len (List.replicate length 'a') = length := by
      rw [utf8Len, List.map_replicate, List.sum_replicate_nat, show Char.utf8Size 'a' = 1 by decide,
        Nat.mul_one]
    exact counted.symm.trans_le (utf8Len_le_of_sublist line)
  simp only [Patch.readsBack, parsePatch, if_pos (Nat.lt_of_lt_of_le exceeds long)]

/-- The parser drops one carriage return of a line, reads an empty context as none, does not
    take an empty path for a path, and refuses a text over its limit. -/
theorem described_patches_not_read_back :
    (carriageReturnPatch.Described ∧ carriageReturnPatch.readsBack true = false) ∧
    (emptyContextPatch.Described ∧ emptyContextPatch.readsBack true = false) ∧
    (emptyPathPatch.Described ∧ emptyPathPatch.readsBack true = false) ∧
    ((longLinePatch (MAX_PATCH_INPUT_BYTES + 1)).Described ∧
      (longLinePatch (MAX_PATCH_INPUT_BYTES + 1)).readsBack true = false) := by
  refine ⟨⟨?_, by decide +kernel⟩, ⟨?_, by decide +kernel⟩, ⟨?_, by decide +kernel⟩,
    longLinePatch_described _, longLinePatch_refused (Nat.lt_succ_self _)⟩
  · refine ⟨by simp [carriageReturnPatch], by simp [carriageReturnPatch], ?_⟩
    intro change member
    obtain rfl := List.mem_singleton.mp member
    exact ⟨by decide, by simp, .inl (by simp), by simp⟩
  · refine ⟨by simp [emptyContextPatch], by simp [emptyContextPatch], ?_⟩
    intro change member
    obtain rfl := List.mem_singleton.mp member
    exact ⟨by decide, by simp, .inl (by simp), by simp; rfl⟩
  · refine ⟨by simp [emptyPathPatch], by simp [emptyPathPatch], ?_⟩
    intro change member
    obtain rfl := List.mem_singleton.mp member
    rfl

end Codex.ApplyPatch.PatchSyntax
