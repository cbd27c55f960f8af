import Codex.ApplyPatch.Preflight
import Codex.ApplyPatch.SeekSequence
import Codex.Lib.Splice
import Mathlib.Data.List.Sort

/-!
# Matching the chunks of an update

`ChunkMatcher` of `apply-patch/src/lib.rs`: the chunks of one hunk are matched against the lines of
one source, and give the replacements that rewrite it. The rendered messages of errors are left
out; an error says which check failed and where.
-/

namespace Codex.ApplyPatch

open Codex.Text Codex.Splice

/-- `ClaimedSpan` (`lib.rs:2076`). -/
structure ClaimedSpan where
  start : Nat
  stop : Nat
  chunkOrdinal : Nat
  deriving DecidableEq, Repr

/-- `Replacement` (`lib.rs:2083`). -/
structure Replacement where
  start : Nat
  oldLen : Nat
  newLines : List Text
  order : Nat
  deriving DecidableEq, Repr

/-- `ChunkCursor` (`lib.rs:2094`). -/
structure ChunkCursor where
  replacements : List Replacement := []
  claimed : List ClaimedSpan := []
  lineIndex : Nat := 0
  anchored : Bool := false
  deriving DecidableEq, Repr

/-- The key of `sort_by_key`: the start, then the order. -/
def Replacement.le (a b : Replacement) : Bool :=
  decide (a.start < b.start ∨ (a.start = b.start ∧ a.order ≤ b.order))

def ChunkCursor.push (cursor : ChunkCursor) (start oldLen : Nat) (newLines : List Text)
    (order : Nat) : ChunkCursor :=
  { cursor with replacements := cursor.replacements ++ [⟨start, oldLen, newLines, order⟩] }

/-- `ChunkCursor::sorted` (`lib.rs:2116`), a stable sort. -/
def ChunkCursor.sorted (cursor : ChunkCursor) : List Replacement :=
  cursor.replacements.mergeSort Replacement.le

/-- `ChunkCursor::into_sorted_replacements` (`lib.rs:2122`). -/
def ChunkCursor.intoSortedReplacements (cursor : ChunkCursor) : List (Splice.Edit Text) :=
  cursor.sorted.map fun replacement =>
    (replacement.start, replacement.oldLen, replacement.newLines)

/-- `ChunkSite` (`lib.rs:2135`). -/
structure ChunkSite where
  anchor : Option Nat
  start : Nat
  deriving DecidableEq, Repr

/-- `Ambiguity` (`lib.rs:2141`). -/
structure Ambiguity where
  error : AmbiguousMatch
  pattern : List Text
  context : Bool
  start : Nat
  eof : Bool
  outOfOrderAfter : Option Nat
  deriving DecidableEq, Repr

inductive Located where
  | site (site : ChunkSite)
  | relocated (site : ChunkSite)
  | ambiguous (ambiguity : Ambiguity)
  deriving DecidableEq, Repr

inductive Missing where
  | context
  | afterAnchor (line : Nat)
  | lines
  deriving DecidableEq, Repr

inductive ChunkFlow where
  | next
  | finished
  deriving DecidableEq, Repr

inductive Pass where
  | primary
  | inOrder
  | relocating
  deriving DecidableEq, Repr

/-- The errors of matching: the mismatches of `PatchContextMismatchKind` by the check that failed,
    and what `ComputeReplacements` is used for. -/
inductive MatchError where
  | malformedRange (chunkOrdinal : Nat) (reason : Option SourceHashRefError)
  | rangeOutOfBounds (chunkOrdinal : Nat)
  | rangeOrderMismatch (chunkOrdinal : Nat)
  | staleRange (chunkOrdinal : Nat)
  | rangeOldLinesMismatch (chunkOrdinal : Nat)
  | contextNotFound (chunkIndex : Nat)
  | notFollowingAnchor (chunkIndex position : Nat)
  | linesNotFound (chunkIndex : Nat)
  | relocationConflict (chunkIndex : Nat) (claim other : ClaimedSpan) (lineIndex : Nat)
  | insertionNotAtEnd (chunkOrdinal : Nat)
  | indentationMismatch (chunkOrdinal line : Nat)
  | removedLineMismatch (chunkOrdinal line : Nat)
  | ambiguousMatch (chunkIndex : Nat) (ambiguity : Ambiguity) (candidates : List Nat)
      (consistent : Option (List Nat))
  | invalidProvenance
  | trialMiss
  deriving DecidableEq, Repr

def DISAMBIGUATION_CANDIDATE_LIMIT : Nat := 8

def AMBIGUITY_REPORT_LIMIT : Nat := 16

/-- `similar::DiffOp`. -/
inductive DiffOp where
  | equal (oldIndex newIndex len : Nat)
  | delete (oldIndex oldLen newIndex : Nat)
  | insert (oldIndex newIndex newLen : Nat)
  | replace (oldIndex oldLen newIndex newLen : Nat)
  deriving DecidableEq, Repr

namespace DiffOp

def isEqual : DiffOp → Bool
  | equal _ _ _ => true
  | _ => false

/-- The start and the length of `DiffOp::old_range`. -/
def oldStart : DiffOp → Nat
  | equal oldIndex _ _ | delete oldIndex _ _ | insert oldIndex _ _ | replace oldIndex _ _ _ =>
      oldIndex

def oldLen : DiffOp → Nat
  | equal _ _ len => len
  | delete _ oldLen _ | replace _ oldLen _ _ => oldLen
  | insert _ _ _ => 0

/-- The start and the length of `DiffOp::new_range`. -/
def newStart : DiffOp → Nat
  | equal _ newIndex _ | delete _ _ newIndex | insert _ newIndex _ | replace _ _ newIndex _ =>
      newIndex

def newLen : DiffOp → Nat
  | equal _ _ len => len
  | insert _ _ newLen | replace _ _ _ newLen => newLen
  | delete _ _ _ => 0

end DiffOp

/-- The state of the loop of `chunk_edit_operations`. -/
structure EditGroups where
  old : Nat := 0
  new : Nat := 0
  group : Option (Nat × Nat) := none
  operations : List DiffOp := []
  deriving DecidableEq, Repr

/-- The operation of a group of marked lines. -/
def groupOperation (oldIndex oldLen newIndex newLen : Nat) : DiffOp :=
  if oldLen = 0 then .insert oldIndex newIndex newLen
  else if newLen = 0 then .delete oldIndex oldLen newIndex
  else .replace oldIndex oldLen newIndex newLen

/-- One line of `chunk_edit_operations`; a context line ends a group. -/
def EditGroups.step (oldLines newLines : Nat) (state : EditGroups) :
    UpdateLineKind → Option EditGroups
  | .context =>
      match state.group with
      | some (oldIndex, newIndex) =>
          if oldLines < state.old ∨ newLines < state.new then none
          else
            some ⟨state.old + 1, state.new + 1, none, state.operations ++
              [groupOperation oldIndex (state.old - oldIndex) newIndex (state.new - newIndex)]⟩
      | none => some { state with old := state.old + 1, new := state.new + 1 }
  | .add =>
      some { state with
        group := some (state.group.getD (state.old, state.new))
        new := state.new + 1 }
  | .remove =>
      some { state with
        group := some (state.group.getD (state.old, state.new))
        old := state.old + 1 }

/-- `chunk_edit_operations` (`lib.rs:2007`). A chunk that was not parsed has no kinds; its lines
    are compared by `similar::capture_diff_slices`. -/
def chunkEditOperations (diffSlices : List Text → List Text → List DiffOp)
    (chunk : UpdateFileChunk) : Option (List DiffOp) :=
  if chunk.lineKinds.isEmpty then some (diffSlices chunk.oldLines chunk.newLines)
  else
    match (chunk.lineKinds ++ [UpdateLineKind.context]).foldlM
      (EditGroups.step chunk.oldLines.length chunk.newLines.length) {} with
    | none => none
    | some state =>
        if state.old ≠ chunk.oldLines.length + 1 ∨ state.new ≠ chunk.newLines.length + 1 then none
        else some state.operations

/-- `str::parse::<usize>`: digits after an optional plus sign, in range. -/
def parseUsize (text : Text) : Option Nat :=
  let digits := if text.head? = some '+' then text.tail else text
  if digits.isEmpty || !digits.all Char.isDigit then none
  else if Nat.ofDigitChars 10 digits 0 < 2 ^ 64 then some (Nat.ofDigitChars 10 digits 0)
  else none

def CODEX_RANGE : Text := "codex-range ".toList

/-- The parts of a range handle: the inclusive lines and the hash of the source
    (`lib.rs:2302`). -/
def parseRange (handle : Text) :
    Except (Option SourceHashRefError) (Nat × Nat × SourceHashRef) :=
  match splitOnce " sha256:".toList handle with
  | none => .error none
  | some (range, hash) =>
      match splitOnce [':'] range with
      | none => .error none
      | some (start, stop) =>
          match parseUsize start, parseUsize stop with
          | some start, some stop =>
              match SourceHashRef.parse hash with
              | .ok hash => .ok (start, stop, hash)
              | .error error => .error (some error)
          | _, _ => .error none

/-- `ChunkMatcher` (`lib.rs:2187`), with the hash of its source and the diff of
    `similar::capture_diff_slices`. -/
structure ChunkMatcher where
  originalLines : List Text
  originalContents : Text
  chunks : List UpdateFileChunk
  sourceHash : Text
  diffSlices : List Text → List Text → List DiffOp

namespace ChunkMatcher

variable (matcher : ChunkMatcher)

def chunk (chunkIndex : Nat) : UpdateFileChunk := matcher.chunks.getD chunkIndex {}

/-- `match_range` (`lib.rs:2276`). -/
def matchRange (chunkIndex : Nat) (handle : Text) (cursor : ChunkCursor) :
    Except MatchError ChunkCursor :=
  match parseRange handle with
  | .error reason => .error (.malformedRange (chunkIndex + 1) reason)
  | .ok (start, stop, hash) =>
      if start = 0 ∨ stop < start ∨ matcher.originalLines.length < stop then
        .error (.rangeOutOfBounds (chunkIndex + 1))
      else if start - 1 < cursor.lineIndex then .error (.rangeOrderMismatch (chunkIndex + 1))
      else if !hash.accepts matcher.sourceHash then .error (.staleRange (chunkIndex + 1))
      else
        let chunk := matcher.chunk chunkIndex
        if chunk.oldLines ≠ [] ∧
            chunk.oldLines ≠ (matcher.originalLines.take stop).drop (start - 1) then
          .error (.rangeOldLinesMismatch (chunkIndex + 1))
        else
          let cursor := cursor.push (start - 1) (stop - start + 1) chunk.newLines (start - 1)
          .ok { cursor with
            claimed := cursor.claimed ++ [⟨start - 1, stop, chunkIndex + 1⟩]
            lineIndex := stop
            anchored := true }

/-- `following_anchor` (`lib.rs:2468`). -/
def followingAnchor (chunkIndex anchorIndex : Nat) : Option Nat :=
  let chunk := matcher.chunk chunkIndex
  let lines := matcher.originalLines
  let position := anchorIndex + 1
  let stop := min (position + chunk.oldLines.length) lines.length
  match seekSequence (lines.take stop) chunk.oldLines position chunk.isEndOfFile true with
  | .ok (some start) =>
      if !chunk.isEndOfFile || start + chunk.oldLines.length == lines.length then some start
      else none
  | _ => none

/-- How the search for a textual anchor ends. -/
inductive AnchorSearch where
  | absent
  | found (index : Nat) (relocated : Bool)
  | missing
  | ambiguous (ambiguity : Ambiguity)
  deriving DecidableEq, Repr

/-- The search for the anchor in `locate` (`lib.rs:2367`). -/
def searchAnchor (chunkIndex : Nat) (cursor : ChunkCursor) (relocate : Bool) : AnchorSearch :=
  match (matcher.chunk chunkIndex).changeContext with
  | none => .absent
  | some context =>
      let ambiguous := fun error start outOfOrderAfter =>
        AnchorSearch.ambiguous ⟨error, [context], true, start, false, outOfOrderAfter⟩
      match seekSequence matcher.originalLines [context] cursor.lineIndex false cursor.anchored with
      | .ok (some index) => .found index false
      | .ok none =>
          if cursor.anchored && relocate then
            match seekSequence matcher.originalLines [context] 0 false false with
            | .ok (some index) => .found index true
            | .ok none => .missing
            | .error error => ambiguous error 0 (some cursor.lineIndex)
          else .missing
      | .error error => ambiguous error cursor.lineIndex none

/-- The search for the old lines of a chunk without an anchor in `locate` (`lib.rs:2418`). -/
def searchLines (chunkIndex : Nat) (cursor : ChunkCursor) (relocate : Bool) :
    Except Missing Located :=
  let lines := matcher.originalLines
  let pattern := (matcher.chunk chunkIndex).oldLines
  let eof := (matcher.chunk chunkIndex).isEndOfFile
  let atEof := fun start => !eof || start + pattern.length == lines.length
  let ambiguous := fun error start outOfOrderAfter =>
    Located.ambiguous ⟨error, pattern, false, start, eof, outOfOrderAfter⟩
  let outOfOrder : Except Missing Located :=
    if cursor.anchored && relocate then
      match seekSequence lines pattern 0 eof false with
      | .ok (some start) => if atEof start then .ok (.relocated ⟨none, start⟩) else .error .lines
      | .ok none => .error .lines
      | .error error => .ok (ambiguous error 0 (some cursor.lineIndex))
    else .error .lines
  match seekSequence lines pattern cursor.lineIndex eof cursor.anchored with
  | .ok (some start) => if atEof start then .ok (.site ⟨none, start⟩) else outOfOrder
  | .ok none => outOfOrder
  | .error error => .ok (ambiguous error cursor.lineIndex none)

/-- The site of a chunk whose anchor is at a line; the old lines follow it. -/
def anchoredSite (chunkIndex index : Nat) : Option ChunkSite :=
  if (matcher.chunk chunkIndex).oldLines.isEmpty then some ⟨some index, index + 1⟩
  else (matcher.followingAnchor chunkIndex index).map fun start => ⟨some index, start⟩

def locatedAt (relocated : Bool) (site : ChunkSite) : Located :=
  if relocated then .relocated site else .site site

/-- `locate` (`lib.rs:2356`). -/
def locate (chunkIndex : Nat) (cursor : ChunkCursor) (relocate : Bool) :
    Except Missing Located :=
  let chunk := matcher.chunk chunkIndex
  match matcher.searchAnchor chunkIndex cursor relocate with
  | .missing => .error .context
  | .ambiguous ambiguity => .ok (.ambiguous ambiguity)
  | .absent =>
      if chunk.oldLines.isEmpty then .ok (.site ⟨none, matcher.originalLines.length⟩)
      else matcher.searchLines chunkIndex cursor relocate
  | .found index relocated =>
      match matcher.anchoredSite chunkIndex index with
      | some site => .ok (locatedAt relocated site)
      | none => .error (.afterAnchor (index + 1))

/-- The check of one removed line: its text equals the source exactly, the indentation first
    (`lib.rs:2548`). -/
def removedLineError (chunkIndex startIdx : Nat) (pattern : List Text) (oldIndex : Nat) :
    Option MatchError :=
  let expected := pattern.getD oldIndex []
  let actual := matcher.originalLines.getD (startIdx + oldIndex) []
  if trim expected ≠ [] ∧ expected.takeWhile isWhitespace ≠ actual.takeWhile isWhitespace then
    some (.indentationMismatch (chunkIndex + 1) (startIdx + oldIndex))
  else if expected ≠ actual then some (.removedLineMismatch (chunkIndex + 1) (startIdx + oldIndex))
  else none

/-- Push the replacement of an operation that is not equal, once its removed lines are checked. -/
def pushOperation (chunkIndex startIdx order : Nat) (cursor : ChunkCursor) (operation : DiffOp) :
    Except MatchError ChunkCursor :=
  let chunk := matcher.chunk chunkIndex
  if operation.isEqual then .ok cursor
  else
    match (List.range' operation.oldStart operation.oldLen).findSome?
      (matcher.removedLineError chunkIndex startIdx chunk.oldLines) with
    | some error => .error error
    | none =>
        .ok (cursor.push (startIdx + operation.oldStart) operation.oldLen
          ((chunk.newLines.drop operation.newStart).take operation.newLen) order)

def pushOperations (chunkIndex startIdx order : Nat) :
    ChunkCursor → List DiffOp → Except MatchError ChunkCursor
  | cursor, [] => .ok cursor
  | cursor, operation :: rest =>
      match matcher.pushOperation chunkIndex startIdx order cursor operation with
      | .error error => .error error
      | .ok cursor => pushOperations chunkIndex startIdx order cursor rest

/-- The span that a chunk covers at a site, its anchor included. -/
def claim (chunkIndex : Nat) (site : ChunkSite) : ClaimedSpan :=
  ⟨site.anchor.getD site.start, site.start + (matcher.chunk chunkIndex).oldLines.length,
    chunkIndex + 1⟩

/-- A chunk without an anchor and without old lines appends at the end. -/
def bareAddition (chunkIndex : Nat) (site : ChunkSite) : Bool :=
  site.anchor.isNone && (matcher.chunk chunkIndex).oldLines.isEmpty

/-- The replacements of a chunk at a site, without what it claims. -/
def pushChunk (chunkIndex : Nat) (site : ChunkSite) (cursor : ChunkCursor) :
    Except MatchError ChunkCursor :=
  let chunk := matcher.chunk chunkIndex
  let order :=
    if matcher.bareAddition chunkIndex site then cursor.lineIndex
    else (matcher.claim chunkIndex site).start
  if chunk.oldLines.isEmpty then
    if chunk.isEndOfFile && site.start != matcher.originalLines.length then
      .error (.insertionNotAtEnd (chunkIndex + 1))
    else .ok (cursor.push site.start 0 chunk.newLines order)
  else
    match chunkEditOperations matcher.diffSlices chunk with
    | none => .error .invalidProvenance
    | some operations => matcher.pushOperations chunkIndex site.start order cursor operations

/-- `place` (`lib.rs:2491`). -/
def place (chunkIndex : Nat) (site : ChunkSite) (cursor : ChunkCursor) (relocated : Bool) :
    Except MatchError ChunkCursor :=
  let claim := matcher.claim chunkIndex site
  let conflict := cursor.claimed.find? fun other =>
    decide (claim.start < other.stop ∧ other.start < claim.stop)
  match (if relocated then conflict else none) with
  | some other => .error (.relocationConflict chunkIndex claim other cursor.lineIndex)
  | none =>
      match matcher.pushChunk chunkIndex site cursor with
      | .error error => .error error
      | .ok cursor =>
          if matcher.bareAddition chunkIndex site then .ok cursor
          else
            let cursor := { cursor with claimed := cursor.claimed ++ [claim] }
            if relocated then .ok cursor
            else .ok { cursor with lineIndex := claim.stop, anchored := true }

/-- `candidate_starts` (`lib.rs:2711`). -/
def candidateStarts (ambiguity : Ambiguity) : List Nat :=
  let candidates := ambiguousCandidates matcher.originalLines ambiguity.pattern ambiguity.start
    ambiguity.eof ambiguity.error (AMBIGUITY_REPORT_LIMIT + 1)
  if candidates.length < 2 then
    [ambiguity.error.firstLine - 1, ambiguity.error.secondLine - 1]
  else candidates

/-- The lines of the source, each with its own ending, marked as kept. -/
def keptLines : List (Bool × Text) :=
  (splitInclusive matcher.originalContents).map fun line => (false, line)

/-- `trial_output` (`lib.rs:2688`). -/
def trialOutput (trial : ChunkCursor) : Option (List (Bool × Text)) :=
  if matcher.keptLines.length ≠ matcher.originalLines.length then none
  else
    some (spliceAll matcher.keptLines
      (trial.intoSortedReplacements.map (mapEdit fun line => (true, line))))

/-- `write_same_bytes` (`lib.rs:2675`). -/
def writeSameBytes : List (Nat × ChunkCursor) → Bool
  | [] => false
  | (_, first) :: rest =>
      (matcher.trialOutput first).isSome &&
        rest.all fun trial => matcher.trialOutput trial.2 == matcher.trialOutput first

/-- The site of a candidate; an anchor whose old lines do not follow it is none
    (`lib.rs:2620`). -/
def candidateSite (chunkIndex : Nat) (ambiguity : Ambiguity) (candidate : Nat) :
    Option ChunkSite :=
  if !ambiguity.context then some ⟨none, candidate⟩
  else matcher.anchoredSite chunkIndex candidate

/-- `match_chunk` (`lib.rs:2231`). Only the primary pass disambiguates. -/
def matchChunk (disambiguate : Nat → ChunkCursor → Ambiguity → Except MatchError ChunkCursor)
    (pass : Pass) (chunkIndex : Nat) (cursor : ChunkCursor) :
    Except MatchError (ChunkFlow × ChunkCursor) :=
  match (matcher.chunk chunkIndex).changeContext.bind (stripPrefix CODEX_RANGE) with
  | some handle => (matcher.matchRange chunkIndex handle cursor).map fun cursor => (.next, cursor)
  | none =>
      match matcher.locate chunkIndex cursor (pass != .inOrder) with
      | .error missing =>
          if pass ≠ .primary then .error .trialMiss
          else
            match missing with
            | .context => .error (.contextNotFound chunkIndex)
            | .afterAnchor position => .error (.notFollowingAnchor chunkIndex position)
            | .lines => .error (.linesNotFound chunkIndex)
      | .ok (.site site) =>
          (matcher.place chunkIndex site cursor false).map fun cursor => (.next, cursor)
      | .ok (.relocated site) =>
          (matcher.place chunkIndex site cursor true).map fun cursor => (.next, cursor)
      | .ok (.ambiguous ambiguity) =>
          if pass ≠ .primary then .error .trialMiss
          else if ambiguity.outOfOrderAfter.isSome then
            .error (.ambiguousMatch chunkIndex ambiguity (matcher.candidateStarts ambiguity) none)
          else
            (disambiguate chunkIndex cursor ambiguity).map fun cursor => (.finished, cursor)

/-- The loop of `match_from`. -/
def matchChunks (disambiguate : Nat → ChunkCursor → Ambiguity → Except MatchError ChunkCursor)
    (pass : Pass) : List Nat → ChunkCursor → Except MatchError ChunkCursor
  | [], cursor => .ok cursor
  | chunkIndex :: rest, cursor =>
      match matcher.matchChunk disambiguate pass chunkIndex cursor with
      | .error error => .error error
      | .ok (.finished, cursor) => .ok cursor
      | .ok (.next, cursor) => matchChunks disambiguate pass rest cursor

/-- The chunks from an index on. -/
def chunkIndices (first : Nat) : List Nat := List.range' first (matcher.chunks.length - first)

/-- `match_from` (`lib.rs:2217`) in the passes of a trial, which do not disambiguate. -/
def matchTrial (pass : Pass) (first : Nat) (cursor : ChunkCursor) :
    Except MatchError ChunkCursor :=
  matcher.matchChunks (fun _ _ _ => .error .trialMiss) pass (matcher.chunkIndices first) cursor

/-- The candidates at which the chunk itself can be placed, with the cursors after it. -/
def placedCandidates (chunkIndex : Nat) (cursor : ChunkCursor) (ambiguity : Ambiguity)
    (candidates : List Nat) : List (Nat × ChunkCursor) :=
  candidates.filterMap fun candidate =>
    match matcher.candidateSite chunkIndex ambiguity candidate with
    | none => none
    | some site =>
        match matcher.place chunkIndex site cursor false with
        | .ok trial => some (candidate, trial)
        | .error _ => none

/-- Every candidate that has a site accepts the edit of the chunk. -/
def placedEverywhere (chunkIndex : Nat) (cursor : ChunkCursor) (ambiguity : Ambiguity)
    (candidates : List Nat) : Bool :=
  candidates.all fun candidate =>
    match matcher.candidateSite chunkIndex ambiguity candidate with
    | none => true
    | some site => (matcher.place chunkIndex site cursor false).toBool

/-- The candidates that let the remaining chunks apply in a pass. -/
def viableTrials (pass : Pass) (chunkIndex : Nat) (placed : List (Nat × ChunkCursor)) :
    List (Nat × ChunkCursor) :=
  placed.filterMap fun candidate =>
    match matcher.matchTrial pass (chunkIndex + 1) candidate.2 with
    | .ok trial => some (candidate.1, trial)
    | .error _ => none

/-- `disambiguate` (`lib.rs:2601`). The first pass in which a candidate is viable decides. -/
def disambiguate (chunkIndex : Nat) (cursor : ChunkCursor) (ambiguity : Ambiguity) :
    Except MatchError ChunkCursor :=
  let candidates := matcher.candidateStarts ambiguity
  if DISAMBIGUATION_CANDIDATE_LIMIT < candidates.length then
    .error (.ambiguousMatch chunkIndex ambiguity candidates none)
  else
    let placed := matcher.placedCandidates chunkIndex cursor ambiguity candidates
    let inOrder := matcher.viableTrials .inOrder chunkIndex placed
    let viable :=
      if inOrder.isEmpty then matcher.viableTrials .relocating chunkIndex placed else inOrder
    match viable with
    | [] => .error (.ambiguousMatch chunkIndex ambiguity candidates (some []))
    | (first, trial) :: rest =>
        if matcher.placedEverywhere chunkIndex cursor ambiguity candidates &&
            matcher.writeSameBytes ((first, trial) :: rest) then .ok trial
        else
          .error (.ambiguousMatch chunkIndex ambiguity candidates
            (some (((first, trial) :: rest).map Prod.fst)))

/-- `match_from` (`lib.rs:2217`) in the primary pass. -/
def matchFrom (first : Nat) (cursor : ChunkCursor) : Except MatchError ChunkCursor :=
  matcher.matchChunks matcher.disambiguate .primary (matcher.chunkIndices first) cursor

/-- `compute_replacements_with_hash` (`lib.rs:2041`). -/
def computeReplacements : Except MatchError (List (Splice.Edit Text)) :=
  (matcher.matchFrom 0 {}).map ChunkCursor.intoSortedReplacements

end ChunkMatcher

/-- `apply_replacements` (`lib.rs:3458`), in descending order. -/
def applyReplacements (lines : List Text) (replacements : List (Splice.Edit Text)) : List Text :=
  spliceAll lines replacements

end Codex.ApplyPatch
