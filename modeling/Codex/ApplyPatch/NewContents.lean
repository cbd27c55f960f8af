import Codex.ApplyPatch.ChunkMatcher

/-!
# New contents

`new_contents_from_prepared` of `apply-patch/src/lib.rs`: the contents that the chunks of one hunk
make of a source. Chunks with a descriptor are edited by other modules of the crate, which are
parameters. The source excerpts that are appended to errors are left out.
-/

namespace Codex.ApplyPatch

open Codex.Text Codex.Splice

/-- `PreparedSource` (`lib.rs:1909`), less the hash that it remembers. -/
structure PreparedSource where
  contents : Text
  physicalLines : List Text
  logicalLines : List Text
  newline : Text
  deriving DecidableEq, Repr

/-- A line without its ending. -/
def stripEnding (line : Text) : Text :=
  match stripSuffix ['\r', '\n'] line with
  | some body => body
  | none => (stripSuffix ['\n'] line).getD line

/-- `str::ends_with('\n')`. -/
def endsInFeed (text : Text) : Bool := ['\n'].isSuffixOf text

/-- `PreparedSource::new` (`lib.rs:1918`). -/
def PreparedSource.new (contents : Text) : PreparedSource :=
  let physicalLines := splitInclusive contents
  { contents
    physicalLines
    logicalLines := physicalLines.map stripEnding
    newline :=
      if (physicalLines.find? endsInFeed).any (['\r', '\n'].isSuffixOf ·) then ['\r', '\n']
      else ['\n'] }

def contextStartsWith (marker : Text) (chunk : UpdateFileChunk) : Bool :=
  chunk.changeContext.any (startsWith marker)

/-- `json_edit::is_json_chunk`. -/
def isJsonChunk (chunk : UpdateFileChunk) : Bool :=
  chunk.changeContext == some "codex-json".toList ||
    contextStartsWith "codex-json ".toList chunk

/-- The edits of the other modules: `unique_anchor::replace`, `json_edit::apply` and
    `counted_replace::replace`. -/
structure DescriptorEdits where
  anchorReplace : Text → List UpdateFileChunk → Except MatchError Text
  jsonApply : Text → List UpdateFileChunk → Text → Except MatchError Text
  countedReplace : Text → List UpdateFileChunk → Except MatchError Text

section

variable (edits : DescriptorEdits) (sha256 : Text → Text)
  (diffSlices : List Text → List Text → List DiffOp)

/-- The matcher of the chunks against a source. -/
def PreparedSource.matcher (source : PreparedSource) (chunks : List UpdateFileChunk) :
    ChunkMatcher where
  originalLines := source.logicalLines
  originalContents := source.contents
  chunks := chunks
  sourceHash := sha256 source.contents
  diffSlices := diffSlices

/-- Every line but the last gets an ending (`lib.rs:1988`). -/
def terminateLines (newline : Text) : List Text → List Text
  | [] => []
  | [last] => [last]
  | line :: rest => (if endsInFeed line then line else line ++ newline) :: terminateLines newline rest

/-- The last line loses its ending (`lib.rs:1995`). -/
def stripLastEnding : List Text → List Text
  | [] => []
  | [last] => [if endsInFeed last then stripEnding last else last]
  | line :: rest => line :: stripLastEnding rest

/-- What replacements make of the physical lines (`lib.rs:1981`). -/
def PreparedSource.rewrite (source : PreparedSource) (replacements : List (Splice.Edit Text)) : Text :=
  let replaced := applyReplacements source.physicalLines
    (replacements.map (mapEdit fun line => line ++ source.newline))
  let terminated := terminateLines source.newline replaced
  if source.contents ≠ [] ∧ endsInFeed source.contents = false then
    (stripLastEnding terminated).flatten
  else terminated.flatten

/-- `new_contents_from_prepared` (`lib.rs:1928`). -/
def newContentsFromPrepared (source : PreparedSource) (chunks : List UpdateFileChunk) :
    Except MatchError Text :=
  if chunks.isEmpty then .ok source.contents
  else if chunks.any isAnchorChunk then edits.anchorReplace source.contents chunks
  else if chunks.any isJsonChunk then edits.jsonApply source.contents chunks source.newline
  else if chunks.any (contextStartsWith COUNTED_REPLACE) then
    edits.countedReplace source.contents chunks
  else
    ((source.matcher sha256 diffSlices chunks).computeReplacements).map source.rewrite

end

/-- A chunk is matched by its lines, not by a descriptor (`lib.rs:1632`). -/
def isTextual (chunk : UpdateFileChunk) : Bool :=
  !(isJsonChunk chunk || isAnchorChunk chunk || contextStartsWith CODEX_RANGE chunk ||
    contextStartsWith COUNTED_REPLACE chunk)

/-- The anchor of a chunk and the old lines after it. -/
def siteLines (chunk : UpdateFileChunk) : List Text :=
  chunk.changeContext.toList ++ chunk.oldLines

/-- `chunk_without_unique_site` (`lib.rs:1627`). -/
def chunkWithoutUniqueSite (source : Text) (chunks : List UpdateFileChunk) : Option Nat :=
  (chunks.findIdx? fun chunk =>
    isTextual chunk && !(siteLines chunk).isEmpty &&
      (candidateStartsAtAnyTier (PreparedSource.new source).logicalLines (siteLines chunk) 2).length
        != 1).map (· + 1)

end Codex.ApplyPatch
