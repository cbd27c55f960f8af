import Mathlib.Logic.Function.Basic
import Codex.Lib.Hoare
import Codex.ApplyPatch.Hunk

/-!
# The executor file system and the errors of a patch

The data that `apply-patch/src/lib.rs` works on: its errors, the applied delta, and the file
system of the executor. A file system maps endpoints to the text of a regular file or to
nothing; a path spells an endpoint, and the endpoint that a path spells does not change while a
patch runs. A schedule decides how each conditional mutation ends.
-/

namespace Codex.ApplyPatch

open Codex.Hoare

inductive IoErrorKind where
  | notFound
  | interrupted
  | invalidInput
  | invalidData
  | permissionDenied
  | wouldBlock
  | other
  deriving DecidableEq, Repr

/-- `std::io::Error`: its kind and text. -/
structure IoError where
  kind : IoErrorKind
  message : Text
  deriving DecidableEq, Repr

/-- The error of reading a file that is not there. -/
def IoError.missing : IoError := ⟨.notFound, "No such file or directory".toList⟩

/-- `PatchContextMismatchKind` (`lib.rs:115`). -/
inductive PatchContextMismatchKind where
  | contextNotFound
  | expectedLinesNotFound
  | ambiguousMatch
  | indentationMismatch
  | removedLineMismatch
  | malformedRange
  | rangeOutOfBounds
  | rangeOrderMismatch
  | staleRange
  | rangeOldLinesMismatch
  deriving DecidableEq, Repr

structure PatchCandidateLocation where
  lineStart : Nat
  lineEnd : Nat
  advisoryOnly : Bool
  deriving DecidableEq, Repr

/-- `PatchContextMismatch` (`lib.rs:136`). -/
structure PatchContextMismatch where
  kind : PatchContextMismatchKind
  hunkOrdinal : Nat
  chunkOrdinal : Nat
  canonicalPath : Text
  currentContentSha256 : Text
  currentLineStart : Nat
  currentLineEnd : Nat
  currentExcerpt : Text
  expectedExcerpt : Text
  expectedSourceSha256 : Option Text
  candidateLocations : List PatchCandidateLocation
  message : Text
  editsResultOfHunk : Option Nat
  deriving DecidableEq, Repr

/-- The decimal digits of a number. -/
def decimal (number : Nat) : Text := (toString number).toList

/-- The `Display` text of `PatchContextMismatch` (`lib.rs:158`). -/
def PatchContextMismatch.display (mismatch : PatchContextMismatch) : Text :=
  (if mismatch.expectedExcerpt.isEmpty then []
    else "Expected excerpt (bounded):\n".toList ++ mismatch.expectedExcerpt ++ ['\n']) ++
  (match mismatch.expectedSourceSha256 with
    | none => []
    | some hash => "Expected source sha256: ".toList ++ hash ++ ['\n']) ++
  (if mismatch.candidateLocations.isEmpty then []
    else "Nearby candidate locations (advisory only; no guessed application): ".toList ++
      ", ".toList.intercalate (mismatch.candidateLocations.map (fun candidate =>
        decimal candidate.lineStart ++ ['-'] ++ decimal candidate.lineEnd)) ++ ['\n']) ++
  "PatchContextMismatch: ".toList ++ mismatch.message ++ "\nFile: ".toList ++
    mismatch.canonicalPath ++ "\nHunk ".toList ++ decimal mismatch.hunkOrdinal ++
    ", chunk ".toList ++ decimal mismatch.chunkOrdinal ++
  (if mismatch.currentLineStart = 0 then
    " (sha256: ".toList ++ mismatch.currentContentSha256 ++
      "). Current excerpt unavailable; read the target region before retrying.".toList
  else
    ". Current lines ".toList ++ decimal mismatch.currentLineStart ++ ['-'] ++
      decimal mismatch.currentLineEnd ++ " (sha256: ".toList ++ mismatch.currentContentSha256 ++
      "):\n".toList ++ mismatch.currentExcerpt)

/-- `ApplyPatchError` (`lib.rs:70`), the variants of verification and application. -/
inductive ApplyPatchError where
  | parseError (error : ParseError)
  | ioError (context : Text) (source : IoError)
  | computeReplacements (message : Text)
  | revisionGuardMismatch (message : Text)
  | multiplePatchConflicts (report : Text) (mismatches : List PatchContextMismatch)
  | patchContextMismatch (mismatch : PatchContextMismatch)
  | pathUri (message : Text)
  deriving DecidableEq, Repr

/-- The `Display` text of `ParseError` (`parser.rs:35`). -/
def ParseError.display : ParseError → Text
  | .invalidPatchError message => "invalid patch: ".toList ++ message
  | .invalidHunkError message lineNumber =>
      "invalid hunk at line ".toList ++ decimal lineNumber ++ ", ".toList ++ message

def ApplyPatchError.display : ApplyPatchError → Text
  | .parseError error => error.display
  | .ioError context source => context ++ ": ".toList ++ source.message
  | .computeReplacements message | .revisionGuardMismatch message | .pathUri message => message
  | .multiplePatchConflicts report _ => report
  | .patchContextMismatch mismatch => mismatch.display

/-- `From<std::io::Error>` (`lib.rs:200`). -/
def ApplyPatchError.ofIo (source : IoError) : ApplyPatchError := .ioError "I/O error".toList source

variable {PathUri Endpoint : Type}

/-- The `anyhow::Error` of an application: what was raised, under the contexts added to it. -/
inductive Failure (PathUri : Type) where
  | patch (error : ApplyPatchError)
  | io (error : IoError)
  | recoveryRequired (path : PathUri) (retainedPath message : Text)
  | noWriteConflict (path : PathUri)
  | message (text : Text)
  | context (text : Text) (source : Failure PathUri)
  deriving DecidableEq, Repr

namespace Failure

/-- The error under the contexts, which `is` and `downcast_ref` see. -/
def root : Failure PathUri → Failure PathUri
  | context _ source => source.root
  | failure => failure

def isNoWriteConflict (failure : Failure PathUri) : Bool :=
  match failure.root with
  | noWriteConflict _ => true
  | _ => false

def isNotFound (failure : Failure PathUri) : Bool :=
  match failure.root with
  | io error => error.kind = .notFound
  | _ => false

/-- The path of a `PatchRecoveryRequired`. -/
def recoveryPath (failure : Failure PathUri) : Option PathUri :=
  match failure.root with
  | recoveryRequired path _ _ => some path
  | _ => none

end Failure

/-- What the host makes of paths, and the pure functions that derive contents. They are
    arbitrary: an application only has to use the same ones throughout. -/
structure Host (PathUri Endpoint : Type) where
  /-- `PathUri::join`, with the text of its error. -/
  join : PathUri → Text → Except Text PathUri
  parent : PathUri → Option PathUri
  /-- `inferred_native_path_string`. -/
  nativeString : PathUri → Text
  /-- `mutation_endpoint_identity` (`invocation.rs:389`). -/
  endpoint : PathUri → Endpoint
  /-- `get_metadata(..)?.is_directory` of a working directory. -/
  isDirectory : PathUri → Except IoError Bool
  /-- `new_contents_from_chunks` (`lib.rs:1900`). -/
  newContents : PathUri → Text → List UpdateFileChunk → Nat → Except ApplyPatchError Text
  /-- `invalid_json_candidate` (`lib.rs:1840`), with the text of its error. -/
  invalidJsonCandidate : Text → Text → Text → Option Text
  /-- `chunk_without_unique_site` (`lib.rs:1627`). -/
  chunkWithoutUniqueSite : Text → List UpdateFileChunk → Option Nat
  /-- `into_file_update` (`lib.rs:3485`): the unified diff of an update. -/
  unifiedDiff : Text → Text → Except ApplyPatchError Text
  /-- The hexadecimal SHA-256 of the bytes of a text. -/
  sha256 : Text → Text
  /-- `bounded_expected_lines` (`lib.rs:2928`) of the lines of a text. -/
  boundedLines : Text → Text

/-- The texts of the regular files. -/
abbrev Files (Endpoint : Type) := Endpoint → Option Text

section Host

variable (host : Host PathUri Endpoint)

def readFileText (files : Files Endpoint) (path : PathUri) : Except IoError Text :=
  match files (host.endpoint path) with
  | some text => .ok text
  | none => .error .missing

/-- `cwd.join(..)?` as an application error. -/
def joinPath (cwd : PathUri) (path : Text) : Except ApplyPatchError PathUri :=
  (host.join cwd path).mapError .pathUri

end Host

namespace Hunk

/-- `Hunk::path` (`parser.rs:80`). -/
def path : Hunk → Text
  | addFile path _ => path
  | deleteFile path => path
  | updateFile path movePath _ => movePath.getD path

/-- The path that `resolve_path` joins (`parser.rs:71`). -/
def sourcePath : Hunk → Text
  | addFile path _ => path
  | deleteFile path => path
  | updateFile path _ _ => path

def resolvePath (host : Host PathUri Endpoint) (cwd : PathUri) (hunk : Hunk) :
    Except ApplyPatchError PathUri :=
  joinPath host cwd hunk.sourcePath

/-- The path that a move names. -/
def movePath : Hunk → Option Text
  | updateFile _ movePath _ => movePath
  | _ => none

/-- `Update File` without a move. -/
def inPlace : Hunk → Bool
  | updateFile _ none _ => true
  | _ => false

end Hunk

/-- `AppliedPatchWriteReceipt` (`lib.rs:458`). -/
structure WriteReceipt where
  sha256 : Text
  bytes : Nat
  deriving DecidableEq, Repr

/-- `AppliedPatchFileChange` (`lib.rs:484`). -/
inductive FileChange (PathUri : Type) where
  | add (content : Text) (overwrittenContent : Option Text)
  | delete (content : Text)
  | update (movePath : Option PathUri) (oldContent : Text) (overwrittenMoveContent : Option Text)
      (newContent : Text)
  deriving DecidableEq, Repr

/-- `AppliedPatchChange` (`lib.rs:446`), without the presentation form of its paths. -/
structure AppliedPatchChange (PathUri : Type) where
  pathUri : PathUri
  movePathUri : Option PathUri := none
  writeReceipt : Option WriteReceipt := none
  change : FileChange PathUri
  deriving DecidableEq, Repr

/-- `AppliedPatchDelta` (`lib.rs:310`), without its display data. -/
structure AppliedPatchDelta (PathUri Endpoint : Type) where
  changes : List (AppliedPatchChange PathUri) := []
  exact : Bool := true
  endpointIdentities : List (PathUri × Endpoint) := []

/-- `FileMutationOutcome` (`file-system/src/conditional_mutation.rs:36`). -/
inductive FileMutationOutcome where
  | committed
  | unchanged
  | conflict
  | recoveryRequired (retainedPath message : Text)
  deriving DecidableEq, Repr

/-- How the schedule ends one call of `mutate_file_if_matches`. -/
inductive Fault where
  /-- as the file system specifies -/
  | none
  /-- a conflict without effect -/
  | conflict
  /-- an unfinished recovery that leaves any content -/
  | recoveryRequired (left : Option Text) (retainedPath message : Text)
  /-- an I/O error without effect, or one that leaves any content -/
  | io (error : IoError) (left : Option (Option Text))
  deriving DecidableEq, Repr

inductive Phase where
  | forward
  | retry
  | rollback
  deriving DecidableEq, Repr

/-- One call of `mutate_file_if_matches`, with the contents around it. -/
structure MutationStep where
  phase : Phase
  expected : Option Text
  before : Option Text
  after : Option Text
  outcome : Except IoError FileMutationOutcome

/-- The environment of a run: how mutations and directory creations end, where the caller
    cancels, whether the endpoints are admitted, and which output sinks fail. -/
structure Schedule where
  mutation : Nat → Fault
  createDirectory : Nat → Option IoError := fun _ => none
  cancelledBefore : Nat → Bool := fun _ => false
  cancelledDuringMove : Nat → Bool := fun _ => false
  admission : Option IoError := none
  stdout : Option IoError := none
  stderr : Option IoError := none

/-- The state of a run: the files, the mutation steps so far and the delta. -/
structure RunState (PathUri Endpoint : Type) where
  files : Files Endpoint
  log : List MutationStep := []
  delta : AppliedPatchDelta PathUri Endpoint := {}

/-- A fallible part of a run. -/
abbrev Apply (PathUri Endpoint α : Type) := Effect (RunState PathUri Endpoint) (Failure PathUri) α

section Mutate

variable [DecidableEq Endpoint]

/-- What a call does to the content of its endpoint, and what it returns. Without a fault the
    content is replaced when it is the expected one (`conditional_mutation.rs:207`). -/
def mutationEffect (fault : Fault) (content expected replacement : Option Text) :
    Option Text × Except IoError FileMutationOutcome :=
  match fault with
  | .none =>
      if content ≠ expected then (content, .ok .conflict)
      else if expected = replacement then (content, .ok .unchanged)
      else (replacement, .ok .committed)
  | .conflict => (content, .ok .conflict)
  | .recoveryRequired left retainedPath message =>
      (left, .ok (.recoveryRequired retainedPath message))
  | .io error left => (left.getD content, .error error)

/-- `mutate_file_if_matches` under a schedule. -/
def mutateFileIfMatches (host : Host PathUri Endpoint) (schedule : Schedule) (phase : Phase)
    (path : PathUri) (expected replacement : Option Text) :
    Apply PathUri Endpoint (Except IoError FileMutationOutcome) := do
  let state : RunState PathUri Endpoint ← get
  let content := state.files (host.endpoint path)
  let effect := mutationEffect (schedule.mutation state.log.length) content expected replacement
  let next : RunState PathUri Endpoint := { state with
    files := Function.update state.files (host.endpoint path) effect.1
    log := state.log ++ [⟨phase, expected, content, effect.1, effect.2⟩] }
  set next
  return effect.2

end Mutate

/-- The first occurrence of some lines replaced by others. -/
def replaceLines (oldLines newLines : List Text) : List Text → Option (List Text)
  | [] => if oldLines = [] then some newLines else none
  | line :: lines =>
      if oldLines <+: line :: lines then some (newLines ++ (line :: lines).drop oldLines.length)
      else (replaceLines oldLines newLines lines).map (line :: ·)

/-- A host without links, whose paths are their own endpoints, for updates that occur once and
    files of the one line `text`, `line` or `more`. -/
def flatHost : Host Text Text where
  join cwd path :=
    if path.isEmpty then .ok cwd
    else if path.head? = some '/' then .ok path
    else .ok (cwd ++ '/' :: path)
  parent path := some ((path.reverse.dropWhile (· ≠ '/')).drop 1).reverse
  nativeString := id
  endpoint := id
  isDirectory _ := .ok true
  newContents _ text chunks _ :=
    (chunks.foldl (fun (lines : Option (List Text)) (chunk : UpdateFileChunk) =>
      lines.bind (replaceLines chunk.oldLines chunk.newLines)) (some (text.splitOn '\n'))).elim
      (.error (.computeReplacements "Failed to find expected lines".toList))
      (fun lines => .ok (['\n'].intercalate lines))
  invalidJsonCandidate _ _ _ := none
  chunkWithoutUniqueSite _ _ := none
  unifiedDiff original updated := .ok ("@@ -1 +1 @@\n-".toList ++ original ++ '+' :: updated)
  sha256 text :=
    if text = "text\n".toList then
      "b9e68e1bea3e5b19ca6b2f98b73a54b73daafaa250484902e09982e07a12e733".toList
    else if text = "line\n".toList then
      "c73b73af8851e9e91bc6b4dc12e7dace0a2bfb931c1d0b8b36ef367319f58cd1".toList
    else "2396099c6c084fa4b9beac9f0d52cf3be9cf8d47040ef127883d532b5790cd74".toList
  boundedLines := id

end Codex.ApplyPatch
