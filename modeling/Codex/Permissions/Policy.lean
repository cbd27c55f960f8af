import Codex.Lib.AbsolutePath

/-!
# The file system sandbox policy

`protocol/src/permissions.rs`: a restricted policy is a list of entries. An access is decided by
the most specific entry, and writes below the metadata directories of a writable entry need an
entry of their own. The sandboxes are given the policy as writable roots with read-only subpaths
(`WritableRoot` of `protocol/src/protocol.rs`).
-/

namespace Codex.Permissions

/-- The last element with the largest key (`Iterator::max_by_key`). -/
def maxByKey {α κ : Type} [LinearOrder κ] (key : α → κ) : List α → Option α
  | [] => none
  | element :: rest =>
      match maxByKey key rest with
      | none => some element
      | some best => if key element ≤ key best then some best else some element

/-- `FileSystemAccessMode` (`permissions.rs:96`). -/
inductive FileSystemAccessMode where
  | read
  | write
  | deny
  deriving DecidableEq, Repr

namespace FileSystemAccessMode

/-- The derived `Ord`: the conflict precedence. -/
def rank : FileSystemAccessMode → Nat
  | read => 0
  | write => 1
  | deny => 2

def canWrite : FileSystemAccessMode → Bool
  | write => true
  | read | deny => false

end FileSystemAccessMode

/-- `FileSystemSpecialPath` (`permissions.rs:123`). A subpath is kept in its canonical spelling:
    `PathBuf`s are equal where these texts are. -/
inductive FileSystemSpecialPath where
  | root
  | minimal
  | projectRoots (subpath : Option Text)
  | tmpdir
  | slashTmp
  | unknown (path : Text) (subpath : Option Text)
  deriving DecidableEq, Repr

/-- `FileSystemPath` (`permissions.rs:346`). -/
inductive FileSystemPath where
  | path (path : AbsolutePathBuf)
  | globPattern (pattern : Text)
  | special (value : FileSystemSpecialPath)
  deriving DecidableEq, Repr

structure FileSystemSandboxEntry where
  path : FileSystemPath
  access : FileSystemAccessMode
  deriving DecidableEq, Repr

inductive FileSystemSandboxKind where
  | restricted
  | unrestricted
  | externalSandbox
  deriving DecidableEq, Repr

/-- `FileSystemSandboxPolicy` (`permissions.rs:202`) without the depth of glob scans. -/
structure FileSystemSandboxPolicy where
  kind : FileSystemSandboxKind
  entries : List FileSystemSandboxEntry
  deriving DecidableEq, Repr

/-- `ResolvedFileSystemEntry` (`permissions.rs:212`). -/
structure ResolvedFileSystemEntry where
  path : AbsolutePathBuf
  access : FileSystemAccessMode
  deriving DecidableEq, Repr

/-- `WritableRoot` (`protocol.rs:809`). -/
structure WritableRoot where
  root : AbsolutePathBuf
  readOnlySubpaths : List AbsolutePathBuf
  protectedMetadataNames : List Text
  deriving DecidableEq, Repr

/-- The host: its file system, environment and paths. -/
structure Host where
  /-- `path_component_matches` (`permissions.rs:36`). -/
  pathComponentMatches : Text → Text → Bool
  /-- The absolute path of a non-empty `TMPDIR`. -/
  tmpdir : Option AbsolutePathBuf
  /-- `resolve_path_against_base`, of a path that may be relative. -/
  resolvePathAgainstBase : Text → AbsolutePathBuf → AbsolutePathBuf
  /-- `std::fs::symlink_metadata(..).is_ok()`. -/
  symlinkMetadata : AbsolutePathBuf → Bool
  canonicalizePreservingSymlinks : AbsolutePathBuf → Option AbsolutePathBuf
  isFile : AbsolutePathBuf → Bool
  isDir : AbsolutePathBuf → Bool
  /-- `Path::exists`. -/
  pathExists : AbsolutePathBuf → Bool
  readToString : AbsolutePathBuf → Option Text

def PROTECTED_METADATA_GIT_PATH_NAME : Text := ".git".toList

def PROTECTED_METADATA_AGENTS_PATH_NAME : Text := ".agents".toList

def PROTECTED_METADATA_CODEX_PATH_NAME : Text := ".codex".toList

def PROTECTED_METADATA_PATH_NAMES : List Text :=
  [PROTECTED_METADATA_GIT_PATH_NAME, PROTECTED_METADATA_AGENTS_PATH_NAME,
    PROTECTED_METADATA_CODEX_PATH_NAME]

/-- `special_path_matches_absolute_path` (`permissions.rs:1338`). -/
def specialPathMatchesAbsolutePath (value : FileSystemSpecialPath) (path : AbsolutePathBuf) :
    Bool :=
  match value with
  | .root => path.parent.isNone
  | .slashTmp => path = ⟨"/".toList, ["tmp".toList]⟩
  | _ => false

/-- `file_system_paths_share_target` (`permissions.rs:1287`), with the equality of special paths
    of `special_paths_share_target`. -/
def fileSystemPathsShareTarget (left right : FileSystemPath) : Bool :=
  match left, right with
  | .path left, .path right => left = right
  | .special left, .special right => left = right
  | .path path, .special value | .special value, .path path =>
      specialPathMatchesAbsolutePath value path
  | .globPattern left, .globPattern right => left = right
  | .globPattern _, _ | _, .globPattern _ => false

namespace FileSystemSandboxPolicy

/-- `has_root_access` (`permissions.rs:436`). -/
def hasRootAccess (policy : FileSystemSandboxPolicy)
    (predicate : FileSystemAccessMode → Bool) : Bool :=
  policy.kind = .restricted &&
    policy.entries.any fun entry => entry.path = .special .root && predicate entry.access

/-- `has_same_target_write_override` (`permissions.rs:544`). -/
def hasSameTargetWriteOverride (policy : FileSystemSandboxPolicy)
    (entry : FileSystemSandboxEntry) : Bool :=
  policy.entries.any fun candidate =>
    candidate.access.canWrite && entry.access.rank < candidate.access.rank &&
      fileSystemPathsShareTarget candidate.path entry.path

/-- The closure of `has_write_narrowing_entries`. -/
def narrowsWrite (policy : FileSystemSandboxPolicy) (entry : FileSystemSandboxEntry) : Bool :=
  if entry.access.canWrite then false
  else
    match entry.path with
    | .path _ => !policy.hasSameTargetWriteOverride entry
    | .globPattern _ => true
    | .special .root => entry.access = .deny
    | .special .minimal | .special (.unknown _ _) => false
    | .special _ => !policy.hasSameTargetWriteOverride entry

/-- `has_write_narrowing_entries` (`permissions.rs:521`). -/
def hasWriteNarrowingEntries (policy : FileSystemSandboxPolicy) : Bool :=
  policy.kind = .restricted && policy.entries.any policy.narrowsWrite

/-- `has_full_disk_write_access` (`permissions.rs:655`). -/
def hasFullDiskWriteAccess (policy : FileSystemSandboxPolicy) : Bool :=
  match policy.kind with
  | .unrestricted | .externalSandbox => true
  | .restricted =>
      policy.hasRootAccess FileSystemAccessMode.canWrite && !policy.hasWriteNarrowingEntries

end FileSystemSandboxPolicy

section Host

variable (host : Host)

/-- `resolve_file_system_special_path` (`permissions.rs:1404`). -/
def resolveFileSystemSpecialPath (value : FileSystemSpecialPath) (cwd : AbsolutePathBuf) :
    Option AbsolutePathBuf :=
  match value with
  | .root | .minimal | .unknown _ _ => none
  | .projectRoots (some subpath) => some (host.resolvePathAgainstBase subpath cwd)
  | .projectRoots none => some cwd
  | .tmpdir => host.tmpdir
  | .slashTmp => none

/-- `absolute_root_path_for_cwd` (`permissions.rs:1356`). -/
def absoluteRootPathForCwd (cwd : AbsolutePathBuf) : AbsolutePathBuf := ⟨cwd.anchor, []⟩

/-- `resolve_entry_path` (`permissions.rs:1242`) with `resolve_file_system_path`; an absolute
    working directory always has an `AbsolutePathBuf`. -/
def resolveEntryPath (path : FileSystemPath) (cwd : AbsolutePathBuf) : Option AbsolutePathBuf :=
  match path with
  | .special .root => some (absoluteRootPathForCwd cwd)
  | .special value => resolveFileSystemSpecialPath host value cwd
  | .path path => some path
  | .globPattern _ => none

/-- `resolved_entry_precedence` (`permissions.rs:1351`). -/
def resolvedEntryPrecedence (entry : ResolvedFileSystemEntry) : Nat ×ₗ Nat :=
  toLex (entry.path.componentCount, entry.access.rank)

/-- `metadata_path_name` (`permissions.rs:1648`). -/
def metadataPathName (name : Text) : Option Text :=
  PROTECTED_METADATA_PATH_NAMES.find? fun metadataName =>
    host.pathComponentMatches name metadataName

/-- `path_is_within_denied_root` (`permissions.rs:47`). -/
def pathIsWithinDeniedRoot (path : AbsolutePath) (root : AbsolutePathBuf) : Bool :=
  host.pathComponentMatches path.anchor root.anchor &&
    (decide (root.names.length ≤ path.components.length) &&
      (path.components.zip root.names).all fun (component, rootName) =>
        host.pathComponentMatches component.asOsStr rootName)

namespace FileSystemSandboxPolicy

/-- `resolved_entries_with_cwd` (`permissions.rs:1166`). -/
def resolvedEntriesWithCwd (policy : FileSystemSandboxPolicy) (cwd : AbsolutePath) :
    List ResolvedFileSystemEntry :=
  policy.entries.filterMap fun entry =>
    (resolveEntryPath host entry.path cwd.normalize).map fun path => ⟨path, entry.access⟩

/-- `resolve_access_with_cwd` (`permissions.rs:680`) of an absolute path, which
    `resolve_candidate_path` normalizes. -/
def resolveAccessWithCwd (policy : FileSystemSandboxPolicy) (path cwd : AbsolutePath) :
    FileSystemAccessMode :=
  match policy.kind with
  | .unrestricted | .externalSandbox => .write
  | .restricted =>
      let entries := (policy.resolvedEntriesWithCwd host cwd).filter fun entry =>
        path.normalize.asPath.startsWith entry.path
      ((maxByKey resolvedEntryPrecedence entries).map ResolvedFileSystemEntry.access).getD .deny

/-- The metadata directory below the path of an entry that contains a target: the closure of
    `metadata_child_of_writable_root`. -/
def metadataChild (target : AbsolutePathBuf) (entry : ResolvedFileSystemEntry) :
    Option (AbsolutePathBuf × Text) :=
  ((target.asPath.stripPrefix entry.path).bind List.head?).bind fun firstComponent =>
    (metadataPathName host firstComponent.asOsStr).map fun metadataName =>
      (entry.path.child metadataName, metadataName)

/-- `metadata_child_of_writable_root` (`permissions.rs:1655`). -/
def metadataChildOfWritableRoot (policy : FileSystemSandboxPolicy) (target : AbsolutePathBuf)
    (cwd : AbsolutePath) : Option (AbsolutePathBuf × Text) :=
  maxByKey (fun child => child.1.componentCount)
    (((policy.resolvedEntriesWithCwd host cwd).filter fun entry => entry.access.canWrite).filterMap
      (metadataChild host target))

/-- `has_explicit_write_entry_for_metadata_path` (`permissions.rs:1730`). -/
def hasExplicitWriteEntryForMetadataPath (policy : FileSystemSandboxPolicy)
    (protectedMetadataPath target : AbsolutePathBuf) (cwd : AbsolutePath) : Bool :=
  (policy.resolvedEntriesWithCwd host cwd).any fun entry =>
    entry.access.canWrite && target.asPath.startsWith entry.path &&
      entry.path.asPath.startsWith protectedMetadataPath

/-- `is_metadata_write_denied` (`permissions.rs:714`). -/
def isMetadataWriteDenied (policy : FileSystemSandboxPolicy) (path cwd : AbsolutePath) : Bool :=
  if policy.kind ≠ .restricted then false
  else
    match policy.metadataChildOfWritableRoot host path.normalize cwd with
    | none => false
    | some (protectedMetadataPath, _) =>
        !policy.hasExplicitWriteEntryForMetadataPath host protectedMetadataPath path.normalize cwd

/-- `can_write_path_with_cwd` (`permissions.rs:704`). -/
def canWritePathWithCwd (policy : FileSystemSandboxPolicy) (path cwd : AbsolutePath) : Bool :=
  if !(policy.resolveAccessWithCwd host path cwd).canWrite then false
  else if policy.hasFullDiskWriteAccess then true
  else !policy.isMetadataWriteDenied host path cwd

end FileSystemSandboxPolicy

/-- `normalize_effective_absolute_path` (`permissions.rs:1470`). -/
def normalizeEffectiveAbsolutePath (path : AbsolutePathBuf) : AbsolutePathBuf :=
  (path.ancestors.findSome? fun ancestor =>
    if host.symlinkMetadata ancestor then
      (host.canonicalizePreservingSymlinks ancestor).bind fun normalizedAncestor =>
        (path.stripPrefix ancestor).map normalizedAncestor.join
    else none).getD path

/-- `dedup_absolute_paths` (`permissions.rs:1435`). -/
def dedupAbsolutePaths (paths : List AbsolutePathBuf) (normalizeEffectivePaths : Bool) :
    List AbsolutePathBuf :=
  (if normalizeEffectivePaths then paths.map (normalizeEffectiveAbsolutePath host)
    else paths).eraseDups

/-- `str::split_once(':')`. -/
def splitOnceColon (text : Text) : Option (Text × Text) :=
  if ':' ∈ text then
    some (text.takeWhile (· ≠ ':'), (text.dropWhile (· ≠ ':')).drop 1)
  else none

/-- `resolve_gitdir_from_file` (`permissions.rs:1751`). -/
def resolveGitdirFromFile (dotGit : AbsolutePathBuf) : Option AbsolutePathBuf := do
  let contents ← host.readToString dotGit
  let (marker, gitdirRaw) ← splitOnceColon contents.trim
  if marker.trim ≠ "gitdir".toList then none
  else if gitdirRaw.trim.isEmpty then none
  else
    let base ← dotGit.parent
    let gitdirPath := host.resolvePathAgainstBase gitdirRaw.trim base
    if host.pathExists gitdirPath then some gitdirPath else none

/-- `is_git_pointer_file` (`permissions.rs:1746`). -/
def isGitPointerFile (path : AbsolutePathBuf) : Bool :=
  host.isFile path && path.fileName = some PROTECTED_METADATA_GIT_PATH_NAME

/-- The git directory that the `.git` pointer file of a writable root names. -/
def pointerGitdir (writableRoot : AbsolutePathBuf) : Option AbsolutePathBuf :=
  let topLevelGit := writableRoot.child PROTECTED_METADATA_GIT_PATH_NAME
  if host.isFile topLevelGit && isGitPointerFile host topLevelGit then
    resolveGitdirFromFile host topLevelGit
  else none

/-- `default_read_only_subpaths_for_writable_root` (`permissions.rs:1491`). -/
def defaultReadOnlySubpathsForWritableRoot (writableRoot : AbsolutePathBuf)
    (protectMissingDotCodex : Bool) : List AbsolutePathBuf :=
  let topLevelGit := writableRoot.child PROTECTED_METADATA_GIT_PATH_NAME
  let topLevelAgents := writableRoot.child PROTECTED_METADATA_AGENTS_PATH_NAME
  let topLevelCodex := writableRoot.child PROTECTED_METADATA_CODEX_PATH_NAME
  dedupAbsolutePaths host
    ((if host.isDir topLevelGit || host.isFile topLevelGit then
        (pointerGitdir host writableRoot).toList ++ [topLevelGit] else []) ++
      (if host.isDir topLevelAgents then [topLevelAgents] else []) ++
      (if protectMissingDotCodex || host.isDir topLevelCodex then [topLevelCodex] else [])) false

/-- `has_explicit_resolved_path_entry` (`permissions.rs:1641`). -/
def hasExplicitResolvedPathEntry (entries : List ResolvedFileSystemEntry)
    (path : AbsolutePathBuf) : Bool :=
  entries.any fun entry => entry.path = path

namespace FileSystemSandboxPolicy

/-- `protected_metadata_names_for_writable_root` (`permissions.rs:1675`). -/
def protectedMetadataNamesForWritableRoot (policy : FileSystemSandboxPolicy)
    (root : AbsolutePathBuf) (rawWritableRoots : List AbsolutePathBuf) (cwd : AbsolutePath) :
    List Text :=
  PROTECTED_METADATA_PATH_NAMES.filter fun metadataName =>
    (root.child metadataName :: rawWritableRoots.map (·.child metadataName)).all fun metadataPath =>
      !policy.canWritePathWithCwd host metadataPath.asPath cwd

/-- The `raw_carveout_path` of an entry (`permissions.rs:948`). -/
def rawCarveoutPath (root : AbsolutePathBuf) (rawWritableRoots : List AbsolutePathBuf)
    (entry : ResolvedFileSystemEntry) : Option AbsolutePathBuf :=
  if entry.path = root then none
  else if entry.path.asPath.startsWith root then some entry.path
  else rawWritableRoots.findSome? fun rawRoot =>
    (entry.path.stripPrefix rawRoot).bind fun suffix =>
      if suffix.isEmpty then none else some (root.join suffix)

/-- The read-only path that an entry carves out of a writable root (`permissions.rs:937`). -/
def carveoutPath (root : AbsolutePathBuf) (rawWritableRoots : List AbsolutePathBuf)
    (entry : ResolvedFileSystemEntry) : Option AbsolutePathBuf :=
  let effectivePath := normalizeEffectiveAbsolutePath host entry.path
  match if root.parent.isSome then rawCarveoutPath root rawWritableRoots entry else none with
  | some rawCarveoutPath => some rawCarveoutPath
  | none =>
      if effectivePath = root ∨ effectivePath.asPath.startsWith root = false then none
      else some effectivePath

/-- The entries that grant a write of their own path (`permissions.rs:890`). -/
def writableEntries (policy : FileSystemSandboxPolicy) (cwd : AbsolutePath) :
    List AbsolutePathBuf :=
  (((policy.resolvedEntriesWithCwd host cwd).filter fun entry => entry.access.canWrite).filter
    fun entry => policy.canWritePathWithCwd host entry.path.asPath cwd).map
      ResolvedFileSystemEntry.path

/-- The writable root of a deduplicated path (`permissions.rs:902`). -/
def writableRoot (policy : FileSystemSandboxPolicy) (cwd : AbsolutePath)
    (root : AbsolutePathBuf) : WritableRoot :=
  let resolvedEntries := policy.resolvedEntriesWithCwd host cwd
  let rawWritableRoots := (policy.writableEntries host cwd).filter fun path =>
    normalizeEffectiveAbsolutePath host path = root
  let protectMissingDotCodex := normalizeEffectiveAbsolutePath host cwd.normalize = root
  let defaults := (defaultReadOnlySubpathsForWritableRoot host root
    protectMissingDotCodex).filter fun path => !hasExplicitResolvedPathEntry resolvedEntries path
  let carveouts := ((resolvedEntries.filter fun entry => !entry.access.canWrite).filter
    fun entry => !policy.canWritePathWithCwd host entry.path.asPath cwd).filterMap
      (carveoutPath host root rawWritableRoots)
  { root := root
    readOnlySubpaths := dedupAbsolutePaths host (defaults ++ carveouts) false
    protectedMetadataNames :=
      policy.protectedMetadataNamesForWritableRoot host root rawWritableRoots cwd }

/-- `get_writable_roots_with_cwd` (`permissions.rs:884`). -/
def getWritableRootsWithCwd (policy : FileSystemSandboxPolicy) (cwd : AbsolutePath) :
    List WritableRoot :=
  if policy.hasFullDiskWriteAccess then []
  else
    (dedupAbsolutePaths host (policy.writableEntries host cwd) true).map
      (policy.writableRoot host cwd)

end FileSystemSandboxPolicy

namespace WritableRoot

/-- `path_contains_protected_metadata_name` (`protocol.rs:843`). -/
def pathContainsProtectedMetadataName (root : WritableRoot) (path : AbsolutePath) : Bool :=
  match (path.stripPrefix root.root).bind List.head? with
  | none => false
  | some firstComponent =>
      root.protectedMetadataNames.any fun name =>
        host.pathComponentMatches firstComponent.asOsStr name

/-- `is_path_writable` (`protocol.rs:823`). -/
def isPathWritable (root : WritableRoot) (path : AbsolutePath) : Bool :=
  if !path.startsWith root.root then false
  else if root.readOnlySubpaths.any fun subpath => pathIsWithinDeniedRoot host path subpath then
    false
  else if root.pathContainsProtectedMetadataName host path then false
  else true

end WritableRoot

end Host

end Codex.Permissions
