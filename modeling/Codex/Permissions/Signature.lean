import Codex.Permissions.WritableRoots

/-!
# The signature of a policy

`protocol/src/permissions.rs`: two policies are compared by the roots that the sandboxes are
given. The signature is to say what every path resolves to.
-/

namespace Codex.Permissions

namespace FileSystemAccessMode

/-- `can_read` (`permissions.rs:107`). -/
def canRead : FileSystemAccessMode → Bool
  | read | write => true
  | deny => false

end FileSystemAccessMode

/-- The order of `Path::cmp`: component by component. -/
def pathLe (left right : AbsolutePathBuf) : Bool :=
  decide (left.anchor :: left.names ≤ right.anchor :: right.names)

/-- `sorted_absolute_paths` (`permissions.rs:1453`). -/
def sortedAbsolutePaths (paths : List AbsolutePathBuf) : List AbsolutePathBuf :=
  paths.insertionSort fun left right => pathLe left right = true

/-- `Vec::dedup`: one of equal neighbours is kept. -/
def dedupNeighbours (names : List Text) : List Text := names.destutter (· ≠ ·)

/-- What `sorted_writable_roots` does to one root. -/
def sortedWritableRoot (root : WritableRoot) : WritableRoot where
  root := root.root
  readOnlySubpaths := sortedAbsolutePaths root.readOnlySubpaths
  protectedMetadataNames := dedupNeighbours (root.protectedMetadataNames.insertionSort (· ≤ ·))

/-- `sorted_writable_roots` (`permissions.rs:1458`). -/
def sortedWritableRoots (roots : List WritableRoot) : List WritableRoot :=
  (roots.map sortedWritableRoot).insertionSort fun left right => pathLe left.root right.root = true

/-- `FileSystemSemanticSignature` (`permissions.rs:218`). -/
structure FileSystemSemanticSignature where
  hasFullDiskReadAccess : Bool
  hasFullDiskWriteAccess : Bool
  includePlatformDefaults : Bool
  readableRoots : List AbsolutePathBuf
  writableRoots : List WritableRoot
  unreadableRoots : List AbsolutePathBuf
  unreadableGlobs : List Text
  deriving DecidableEq

namespace FileSystemSandboxPolicy

/-- `has_denied_read_restrictions` (`permissions.rs:447`). -/
def hasDeniedReadRestrictions (policy : FileSystemSandboxPolicy) : Bool :=
  policy.kind = .restricted && policy.entries.any fun entry => entry.access = .deny

/-- `has_full_disk_read_access` (`permissions.rs:644`). -/
def hasFullDiskReadAccess (policy : FileSystemSandboxPolicy) : Bool :=
  match policy.kind with
  | .unrestricted | .externalSandbox => true
  | .restricted =>
      policy.hasRootAccess FileSystemAccessMode.canRead && !policy.hasDeniedReadRestrictions

/-- `include_platform_defaults` (`permissions.rs:667`). -/
def includePlatformDefaults (policy : FileSystemSandboxPolicy) : Bool :=
  !policy.hasFullDiskReadAccess && policy.kind = .restricted &&
    policy.entries.any fun entry => entry.path = .special .minimal && entry.access.canRead

section Host

variable (host : Host)
  /- A pattern against the escaped working directory, as a text: `globset::escape` and
  `resolve_path_against_base`. -/
  (resolveGlob : Text → AbsolutePath → Text)

/-- `can_read_path_with_cwd` (`permissions.rs:700`). -/
def canReadPathWithCwd (policy : FileSystemSandboxPolicy) (path cwd : AbsolutePath) : Bool :=
  (policy.resolveAccessWithCwd host path cwd).canRead

/-- `get_readable_roots_with_cwd` (`permissions.rs:866`). -/
def getReadableRootsWithCwd (policy : FileSystemSandboxPolicy) (cwd : AbsolutePath) :
    List AbsolutePathBuf :=
  if policy.hasFullDiskReadAccess then []
  else
    dedupAbsolutePaths host
      ((((policy.resolvedEntriesWithCwd host cwd).filter fun entry => entry.access.canRead).filter
        fun entry => policy.canReadPathWithCwd host entry.path.asPath cwd).map
          ResolvedFileSystemEntry.path) true

/-- `get_unreadable_roots_with_cwd` (`permissions.rs:996`). -/
def getUnreadableRootsWithCwd (policy : FileSystemSandboxPolicy) (cwd : AbsolutePath) :
    List AbsolutePathBuf :=
  if policy.kind ≠ .restricted then []
  else
    dedupAbsolutePaths host
      (((((policy.resolvedEntriesWithCwd host cwd).filter fun entry =>
        entry.access = .deny).filter fun entry =>
          !policy.canReadPathWithCwd host entry.path.asPath cwd).filter fun entry =>
            absoluteRootPathForCwd cwd.normalize ≠ entry.path).map
              ResolvedFileSystemEntry.path) true

/-- `get_unreadable_globs_with_cwd` (`permissions.rs:1024`). -/
def getUnreadableGlobsWithCwd (policy : FileSystemSandboxPolicy) (cwd : AbsolutePath) :
    List Text :=
  if policy.kind ≠ .restricted then []
  else
    dedupNeighbours (((policy.entries.filter fun entry => entry.access = .deny).filterMap
      fun entry =>
        match entry.path with
        | .globPattern pattern => some (resolveGlob pattern cwd)
        | .path _ | .special _ => none).insertionSort (· ≤ ·))

/-- `semantic_signature` (`permissions.rs:1181`). -/
def semanticSignature (policy : FileSystemSandboxPolicy) (cwd : AbsolutePath) :
    FileSystemSemanticSignature where
  hasFullDiskReadAccess := policy.hasFullDiskReadAccess
  hasFullDiskWriteAccess := policy.hasFullDiskWriteAccess
  includePlatformDefaults := policy.includePlatformDefaults
  readableRoots := sortedAbsolutePaths (policy.getReadableRootsWithCwd host cwd)
  writableRoots := sortedWritableRoots (policy.getWritableRootsWithCwd host cwd)
  unreadableRoots := sortedAbsolutePaths (policy.getUnreadableRootsWithCwd host cwd)
  unreadableGlobs := policy.getUnreadableGlobsWithCwd resolveGlob cwd

/-- `is_semantically_equivalent_to` (`permissions.rs:861`). -/
def isSemanticallyEquivalentTo (policy other : FileSystemSandboxPolicy) (cwd : AbsolutePath) :
    Bool :=
  policy.semanticSignature host resolveGlob cwd = other.semanticSignature host resolveGlob cwd

end Host

end FileSystemSandboxPolicy

/-! ## What the signature leaves open -/

/-- Two policies give a path the same access. -/
def SameAccess (host : Host) (left right : FileSystemSandboxPolicy) (cwd path : AbsolutePath) :
    Prop :=
  (left.resolveAccessWithCwd host path cwd).canRead =
      (right.resolveAccessWithCwd host path cwd).canRead ∧
    left.canWritePathWithCwd host path cwd = right.canWritePathWithCwd host path cwd

/-- `/tmp`, which `SlashTmp` is taken to name. -/
def slashTmp : AbsolutePathBuf := ⟨"/".toList, ["tmp".toList]⟩

/-- Entries narrow `/tmp` of the working directory's file system, and no resolved entry there
    grants writes. -/
def NarrowsTmp (host : Host) (policy : FileSystemSandboxPolicy) (cwd : AbsolutePath) : Prop :=
  cwd.anchor = slashTmp.anchor ∧
    (∃ entry ∈ policy.resolvedEntriesWithCwd host cwd, entry.path = slashTmp) ∧
    ∀ entry ∈ policy.resolvedEntriesWithCwd host cwd, entry.path = slashTmp →
      entry.access ≠ .write

/-- Every entry of `left` below `/tmp` is in one of `right`. -/
def CoversTmp (host : Host) (left right : FileSystemSandboxPolicy) (cwd : AbsolutePath) : Prop :=
  ∀ entry ∈ left.resolvedEntriesWithCwd host cwd, entry.path.Within slashTmp →
    entry.path ≠ slashTmp →
    ∃ cover ∈ right.resolvedEntriesWithCwd host cwd, entry.path.Within cover.path ∧
      cover.path.Within slashTmp ∧ cover.path ≠ slashTmp

/-- The git directory that the pointer file of a writable root names is below that root, where
    `left` leaves it to the root, and `right` has read entries for it only. -/
structure ReopensGitdir (host : Host) (left right : FileSystemSandboxPolicy) (cwd : AbsolutePath)
    (root gitdir : AbsolutePathBuf) : Prop where
  sameRoot : gitdir.anchor = cwd.anchor
  pointed : pointerGitdir host root = some gitdir
  within : gitdir.Within root
  outside : ∀ name ∈ PROTECTED_METADATA_PATH_NAMES, ¬ gitdir.Within (root.child name)
  granted : ⟨root, .write⟩ ∈ left.resolvedEntriesWithCwd host cwd
  closest : ∀ entry ∈ left.resolvedEntriesWithCwd host cwd, gitdir.Within entry.path →
    root.Within entry.path ∧ (entry.path = root → entry.access ≠ .deny)
  carved : ⟨gitdir, .read⟩ ∈ right.resolvedEntriesWithCwd host cwd
  only : ∀ entry ∈ right.resolvedEntriesWithCwd host cwd, entry.path = gitdir →
    entry.access = .read

/-- What two policies of one signature still have to agree on. -/
def SameBeyondSignature (host : Host) (left right : FileSystemSandboxPolicy)
    (cwd : AbsolutePath) : Prop :=
  if left.hasFullDiskWriteAccess then
    (NarrowsTmp host left cwd ↔ NarrowsTmp host right cwd) ∧
      (NarrowsTmp host left cwd →
        CoversTmp host left right cwd ∧ CoversTmp host right left cwd)
  else
    ∀ root gitdir, ¬ ReopensGitdir host left right cwd root gitdir ∧
      ¬ ReopensGitdir host right left cwd root gitdir

/-! ## Deciding entries -/

/-- A path whose deciding entry is one at the path itself. -/
def Settles (entries : List ResolvedFileSystemEntry) (path : AbsolutePathBuf)
    (access : FileSystemAccessMode) : Prop :=
  Wins entries path ⟨path, access⟩

section Settles

variable {entries : List ResolvedFileSystemEntry} {path : AbsolutePathBuf}
  {winner entry : ResolvedFileSystemEntry} {access other : FileSystemAccessMode}

theorem Wins.settles (wins : Wins entries path winner) :
    Settles entries winner.path winner.access :=
  wins.between wins.within (.refl _)

theorem exists_settles (member : entry ∈ entries) :
    ∃ access, Settles entries entry.path access := by
  obtain ⟨winner, wins⟩ := exists_wins member (AbsolutePathBuf.Within.refl _)
  refine ⟨winner.access, ?_⟩
  rw [← wins.path_eq member]
  exact wins.settles

theorem Settles.unique (left : Settles entries path access) (right : Settles entries path other) :
    access = other := by
  have same := Wins.unique left right
  exact congrArg ResolvedFileSystemEntry.access same

theorem Settles.mem (settles : Settles entries path access) : ⟨path, access⟩ ∈ entries :=
  Wins.mem settles

/-- The entries at a settled path have at most the precedence of the settling one. -/
theorem Settles.rank_le (settles : Settles entries path access) (member : entry ∈ entries)
    (there : entry.path = path) : entry.access.rank ≤ access.rank := by
  have le := settles.le entry member (there ▸ .refl _)
  rw [resolvedEntryPrecedence, resolvedEntryPrecedence, Prod.Lex.toLex_le_toLex] at le
  rcases le with less | same
  · rw [there] at less
    exact absurd less (lt_irrefl _)
  · exact same.2

end Settles

section Access

variable {host : Host} {policy : FileSystemSandboxPolicy} {cwd : AbsolutePath}
  {path : AbsolutePathBuf} {winner : ResolvedFileSystemEntry}

theorem canRead_iff (restricted : policy.kind = .restricted) :
    (policy.resolveAccessWithCwd host path.asPath cwd).canRead = true ↔
      ∃ winner, Wins (policy.resolvedEntriesWithCwd host cwd) path winner ∧
        winner.access ≠ .deny := by
  have readable : ∀ access : FileSystemAccessMode, access.canRead = true ↔ access ≠ .deny := by
    intro access
    cases access <;> simp [FileSystemAccessMode.canRead]
  rw [readable]
  constructor
  · intro granted
    rcases resolveAccess_spec host cwd path restricted with
      ⟨winner, wins, decided⟩ | ⟨_, denied⟩
    · exact ⟨winner, wins, decided ▸ granted⟩
    · exact absurd denied granted
  · rintro ⟨winner, wins, granted⟩
    rwa [resolveAccess_of_wins restricted wins]

/-! ## The roots -/

theorem mem_sortedAbsolutePaths {paths : List AbsolutePathBuf} :
    path ∈ sortedAbsolutePaths paths ↔ path ∈ paths :=
  (List.perm_insertionSort _ _).mem_iff

theorem mem_readableRoots (plain : host.Plain) (restricted : policy.kind = .restricted)
    (narrow : policy.hasFullDiskReadAccess = false) :
    path ∈ policy.getReadableRootsWithCwd host cwd ↔
      ∃ access, Settles (policy.resolvedEntriesWithCwd host cwd) path access ∧
        access ≠ .deny := by
  rw [FileSystemSandboxPolicy.getReadableRootsWithCwd, narrow]
  simp only [Bool.false_eq_true, if_false, mem_dedupAbsolutePaths plain, List.mem_map,
    List.mem_filter, FileSystemSandboxPolicy.canReadPathWithCwd, canRead_iff restricted]
  constructor
  · rintro ⟨entry, ⟨⟨member, _⟩, winner, wins, granted⟩, rfl⟩
    refine ⟨winner.access, ?_, granted⟩
    rw [← wins.path_eq member]
    exact wins.settles
  · rintro ⟨access, settles, granted⟩
    refine ⟨⟨path, access⟩, ⟨⟨settles.mem, ?_⟩, _, settles, granted⟩, rfl⟩
    revert granted
    cases access <;> simp [FileSystemAccessMode.canRead]

theorem mem_unreadableRoots (plain : host.Plain) (restricted : policy.kind = .restricted) :
    path ∈ policy.getUnreadableRootsWithCwd host cwd ↔
      Settles (policy.resolvedEntriesWithCwd host cwd) path .deny ∧
        absoluteRootPathForCwd cwd.normalize ≠ path := by
  simp only [FileSystemSandboxPolicy.getUnreadableRootsWithCwd, restricted, ne_eq,
    not_true_eq_false, if_false, mem_dedupAbsolutePaths plain, List.mem_map, List.mem_filter,
    FileSystemSandboxPolicy.canReadPathWithCwd, decide_eq_true_eq, Bool.not_eq_true',
    ← Bool.not_eq_true, canRead_iff restricted]
  constructor
  · rintro ⟨entry, ⟨⟨⟨member, _⟩, unreadable⟩, notRoot⟩, rfl⟩
    obtain ⟨access, settles⟩ := exists_settles member
    refine ⟨?_, notRoot⟩
    by_cases denied : access = .deny
    · exact denied ▸ settles
    · exact absurd ⟨_, settles, denied⟩ unreadable
  · rintro ⟨settles, notRoot⟩
    refine ⟨⟨path, .deny⟩, ⟨⟨⟨settles.mem, rfl⟩, ?_⟩, notRoot⟩, rfl⟩
    rintro ⟨winner, wins, granted⟩
    rw [wins.unique settles] at granted
    exact granted rfl

theorem mem_writableEntries_iff (plain : host.Plain) (restricted : policy.kind = .restricted)
    (narrow : policy.hasFullDiskWriteAccess = false) :
    path ∈ policy.writableEntries host cwd ↔
      Settles (policy.resolvedEntriesWithCwd host cwd) path .write := by
  constructor
  · intro member
    obtain ⟨⟨entry, entryMember, rfl⟩, granted⟩ :=
      granted_of_mem_writableEntries plain restricted narrow member
    obtain ⟨access, settles⟩ := exists_settles entryMember
    have decided := resolveAccess_of_wins restricted settles
    rw [granted] at decided
    exact decided ▸ settles
  · intro settles
    exact mem_writableEntries_of_granted plain restricted narrow settles.mem
      (resolveAccess_of_wins restricted settles)

/-- The carved-out paths of a root: an entry without writes settles them. -/
theorem mem_readOnlySubpaths_of_settles (plain : host.Plain)
    (restricted : policy.kind = .restricted) (narrow : policy.hasFullDiskWriteAccess = false)
    {root : AbsolutePathBuf} {access : FileSystemAccessMode}
    (settles : Settles (policy.resolvedEntriesWithCwd host cwd) path access)
    (refused : access ≠ .write) (within : path.Within root) (ne : path ≠ root) :
    path ∈ (policy.writableRoot host cwd root).readOnlySubpaths := by
  refine (mem_readOnlySubpaths plain).mpr (.inr ⟨⟨path, access⟩, settles.mem, refused, ?_, rfl,
    within, ne⟩)
  rw [canWrite_of_mem plain restricted narrow settles.mem, resolveAccess_of_wins restricted settles]
  exact refused

/-- A root is carved out where it is settled by an entry, or by default. -/
theorem default_of_mem_readOnlySubpaths (plain : host.Plain) {root subpath : AbsolutePathBuf}
    (carved : subpath ∈ (policy.writableRoot host cwd root).readOnlySubpaths)
    (free : ∀ entry ∈ policy.resolvedEntriesWithCwd host cwd, entry.path ≠ subpath) :
    (∃ name ∈ PROTECTED_METADATA_PATH_NAMES, subpath = root.child name) ∨
      pointerGitdir host root = some subpath := by
  rcases (mem_readOnlySubpaths plain).mp carved with ⟨default, _⟩ | ⟨entry, member, _, _, there, _⟩
  · exact mem_defaultReadOnlySubpaths plain default
  · exact absurd there (free entry member)

theorem mem_sortedWritableRoots {roots : List WritableRoot} {root : WritableRoot} :
    root ∈ sortedWritableRoots roots ↔ ∃ unsorted ∈ roots, sortedWritableRoot unsorted = root := by
  rw [sortedWritableRoots, (List.perm_insertionSort _ _).mem_iff, List.mem_map]

end Access

/-! ## What equal signatures say -/

section Equivalent

variable {host : Host} {resolveGlob : Text → AbsolutePath → Text}
  {left right : FileSystemSandboxPolicy} {cwd : AbsolutePath} {path : AbsolutePathBuf}

theorem isSemanticallyEquivalentTo_iff :
    left.isSemanticallyEquivalentTo host resolveGlob right cwd = true ↔
      left.semanticSignature host resolveGlob cwd =
        right.semanticSignature host resolveGlob cwd := by
  simp only [FileSystemSandboxPolicy.isSemanticallyEquivalentTo, decide_eq_true_eq]

variable (plain : host.Plain) (leftRestricted : left.kind = .restricted)
  (rightRestricted : right.kind = .restricted)
  (equivalent : left.semanticSignature host resolveGlob cwd =
    right.semanticSignature host resolveGlob cwd)

include plain leftRestricted rightRestricted equivalent

theorem settles_readable (narrow : left.hasFullDiskReadAccess = false) :
    (∃ access, Settles (left.resolvedEntriesWithCwd host cwd) path access ∧ access ≠ .deny) ↔
      ∃ access, Settles (right.resolvedEntriesWithCwd host cwd) path access ∧
        access ≠ .deny := by
  have sameNarrow := congrArg FileSystemSemanticSignature.hasFullDiskReadAccess equivalent
  have sameRoots := congrArg FileSystemSemanticSignature.readableRoots equivalent
  simp only [FileSystemSandboxPolicy.semanticSignature] at sameNarrow sameRoots
  rw [← mem_readableRoots plain leftRestricted narrow, ← mem_sortedAbsolutePaths, sameRoots,
    mem_sortedAbsolutePaths, mem_readableRoots plain rightRestricted (sameNarrow ▸ narrow)]

theorem settles_deny (below : absoluteRootPathForCwd cwd.normalize ≠ path) :
    Settles (left.resolvedEntriesWithCwd host cwd) path .deny ↔
      Settles (right.resolvedEntriesWithCwd host cwd) path .deny := by
  have sameRoots := congrArg FileSystemSemanticSignature.unreadableRoots equivalent
  simp only [FileSystemSandboxPolicy.semanticSignature] at sameRoots
  have same : path ∈ left.getUnreadableRootsWithCwd host cwd ↔
      path ∈ right.getUnreadableRootsWithCwd host cwd := by
    rw [← mem_sortedAbsolutePaths, sameRoots, mem_sortedAbsolutePaths]
  rw [mem_unreadableRoots plain leftRestricted, mem_unreadableRoots plain rightRestricted] at same
  simpa only [below, ne_eq, not_false_eq_true, and_true] using same

/-- The policies settle the same paths as writable, with the same read-only subpaths below. -/
theorem settles_write (narrow : left.hasFullDiskWriteAccess = false)
    (settles : Settles (left.resolvedEntriesWithCwd host cwd) path .write) :
    Settles (right.resolvedEntriesWithCwd host cwd) path .write ∧
      ∀ subpath, subpath ∈ (left.writableRoot host cwd path).readOnlySubpaths ↔
        subpath ∈ (right.writableRoot host cwd path).readOnlySubpaths := by
  have sameNarrow := congrArg FileSystemSemanticSignature.hasFullDiskWriteAccess equivalent
  have sameRoots := congrArg FileSystemSemanticSignature.writableRoots equivalent
  simp only [FileSystemSandboxPolicy.semanticSignature] at sameNarrow sameRoots
  have member : sortedWritableRoot (left.writableRoot host cwd path) ∈
      sortedWritableRoots (left.getWritableRootsWithCwd host cwd) := by
    refine mem_sortedWritableRoots.mpr ⟨_, ?_, rfl⟩
    exact (mem_writableRoots plain narrow).mpr
      ⟨path, (mem_writableEntries_iff plain leftRestricted narrow).mpr settles, rfl⟩
  rw [sameRoots, mem_sortedWritableRoots] at member
  obtain ⟨unsorted, unsortedMember, same⟩ := member
  obtain ⟨root, rootMember, rfl⟩ :=
    (mem_writableRoots plain (sameNarrow ▸ narrow)).mp unsortedMember
  obtain rfl : root = path := congrArg WritableRoot.root same
  refine ⟨(mem_writableEntries_iff plain rightRestricted (sameNarrow ▸ narrow)).mp rootMember, ?_⟩
  intro subpath
  have sameSubpaths := congrArg WritableRoot.readOnlySubpaths same
  simp only [sortedWritableRoot] at sameSubpaths
  rw [← mem_sortedAbsolutePaths, ← sameSubpaths, mem_sortedAbsolutePaths]

/-- What one policy lets read, the other does. -/
theorem canRead_of_equivalent (narrow : left.hasFullDiskReadAccess = false)
    (readable : (left.resolveAccessWithCwd host path.asPath cwd).canRead = true) :
    (right.resolveAccessWithCwd host path.asPath cwd).canRead = true := by
  obtain ⟨winner, wins, granted⟩ := (canRead_iff leftRestricted).mp readable
  obtain ⟨access, settles, readableThere⟩ :=
    (settles_readable plain leftRestricted rightRestricted equivalent narrow).mp
      ⟨winner.access, wins.settles, granted⟩
  obtain ⟨other, otherWins⟩ := exists_wins settles.mem wins.within
  have deeper := otherWins.within_of_mem settles.mem wins.within
  refine (canRead_iff rightRestricted).mpr ⟨other, otherWins, ?_⟩
  intro denied
  have otherSettles := otherWins.settles
  rw [denied] at otherSettles
  by_cases same : other.path = winner.path
  · rw [same] at otherSettles
    exact readableThere (settles.unique otherSettles)
  -- A deny strictly below the winner is an entry of both policies.
  have below : absoluteRootPathForCwd cwd.normalize ≠ other.path := by
    intro atRoot
    have := (deeper.count_lt same)
    rw [← atRoot] at this
    simp only [AbsolutePathBuf.componentCount, absoluteRootPathForCwd, List.length_nil] at this
    omega
  have leftSettles :=
    (settles_deny plain leftRestricted rightRestricted equivalent below).mpr otherSettles
  have leftMember : (⟨other.path, .deny⟩ : ResolvedFileSystemEntry) ∈ _ := leftSettles.mem
  have above := wins.within_of_mem leftMember otherWins.within
  exact same (deeper.antisymm above)

/-- What one policy lets write, the other does, or it has reopened a pointed git directory. -/
theorem canWrite_of_equivalent (narrow : left.hasFullDiskWriteAccess = false)
    (sameRoot : path.anchor = cwd.anchor)
    (writable : left.canWritePathWithCwd host path.asPath cwd = true) :
    right.canWritePathWithCwd host path.asPath cwd = true ∨
      ∃ root gitdir, ReopensGitdir host left right cwd root gitdir := by
  have sameNarrow := congrArg FileSystemSemanticSignature.hasFullDiskWriteAccess equivalent
  simp only [FileSystemSandboxPolicy.semanticSignature] at sameNarrow
  have rightNarrow : right.hasFullDiskWriteAccess = false := sameNarrow ▸ narrow
  obtain ⟨winner, wins, write, outside⟩ := (canWrite_iff plain leftRestricted narrow).mp writable
  have settles := wins.settles
  rw [write] at settles
  obtain ⟨rightSettles, subpaths⟩ :=
    settles_write plain leftRestricted rightRestricted equivalent narrow settles
  obtain ⟨other, otherWins⟩ := exists_wins rightSettles.mem wins.within
  have deeper := otherWins.within_of_mem rightSettles.mem wins.within
  -- An entry of the left policy at the other winner is the winner's path.
  have shallow : ∀ entry ∈ left.resolvedEntriesWithCwd host cwd, entry.path = other.path →
      other.path = winner.path := by
    intro entry member there
    have within := wins.within_of_mem member (there ▸ otherWins.within)
    exact deeper.antisymm (there ▸ within)
  by_cases granted : other.access = .write
  · left
    have otherSettles := otherWins.settles
    rw [granted] at otherSettles
    obtain ⟨leftSettles, _⟩ :=
      settles_write plain rightRestricted leftRestricted equivalent.symm rightNarrow otherSettles
    have same := shallow _ leftSettles.mem rfl
    exact (canWrite_iff plain rightRestricted rightNarrow).mpr
      ⟨other, otherWins, granted, same ▸ outside⟩
  right
  have ne : other.path ≠ winner.path := by
    intro same
    have otherSettles := otherWins.settles
    rw [same] at otherSettles
    exact granted (otherSettles.unique rightSettles)
  have free : ∀ entry ∈ left.resolvedEntriesWithCwd host cwd, entry.path ≠ other.path :=
    fun entry member there => ne (shallow entry member there)
  have carved := (subpaths _).mpr (mem_readOnlySubpaths_of_settles plain rightRestricted
    rightNarrow otherWins.settles granted deeper ne)
  rcases default_of_mem_readOnlySubpaths plain carved free with ⟨name, isName, same⟩ | pointed
  · exact absurd (same ▸ otherWins.within) (outside name isName)
  have read : other.access = .read := by
    cases decided : other.access with
    | read => rfl
    | write => exact absurd decided granted
    | deny =>
      have otherSettles := otherWins.settles
      rw [decided] at otherSettles
      have below : absoluteRootPathForCwd cwd.normalize ≠ other.path := by
        intro atRoot
        have := deeper.count_lt ne
        rw [← atRoot] at this
        simp only [AbsolutePathBuf.componentCount, absoluteRootPathForCwd,
          List.length_nil] at this
        omega
      have leftSettles :=
        (settles_deny plain leftRestricted rightRestricted equivalent below).mpr otherSettles
      exact absurd rfl (free ⟨other.path, .deny⟩ leftSettles.mem)
  have otherSettles := otherWins.settles
  rw [read] at otherSettles
  refine ⟨winner.path, other.path, otherWins.within.1.symm.trans sameRoot, pointed, deeper, ?_,
    settles.mem, ?_, otherSettles.mem, ?_⟩
  · intro name isName within
    exact outside name isName (otherWins.within.trans within)
  · intro entry member within
    refine ⟨wins.within_of_mem member (otherWins.within.trans within), ?_⟩
    intro there denied
    have le := settles.rank_le member there
    rw [denied] at le
    exact absurd le (by decide)
  · intro entry member there
    have le := otherSettles.rank_le member there
    apply FileSystemAccessMode.rank_injective
    exact Nat.le_zero.mp le

omit rightRestricted equivalent in
/-- A reopened git directory is writable in one policy and not in the other. -/
theorem ReopensGitdir.disagrees {root gitdir : AbsolutePathBuf}
    (reopens : ReopensGitdir host left right cwd root gitdir)
    (narrow : left.hasFullDiskWriteAccess = false) (rightRestricted : right.kind = .restricted) :
    left.canWritePathWithCwd host gitdir.asPath cwd = true ∧
      right.canWritePathWithCwd host gitdir.asPath cwd = false := by
  have wins : Wins (left.resolvedEntriesWithCwd host cwd) gitdir ⟨root, .write⟩ := by
    refine ⟨reopens.granted, reopens.within, ?_⟩
    intro entry member within
    obtain ⟨above, notDeny⟩ := reopens.closest entry member within
    rw [resolvedEntryPrecedence, resolvedEntryPrecedence, Prod.Lex.toLex_le_toLex]
    rcases above.count_le.lt_or_eq with less | same
    · exact .inl less
    have there := (AbsolutePathBuf.Within.refl root).eq_of_count above same
    refine .inr ⟨same, ?_⟩
    revert notDeny
    cases entry.access with
    | read => exact fun _ => Nat.zero_le _
    | write => exact fun _ => le_rfl
    | deny => exact fun notDeny => absurd rfl (notDeny there.symm)
  refine ⟨(canWrite_iff plain leftRestricted narrow).mpr ⟨_, wins, rfl, reopens.outside⟩, ?_⟩
  have settles : Settles (right.resolvedEntriesWithCwd host cwd) gitdir .read := by
    obtain ⟨access, settles⟩ := exists_settles reopens.carved
    obtain rfl : access = .read := reopens.only _ settles.mem rfl
    exact settles
  rw [FileSystemSandboxPolicy.canWritePathWithCwd, resolveAccess_of_wins rightRestricted settles]
  rfl

end Equivalent

/-! ## Full-disk access -/

section FullDisk

variable {host : Host} {policy left right : FileSystemSandboxPolicy} {cwd : AbsolutePath}
  {path : AbsolutePathBuf} {winner : ResolvedFileSystemEntry}

theorem mem_resolvedEntries {resolved : ResolvedFileSystemEntry} :
    resolved ∈ policy.resolvedEntriesWithCwd host cwd ↔
      ∃ entry ∈ policy.entries, resolveEntryPath host entry.path cwd.normalize =
        some resolved.path ∧ entry.access = resolved.access := by
  obtain ⟨path, access⟩ := resolved
  simp only [FileSystemSandboxPolicy.resolvedEntriesWithCwd, List.mem_filterMap,
    Option.map_eq_some_iff, ResolvedFileSystemEntry.mk.injEq]
  apply exists_congr
  intro entry
  apply and_congr_right
  intro _
  constructor
  · rintro ⟨_, resolved, rfl, rfl⟩
    exact ⟨resolved, rfl⟩
  · rintro ⟨resolved, rfl⟩
    exact ⟨path, resolved, rfl, rfl⟩

/-- A policy with root access has an entry at the root of the working directory. -/
theorem root_mem_of_hasRootAccess (host : Host) (cwd : AbsolutePath)
    {predicate : FileSystemAccessMode → Bool} (rootAccess : policy.hasRootAccess predicate = true) :
    ∃ entry ∈ policy.resolvedEntriesWithCwd host cwd,
      entry.path = absoluteRootPathForCwd cwd.normalize ∧ predicate entry.access = true := by
  simp only [FileSystemSandboxPolicy.hasRootAccess, Bool.and_eq_true, List.any_eq_true,
    decide_eq_true_eq] at rootAccess
  obtain ⟨_, entry, member, isRoot, granted⟩ := rootAccess
  refine ⟨⟨absoluteRootPathForCwd cwd.normalize, entry.access⟩, ?_, rfl, granted⟩
  refine mem_resolvedEntries.mpr ⟨entry, member, ?_, rfl⟩
  rw [isRoot]
  rfl

theorem within_root (sameRoot : path.anchor = cwd.anchor) :
    path.Within (absoluteRootPathForCwd cwd.normalize) :=
  ⟨sameRoot, List.nil_prefix⟩

/-- With full-disk read access every path of the file system is readable. -/
theorem canRead_of_hasFullDiskReadAccess (restricted : policy.kind = .restricted)
    (full : policy.hasFullDiskReadAccess = true) (sameRoot : path.anchor = cwd.anchor) :
    (policy.resolveAccessWithCwd host path.asPath cwd).canRead = true := by
  simp only [FileSystemSandboxPolicy.hasFullDiskReadAccess, restricted, Bool.and_eq_true,
    FileSystemSandboxPolicy.hasDeniedReadRestrictions, decide_true, Bool.true_and,
    Bool.not_eq_true', List.any_eq_false, decide_eq_true_eq] at full
  obtain ⟨rootAccess, noDeny⟩ := full
  obtain ⟨root, rootMember, atRoot, _⟩ :=
    root_mem_of_hasRootAccess host cwd rootAccess
  obtain ⟨winner, wins⟩ := exists_wins rootMember (atRoot ▸ within_root sameRoot)
  refine (canRead_iff restricted).mpr ⟨winner, wins, ?_⟩
  obtain ⟨entry, member, _, access⟩ := mem_resolvedEntries.mp wins.mem
  exact access ▸ noDeny entry member

/-- What overrides an entry grants writes, and the entry is a read. -/
theorem override_of_hasSameTargetWriteOverride {entry : FileSystemSandboxEntry}
    (overridden : policy.hasSameTargetWriteOverride entry = true) :
    entry.access = .read ∧ ∃ candidate ∈ policy.entries, candidate.access = .write ∧
      fileSystemPathsShareTarget candidate.path entry.path = true := by
  simp only [FileSystemSandboxPolicy.hasSameTargetWriteOverride, List.any_eq_true,
    Bool.and_eq_true, FileSystemAccessMode.canWrite_iff, decide_eq_true_eq] at overridden
  obtain ⟨candidate, member, ⟨write, less⟩, shares⟩ := overridden
  refine ⟨?_, candidate, member, write, shares⟩
  rw [write] at less
  apply FileSystemAccessMode.rank_injective
  exact Nat.lt_one_iff.mp less

variable {target : AbsolutePathBuf}

/-- Where an absolute path is overridden, a write entry resolves to it, but for `/tmp`. -/
theorem write_of_path_overridden {candidate : FileSystemSandboxEntry}
    (member : candidate ∈ policy.entries) (write : candidate.access = .write)
    (shares : fileSystemPathsShareTarget candidate.path (.path target) = true)
    (sameRoot : target.anchor = cwd.anchor) :
    target = slashTmp ∨ ⟨target, .write⟩ ∈ policy.resolvedEntriesWithCwd host cwd := by
  obtain ⟨candidatePath, candidateAccess⟩ := candidate
  obtain rfl : candidateAccess = .write := write
  cases candidatePath with
  | path other =>
    obtain rfl : other = target := of_decide_eq_true shares
    exact .inr (mem_resolvedEntries.mpr ⟨_, member, rfl, rfl⟩)
  | globPattern pattern => cases shares
  | special value =>
    cases value with
    | root =>
      right
      refine mem_resolvedEntries.mpr ⟨_, member, ?_, rfl⟩
      obtain ⟨anchor, names⟩ := target
      obtain rfl : anchor = cwd.anchor := sameRoot
      cases names with
      | nil => rfl
      | cons name rest => cases shares
    | slashTmp => exact .inl (of_decide_eq_true shares)
    | minimal | projectRoots subpath | tmpdir | unknown path subpath => cases shares

/-- Where a special path is overridden that resolves without the root, a write entry resolves to
    the same path. -/
theorem write_of_special_overridden {value : FileSystemSpecialPath}
    {candidate : FileSystemSandboxEntry} (member : candidate ∈ policy.entries)
    (write : candidate.access = .write)
    (shares : fileSystemPathsShareTarget candidate.path (.special value) = true)
    (found : resolveFileSystemSpecialPath host value cwd.normalize = some target) :
    ⟨target, .write⟩ ∈ policy.resolvedEntriesWithCwd host cwd := by
  obtain ⟨candidatePath, candidateAccess⟩ := candidate
  obtain rfl : candidateAccess = .write := write
  cases candidatePath with
  | path other => cases value <;> first | cases found | cases shares
  | globPattern pattern => cases shares
  | special other =>
    obtain rfl : other = value := of_decide_eq_true shares
    refine mem_resolvedEntries.mpr ⟨_, member, ?_, rfl⟩
    rw [← found]
    cases other <;> first | rfl | cases found

/-- An entry that does not narrow a full-disk write grants a write, or another entry grants it at
    the same path, but for `/tmp`. -/
theorem write_of_not_narrows {entry : FileSystemSandboxEntry}
    (rootAccess : policy.hasRootAccess FileSystemAccessMode.canWrite = true)
    (wide : policy.narrowsWrite entry = false)
    (found : resolveEntryPath host entry.path cwd.normalize = some target)
    (sameRoot : target.anchor = cwd.anchor) :
    entry.access = .write ∨
      entry.access = .read ∧
        (target = slashTmp ∨ ⟨target, .write⟩ ∈ policy.resolvedEntriesWithCwd host cwd) := by
  obtain ⟨entryPath, access⟩ := entry
  by_cases write : access = .write
  · exact .inl write
  right
  have refused : access.canWrite = false := by
    rw [← Bool.not_eq_true, FileSystemAccessMode.canWrite_iff]
    exact write
  simp only [FileSystemSandboxPolicy.narrowsWrite, refused, Bool.false_eq_true, if_false] at wide
  cases entryPath with
  | path path =>
    obtain rfl : path = target := Option.some_inj.mp found
    obtain ⟨read, candidate, member, granted, shares⟩ :=
      override_of_hasSameTargetWriteOverride (by simpa using wide)
    exact ⟨read, write_of_path_overridden member granted shares sameRoot⟩
  | globPattern pattern => cases found
  | special value =>
    by_cases isRoot : value = .root
    · subst isRoot
      obtain rfl : absoluteRootPathForCwd cwd.normalize = target := Option.some_inj.mp found
      obtain ⟨root, rootMember, atRoot, granted⟩ :=
        root_mem_of_hasRootAccess host cwd rootAccess
      obtain ⟨rootPath, rootAccess⟩ := root
      obtain rfl : rootPath = _ := atRoot
      obtain rfl : rootAccess = .write := (FileSystemAccessMode.canWrite_iff _).mp granted
      refine ⟨?_, .inr rootMember⟩
      cases access with
      | read => rfl
      | write => exact absurd rfl write
      | deny => cases wide
    · have special : resolveFileSystemSpecialPath host value cwd.normalize = some target := by
        rw [← found]
        cases value <;> first | rfl | exact absurd rfl isRoot
      have overridden : policy.hasSameTargetWriteOverride ⟨.special value, access⟩ = true := by
        cases value <;> first | cases special | simpa using wide
      obtain ⟨read, candidate, member, granted, shares⟩ :=
        override_of_hasSameTargetWriteOverride overridden
      exact ⟨read, .inr (write_of_special_overridden member granted shares special)⟩

/-- A path below a narrowed `/tmp` without an entry between them. -/
def LeftToTmp (host : Host) (policy : FileSystemSandboxPolicy) (cwd : AbsolutePath)
    (path : AbsolutePathBuf) : Prop :=
  NarrowsTmp host policy cwd ∧ path.Within slashTmp ∧
    ∀ entry ∈ policy.resolvedEntriesWithCwd host cwd, path.Within entry.path →
      slashTmp.Within entry.path

/-- With full-disk write access a path resolves to a read where it is left to a narrowed `/tmp`,
    and to a write everywhere else. -/
theorem resolveAccess_of_hasFullDiskWriteAccess (host : Host)
    (restricted : policy.kind = .restricted) (full : policy.hasFullDiskWriteAccess = true)
    (sameRoot : path.anchor = cwd.anchor) :
    policy.resolveAccessWithCwd host path.asPath cwd = .write ∧ ¬ LeftToTmp host policy cwd path ∨
      policy.resolveAccessWithCwd host path.asPath cwd = .read ∧
        LeftToTmp host policy cwd path := by
  simp only [FileSystemSandboxPolicy.hasFullDiskWriteAccess, restricted, Bool.and_eq_true,
    FileSystemSandboxPolicy.hasWriteNarrowingEntries, decide_true, Bool.true_and,
    Bool.not_eq_true', List.any_eq_false, Bool.not_eq_true] at full
  obtain ⟨rootAccess, wide⟩ := full
  obtain ⟨root, rootMember, atRoot, _⟩ :=
    root_mem_of_hasRootAccess host cwd rootAccess
  obtain ⟨winner, wins⟩ := exists_wins rootMember (atRoot ▸ within_root sameRoot)
  rw [resolveAccess_of_wins restricted wins]
  obtain ⟨entry, member, found, access⟩ := mem_resolvedEntries.mp wins.mem
  have overridden := write_of_not_narrows rootAccess (wide entry member) found
    (wins.within.1.symm.trans sameRoot)
  rw [access] at overridden
  rcases overridden with write | ⟨read, cases_⟩
  · refine .inl ⟨write, ?_⟩
    rintro ⟨⟨_, ⟨tmp, tmpMember, atTmp⟩, noWrite⟩, inTmp, none⟩
    have above := none winner wins.mem wins.within
    have below := wins.within_of_mem tmpMember (atTmp ▸ inTmp)
    rw [atTmp] at below
    exact noWrite winner wins.mem (below.antisymm above) write
  -- A write entry at the path of the winner would win over it.
  have notWrite : ⟨winner.path, .write⟩ ∉ policy.resolvedEntriesWithCwd host cwd := by
    intro written
    have le := wins.settles.rank_le written rfl
    rw [read] at le
    exact absurd le (Nat.not_succ_le_zero 0)
  have atTmp := cases_.resolve_right notWrite
  refine .inr ⟨read, ⟨?_, ⟨winner, wins.mem, atTmp⟩, ?_⟩, atTmp ▸ wins.within, ?_⟩
  · rw [← sameRoot, wins.within.1, atTmp]
  · intro other otherMember there write
    obtain ⟨otherPath, otherAccess⟩ := other
    obtain rfl : otherAccess = .write := write
    obtain rfl : otherPath = slashTmp := there
    exact notWrite (atTmp ▸ otherMember)
  · intro other otherMember within
    exact atTmp ▸ wins.within_of_mem otherMember within

theorem canWrite_of_full (full : policy.hasFullDiskWriteAccess = true) :
    policy.canWritePathWithCwd host path.asPath cwd =
      (policy.resolveAccessWithCwd host path.asPath cwd).canWrite := by
  rw [FileSystemSandboxPolicy.canWritePathWithCwd, full]
  cases (policy.resolveAccessWithCwd host path.asPath cwd).canWrite <;> rfl

theorem leftToTmp_slashTmp (narrows : NarrowsTmp host policy cwd) :
    LeftToTmp host policy cwd slashTmp :=
  ⟨narrows, .refl _, fun _ _ within => within⟩

/-- With full-disk write access two policies agree on the paths left to `/tmp` in both or in
    neither. -/
theorem sameAccess_iff_leftToTmp (leftRestricted : left.kind = .restricted)
    (rightRestricted : right.kind = .restricted) (leftFull : left.hasFullDiskWriteAccess = true)
    (rightFull : right.hasFullDiskWriteAccess = true) (sameRoot : path.anchor = cwd.anchor) :
    SameAccess host left right cwd path.asPath ↔
      (LeftToTmp host left cwd path ↔ LeftToTmp host right cwd path) := by
  rw [SameAccess, canWrite_of_full leftFull, canWrite_of_full rightFull]
  rcases resolveAccess_of_hasFullDiskWriteAccess host leftRestricted leftFull sameRoot with
    ⟨leftAccess, leftTmp⟩ | ⟨leftAccess, leftTmp⟩ <;>
  rcases resolveAccess_of_hasFullDiskWriteAccess host rightRestricted rightFull sameRoot with
    ⟨rightAccess, rightTmp⟩ | ⟨rightAccess, rightTmp⟩ <;>
  simp only [leftAccess, rightAccess, leftTmp, rightTmp] <;> decide

/-- A path in `/tmp` and in an entry that is not above `/tmp` is in an entry below it. -/
theorem below_tmp_of_within {entry : AbsolutePathBuf} (inTmp : path.Within slashTmp)
    (inEntry : path.Within entry) (notAbove : ¬ slashTmp.Within entry) :
    entry.Within slashTmp ∧ entry ≠ slashTmp := by
  refine ⟨?_, ?_⟩
  · rcases le_total slashTmp.componentCount entry.componentCount with le | le
    · exact inEntry.of_count_le inTmp le
    · exact absurd (inTmp.of_count_le inEntry le) notAbove
  · rintro rfl
    exact notAbove (.refl _)

theorem leftToTmp_of_covers (covers : CoversTmp host right left cwd)
    (rightNarrows : NarrowsTmp host right cwd) (leftTmp : LeftToTmp host left cwd path) :
    LeftToTmp host right cwd path := by
  obtain ⟨_, inTmp, none⟩ := leftTmp
  refine ⟨rightNarrows, inTmp, ?_⟩
  intro entry member within
  by_contra notAbove
  obtain ⟨inside, ne⟩ := below_tmp_of_within inTmp within notAbove
  obtain ⟨cover, coverMember, covered, below, coverNe⟩ := covers entry member inside ne
  exact coverNe (below.antisymm (none cover coverMember (within.trans covered)))

theorem covers_of_leftToTmp (leftNarrows : NarrowsTmp host left cwd)
    (rightNarrows : NarrowsTmp host right cwd)
    (same : ∀ path : AbsolutePathBuf, path.anchor = cwd.anchor →
      (LeftToTmp host left cwd path ↔ LeftToTmp host right cwd path)) :
    CoversTmp host left right cwd := by
  intro entry member inside ne
  have notLeft : ¬ LeftToTmp host left cwd entry.path := by
    rintro ⟨_, _, none⟩
    exact ne (inside.antisymm (none entry member (.refl _)))
  have notRight : ¬ LeftToTmp host right cwd entry.path := by
    rwa [← same entry.path (inside.1.trans leftNarrows.1.symm)]
  by_contra uncovered
  push Not at uncovered
  refine notRight ⟨rightNarrows, inside, ?_⟩
  intro cover coverMember covered
  by_contra notAbove
  obtain ⟨below, coverNe⟩ := below_tmp_of_within inside covered notAbove
  exact coverNe (uncovered cover coverMember covered below)

theorem leftToTmp_iff_sameBeyondSignature :
    (∀ path : AbsolutePathBuf, path.anchor = cwd.anchor →
      (LeftToTmp host left cwd path ↔ LeftToTmp host right cwd path)) ↔
      (NarrowsTmp host left cwd ↔ NarrowsTmp host right cwd) ∧
        (NarrowsTmp host left cwd →
          CoversTmp host left right cwd ∧ CoversTmp host right left cwd) := by
  constructor
  · intro same
    have narrows : NarrowsTmp host left cwd ↔ NarrowsTmp host right cwd := by
      constructor
      · intro leftNarrows
        exact ((same slashTmp leftNarrows.1.symm).mp (leftToTmp_slashTmp leftNarrows)).1
      · intro rightNarrows
        exact ((same slashTmp rightNarrows.1.symm).mpr (leftToTmp_slashTmp rightNarrows)).1
    refine ⟨narrows, ?_⟩
    intro leftNarrows
    have rightNarrows := narrows.mp leftNarrows
    exact ⟨covers_of_leftToTmp leftNarrows rightNarrows same,
      covers_of_leftToTmp rightNarrows leftNarrows fun path sameRoot => (same path sameRoot).symm⟩
  · rintro ⟨narrows, covers⟩ path _
    constructor
    · intro leftTmp
      exact leftToTmp_of_covers (covers leftTmp.1).2 (narrows.mp leftTmp.1) leftTmp
    · intro rightTmp
      have leftNarrows := narrows.mpr rightTmp.1
      exact leftToTmp_of_covers (covers leftNarrows).1 leftNarrows rightTmp

/-- With full-disk write access everything resolves to a write exactly where nothing narrows
    `/tmp`. -/
theorem resolvesToWrite_iff (restricted : policy.kind = .restricted)
    (full : policy.hasFullDiskWriteAccess = true) :
    (∀ path : AbsolutePathBuf, path.anchor = cwd.anchor →
      policy.resolveAccessWithCwd host path.asPath cwd = .write) ↔
      ¬ NarrowsTmp host policy cwd := by
  constructor
  · intro writes narrows
    have sameRoot : slashTmp.anchor = cwd.anchor := narrows.1.symm
    rcases resolveAccess_of_hasFullDiskWriteAccess host restricted full sameRoot with
      ⟨_, notLeft⟩ | ⟨read, _⟩
    · exact notLeft (leftToTmp_slashTmp narrows)
    · rw [writes slashTmp sameRoot] at read
      cases read
  · intro wide path sameRoot
    rcases resolveAccess_of_hasFullDiskWriteAccess host restricted full sameRoot with
      ⟨write, _⟩ | ⟨_, leftTmp⟩
    · exact write
    · exact absurd leftTmp.1 wide

/-- Policies of one signature agree on every path of the file system exactly where they agree on
    what the signature leaves open. -/
theorem sameAccess_iff (plain : host.Plain) (leftRestricted : left.kind = .restricted)
    (rightRestricted : right.kind = .restricted) {resolveGlob : Text → AbsolutePath → Text}
    (equivalent : left.semanticSignature host resolveGlob cwd =
      right.semanticSignature host resolveGlob cwd) :
    (∀ path : AbsolutePathBuf, path.anchor = cwd.anchor →
      SameAccess host left right cwd path.asPath) ↔
      SameBeyondSignature host left right cwd := by
  have sameRead := congrArg FileSystemSemanticSignature.hasFullDiskReadAccess equivalent
  have sameWrite := congrArg FileSystemSemanticSignature.hasFullDiskWriteAccess equivalent
  simp only [FileSystemSandboxPolicy.semanticSignature] at sameRead sameWrite
  rw [SameBeyondSignature]
  cases full : left.hasFullDiskWriteAccess with
  | true =>
    rw [if_pos rfl, ← leftToTmp_iff_sameBeyondSignature]
    apply forall₂_congr
    intro path sameRoot
    exact sameAccess_iff_leftToTmp leftRestricted rightRestricted full (sameWrite ▸ full) sameRoot
  | false =>
    rw [if_neg Bool.false_ne_true]
    have rightNarrow : right.hasFullDiskWriteAccess = false := sameWrite ▸ full
    constructor
    · intro same root gitdir
      refine ⟨?_, ?_⟩
      · intro reopens
        obtain ⟨writable, refused⟩ :=
          reopens.disagrees plain leftRestricted full rightRestricted
        rw [(same gitdir reopens.sameRoot).2, refused] at writable
        cases writable
      · intro reopens
        obtain ⟨writable, refused⟩ :=
          reopens.disagrees plain rightRestricted rightNarrow leftRestricted
        rw [← (same gitdir reopens.sameRoot).2, refused] at writable
        cases writable
    · intro none path sameRoot
      refine ⟨?_, ?_⟩
      · cases fullRead : left.hasFullDiskReadAccess with
        | true =>
          rw [canRead_of_hasFullDiskReadAccess leftRestricted fullRead sameRoot,
            canRead_of_hasFullDiskReadAccess rightRestricted (sameRead ▸ fullRead) sameRoot]
        | false =>
          rw [Bool.eq_iff_iff]
          constructor
          · exact canRead_of_equivalent plain leftRestricted rightRestricted equivalent fullRead
          · exact canRead_of_equivalent plain rightRestricted leftRestricted equivalent.symm
              (sameRead ▸ fullRead)
      rw [Bool.eq_iff_iff]
      constructor
      · intro writable
        rcases canWrite_of_equivalent plain leftRestricted rightRestricted equivalent full
          sameRoot writable with agrees | ⟨root, gitdir, reopens⟩
        · exact agrees
        · exact absurd reopens (none root gitdir).1
      · intro writable
        rcases canWrite_of_equivalent plain rightRestricted leftRestricted equivalent.symm
          rightNarrow sameRoot writable with agrees | ⟨root, gitdir, reopens⟩
        · exact agrees
        · exact absurd reopens (none root gitdir).2

end FullDisk

/-- What holds of every path of the file system holds where it is decided for normal forms. -/
theorem forall_path_iff {holds : AbsolutePath → Prop} {anchor : Text}
    (normal : ∀ path : AbsolutePath, holds path.normalize.asPath ↔ holds path) :
    (∀ path : AbsolutePath, path.anchor = anchor → holds path) ↔
      ∀ path : AbsolutePathBuf, path.anchor = anchor → holds path.asPath := by
  constructor
  · intro all path sameRoot
    exact all path.asPath sameRoot
  · intro all path sameRoot
    exact (normal path).mp (all path.normalize sameRoot)

/-- Restricted policies of one signature give every path of the file system the same access
    exactly where they agree on what the signature leaves open: the reads of `/tmp` that a
    `SlashTmp` entry is taken to override, and the git directories of writable roots that an entry
    carves out in one of them only. Full-disk write access lets every path be written exactly where
    nothing narrows `/tmp`, and full-disk read access lets every path be read. -/
theorem semanticSignature_decides_iff {host : Host} (plain : host.Plain)
    (resolveGlob : Text → AbsolutePath → Text) (cwd : AbsolutePath) :
    (∀ left right : FileSystemSandboxPolicy, left.kind = .restricted → right.kind = .restricted →
      left.isSemanticallyEquivalentTo host resolveGlob right cwd = true →
        ((∀ path : AbsolutePath, path.anchor = cwd.anchor →
            SameAccess host left right cwd path) ↔
          SameBeyondSignature host left right cwd)) ∧
      (∀ policy : FileSystemSandboxPolicy, policy.kind = .restricted →
        policy.hasFullDiskWriteAccess = true →
          ((∀ path : AbsolutePath, path.anchor = cwd.anchor →
              policy.resolveAccessWithCwd host path cwd = .write) ↔
            ¬ NarrowsTmp host policy cwd)) ∧
      ∀ policy : FileSystemSandboxPolicy, policy.kind = .restricted →
        policy.hasFullDiskReadAccess = true →
          ∀ path : AbsolutePath, path.anchor = cwd.anchor →
            (policy.resolveAccessWithCwd host path cwd).canRead = true := by
  refine ⟨?_, ?_, ?_⟩
  · intro left right leftRestricted rightRestricted equivalent
    rw [← sameAccess_iff plain leftRestricted rightRestricted
      (isSemanticallyEquivalentTo_iff.mp equivalent)]
    apply forall_path_iff
    intro path
    simp only [SameAccess, resolveAccess_normalize, canWrite_normalize]
  · intro policy restricted full
    rw [← resolvesToWrite_iff restricted full]
    apply forall_path_iff
    intro path
    rw [resolveAccess_normalize]
  · intro policy restricted full path sameRoot
    rw [← resolveAccess_normalize]
    have sameRootNormal : path.normalize.anchor = cwd.anchor := sameRoot
    exact canRead_of_hasFullDiskReadAccess restricted full sameRootNormal

/-! ### A git directory below its root -/

namespace PointedGitdir

/-- The directory `/w` has a `.git` file that names the directory `m` below it. -/
def host : Host where
  pathComponentMatches := fun left right => left = right
  tmpdir := none
  resolvePathAgainstBase := fun name base => base.child name
  symlinkMetadata := fun _ => false
  canonicalizePreservingSymlinks := fun _ => none
  isFile := fun path => path = ⟨['/'], [['w'], PROTECTED_METADATA_GIT_PATH_NAME]⟩
  isDir := fun path => path = ⟨['/'], [['w'], ['m']]⟩
  pathExists := fun path => path = ⟨['/'], [['w'], ['m']]⟩
  readToString := fun _ => some "gitdir: m".toList

theorem host_plain : host.Plain := by
  refine ⟨?_, ?_⟩
  · intro left right
    exact decide_eq_true_iff
  · intro path canonical found
    cases found

def cwd : AbsolutePath := ⟨['/'], [.normal ['w']]⟩

def resolveGlob (pattern : Text) (_ : AbsolutePath) : Text := pattern

/-- Reads everywhere and writes in `/w`. -/
def open_ : FileSystemSandboxPolicy :=
  ⟨.restricted, [⟨.special .root, .read⟩, ⟨.path ⟨['/'], [['w']]⟩, .write⟩]⟩

/-- The same with a read entry for the git directory. -/
def carved : FileSystemSandboxPolicy :=
  ⟨.restricted, open_.entries ++ [⟨.path ⟨['/'], [['w'], ['m']]⟩, .read⟩]⟩

/-- The entries of `open_` in another order, with shadowed ones. -/
def shadowed : FileSystemSandboxPolicy :=
  ⟨.restricted, [⟨.path ⟨['/'], [['w']]⟩, .read⟩, ⟨.special (.projectRoots none), .write⟩,
    ⟨.path ⟨['/'], [['w']]⟩, .write⟩, ⟨.special .root, .read⟩]⟩

/-- Writes everywhere, and a read of `/tmp` that `SlashTmp` is taken to override. -/
def tmpRead : FileSystemSandboxPolicy :=
  ⟨.restricted, [⟨.special .root, .write⟩, ⟨.path slashTmp, .read⟩, ⟨.special .slashTmp, .write⟩]⟩

/-- Writes everywhere, and a read of `/w` that a write overrides. -/
def allWrite : FileSystemSandboxPolicy :=
  ⟨.restricted, [⟨.special .root, .write⟩, ⟨.path ⟨['/'], [['w']]⟩, .read⟩,
    ⟨.path ⟨['/'], [['w']]⟩, .write⟩]⟩

end PointedGitdir

/-- No git directory is reopened where the read entries of `right` in write entries of `left` are
    overridden. -/
theorem not_reopens {host : Host} {left right : FileSystemSandboxPolicy} {cwd : AbsolutePath}
    {root gitdir : AbsolutePathBuf}
    (overridden : ∀ carved ∈ right.resolvedEntriesWithCwd host cwd, carved.access = .read →
      ∀ granted ∈ left.resolvedEntriesWithCwd host cwd, granted.access = .write →
        carved.path.Within granted.path →
          ∃ other ∈ right.resolvedEntriesWithCwd host cwd, other.path = carved.path ∧
            other.access ≠ .read) :
    ¬ ReopensGitdir host left right cwd root gitdir := by
  intro reopens
  obtain ⟨other, member, there, notRead⟩ :=
    overridden _ reopens.carved rfl _ reopens.granted rfl reopens.within
  exact notRead (reopens.only other member there)

theorem shadowed_sameAccess :
    (∀ path : AbsolutePath, path.anchor = PointedGitdir.cwd.anchor →
      SameAccess PointedGitdir.host PointedGitdir.open_ PointedGitdir.shadowed PointedGitdir.cwd
        path) ∧
      (∀ path : AbsolutePath, path.anchor = PointedGitdir.cwd.anchor →
        PointedGitdir.allWrite.resolveAccessWithCwd PointedGitdir.host path PointedGitdir.cwd =
          .write) ∧
      ∀ path : AbsolutePath, path.anchor = PointedGitdir.cwd.anchor →
        (PointedGitdir.shadowed.resolveAccessWithCwd PointedGitdir.host path
          PointedGitdir.cwd).canRead = true := by
  obtain ⟨same, writes, reads⟩ := semanticSignature_decides_iff PointedGitdir.host_plain
    PointedGitdir.resolveGlob PointedGitdir.cwd
  refine ⟨?_, ?_, ?_⟩
  · apply (same _ _ rfl rfl (by decide)).mpr
    rw [SameBeyondSignature, if_neg (by decide)]
    intro root gitdir
    exact ⟨not_reopens (by decide), not_reopens (by decide)⟩
  · apply (writes _ rfl (by decide)).mpr
    rintro ⟨_, tmp, _⟩
    revert tmp
    decide
  · exact reads _ rfl (by decide)

/-- Two policies of one signature, of which one lets the git directory be written, and a policy
    with full-disk write access that `/tmp` can only be read under. -/
theorem semanticSignature_leaves_open :
    PointedGitdir.host.Plain ∧
      PointedGitdir.open_.isSemanticallyEquivalentTo PointedGitdir.host PointedGitdir.resolveGlob
        PointedGitdir.carved PointedGitdir.cwd = true ∧
      ¬ SameAccess PointedGitdir.host PointedGitdir.open_ PointedGitdir.carved PointedGitdir.cwd
        ⟨['/'], [.normal ['w'], .normal ['m']]⟩ ∧
      PointedGitdir.tmpRead.hasFullDiskWriteAccess = true ∧
      PointedGitdir.tmpRead.resolveAccessWithCwd PointedGitdir.host slashTmp.asPath
        PointedGitdir.cwd = .read := by
  refine ⟨PointedGitdir.host_plain, by decide, ?_, by decide, by decide⟩
  intro same
  have writable := same.2
  revert writable
  decide

end Codex.Permissions
