import Codex.Permissions.Policy

/-!
# Writable roots and the policy

What a restricted policy lets write, decided path by path, against the writable roots that the
sandboxes are given.
-/

namespace Codex.Permissions

/-- Components compare exactly, and no path is a link. -/
structure Host.Plain (host : Host) : Prop where
  exact_ : ∀ left right, host.pathComponentMatches left right = true ↔ left = right
  noLinks : ∀ path canonical, host.canonicalizePreservingSymlinks path = some canonical →
    canonical = path

/-- Some writable root admits a path. -/
def AdmittedByRoots (host : Host) (policy : FileSystemSandboxPolicy) (cwd path : AbsolutePath) :
    Prop :=
  ∃ root ∈ policy.getWritableRootsWithCwd host cwd, root.isPathWritable host path = true

instance (host : Host) (policy : FileSystemSandboxPolicy) (cwd path : AbsolutePath) :
    Decidable (AdmittedByRoots host policy cwd path) :=
  inferInstanceAs (Decidable (∃ root ∈ _, _))

/-- The place that a path leads to is in the git directory that the `.git` pointer file of a
    writable root names. -/
def UnderPointedGitdir (host : Host) (policy : FileSystemSandboxPolicy)
    (cwd path : AbsolutePath) : Prop :=
  ∃ root ∈ policy.getWritableRootsWithCwd host cwd, ∃ gitdir ∈ pointerGitdir host root.root,
    path.normalize.Within gitdir

/-- At a path the writable roots and the policy agree. -/
def RootsAgree (host : Host) (policy : FileSystemSandboxPolicy) (cwd path : AbsolutePath) :
    Prop :=
  (AdmittedByRoots host policy cwd path → policy.canWritePathWithCwd host path cwd = true) ∧
    (policy.canWritePathWithCwd host path cwd = true →
      AdmittedByRoots host policy cwd path ∨ UnderPointedGitdir host policy cwd path)

/-- An entry opens a path as it is written: every entry from there on that contains the path grants
    writes, and the metadata and the git directory of `outer` cover the path only where an entry
    says otherwise. -/
structure Opens (host : Host) (policy : FileSystemSandboxPolicy) (cwd path : AbsolutePath)
    (outer : AbsolutePathBuf) : Prop where
  within : path.startsWith outer = true
  granted : ∀ entry ∈ policy.resolvedEntriesWithCwd host cwd, entry.path.Within outer →
    path.spelled.Within entry.path →
      policy.resolveAccessWithCwd host entry.path.asPath cwd = .write
  exceptions : ∀ name ∈ PROTECTED_METADATA_PATH_NAMES, path.spelled.Within (outer.child name) →
    ∃ entry ∈ policy.resolvedEntriesWithCwd host cwd, entry.path = outer.child name
  gitdir : ∀ gitdir ∈ pointerGitdir host outer, path.spelled.Within gitdir →
    ∃ entry ∈ policy.resolvedEntriesWithCwd host cwd, entry.path = gitdir

/-- Some entry opens a path. -/
def Opened (host : Host) (policy : FileSystemSandboxPolicy) (cwd path : AbsolutePath) : Prop :=
  ∃ outer ∈ policy.resolvedEntriesWithCwd host cwd, Opens host policy cwd path outer.path

/-- A path in the metadata of a writable entry that a wider entry opens: `inner` is the deepest
    entry around the path. -/
structure Exposes (host : Host) (policy : FileSystemSandboxPolicy) (cwd path : AbsolutePath)
    (inner outer : AbsolutePathBuf) : Prop extends Opens host policy cwd path outer where
  metadata : ∃ name ∈ PROTECTED_METADATA_PATH_NAMES, path.startsWith (inner.child name) = true
  deepest : ∀ entry ∈ policy.resolvedEntriesWithCwd host cwd,
    path.startsWith entry.path = true → inner.Within entry.path
  wider : inner.Within outer
  ne : inner ≠ outer

/-- The metadata boundary of a nested writable entry is hidden by a wider one. -/
def HiddenBoundary (host : Host) (policy : FileSystemSandboxPolicy) (cwd path : AbsolutePath) :
    Prop :=
  path.Literal ∧ ∃ inner ∈ policy.resolvedEntriesWithCwd host cwd,
    ∃ outer ∈ policy.resolvedEntriesWithCwd host cwd,
      Exposes host policy cwd path inner.path outer.path

section MaxByKey

variable {α κ : Type} [LinearOrder κ] {key : α → κ} {elements : List α} {best : α}

theorem maxByKey_eq_none : maxByKey key elements = none ↔ elements = [] := by
  cases elements with
  | nil => simp [maxByKey]
  | cons element rest =>
    simp only [maxByKey, reduceCtorEq, iff_false]
    split
    · simp
    · split <;> simp

theorem maxByKey_spec (found : maxByKey key elements = some best) :
    best ∈ elements ∧ ∀ element ∈ elements, key element ≤ key best := by
  induction elements generalizing best with
  | nil => cases found
  | cons element rest ih =>
    simp only [maxByKey] at found
    split at found
    next none =>
      rw [maxByKey_eq_none] at none
      subst none
      simp only [Option.some_inj] at found
      simp [found]
    next other some =>
      obtain ⟨member, le⟩ := ih some
      split at found
      next smaller =>
        obtain rfl := Option.some_inj.mp found
        refine ⟨List.mem_cons_of_mem _ member, ?_⟩
        simpa using ⟨smaller, le⟩
      next larger =>
        obtain rfl := Option.some_inj.mp found
        refine ⟨List.mem_cons_self, ?_⟩
        intro candidate memberCandidate
        rcases List.mem_cons.mp memberCandidate with rfl | inRest
        · exact le_rfl
        · exact (le candidate inRest).trans (not_le.mp larger).le

end MaxByKey

theorem FileSystemAccessMode.rank_injective : Function.Injective FileSystemAccessMode.rank := by
  intro left right same
  cases left <;> cases right <;> first | rfl | cases same

theorem FileSystemAccessMode.canWrite_iff (access : FileSystemAccessMode) :
    access.canWrite = true ↔ access = .write := by
  cases access <;> simp [canWrite]

/-- The entry that decides the access of a path: the deepest one that contains it, and among
    several at one path the one of the highest precedence. -/
structure Wins (entries : List ResolvedFileSystemEntry) (path : AbsolutePathBuf)
    (winner : ResolvedFileSystemEntry) : Prop where
  mem : winner ∈ entries
  within : path.Within winner.path
  le : ∀ entry ∈ entries, path.Within entry.path →
    resolvedEntryPrecedence entry ≤ resolvedEntryPrecedence winner

/-- The entry that decides a place grants writes, and the place is not in its metadata. -/
def Granted (entries : List ResolvedFileSystemEntry) (place : AbsolutePathBuf) : Prop :=
  ∃ winner, Wins entries place winner ∧ winner.access = .write ∧
    ∀ name ∈ PROTECTED_METADATA_PATH_NAMES, ¬ place.Within (winner.path.child name)

/-- A step to a parent leads a path that an entry opens as it is written to a place where the
    policy refuses writes. -/
def StepsOut (host : Host) (policy : FileSystemSandboxPolicy) (cwd path : AbsolutePath) : Prop :=
  ¬ path.Literal ∧ Opened host policy cwd path ∧
    ¬ Granted (policy.resolvedEntriesWithCwd host cwd) path.normalize

/-- A step to a parent leads a path that no entry opens as it is written to a place where the
    policy grants writes. -/
def StepsIn (host : Host) (policy : FileSystemSandboxPolicy) (cwd path : AbsolutePath) : Prop :=
  ¬ path.Literal ∧ ¬ Opened host policy cwd path ∧
    Granted (policy.resolvedEntriesWithCwd host cwd) path.normalize ∧
      ¬ UnderPointedGitdir host policy cwd path

section Wins

variable {entries : List ResolvedFileSystemEntry} {path : AbsolutePathBuf}
  {winner entry : ResolvedFileSystemEntry}

theorem count_le_of_precedence_le
    (le : resolvedEntryPrecedence entry ≤ resolvedEntryPrecedence winner) :
    entry.path.componentCount ≤ winner.path.componentCount := by
  rw [resolvedEntryPrecedence, resolvedEntryPrecedence, Prod.Lex.toLex_le_toLex] at le
  rcases le with less | same
  · exact less.le
  · exact same.1.le

/-- Every entry that contains the path contains the path of the winner. -/
theorem Wins.within_of_mem (wins : Wins entries path winner) (member : entry ∈ entries)
    (within : path.Within entry.path) : winner.path.Within entry.path :=
  wins.within.of_count_le within (count_le_of_precedence_le (wins.le entry member within))

theorem Wins.unique {other : ResolvedFileSystemEntry} (wins : Wins entries path winner)
    (otherWins : Wins entries path other) : winner = other := by
  have same := le_antisymm (otherWins.le winner wins.mem wins.within)
    (wins.le other otherWins.mem otherWins.within)
  simp only [resolvedEntryPrecedence, EmbeddingLike.apply_eq_iff_eq, Prod.mk.injEq] at same
  obtain ⟨winnerPath, winnerAccess⟩ := winner
  obtain ⟨otherPath, otherAccess⟩ := other
  have samePath : winnerPath = otherPath :=
    wins.within.eq_of_count otherWins.within same.1.symm
  have sameAccess : winnerAccess = otherAccess :=
    FileSystemAccessMode.rank_injective same.2
  rw [samePath, sameAccess]

/-- The winner of a path wins everything between them. -/
theorem Wins.between (wins : Wins entries path winner) {middle : AbsolutePathBuf}
    (inner : path.Within middle) (outer : middle.Within winner.path) :
    Wins entries middle winner :=
  ⟨wins.mem, outer, fun other member within => wins.le other member (inner.trans within)⟩

theorem not_within_of_maxByKey (none : maxByKey resolvedEntryPrecedence
    (entries.filter fun entry => path.asPath.startsWith entry.path) = none)
    (member : entry ∈ entries) : ¬ path.Within entry.path := by
  rw [maxByKey_eq_none, List.filter_eq_nil_iff] at none
  exact fun within => none entry member (AbsolutePathBuf.startsWith_asPath.mpr within)

theorem wins_of_maxByKey (found : maxByKey resolvedEntryPrecedence
    (entries.filter fun entry => path.asPath.startsWith entry.path) = some winner) :
    Wins entries path winner := by
  obtain ⟨kept, le⟩ := maxByKey_spec found
  rw [List.mem_filter, AbsolutePathBuf.startsWith_asPath] at kept
  refine ⟨kept.1, kept.2, ?_⟩
  intro other member within
  exact le other (List.mem_filter.mpr ⟨member, AbsolutePathBuf.startsWith_asPath.mpr within⟩)

theorem exists_wins (member : entry ∈ entries) (within : path.Within entry.path) :
    ∃ winner, Wins entries path winner := by
  cases found : maxByKey resolvedEntryPrecedence (entries.filter fun entry =>
      path.asPath.startsWith entry.path) with
  | none => exact absurd within (not_within_of_maxByKey found member)
  | some winner => exact ⟨winner, wins_of_maxByKey found⟩

/-- The winner at the path of an entry is an entry of that path. -/
theorem Wins.path_eq (wins : Wins entries entry.path winner) (member : entry ∈ entries) :
    winner.path = entry.path :=
  (wins.within_of_mem member (.refl _)).antisymm wins.within

end Wins

section Policy

variable {host : Host} {policy : FileSystemSandboxPolicy} {cwd : AbsolutePath}
  {path : AbsolutePathBuf}

/-- Access is decided for the normal form of a path. -/
theorem resolveAccess_normalize (written : AbsolutePath) :
    policy.resolveAccessWithCwd host written.normalize.asPath cwd =
      policy.resolveAccessWithCwd host written cwd := by
  simp only [FileSystemSandboxPolicy.resolveAccessWithCwd, AbsolutePathBuf.normalize_asPath]

theorem canWrite_normalize (written : AbsolutePath) :
    policy.canWritePathWithCwd host written.normalize.asPath cwd =
      policy.canWritePathWithCwd host written cwd := by
  simp only [FileSystemSandboxPolicy.canWritePathWithCwd, resolveAccess_normalize,
    FileSystemSandboxPolicy.isMetadataWriteDenied, AbsolutePathBuf.normalize_asPath]

/-- The winner decides, and without one nothing is granted. -/
theorem resolveAccess_spec (host : Host) (cwd : AbsolutePath) (path : AbsolutePathBuf)
    (restricted : policy.kind = .restricted) :
    (∃ winner, Wins (policy.resolvedEntriesWithCwd host cwd) path winner ∧
        policy.resolveAccessWithCwd host path.asPath cwd = winner.access) ∨
      (∀ entry ∈ policy.resolvedEntriesWithCwd host cwd, ¬ path.Within entry.path) ∧
        policy.resolveAccessWithCwd host path.asPath cwd = .deny := by
  simp only [FileSystemSandboxPolicy.resolveAccessWithCwd, restricted,
    AbsolutePathBuf.normalize_asPath]
  generalize policy.resolvedEntriesWithCwd host cwd = entries
  cases found : maxByKey resolvedEntryPrecedence (entries.filter fun entry =>
      path.asPath.startsWith entry.path) with
  | none => exact .inr ⟨fun entry member => not_within_of_maxByKey found member, rfl⟩
  | some best => exact .inl ⟨best, wins_of_maxByKey found, rfl⟩

theorem resolveAccess_of_wins {winner : ResolvedFileSystemEntry}
    (restricted : policy.kind = .restricted)
    (wins : Wins (policy.resolvedEntriesWithCwd host cwd) path winner) :
    policy.resolveAccessWithCwd host path.asPath cwd = winner.access := by
  rcases resolveAccess_spec host cwd path restricted with
    ⟨other, otherWins, decided⟩ | ⟨none, _⟩
  · rw [decided, otherWins.unique wins]
  · exact absurd wins.within (none winner wins.mem)

theorem resolveAccess_eq_write (restricted : policy.kind = .restricted) :
    policy.resolveAccessWithCwd host path.asPath cwd = .write ↔
      ∃ winner, Wins (policy.resolvedEntriesWithCwd host cwd) path winner ∧
        winner.access = .write := by
  constructor
  · intro granted
    rcases resolveAccess_spec host cwd path restricted with
      ⟨winner, wins, decided⟩ | ⟨_, denied⟩
    · exact ⟨winner, wins, decided ▸ granted⟩
    · cases denied.symm.trans granted
  · rintro ⟨winner, wins, granted⟩
    rwa [resolveAccess_of_wins restricted wins]

variable {name : Text} {entry : ResolvedFileSystemEntry} {root : AbsolutePathBuf}

theorem metadataPathName_eq_some (plain : host.Plain) {metadataName : Text} :
    metadataPathName host name = some metadataName ↔
      metadataName = name ∧ name ∈ PROTECTED_METADATA_PATH_NAMES := by
  constructor
  · intro found
    have same := (plain.exact_ _ _).mp (List.find?_some found)
    exact ⟨same.symm, same ▸ List.mem_of_find?_eq_some found⟩
  rintro ⟨rfl, member⟩
  cases found : metadataPathName host metadataName with
  | none =>
    rw [metadataPathName, List.find?_eq_none] at found
    exact absurd ((plain.exact_ _ _).mpr rfl) (found _ member)
  | some other =>
    have same := (plain.exact_ _ _).mp (List.find?_some found)
    rw [same]

theorem metadataChild_eq_some (plain : host.Plain) {child : AbsolutePathBuf × Text} :
    FileSystemSandboxPolicy.metadataChild host path entry = some child ↔
      child.2 ∈ PROTECTED_METADATA_PATH_NAMES ∧ child.1 = entry.path.child child.2 ∧
        path.Within child.1 := by
  obtain ⟨boundary, name⟩ := child
  have unfolded : FileSystemSandboxPolicy.metadataChild host path entry =
      (((path.asPath.stripPrefix entry.path).bind List.head?).map Component.asOsStr).bind
        fun name => (metadataPathName host name).map fun name => (entry.path.child name, name) := by
    rw [Option.bind_map]
    rfl
  rw [unfolded, Option.bind_eq_some_iff]
  simp only [AbsolutePathBuf.stripPrefix_head?, AbsolutePathBuf.spelled_asPath,
    AbsolutePathBuf.startsWith_asPath]
  simp only [Option.map_eq_some_iff, metadataPathName_eq_some plain, Prod.mk.injEq]
  constructor
  · rintro ⟨_, ⟨_, within⟩, _, ⟨rfl, member⟩, rfl, rfl⟩
    exact ⟨member, rfl, within⟩
  · rintro ⟨member, rfl, within⟩
    exact ⟨name, ⟨within.trans (AbsolutePathBuf.within_child _ _), within⟩, name, ⟨rfl, member⟩,
      rfl, rfl⟩

theorem hasExplicitWriteEntry_iff {boundary : AbsolutePathBuf} :
    policy.hasExplicitWriteEntryForMetadataPath host boundary path cwd = true ↔
      ∃ entry ∈ policy.resolvedEntriesWithCwd host cwd, entry.access = .write ∧
        path.Within entry.path ∧ entry.path.Within boundary := by
  simp only [FileSystemSandboxPolicy.hasExplicitWriteEntryForMetadataPath, List.any_eq_true,
    Bool.and_eq_true, FileSystemAccessMode.canWrite_iff, AbsolutePathBuf.startsWith_asPath,
    and_assoc]

/-- A metadata boundary of a path: the metadata directory below a writable entry that contains
    it. -/
def Boundary (entries : List ResolvedFileSystemEntry) (path boundary : AbsolutePathBuf) : Prop :=
  ∃ entry ∈ entries, entry.access = .write ∧
    ∃ name ∈ PROTECTED_METADATA_PATH_NAMES, boundary = entry.path.child name ∧
      path.Within boundary

/-- A write is denied at the deepest metadata boundary without a writable entry below it. -/
theorem isMetadataWriteDenied_iff (plain : host.Plain) (restricted : policy.kind = .restricted) :
    policy.isMetadataWriteDenied host path.asPath cwd = true ↔
      ∃ boundary, Boundary (policy.resolvedEntriesWithCwd host cwd) path boundary ∧
        (∀ other, Boundary (policy.resolvedEntriesWithCwd host cwd) path other →
          other.componentCount ≤ boundary.componentCount) ∧
        ¬ ∃ entry ∈ policy.resolvedEntriesWithCwd host cwd, entry.access = .write ∧
          path.Within entry.path ∧ entry.path.Within boundary := by
  have children : ∀ child : AbsolutePathBuf × Text,
      child ∈ ((policy.resolvedEntriesWithCwd host cwd).filter fun entry =>
        entry.access.canWrite).filterMap (FileSystemSandboxPolicy.metadataChild host path) ↔
      ∃ entry ∈ policy.resolvedEntriesWithCwd host cwd, entry.access = .write ∧
        child.2 ∈ PROTECTED_METADATA_PATH_NAMES ∧ child.1 = entry.path.child child.2 ∧
          path.Within child.1 := by
    intro child
    simp only [List.mem_filterMap, List.mem_filter, FileSystemAccessMode.canWrite_iff,
      metadataChild_eq_some plain, and_assoc]
  simp only [FileSystemSandboxPolicy.isMetadataWriteDenied, restricted, ne_eq, not_true_eq_false,
    if_false, AbsolutePathBuf.normalize_asPath,
    FileSystemSandboxPolicy.metadataChildOfWritableRoot]
  cases found : maxByKey (fun child : AbsolutePathBuf × Text => child.1.componentCount)
      (((policy.resolvedEntriesWithCwd host cwd).filter fun entry =>
        entry.access.canWrite).filterMap (FileSystemSandboxPolicy.metadataChild host path)) with
  | none =>
    rw [maxByKey_eq_none] at found
    simp only [found, List.not_mem_nil, false_iff] at children
    simp only [Bool.false_eq_true, false_iff]
    rintro ⟨boundary, ⟨entry, member, granted, name, isName, rfl, within⟩, _⟩
    exact children (entry.path.child name, name) ⟨entry, member, granted, isName, rfl, within⟩
  | some best =>
    obtain ⟨bestMember, bestLe⟩ := maxByKey_spec found
    have bestBoundary : Boundary (policy.resolvedEntriesWithCwd host cwd) path best.1 := by
      obtain ⟨entry, member, granted, isName, same, within⟩ := (children best).mp bestMember
      exact ⟨entry, member, granted, best.2, isName, same, within⟩
    have deepest : ∀ other, Boundary (policy.resolvedEntriesWithCwd host cwd) path other →
        other.componentCount ≤ best.1.componentCount := by
      rintro other ⟨entry, member, granted, name, isName, same, within⟩
      exact bestLe (other, name)
        ((children (other, name)).mpr ⟨entry, member, granted, isName, same, within⟩)
    simp only [Bool.not_eq_true', ← Bool.not_eq_true, hasExplicitWriteEntry_iff]
    constructor
    · intro none
      exact ⟨best.1, bestBoundary, deepest, none⟩
    rintro ⟨boundary, isBoundary, isDeepest, none⟩
    have within : ∀ {other}, Boundary (policy.resolvedEntriesWithCwd host cwd) path other →
        path.Within other := fun ⟨_, _, _, _, _, _, inner⟩ => inner
    have same := (within isBoundary).eq_of_count (within bestBoundary)
      (le_antisymm (isDeepest _ bestBoundary) (deepest _ isBoundary))
    rwa [same] at none

/-- A restricted policy without full-disk access lets a path be written where the winning entry
    grants it and the path is not in metadata of that entry. -/
theorem canWrite_iff (plain : host.Plain) (restricted : policy.kind = .restricted)
    (narrow : policy.hasFullDiskWriteAccess = false) :
    policy.canWritePathWithCwd host path.asPath cwd = true ↔
      Granted (policy.resolvedEntriesWithCwd host cwd) path := by
  have unfolded : policy.canWritePathWithCwd host path.asPath cwd = true ↔
      policy.resolveAccessWithCwd host path.asPath cwd = .write ∧
        ¬ policy.isMetadataWriteDenied host path.asPath cwd = true := by
    rw [FileSystemSandboxPolicy.canWritePathWithCwd, narrow, ← FileSystemAccessMode.canWrite_iff]
    cases (policy.resolveAccessWithCwd host path.asPath cwd).canWrite <;> simp
  rw [unfolded, resolveAccess_eq_write restricted, isMetadataWriteDenied_iff plain restricted]
  generalize policy.resolvedEntriesWithCwd host cwd = entries
  constructor
  · rintro ⟨⟨winner, wins, granted⟩, allowed⟩
    refine ⟨winner, wins, granted, ?_⟩
    intro name isName within
    apply allowed
    refine ⟨winner.path.child name, ⟨winner, wins.mem, granted, name, isName, rfl, within⟩, ?_, ?_⟩
    · rintro other ⟨entry, member, _, otherName, _, rfl, inner⟩
      have contains := inner.trans (AbsolutePathBuf.within_child entry.path otherName)
      have := (wins.within_of_mem member contains).count_le
      simpa using this
    · rintro ⟨entry, member, _, contains, below⟩
      have := (wins.within_of_mem member contains).count_le
      have := below.count_le
      simp only [AbsolutePathBuf.count_child] at this
      omega
  · rintro ⟨winner, wins, granted, outside⟩
    refine ⟨⟨winner, wins, granted⟩, ?_⟩
    rintro ⟨boundary, ⟨entry, member, _, name, isName, rfl, inner⟩, _, none⟩
    apply none
    refine ⟨winner, wins.mem, granted, wins.within, ?_⟩
    -- The entry of the boundary is above the winner, and the boundary is not below it.
    have contains := inner.trans (AbsolutePathBuf.within_child entry.path name)
    have above := wins.within_of_mem member contains
    apply wins.within.of_count_le inner
    rw [AbsolutePathBuf.count_child]
    apply above.count_lt
    intro same
    exact outside name isName (same ▸ inner)

/-- At the path of an entry only the precedence of the entries there matters. -/
theorem canWrite_of_mem (plain : host.Plain) (restricted : policy.kind = .restricted)
    (narrow : policy.hasFullDiskWriteAccess = false)
    (member : entry ∈ policy.resolvedEntriesWithCwd host cwd) :
    policy.canWritePathWithCwd host entry.path.asPath cwd = true ↔
      policy.resolveAccessWithCwd host entry.path.asPath cwd = .write := by
  rw [canWrite_iff plain restricted narrow, resolveAccess_eq_write restricted]
  constructor
  · rintro ⟨winner, wins, granted, _⟩
    exact ⟨winner, wins, granted⟩
  rintro ⟨winner, wins, granted⟩
  refine ⟨winner, wins, granted, ?_⟩
  intro name _ within
  rw [wins.path_eq member] at within
  have := within.count_le
  simp at this

theorem normalizeEffective_eq (plain : host.Plain) (path : AbsolutePathBuf) :
    normalizeEffectiveAbsolutePath host path = path := by
  rw [normalizeEffectiveAbsolutePath]
  generalize found : path.ancestors.findSome? _ = located
  cases located with
  | none => rfl
  | some canonical =>
    obtain ⟨ancestor, _, resolved⟩ := List.exists_of_findSome?_eq_some found
    split at resolved
    · simp only [Option.bind_eq_some_iff, Option.map_eq_some_iff] at resolved
      obtain ⟨normalized, canonicalized, suffix, stripped, rfl⟩ := resolved
      obtain rfl := plain.noLinks _ _ canonicalized
      rw [AbsolutePathBuf.stripPrefix] at stripped
      split at stripped
      next within =>
        rw [Option.some_inj] at stripped
        obtain ⟨rest, split⟩ := within.2
        rw [Option.getD_some, AbsolutePathBuf.join, ← stripped, ← within.1]
        congr 1
        rw [← split, List.drop_left]
      · cases stripped
    · cases resolved

theorem mem_dedupAbsolutePaths (plain : host.Plain) {paths : List AbsolutePathBuf}
    {normalizeEffectivePaths : Bool} {path : AbsolutePathBuf} :
    path ∈ dedupAbsolutePaths host paths normalizeEffectivePaths ↔ path ∈ paths := by
  have same : paths.map (normalizeEffectiveAbsolutePath host) = paths := by
    rw [funext (normalizeEffective_eq plain)]
    exact List.map_id _
  rw [dedupAbsolutePaths, same, ite_self, List.mem_eraseDups]

theorem zip_all_iff {components : List Component} {rootNames : List Text} :
    rootNames.length ≤ components.length ∧
        (∀ pair ∈ components.zip rootNames, pair.1.asOsStr = pair.2) ↔
      rootNames <+: components.map Component.asOsStr := by
  induction rootNames generalizing components with
  | nil => simp
  | cons rootName rest ih =>
    cases components with
    | nil => simp
    | cons component components =>
      simp only [List.map_cons, List.zip_cons_cons, List.forall_mem_cons, List.length_cons,
        Nat.add_le_add_iff_right, List.cons_prefix_cons, ← ih]
      constructor
      · rintro ⟨le, rfl, same⟩
        exact ⟨rfl, le, same⟩
      · rintro ⟨rfl, le, same⟩
        exact ⟨le, rfl, same⟩

variable {written : AbsolutePath}

theorem pathIsWithinDeniedRoot_iff (plain : host.Plain) :
    pathIsWithinDeniedRoot host written root = true ↔ written.spelled.Within root := by
  simp only [pathIsWithinDeniedRoot, Bool.and_eq_true, decide_eq_true_eq, List.all_eq_true,
    plain.exact_, AbsolutePathBuf.Within, AbsolutePath.spelled]
  exact and_congr_right fun _ => zip_all_iff

theorem isPathWritable_iff (plain : host.Plain) {root : WritableRoot} :
    root.isPathWritable host written = true ↔ written.startsWith root.root = true ∧
      (∀ subpath ∈ root.readOnlySubpaths, ¬ written.spelled.Within subpath) ∧
      ∀ name ∈ root.protectedMetadataNames, ¬ written.spelled.Within (root.root.child name) := by
  have protected_ : root.pathContainsProtectedMetadataName host written = true ↔
      written.startsWith root.root = true ∧
        ∃ name ∈ root.protectedMetadataNames, written.spelled.Within (root.root.child name) := by
    rw [WritableRoot.pathContainsProtectedMetadataName]
    have leads := fun name => @AbsolutePathBuf.stripPrefix_head? root.root name written
    cases first : (written.stripPrefix root.root).bind List.head? with
    | none =>
      simp only [first, Option.map_none, reduceCtorEq, false_iff, not_and] at leads
      simp only [Bool.false_eq_true, false_iff]
      rintro ⟨under, name, _, within⟩
      exact leads name under within
    | some component =>
      simp only [first, Option.map_some, Option.some_inj] at leads
      simp only [List.any_eq_true, plain.exact_]
      constructor
      · rintro ⟨_, member, same⟩
        exact ⟨((leads _).mp same).1, _, member, ((leads _).mp same).2⟩
      · rintro ⟨under, name, member, within⟩
        exact ⟨name, member, (leads name).mpr ⟨under, within⟩⟩
  simp only [WritableRoot.isPathWritable, Bool.not_eq_true', ← Bool.not_eq_true, List.any_eq_true,
    pathIsWithinDeniedRoot_iff plain, protected_]
  split
  next outside => simp [outside]
  next inside =>
    rw [not_not] at inside
    split
    next carved =>
      obtain ⟨subpath, member, within⟩ := carved
      simp only [Bool.false_eq_true, false_iff]
      rintro ⟨_, free, _⟩
      exact free subpath member within
    next free =>
      push Not at free
      split
      next named =>
        obtain ⟨_, name, member, within⟩ := named
        simp only [Bool.false_eq_true, false_iff]
        rintro ⟨_, _, unnamed⟩
        exact unnamed name member within
      next unnamed =>
        push Not at unnamed
        exact iff_of_true rfl ⟨inside, free, unnamed inside⟩

theorem mem_writableEntries :
    root ∈ policy.writableEntries host cwd ↔
      ∃ entry ∈ policy.resolvedEntriesWithCwd host cwd, entry.access = .write ∧
        policy.canWritePathWithCwd host entry.path.asPath cwd = true ∧ entry.path = root := by
  simp only [FileSystemSandboxPolicy.writableEntries, List.mem_map, List.mem_filter,
    FileSystemAccessMode.canWrite_iff, and_assoc]

theorem mem_writableRoots (plain : host.Plain)
    (narrow : policy.hasFullDiskWriteAccess = false) {root : WritableRoot} :
    root ∈ policy.getWritableRootsWithCwd host cwd ↔
      ∃ path ∈ policy.writableEntries host cwd, policy.writableRoot host cwd path = root := by
  rw [FileSystemSandboxPolicy.getWritableRootsWithCwd, narrow]
  simp only [Bool.false_eq_true, if_false, List.mem_map, mem_dedupAbsolutePaths plain]

theorem mem_protectedMetadataNames (plain : host.Plain) :
    name ∈ (policy.writableRoot host cwd root).protectedMetadataNames ↔
      name ∈ PROTECTED_METADATA_PATH_NAMES ∧
        ¬ policy.canWritePathWithCwd host (root.child name).asPath cwd = true := by
  simp only [FileSystemSandboxPolicy.writableRoot,
    FileSystemSandboxPolicy.protectedMetadataNamesForWritableRoot, List.mem_filter,
    normalizeEffective_eq plain, List.all_cons, List.all_map, Bool.and_eq_true, List.all_eq_true,
    Function.comp_apply, decide_eq_true_eq, Bool.not_eq_true']
  constructor
  · rintro ⟨isName, denied, _⟩
    exact ⟨isName, by simpa using denied⟩
  · rintro ⟨isName, denied⟩
    refine ⟨isName, by simpa using denied, ?_⟩
    rintro raw ⟨_, rfl⟩
    simpa using denied

theorem carveoutPath_eq_some (plain : host.Plain) {carved : AbsolutePathBuf}
    {rawWritableRoots : List AbsolutePathBuf} (raw : ∀ path ∈ rawWritableRoots, path = root) :
    FileSystemSandboxPolicy.carveoutPath host root rawWritableRoots entry = some carved ↔
      entry.path = carved ∧ carved.Within root ∧ carved ≠ root := by
  have effective : (if entry.path = root ∨ entry.path.asPath.startsWith root = false then none
      else some entry.path) = some carved ↔
        entry.path = carved ∧ carved.Within root ∧ carved ≠ root := by
    have outside : entry.path.asPath.startsWith root = false ↔ ¬ entry.path.Within root := by
      rw [← Bool.not_eq_true, AbsolutePathBuf.startsWith_asPath]
    by_cases excluded : entry.path = root ∨ entry.path.asPath.startsWith root = false
    · rw [if_pos excluded]
      simp only [reduceCtorEq, false_iff]
      rintro ⟨rfl, within, ne⟩
      exact excluded.elim ne (outside.mp · within)
    rw [if_neg excluded]
    rw [outside] at excluded
    push Not at excluded
    simp only [Option.some_inj]
    constructor
    · rintro rfl
      exact ⟨rfl, excluded.2, excluded.1⟩
    · exact fun found => found.1
  simp only [FileSystemSandboxPolicy.carveoutPath, normalizeEffective_eq plain]
  split
  next rawPath found =>
    rw [← effective]
    split at found
    · simp only [FileSystemSandboxPolicy.rawCarveoutPath] at found
      split at found
      · cases found
      next ne =>
        split at found
        next under =>
          rw [← found, if_neg]
          rintro (same | outside)
          · exact ne same
          · simp [under] at outside
        next outside =>
          -- Every raw root is the root, which does not contain the entry.
          obtain ⟨rawRoot, member, stripped⟩ := List.exists_of_findSome?_eq_some found
          obtain rfl := raw rawRoot member
          rw [AbsolutePathBuf.stripPrefix, if_neg] at stripped
          · cases stripped
          · intro within
            exact outside (AbsolutePathBuf.startsWith_asPath.mpr within)
    · cases found
  next => exact effective

theorem mem_readOnlySubpaths (plain : host.Plain) {subpath : AbsolutePathBuf} :
    subpath ∈ (policy.writableRoot host cwd root).readOnlySubpaths ↔
      (subpath ∈ defaultReadOnlySubpathsForWritableRoot host root
          (cwd.normalize = root) ∧
        ∀ entry ∈ policy.resolvedEntriesWithCwd host cwd, entry.path ≠ subpath) ∨
      ∃ entry ∈ policy.resolvedEntriesWithCwd host cwd, entry.access ≠ .write ∧
        ¬ policy.canWritePathWithCwd host entry.path.asPath cwd = true ∧
        entry.path = subpath ∧ subpath.Within root ∧ subpath ≠ root := by
  simp only [FileSystemSandboxPolicy.writableRoot, mem_dedupAbsolutePaths plain, List.mem_append,
    List.mem_filter, List.mem_filterMap, normalizeEffective_eq plain, hasExplicitResolvedPathEntry,
    Bool.not_eq_true', List.any_eq_false, decide_eq_true_eq]
  apply or_congr_right
  apply exists_congr
  intro entry
  rw [carveoutPath_eq_some plain (by simp), ← Bool.not_eq_true, FileSystemAccessMode.canWrite_iff,
    ← Bool.not_eq_true]
  simp only [and_assoc, ne_eq]

theorem mem_defaultReadOnlySubpaths (plain : host.Plain) {subpath : AbsolutePathBuf}
    {protectMissingDotCodex : Bool}
    (member : subpath ∈ defaultReadOnlySubpathsForWritableRoot host root protectMissingDotCodex) :
    (∃ name ∈ PROTECTED_METADATA_PATH_NAMES, subpath = root.child name) ∨
      pointerGitdir host root = some subpath := by
  simp only [defaultReadOnlySubpathsForWritableRoot, mem_dedupAbsolutePaths plain,
    List.mem_append] at member
  rcases member with (member | member) | member
  · split at member
    · rw [List.mem_append, Option.mem_toList, List.mem_singleton] at member
      rcases member with gitdir | rfl
      · exact .inr gitdir
      · exact .inl ⟨_, by simp [PROTECTED_METADATA_PATH_NAMES], rfl⟩
    · cases member
  · split at member
    · rw [List.mem_singleton] at member
      exact .inl ⟨_, by simp [PROTECTED_METADATA_PATH_NAMES], member⟩
    · cases member
  · split at member
    · rw [List.mem_singleton] at member
      exact .inl ⟨_, by simp [PROTECTED_METADATA_PATH_NAMES], member⟩
    · cases member

theorem pointerGitdir_mem (plain : host.Plain) {gitdir : AbsolutePathBuf}
    (protectMissingDotCodex : Bool) (pointed : pointerGitdir host root = some gitdir) :
    gitdir ∈ defaultReadOnlySubpathsForWritableRoot host root protectMissingDotCodex := by
  simp only [defaultReadOnlySubpathsForWritableRoot, mem_dedupAbsolutePaths plain,
    List.mem_append]
  left
  left
  have isFile : host.isFile (root.child PROTECTED_METADATA_GIT_PATH_NAME) = true := by
    rw [pointerGitdir] at pointed
    split at pointed
    next both => exact (Bool.and_eq_true _ _ ▸ both).1
    · cases pointed
  rw [isFile, Bool.or_true, if_pos rfl, pointed]
  simp

section Agreement

variable (plain : host.Plain) (restricted : policy.kind = .restricted)
  (narrow : policy.hasFullDiskWriteAccess = false)

include plain restricted narrow

/-- The path of an entry that is granted a write there is a writable root. -/
theorem mem_writableEntries_of_granted (member : entry ∈ policy.resolvedEntriesWithCwd host cwd)
    (granted : policy.resolveAccessWithCwd host entry.path.asPath cwd = .write) :
    entry.path ∈ policy.writableEntries host cwd := by
  obtain ⟨winner, wins, write⟩ := (resolveAccess_eq_write restricted).mp granted
  have same := wins.path_eq member
  refine mem_writableEntries.mpr ⟨winner, wins.mem, write, ?_, same⟩
  rw [same]
  exact (canWrite_of_mem plain restricted narrow member).mpr granted

/-- The winner at a writable root grants a write. -/
theorem granted_of_mem_writableEntries (member : root ∈ policy.writableEntries host cwd) :
    (∃ entry ∈ policy.resolvedEntriesWithCwd host cwd, entry.path = root) ∧
      policy.resolveAccessWithCwd host root.asPath cwd = .write := by
  obtain ⟨entry, entryMember, _, writable, rfl⟩ := mem_writableEntries.mp member
  exact ⟨⟨entry, entryMember, rfl⟩,
    (canWrite_of_mem plain restricted narrow entryMember).mp writable⟩

/-- A metadata directory of a writable root can be written only with an entry of its own. -/
theorem entry_of_canWrite_child (member : root ∈ policy.writableEntries host cwd)
    (isName : name ∈ PROTECTED_METADATA_PATH_NAMES)
    (writable : policy.canWritePathWithCwd host (root.child name).asPath cwd = true) :
    ∃ entry ∈ policy.resolvedEntriesWithCwd host cwd, entry.path = root.child name := by
  obtain ⟨⟨entry, entryMember, atRoot⟩, _⟩ :=
    granted_of_mem_writableEntries plain restricted narrow member
  obtain ⟨winner, wins, _, outside⟩ := (canWrite_iff plain restricted narrow).mp writable
  refine ⟨winner, wins.mem, ?_⟩
  have above : winner.path.Within root := by
    rw [← atRoot]
    apply wins.within_of_mem entryMember
    rw [atRoot]
    exact AbsolutePathBuf.within_child root name
  by_contra ne
  have deeper := wins.within.count_lt (Ne.symm ne)
  have same : root = winner.path := by
    apply (AbsolutePathBuf.within_child root name).eq_of_count wins.within
    have := above.count_le
    rw [AbsolutePathBuf.count_child] at deeper
    omega
  apply outside name isName
  rw [← same]

/-- What can be written is admitted by the root of its winning entry, unless the git directory
    of that root covers it. -/
theorem admitted_of_canWrite
    (writable : policy.canWritePathWithCwd host path.asPath cwd = true) :
    AdmittedByRoots host policy cwd path.asPath ∨
      UnderPointedGitdir host policy cwd path.asPath := by
  obtain ⟨winner, wins, write, outside⟩ := (canWrite_iff plain restricted narrow).mp writable
  have granted : policy.resolveAccessWithCwd host winner.path.asPath cwd = .write :=
    (resolveAccess_eq_write restricted).mpr
      ⟨winner, wins.between wins.within (.refl _), write⟩
  have isRoot := mem_writableEntries_of_granted plain restricted narrow wins.mem granted
  have member := (mem_writableRoots plain narrow).mpr ⟨winner.path, isRoot, rfl⟩
  by_cases pointed : ∃ gitdir ∈ pointerGitdir host winner.path, path.Within gitdir
  · obtain ⟨gitdir, found, within⟩ := pointed
    exact .inr ⟨_, member, gitdir, found, by rwa [AbsolutePathBuf.normalize_asPath]⟩
  refine .inl ⟨_, member, (isPathWritable_iff plain).mpr
    ⟨AbsolutePathBuf.startsWith_asPath.mpr wins.within, ?_, ?_⟩⟩ <;>
    rw [AbsolutePathBuf.spelled_asPath]
  · intro subpath carved within
    rcases (mem_readOnlySubpaths plain).mp carved with ⟨default, _⟩ | carveout
    · rcases mem_defaultReadOnlySubpaths plain default with ⟨name, isName, rfl⟩ | gitdir
      · exact outside name isName within
      · exact pointed ⟨subpath, gitdir, within⟩
    · obtain ⟨entry, entryMember, _, _, rfl, inside, ne⟩ := carveout
      exact ne ((wins.within_of_mem entryMember within).antisymm inside).symm
  · intro name protected_
    exact outside name ((mem_protectedMetadataNames plain).mp protected_).1

/-- A writable root opens the paths that it admits. -/
theorem opens_of_isPathWritable (isRoot : root ∈ policy.writableEntries host cwd)
    (writable : (policy.writableRoot host cwd root).isPathWritable host written = true) :
    Opens host policy cwd written root := by
  obtain ⟨within, free, unnamed⟩ := (isPathWritable_iff plain).mp writable
  obtain ⟨-, granted⟩ := granted_of_mem_writableEntries plain restricted narrow isRoot
  refine ⟨within, ?_, ?_, ?_⟩
  · -- An entry that does not grant a write is carved out.
    intro entry entryMember below contains
    by_contra notGranted
    obtain ⟨winner, entryWins⟩ := exists_wins entryMember (AbsolutePathBuf.Within.refl _)
    have samePath := entryWins.path_eq entryMember
    have notWrite : winner.access ≠ .write := by
      intro write
      exact notGranted ((resolveAccess_eq_write restricted).mpr ⟨winner, entryWins, write⟩)
    apply free entry.path ((mem_readOnlySubpaths plain).mpr (.inr ⟨winner, entryWins.mem,
      notWrite, ?_, samePath, below, ?_⟩)) contains
    · rw [samePath, canWrite_of_mem plain restricted narrow entryMember]
      exact notGranted
    · intro same
      exact notGranted (same ▸ granted)
  · intro name isName inside
    apply entry_of_canWrite_child plain restricted narrow isRoot isName
    by_contra denied
    exact unnamed name ((mem_protectedMetadataNames plain).mpr ⟨isName, denied⟩) inside
  · intro gitdir pointed inside
    by_contra none
    push Not at none
    exact free gitdir ((mem_readOnlySubpaths plain).mpr
      (.inl ⟨pointerGitdir_mem plain _ pointed, none⟩)) inside

/-- The root of an entry admits the paths that the entry opens. -/
theorem Opens.isPathWritable (opens : Opens host policy cwd written root) :
    (policy.writableRoot host cwd root).isPathWritable host written = true := by
  refine (isPathWritable_iff plain).mpr ⟨opens.within, ?_, ?_⟩
  · intro subpath carved contains
    rcases (mem_readOnlySubpaths plain).mp carved with ⟨default, notEntry⟩ | carveout
    · rcases mem_defaultReadOnlySubpaths plain default with ⟨child, isChild, rfl⟩ | gitdir
      · obtain ⟨entry, entryMember, same⟩ := opens.exceptions child isChild contains
        exact notEntry entry entryMember same
      · obtain ⟨entry, entryMember, same⟩ := opens.gitdir subpath gitdir contains
        exact notEntry entry entryMember same
    · obtain ⟨entry, entryMember, _, denied, rfl, below, _⟩ := carveout
      apply denied
      rw [canWrite_of_mem plain restricted narrow entryMember]
      exact opens.granted entry entryMember below contains
  · intro child protected_ contains
    obtain ⟨isChild, denied⟩ := (mem_protectedMetadataNames plain).mp protected_
    obtain ⟨entry, entryMember, same⟩ := opens.exceptions child isChild contains
    rw [← same] at denied
    apply denied
    rw [canWrite_of_mem plain restricted narrow entryMember]
    refine opens.granted entry entryMember ?_ (same ▸ contains)
    rw [same]
    exact AbsolutePathBuf.within_child root child

/-- A root admits the paths that an entry opens. -/
theorem admitted_iff :
    AdmittedByRoots host policy cwd written ↔ Opened host policy cwd written := by
  constructor
  · rintro ⟨_, member, writable⟩
    obtain ⟨root, isRoot, rfl⟩ := (mem_writableRoots plain narrow).mp member
    obtain ⟨⟨outer, outerMember, rfl⟩, -⟩ :=
      granted_of_mem_writableEntries plain restricted narrow isRoot
    exact ⟨outer, outerMember, opens_of_isPathWritable plain restricted narrow isRoot writable⟩
  · rintro ⟨outer, outerMember, opens⟩
    have granted := opens.granted outer outerMember (.refl _)
      (AbsolutePathBuf.within_spelled opens.within)
    have isRoot := mem_writableEntries_of_granted plain restricted narrow outerMember granted
    exact ⟨_, (mem_writableRoots plain narrow).mpr ⟨outer.path, isRoot, rfl⟩,
      opens.isPathWritable plain restricted narrow⟩

/-- What an entry opens and the policy refuses is in a hidden boundary. -/
theorem hiddenBoundary_of_opened (opened : Opened host policy cwd path.asPath)
    (refused : ¬ policy.canWritePathWithCwd host path.asPath cwd = true) :
    HiddenBoundary host policy cwd path.asPath := by
  obtain ⟨outer, outerMember, opens⟩ := opened
  have granted := opens.granted
  have exceptions := opens.exceptions
  rw [AbsolutePathBuf.spelled_asPath] at granted exceptions
  have within := AbsolutePathBuf.startsWith_asPath.mp opens.within
  obtain ⟨inner, wins⟩ := exists_wins outerMember within
  have below := wins.within_of_mem outerMember within
  obtain ⟨winner, innerWins, write⟩ :=
    (resolveAccess_eq_write restricted).mp (granted inner wins.mem below wins.within)
  rw [← (wins.between wins.within (.refl _)).unique innerWins] at write
  obtain ⟨name, isName, inside⟩ : ∃ name ∈ PROTECTED_METADATA_PATH_NAMES,
      path.Within (inner.path.child name) := by
    by_contra outside
    push Not at outside
    exact refused ((canWrite_iff plain restricted narrow).mpr ⟨inner, wins, write, outside⟩)
  refine ⟨AbsolutePathBuf.literal_asPath path, inner, wins.mem, outer, outerMember, opens,
    ⟨name, isName, AbsolutePathBuf.startsWith_asPath.mpr inside⟩, ?_, below, ?_⟩
  · intro entry entryMember contains
    exact wins.within_of_mem entryMember (AbsolutePathBuf.startsWith_asPath.mp contains)
  · intro same
    obtain ⟨entry, entryMember, atChild⟩ := exceptions name isName (same ▸ inside)
    have deeper := wins.within_of_mem entryMember (by rw [atChild, ← same]; exact inside)
    have := deeper.count_le
    rw [atChild, ← same, AbsolutePathBuf.count_child] at this
    omega

/-- In a hidden boundary the policy refuses what an entry opens. -/
theorem refused_of_hiddenBoundary (hidden : HiddenBoundary host policy cwd path.asPath) :
    Opened host policy cwd path.asPath ∧
      ¬ policy.canWritePathWithCwd host path.asPath cwd = true := by
  obtain ⟨_, inner, innerMember, outer, outerMember, exposes⟩ := hidden
  refine ⟨⟨outer, outerMember, exposes.toOpens⟩, ?_⟩
  obtain ⟨name, isName, inside⟩ := exposes.metadata
  rw [AbsolutePathBuf.startsWith_asPath] at inside
  have within : path.Within inner.path :=
    inside.trans (AbsolutePathBuf.within_child inner.path name)
  intro writable
  obtain ⟨winner, wins, _, outside⟩ := (canWrite_iff plain restricted narrow).mp writable
  have same : inner.path = winner.path :=
    (exposes.deepest winner wins.mem (AbsolutePathBuf.startsWith_asPath.mpr wins.within)).antisymm
      (wins.within_of_mem innerMember within)
  exact outside name isName (same ▸ inside)

end Agreement

end Policy

namespace NestedRoot

/-- A host without files, links and `TMPDIR`, where relative paths are one name. -/
def host : Host where
  pathComponentMatches := fun left right => left = right
  tmpdir := none
  resolvePathAgainstBase := fun name base => base.child name
  symlinkMetadata := fun _ => false
  canonicalizePreservingSymlinks := fun _ => none
  isFile := fun _ => false
  isDir := fun _ => false
  pathExists := fun _ => false
  readToString := fun _ => none

theorem host_plain : host.Plain := by
  refine ⟨?_, ?_⟩
  · intro left right
    exact decide_eq_true_iff
  · intro path canonical found
    cases found

def cwd : AbsolutePath := ⟨['/'], [.normal ['w']]⟩

/-- Writes in the working directory and, named again, in a directory below it. -/
def policy : FileSystemSandboxPolicy :=
  ⟨.restricted, [⟨.special (.projectRoots none), .write⟩,
    ⟨.special (.projectRoots (some ['s'])), .write⟩]⟩

/-- A file of the working directory. -/
def file : AbsolutePath := ⟨['/'], [.normal ['w'], .normal ['f']]⟩

/-- A file beside the working directory. -/
def sibling : AbsolutePath := ⟨['/'], [.normal ['w'], .parentDir, .normal ['f']]⟩

/-- A file in the metadata of the nested directory. -/
def hook : AbsolutePath :=
  ⟨['/'], [.normal ['w'], .normal ['s'], .normal PROTECTED_METADATA_GIT_PATH_NAME, .normal ['h']]⟩

end NestedRoot

theorem not_rootsAgree {host : Host} {policy : FileSystemSandboxPolicy} {cwd path : AbsolutePath}
    (admitted : AdmittedByRoots host policy cwd path)
    (refused : policy.canWritePathWithCwd host path cwd = false) :
    ¬ RootsAgree host policy cwd path := by
  intro agree
  rw [agree.1 admitted] at refused
  cases refused

/-- A root admits a path that leaves it by a step to the parent. -/
theorem root_admits_parent_step :
    ¬ RootsAgree NestedRoot.host NestedRoot.policy NestedRoot.cwd NestedRoot.sibling :=
  not_rootsAgree (by decide) (by decide)

end Codex.Permissions
