import Codex.Lib.Components
import Codex.Lib.Text

/-!
# Scopes of a repository

`agent-task-store/src/scope.rs`: which paths a scope covers, and when two scopes overlap, exactly or
under the case rules that were observed for one of them. `char::to_uppercase` is a parameter.
-/

namespace Codex.AgentTaskStore

/-- `RepoScope` (`scope.rs:155`). -/
structure RepoScope where
  path : Text
  recursive : Bool
  deriving DecidableEq, Repr

/-- `is_descendant` (`scope.rs:316`). -/
def isDescendant (parent child : Text) : Bool :=
  if parent = ['.'] then child != ['.']
  else (Text.stripPrefix parent child).any fun suffix => suffix.head? = some '/'

/-- `paths_equal` (`scope.rs:325`). -/
def pathsEqual (left right : Text) : Bool := left == right

/-- `RepoScope::covers_path` (`scope.rs:162`). -/
def RepoScope.coversPath (scope : RepoScope) (path : Text) : Bool :=
  pathsEqual scope.path path || scope.recursive && isDescendant scope.path path

/-- `RepoScope::overlaps` (`scope.rs:166`). -/
def RepoScope.overlaps (scope other : RepoScope) : Bool :=
  pathsEqual scope.path other.path || scope.recursive && isDescendant scope.path other.path ||
    other.recursive && isDescendant other.path scope.path

/-- `ScopeCaseSemantics` (`scope.rs:339`). -/
inductive ScopeCaseSemantics where
  | exact
  | ignoresCase
  | unknown
  deriving DecidableEq, Repr

/-- The components of a path: `split('/')`. -/
def components (path : Text) : List Text := path.splitOn '/'

section Keys

variable (toUppercase : Char → List Char)

/-- `case_folded` (`scope.rs:553`), of a character: the uppercase mapping where it is one to one
    and inside the BMP. -/
def foldChar (c : Char) : Char :=
  if 0xffff < c.toNat then c
  else
    match toUppercase c with
    | [single] => single
    | _ => c

def caseFolded (path : Text) : Text := path.map (foldChar toUppercase)

/-- The component at an index as it is compared. -/
def componentKey (semantics : List ScopeCaseSemantics) (entry : Text × Nat) : Text :=
  if semantics[entry.2]? = some .exact then entry.1 else caseFolded toUppercase entry.1

/-- `component_comparison_key` (`scope.rs:480`). -/
def componentComparisonKey (path : Text) (semantics : List ScopeCaseSemantics) : Text :=
  ['/'].intercalate ((components path).zipIdx.map (componentKey toUppercase semantics))

/-- `scopes_overlap_observed` (`scope.rs:384`). -/
def scopesOverlapObserved (existing candidate : RepoScope)
    (semantics : List ScopeCaseSemantics) : Bool :=
  if existing.overlaps candidate then true
  else
    let existingKey := componentComparisonKey toUppercase existing.path semantics
    let candidateKey := componentComparisonKey toUppercase candidate.path semantics
    existingKey == candidateKey || existing.recursive && isDescendant existingKey candidateKey ||
      candidate.recursive && isDescendant candidateKey existingKey

end Keys

/-- The paths that normalisation returns: `.`, or components that are neither empty nor dots. -/
def NormalPath (path : Text) : Prop :=
  path = ['.'] ∨ ∀ component ∈ components path,
    component ≠ [] ∧ component ≠ ['.'] ∧ component ≠ ['.', '.']

open Components

theorem components_ne_nil (path : Text) : components path ≠ [] := List.splitOn_ne_nil _ _

/-- Other than below the root, a descendant goes on behind a separator. -/
theorem isDescendant_iff {parent child : Text} (notRoot : parent ≠ ['.']) :
    isDescendant parent child = true ↔ ∃ rest, child = parent ++ '/' :: rest := by
  rw [isDescendant, if_neg notRoot, Option.any_eq_true]
  constructor
  · rintro ⟨suffix, stripped, slash⟩
    rw [Text.stripPrefix_eq_some] at stripped
    cases suffix with
    | nil => simp at slash
    | cons c rest =>
      obtain rfl : c = '/' := by simpa using slash
      exact ⟨rest, stripped⟩
  · rintro ⟨rest, rfl⟩
    exact ⟨'/' :: rest, Text.stripPrefix_append _ _, rfl⟩

theorem isDescendant_root {child : Text} : isDescendant ['.'] child = true ↔ child ≠ ['.'] := by
  rw [isDescendant, if_pos rfl, bne_iff_ne]

/-- The root lies below nothing. -/
theorem not_isDescendant_root (parent : Text) : isDescendant parent ['.'] = false := by
  by_cases root : parent = ['.']
  · rw [root]
    rfl
  rw [← Bool.not_eq_true, isDescendant_iff root]
  rintro ⟨rest, whole⟩
  have slash : '/' ∈ ['.'] := by
    rw [whole]
    simp
  simp at slash

variable {scope other : RepoScope} {path : Text}

theorem coversPath_iff :
    scope.coversPath path = true ↔
      scope.path = path ∨ scope.recursive = true ∧ isDescendant scope.path path = true := by
  rw [RepoScope.coversPath, pathsEqual, Bool.or_eq_true, Bool.and_eq_true, beq_iff_eq]

theorem overlaps_iff :
    scope.overlaps other = true ↔
      scope.path = other.path ∨
        scope.recursive = true ∧ isDescendant scope.path other.path = true ∨
        other.recursive = true ∧ isDescendant other.path scope.path = true := by
  rw [RepoScope.overlaps, pathsEqual, Bool.or_eq_true, Bool.or_eq_true, Bool.and_eq_true,
    Bool.and_eq_true, beq_iff_eq, or_assoc]

theorem overlaps_comm (scope other : RepoScope) : scope.overlaps other = other.overlaps scope := by
  rw [Bool.eq_iff_iff, overlaps_iff, overlaps_iff, or_comm (a := other.recursive = true ∧ _),
    eq_comm]

/-- A scope of the root overlaps what covers a path that it covers. -/
theorem overlaps_of_root (root : scope.path = ['.']) (covers : scope.coversPath path = true)
    (coversOther : other.coversPath path = true) :
    scope.overlaps other = true := by
  rw [overlaps_iff, root]
  by_cases same : other.path = ['.']
  · exact .inl same.symm
  rcases coversPath_iff.mp covers with here | ⟨recursive, -⟩
  · rw [root] at here
    subst here
    rcases coversPath_iff.mp coversOther with there | ⟨-, below⟩
    · exact absurd there same
    · rw [not_isDescendant_root] at below
      cases below
  · exact .inr (.inl ⟨recursive, isDescendant_root.mpr same⟩)

/-- Other than for the root, what a scope covers begins with its components, and is its own path
    if there are no more and the scope is not recursive. -/
theorem coversPath_components (notRoot : scope.path ≠ ['.'])
    (covers : scope.coversPath path = true) :
    components scope.path <+: components path ∧
      (scope.path ≠ path → scope.recursive = true) := by
  rcases coversPath_iff.mp covers with same | ⟨recursive, below⟩
  · rw [same]
    exact ⟨List.prefix_rfl, fun differs => absurd rfl differs⟩
  · exact ⟨splitOn_isPrefix.mpr (.inr ((isDescendant_iff notRoot).mp below)), fun _ => recursive⟩

/-- Of two scopes that cover a path, the one with fewer components lies at or above the other. -/
theorem above_of_shorter (begins : components scope.path <+: components path)
    (recursive : scope.path ≠ path → scope.recursive = true)
    (otherBegins : components other.path <+: components path)
    (shorter : (components scope.path).length ≤ (components other.path).length) :
    scope.path = other.path ∨
      scope.recursive = true ∧ ∃ rest, other.path = scope.path ++ '/' :: rest := by
  rcases splitOn_isPrefix.mp (List.prefix_of_prefix_length_le begins otherBegins shorter) with
    same | ⟨rest, deeper⟩
  · exact .inl same.symm
  · refine .inr ⟨recursive ?_, rest, deeper⟩
    rintro rfl
    have more := @length_splitOn_lt _ _ '/' scope.path rest
    rw [← deeper] at more
    exact absurd otherBegins.length_le (Nat.not_le.mpr more)

/-- **Two normal scopes overlap exactly when they cover a common path.** -/
theorem overlaps_iff_exists_covered (normal : NormalPath scope.path)
    (otherNormal : NormalPath other.path) :
    scope.overlaps other = true ↔
      ∃ path, NormalPath path ∧ scope.coversPath path = true ∧ other.coversPath path = true := by
  constructor
  · intro overlap
    rcases overlaps_iff.mp overlap with same | below | below
    · exact ⟨scope.path, normal, coversPath_iff.mpr (.inl rfl),
        coversPath_iff.mpr (.inl same.symm)⟩
    · exact ⟨other.path, otherNormal, coversPath_iff.mpr (.inr below),
        coversPath_iff.mpr (.inl rfl)⟩
    · exact ⟨scope.path, normal, coversPath_iff.mpr (.inl rfl),
        coversPath_iff.mpr (.inr below)⟩
  rintro ⟨path, -, covers, coversOther⟩
  by_cases root : scope.path = ['.']
  · exact overlaps_of_root root covers coversOther
  by_cases otherRoot : other.path = ['.']
  · rw [overlaps_comm]
    exact overlaps_of_root otherRoot coversOther covers
  obtain ⟨begins, recursive⟩ := coversPath_components root covers
  obtain ⟨otherBegins, otherRecursive⟩ := coversPath_components otherRoot coversOther
  rw [overlaps_iff, isDescendant_iff root, isDescendant_iff otherRoot]
  rcases Nat.le_total (components scope.path).length (components other.path).length with
    shorter | longer
  · exact (above_of_shorter begins recursive otherBegins shorter).imp_right .inl
  · rcases above_of_shorter otherBegins otherRecursive begins longer with same | below
    · exact .inl same.symm
    · exact .inr (.inr below)

/-- No other character has the separator as its uppercase. -/
def SlashHasNoLowercase (toUppercase : Char → List Char) : Prop :=
  ∀ c, toUppercase c = ['/'] → c = '/'

section Observed

variable {toUppercase : Char → List Char}

theorem slash_not_mem_caseFolded (slash : SlashHasNoLowercase toUppercase) {component : Text}
    (apart : '/' ∉ component) : '/' ∉ caseFolded toUppercase component := by
  intro member
  obtain ⟨c, inside, folded⟩ := List.mem_map.mp member
  have same : c = '/' := by
    unfold foldChar at folded
    split at folded
    next => exact folded
    next =>
      split at folded
      next single upper => exact slash c (by rw [upper, folded])
      next => exact folded
  exact apart (same ▸ inside)

/-- The components of a key are the keys of the components. -/
theorem components_componentComparisonKey (slash : SlashHasNoLowercase toUppercase) (path : Text)
    (semantics : List ScopeCaseSemantics) :
    components (componentComparisonKey toUppercase path semantics) =
      (components path).zipIdx.map (componentKey toUppercase semantics) := by
  apply List.splitOn_intercalate
  · intro key member
    obtain ⟨entry, inside, rfl⟩ := List.mem_map.mp member
    have apart := separator_not_mem (List.fst_mem_of_mem_zipIdx inside)
    rw [componentKey]
    split
    next => exact apart
    next => exact slash_not_mem_caseFolded slash apart
  · intro nothing
    rw [List.map_eq_nil_iff, List.zipIdx_eq_nil_iff] at nothing
    exact components_ne_nil path nothing

variable (slash : SlashHasNoLowercase toUppercase) {semantics : List ScopeCaseSemantics}

include slash in
theorem length_components_key (semantics : List ScopeCaseSemantics) (path : Text) :
    (components (componentComparisonKey toUppercase path semantics)).length =
      (components path).length := by
  rw [components_componentComparisonKey slash, List.length_map, List.length_zipIdx]

include slash in
/-- A key begins with the keys of the components that the path begins with. -/
theorem components_key_isPrefix (semantics : List ScopeCaseSemantics) {first second : Text}
    (begins : components first <+: components second) :
    components (componentComparisonKey toUppercase first semantics) <+:
      components (componentComparisonKey toUppercase second semantics) := by
  rw [components_componentComparisonKey slash, components_componentComparisonKey slash]
  obtain ⟨more, whole⟩ := begins
  rw [← whole, List.zipIdx_append, List.map_append]
  exact List.prefix_append _ _

theorem isDescendant_append (parent rest : Text) :
    isDescendant parent (parent ++ '/' :: rest) = true := by
  by_cases root : parent = ['.']
  · rw [root, isDescendant_root]
    simp
  · exact (isDescendant_iff root).mpr ⟨rest, rfl⟩

include slash in
/-- Of two scopes that cover paths with equal keys, the one with fewer components has the key of
    the other, or a key that it lies below. -/
theorem key_above_of_shorter {otherPath : Text}
    (keys : componentComparisonKey toUppercase path semantics =
      componentComparisonKey toUppercase otherPath semantics)
    (begins : components scope.path <+: components path)
    (recursive : scope.path ≠ path → scope.recursive = true)
    (otherBegins : components other.path <+: components otherPath)
    (shorter : (components scope.path).length ≤ (components other.path).length) :
    componentComparisonKey toUppercase scope.path semantics =
        componentComparisonKey toUppercase other.path semantics ∨
      scope.recursive = true ∧
        isDescendant (componentComparisonKey toUppercase scope.path semantics)
          (componentComparisonKey toUppercase other.path semantics) = true := by
  have front := components_key_isPrefix slash semantics begins
  have otherFront := components_key_isPrefix slash semantics otherBegins
  rw [keys] at front
  rw [← length_components_key slash semantics scope.path,
    ← length_components_key slash semantics other.path] at shorter
  rcases splitOn_isPrefix.mp (List.prefix_of_prefix_length_le front otherFront shorter) with
    same | ⟨rest, deeper⟩
  · exact .inl same.symm
  refine .inr ⟨recursive ?_, by rw [deeper]; exact isDescendant_append _ _⟩
  rintro rfl
  have more := @length_splitOn_lt _ _ '/'
    (componentComparisonKey toUppercase scope.path semantics) rest
  rw [← deeper, keys] at more
  exact absurd otherFront.length_le (Nat.not_le.mpr more)

include slash in
/-- A scope of the root overlaps, or has the key of, what covers a path with the key of a path that
    it covers. -/
theorem key_of_root (root : scope.path = ['.']) {otherPath : Text}
    (covers : scope.coversPath path = true) (coversOther : other.coversPath otherPath = true)
    (keys : componentComparisonKey toUppercase path semantics =
      componentComparisonKey toUppercase otherPath semantics) :
    scope.overlaps other = true ∨ componentComparisonKey toUppercase scope.path semantics =
      componentComparisonKey toUppercase other.path semantics := by
  by_cases otherRoot : other.path = ['.']
  · exact .inl (overlaps_iff.mpr (.inl (root.trans otherRoot.symm)))
  rcases coversPath_iff.mp covers with same | ⟨recursive, -⟩
  · right
    -- The root has one component, so the other scope covers its own path alone.
    have one : (components otherPath).length = 1 := by
      rw [← length_components_key slash semantics otherPath, ← keys,
        length_components_key slash, ← same, root]
      rfl
    obtain ⟨begins, -⟩ := coversPath_components otherRoot coversOther
    have least := List.length_pos_of_ne_nil (components_ne_nil other.path)
    have whole : other.path = otherPath := splitOn_injective (begins.eq_of_length_le (by omega))
    rw [same, keys, whole]
  · left
    rw [overlaps_iff, root]
    exact .inr (.inl ⟨recursive, isDescendant_root.mpr otherRoot⟩)

theorem scopesOverlapObserved_iff {existing candidate : RepoScope} :
    scopesOverlapObserved toUppercase existing candidate semantics = true ↔
      existing.overlaps candidate = true ∨
        componentComparisonKey toUppercase existing.path semantics =
          componentComparisonKey toUppercase candidate.path semantics ∨
        existing.recursive = true ∧
          isDescendant (componentComparisonKey toUppercase existing.path semantics)
            (componentComparisonKey toUppercase candidate.path semantics) = true ∨
        candidate.recursive = true ∧
          isDescendant (componentComparisonKey toUppercase candidate.path semantics)
            (componentComparisonKey toUppercase existing.path semantics) = true := by
  rw [scopesOverlapObserved]
  split
  next overlap => exact iff_of_true rfl (.inl overlap)
  next apart =>
    simp only [Bool.or_eq_true, Bool.and_eq_true, beq_iff_eq, apart, Bool.false_eq_true, false_or,
      or_assoc]

include slash in
/-- **Two scopes that cover paths with equal keys overlap under the observed rules.** -/
theorem scopesOverlapObserved_of_covered {existing candidate : RepoScope} {candidatePath : Text}
    (covers : existing.coversPath path = true)
    (candidateCovers : candidate.coversPath candidatePath = true)
    (keys : componentComparisonKey toUppercase path semantics =
      componentComparisonKey toUppercase candidatePath semantics) :
    scopesOverlapObserved toUppercase existing candidate semantics = true := by
  rw [scopesOverlapObserved_iff]
  by_cases root : existing.path = ['.']
  · exact (key_of_root slash root covers candidateCovers keys).imp_right .inl
  by_cases candidateRoot : candidate.path = ['.']
  · rcases key_of_root slash candidateRoot candidateCovers covers keys.symm with overlap | same
    · rw [overlaps_comm] at overlap
      exact .inl overlap
    · exact .inr (.inl same.symm)
  obtain ⟨begins, recursive⟩ := coversPath_components root covers
  obtain ⟨candidateBegins, candidateRecursive⟩ :=
    coversPath_components candidateRoot candidateCovers
  right
  rcases Nat.le_total (components existing.path).length (components candidate.path).length with
    shorter | longer
  · exact (key_above_of_shorter slash keys begins recursive candidateBegins shorter).imp_right .inl
  · rcases key_above_of_shorter slash keys.symm candidateBegins candidateRecursive begins longer
      with same | below
    · exact .inl same.symm
    · exact .inr (.inr below)

end Observed

end Codex.AgentTaskStore
