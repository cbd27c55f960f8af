import Codex.Lib.Text

/-!
# Absolute paths

An absolute path is its anchor (the root, with the drive or share in front of it on Windows) and
the components below it. A normalized path has names only; a path as it is written may also step
to a parent. Prefixes compare whole components.
-/

namespace Codex

/-- A component below the anchor, as `Path::components` yields it. -/
inductive Component where
  | normal (name : Text)
  | parentDir
  deriving DecidableEq, Repr

/-- `Component::as_os_str`. -/
def Component.asOsStr : Component → Text
  | .normal name => name
  | .parentDir => ['.', '.']

/-- An absolute `Path`, as it is written. -/
structure AbsolutePath where
  anchor : Text
  components : List Component
  deriving DecidableEq, Repr

/-- `AbsolutePathBuf`: absolute and normalized. -/
structure AbsolutePathBuf where
  anchor : Text
  names : List Text
  deriving DecidableEq, Repr

namespace AbsolutePathBuf

/-- `as_path`. -/
def asPath (path : AbsolutePathBuf) : AbsolutePath := ⟨path.anchor, path.names.map .normal⟩

/-- `join` with one name. -/
def child (path : AbsolutePathBuf) (name : Text) : AbsolutePathBuf :=
  ⟨path.anchor, path.names ++ [name]⟩

/-- `join` with the names of a relative path. -/
def join (path : AbsolutePathBuf) (names : List Text) : AbsolutePathBuf :=
  ⟨path.anchor, path.names ++ names⟩

/-- `Path::components().count()`, the anchor counted once. -/
def componentCount (path : AbsolutePathBuf) : Nat := path.names.length + 1

/-- `Path::parent`. -/
def parent (path : AbsolutePathBuf) : Option AbsolutePathBuf :=
  if path.names = [] then none else some ⟨path.anchor, path.names.dropLast⟩

/-- `Path::file_name`. -/
def fileName (path : AbsolutePathBuf) : Option Text := path.names.getLast?

/-- `Path::ancestors`: the path itself first, its root last. -/
def ancestors (path : AbsolutePathBuf) : List AbsolutePathBuf :=
  path.names.inits.reverse.map fun names => ⟨path.anchor, names⟩

/-- `Path::strip_prefix` of two normalized paths. -/
def stripPrefix (path base : AbsolutePathBuf) : Option (List Text) :=
  if path.anchor = base.anchor ∧ base.names <+: path.names then
    some (path.names.drop base.names.length)
  else none

/-- One path contains the other: `base` is `path` or an ancestor of it. -/
def Within (path base : AbsolutePathBuf) : Prop :=
  path.anchor = base.anchor ∧ base.names <+: path.names

instance (path base : AbsolutePathBuf) : Decidable (path.Within base) :=
  inferInstanceAs (Decidable (_ ∧ _))

end AbsolutePathBuf

namespace AbsolutePath

/-- The lexical normal form of a path: a step to the parent of a root stays
    there. -/
def normalize (path : AbsolutePath) : AbsolutePathBuf where
  anchor := path.anchor
  names := path.components.foldl (fun names component =>
    match component with
    | .normal name => names ++ [name]
    | .parentDir => names.dropLast) []

/-- `Path::starts_with`. -/
def startsWith (path : AbsolutePath) (base : AbsolutePathBuf) : Bool :=
  path.anchor = base.anchor ∧ base.asPath.components <+: path.components

/-- `Path::strip_prefix`. -/
def stripPrefix (path : AbsolutePath) (base : AbsolutePathBuf) : Option (List Component) :=
  if path.startsWith base then some (path.components.drop base.names.length) else none

/-- A path by the texts of its components. -/
def spelled (path : AbsolutePath) : AbsolutePathBuf :=
  ⟨path.anchor, path.components.map Component.asOsStr⟩

/-- A path that is written without steps to a parent. -/
def Literal (path : AbsolutePath) : Prop := Component.parentDir ∉ path.components

instance (path : AbsolutePath) : Decidable path.Literal := inferInstanceAs (Decidable (¬ _))

end AbsolutePath

namespace AbsolutePathBuf

variable {path other base : AbsolutePathBuf} {name : Text}

theorem map_normal_prefix {left right : List Text} :
    left.map Component.normal <+: right.map Component.normal ↔ left <+: right := by
  rw [List.prefix_map_iff]
  constructor
  · rintro ⟨front, isPrefix, same⟩
    have injective : Function.Injective Component.normal := fun _ _ => Component.normal.inj
    rwa [List.map_injective_iff.mpr injective same]
  · intro isPrefix
    exact ⟨left, isPrefix, rfl⟩

@[simp] theorem normalize_asPath (path : AbsolutePathBuf) : path.asPath.normalize = path := by
  obtain ⟨anchor, names⟩ := path
  simp only [asPath, AbsolutePath.normalize, mk.injEq, true_and]
  induction names using List.reverseRecOn with
  | nil => rfl
  | append_singleton front name ih =>
    rw [List.map_append, List.foldl_append, ih]
    rfl

/-- A path without steps to a parent is its normal form. -/
theorem asPath_normalize {path : AbsolutePath} (literal : path.Literal) :
    path.normalize.asPath = path := by
  obtain ⟨anchor, components⟩ := path
  have named : ∃ names : List Text, components = names.map .normal := by
    induction components with
    | nil => exact ⟨[], rfl⟩
    | cons component rest ih =>
      simp only [AbsolutePath.Literal, List.mem_cons, not_or] at literal
      obtain ⟨names, rfl⟩ := ih literal.2
      cases component with
      | normal name => exact ⟨name :: names, rfl⟩
      | parentDir => exact absurd rfl literal.1
  obtain ⟨names, rfl⟩ := named
  have same : (⟨anchor, names.map .normal⟩ : AbsolutePath) = asPath ⟨anchor, names⟩ := rfl
  rw [same, normalize_asPath]

@[simp] theorem startsWith_asPath : path.asPath.startsWith base = true ↔ path.Within base := by
  simp [AbsolutePath.startsWith, asPath, Within, map_normal_prefix]

@[refl] theorem Within.refl (path : AbsolutePathBuf) : path.Within path := ⟨rfl, List.prefix_rfl⟩

theorem Within.trans (inner : path.Within other) (outer : other.Within base) : path.Within base :=
  ⟨inner.1.trans outer.1, outer.2.trans inner.2⟩

theorem Within.count_le (within : path.Within base) :
    base.componentCount ≤ path.componentCount := by
  have := within.2.length_le
  simp only [componentCount]
  omega

/-- The paths that contain a path are ordered by their depth. -/
theorem Within.of_count_le (left : path.Within other) (right : path.Within base)
    (le : base.componentCount ≤ other.componentCount) : other.Within base := by
  refine ⟨left.1.symm.trans right.1, ?_⟩
  apply List.prefix_of_prefix_length_le right.2 left.2
  simp only [componentCount] at le
  omega

theorem Within.antisymm (left : path.Within base) (right : base.Within path) : path = base := by
  obtain ⟨anchor, names⟩ := path
  obtain ⟨baseAnchor, baseNames⟩ := base
  obtain rfl : anchor = baseAnchor := left.1
  have same := right.2.eq_of_length_le left.2.length_le
  simp only [mk.injEq, true_and]
  exact same

theorem Within.eq_of_count (left : path.Within other) (right : path.Within base)
    (same : base.componentCount = other.componentCount) : other = base :=
  (left.of_count_le right same.le).antisymm (right.of_count_le left same.ge)

/-- A path strictly inside another one is deeper. -/
theorem Within.count_lt (within : path.Within base) (ne : path ≠ base) :
    base.componentCount < path.componentCount := by
  rcases within.count_le.lt_or_eq with less | same
  · exact less
  · exact absurd ((Within.refl path).eq_of_count within same) ne

theorem within_child (path : AbsolutePathBuf) (name : Text) : (path.child name).Within path :=
  ⟨rfl, List.prefix_append _ _⟩

@[simp] theorem count_child (path : AbsolutePathBuf) (name : Text) :
    (path.child name).componentCount = path.componentCount + 1 := by
  simp [componentCount, child]

/-- Two children of one path that contain the same path have one name. -/
theorem Within.child_inj {first second : Text} (left : path.Within (base.child first))
    (right : path.Within (base.child second)) : first = second := by
  have same := left.eq_of_count right (by simp)
  simpa [child] using same

theorem map_asOsStr (names : List Text) :
    (names.map Component.normal).map Component.asOsStr = names := by
  rw [List.map_map]
  exact List.map_id names

theorem literal_asPath (path : AbsolutePathBuf) : path.asPath.Literal := by
  simp [AbsolutePath.Literal, asPath]

@[simp] theorem spelled_asPath (path : AbsolutePathBuf) : path.asPath.spelled = path := by
  rw [AbsolutePath.spelled, asPath, map_asOsStr]

theorem within_spelled {path : AbsolutePath} (under : path.startsWith base = true) :
    path.spelled.Within base := by
  simp only [AbsolutePath.startsWith, decide_eq_true_eq] at under
  refine ⟨under.1, ?_⟩
  have below := under.2.map Component.asOsStr
  rwa [asPath, map_asOsStr] at below

/-- The first component below a path leads to the child that contains the rest. -/
theorem stripPrefix_head? {path : AbsolutePath} :
    ((path.stripPrefix base).bind List.head?).map Component.asOsStr = some name ↔
      path.startsWith base = true ∧ path.spelled.Within (base.child name) := by
  by_cases under : path.startsWith base = true
  · rw [AbsolutePath.stripPrefix, if_pos under]
    simp only [under, true_and]
    simp only [AbsolutePath.startsWith, decide_eq_true_eq] at under
    obtain ⟨sameAnchor, rest, split⟩ := under
    rw [Option.bind_some, ← split, List.drop_left' (by simp [asPath])]
    simp only [AbsolutePath.spelled, Within, child, sameAnchor, ← split, List.map_append, asPath,
      map_asOsStr, List.prefix_append_right_inj, true_and]
    cases rest with
    | nil => simp
    | cons head tail => simp [eq_comm]
  · simp [AbsolutePath.stripPrefix, under]

end AbsolutePathBuf

end Codex
