import Codex.Lib.OrderedSum

/-!
# Bounded sets of changed paths

`file-watcher/src/lib.rs:245-347`. Changed paths are kept in a set of bounded size. When it is
full, the deepest paths are replaced by their parents, one depth after the other, until another
path fits; when even that fails, the owner falls back to a rescan.
-/

namespace Codex.FileWatcher

def SUBSCRIBER_PATH_BUFFER_CAPACITY : Nat := 4096

abbrev OsString := List UInt8

/-- `std::path::Component`, in the order that it derives. -/
inductive Component where
  | pathPrefix (name : OsString)
  | rootDir
  | curDir
  | parentDir
  | normal (name : OsString)
  deriving DecidableEq, Repr

/-- Components compare by their kind first. -/
def Component.orderKey : Component → List Nat
  | .pathPrefix name => 0 :: name.map UInt8.toNat
  | .rootDir => [1]
  | .curDir => [2]
  | .parentDir => [3]
  | .normal name => 4 :: name.map UInt8.toNat

theorem Component.orderKey_injective : Function.Injective Component.orderKey := by
  have names : Function.Injective (List.map UInt8.toNat) :=
    List.map_injective_iff.mpr fun _ _ same => UInt8.toNat_inj.mp same
  intro left right same
  cases left <;> cases right <;> simp_all [orderKey, names.eq_iff]

instance : LinearOrder Component :=
  LinearOrder.lift' Component.orderKey Component.orderKey_injective

/-- A `PathBuf` as its components, by which paths compare. -/
abbrev PathBuf := List Component

/-- `Path::parent`; `PathBuf::pop` goes there and returns whether it exists. -/
def parent (path : PathBuf) : Option PathBuf :=
  match path.getLast? with
  | some (.normal _) => some path.dropLast
  | some .curDir => some path.dropLast
  | some .parentDir => some path.dropLast
  | _ => none

/-- The first path is the second one or an ancestor of it. -/
def Covers (ancestor path : PathBuf) : Prop :=
  Relation.ReflTransGen (fun below above => parent below = some above) path ancestor

theorem Covers.refl (path : PathBuf) : Covers path path := Relation.ReflTransGen.refl

variable {path : PathBuf} {coarse fine : List PathBuf} {depth : Nat}

theorem Covers.parent {above : PathBuf} (up : parent path = some above) : Covers above path :=
  .single up

theorem Covers.trans {top middle : PathBuf} (upper : Covers top middle)
    (lower : Covers middle path) : Covers top path := Relation.ReflTransGen.trans lower upper

theorem length_parent {above : PathBuf} (up : parent path = some above) :
    above.length + 1 = path.length := by
  have shorter : path ≠ [] → path.dropLast.length + 1 = path.length := by
    intro nonempty
    have positive := List.length_pos_iff.mpr nonempty
    rw [List.length_dropLast]
    omega
  rw [parent] at up
  split at up
  · next found =>
    cases up
    exact shorter (by rintro rfl; cases found)
  · next found =>
    cases up
    exact shorter (by rintro rfl; cases found)
  · next found =>
    cases up
    exact shorter (by rintro rfl; cases found)
  · cases up

/-- Paths that stand for others: each of the others is covered, and no path is there without
    need. -/
def Coarsens (coarse fine : List PathBuf) : Prop :=
  (∀ path ∈ fine, ∃ kept ∈ coarse, Covers kept path) ∧
    ∀ kept ∈ coarse, ∃ path ∈ fine, Covers kept path

theorem Coarsens.of_mem (same : ∀ path, path ∈ coarse ↔ path ∈ fine) : Coarsens coarse fine :=
  ⟨fun path member => ⟨path, (same path).mpr member, Covers.refl path⟩,
    fun path member => ⟨path, (same path).mp member, Covers.refl path⟩⟩

theorem Coarsens.refl (paths : List PathBuf) : Coarsens paths paths := .of_mem fun _ => Iff.rfl

theorem Coarsens.trans {middle : List PathBuf} (upper : Coarsens coarse middle)
    (lower : Coarsens middle fine) : Coarsens coarse fine := by
  constructor
  · intro path member
    obtain ⟨kept, held, covers⟩ := lower.1 path member
    obtain ⟨last, stands, above⟩ := upper.1 kept held
    exact ⟨last, stands, above.trans covers⟩
  · intro last stands
    obtain ⟨kept, held, above⟩ := upper.2 last stands
    obtain ⟨path, member, covers⟩ := lower.2 kept held
    exact ⟨path, member, above.trans covers⟩

theorem Coarsens.append {moreCoarse moreFine : List PathBuf} (first : Coarsens coarse fine)
    (second : Coarsens moreCoarse moreFine) :
    Coarsens (coarse ++ moreCoarse) (fine ++ moreFine) := by
  constructor
  · intro path member
    rcases List.mem_append.mp member with member | member
    · obtain ⟨kept, held, covers⟩ := first.1 path member
      exact ⟨kept, List.mem_append_left _ held, covers⟩
    · obtain ⟨kept, held, covers⟩ := second.1 path member
      exact ⟨kept, List.mem_append_right _ held, covers⟩
  intro kept held
  rcases List.mem_append.mp held with held | held
  · obtain ⟨path, member, covers⟩ := first.2 kept held
    exact ⟨path, List.mem_append_left _ member, covers⟩
  · obtain ⟨path, member, covers⟩ := second.2 kept held
    exact ⟨path, List.mem_append_right _ member, covers⟩

theorem Coarsens.single {kept : PathBuf} (covers : Covers kept path) :
    Coarsens [kept] [path] := by
  constructor
  · intro other member
    exact ⟨kept, List.mem_singleton_self _, List.mem_singleton.mp member ▸ covers⟩
  · intro other member
    exact ⟨path, List.mem_singleton_self _, List.mem_singleton.mp member ▸ covers⟩

/-- `BTreeSet<PathBuf>`. -/
abbrev PathSet := OrderedMap PathBuf Unit

namespace PathSet

def contains (paths : PathSet) (path : PathBuf) : Bool := (paths.get path).isSome

/-- The set with one more path. -/
def insert (paths : PathSet) (path : PathBuf) : PathSet := OrderedMap.insert paths path ()

/-- The paths in order. -/
def toList (paths : PathSet) : List PathBuf := paths.keys

/-- `collect` into a set. -/
def ofList (paths : List PathBuf) : PathSet := paths.foldl insert OrderedMap.empty

theorem mem_insert {paths : PathSet} {other : PathBuf} :
    other ∈ (paths.insert path).toList ↔ other = path ∨ other ∈ paths.toList := by
  rw [toList, toList, OrderedMap.mem_keys_iff, OrderedMap.mem_keys_iff, insert,
    OrderedMap.get_insert]
  by_cases same : other = path
  · simp [same]
  · simp [same]

theorem contains_iff {paths : PathSet} :
    paths.contains path = true ↔ path ∈ paths.toList := OrderedMap.mem_keys_iff.symm

theorem length_insert_le (paths : PathSet) (path : PathBuf) :
    (paths.insert path).length ≤ paths.length + 1 := OrderedMap.length_insert_le paths path ()

theorem length_insert_of_contains {paths : PathSet}
    (present : paths.contains path = true) : (paths.insert path).length = paths.length := by
  obtain ⟨held, found⟩ := Option.isSome_iff_exists.mp present
  exact OrderedMap.length_insert_of_get found ()

theorem mem_insertAll {paths : List PathBuf} {set : PathSet} :
    path ∈ (paths.foldl insert set).toList ↔ path ∈ paths ∨ path ∈ set.toList := by
  induction paths generalizing set with
  | nil => simp
  | cons head paths ih =>
    rw [List.foldl_cons, ih, mem_insert, List.mem_cons]
    tauto

theorem length_insertAll_le (paths : List PathBuf) (set : PathSet) :
    (paths.foldl insert set).length ≤ paths.length + set.length := by
  induction paths generalizing set with
  | nil => simp
  | cons head paths ih =>
    have rest := ih (set.insert head)
    have first := length_insert_le set head
    rw [List.foldl_cons, List.length_cons]
    omega

end PathSet

/-- Paths by their depth: `BTreeMap<usize, BTreeSet<PathBuf>>`. -/
abbrev Buckets := OrderedMap Nat PathSet

namespace Buckets

/-- `by_depth.entry(depth).or_default().insert(path)`, with whether the path is new there. -/
def insert (buckets : Buckets) (depth : Nat) (path : PathBuf) : Buckets × Bool :=
  let bucket := (buckets.get depth).getD OrderedMap.empty
  (OrderedMap.insert buckets depth (bucket.insert path), !bucket.contains path)

/-- `into_values().flatten()`. -/
def paths (buckets : Buckets) : List PathBuf := buckets.values.flatMap PathSet.toList

end Buckets

variable {buckets : Buckets}

theorem Buckets.mem_paths :
    path ∈ buckets.paths ↔ ∃ depth bucket, buckets.get depth = some bucket ∧
      path ∈ PathSet.toList bucket := by
  rw [paths, List.mem_flatMap]
  constructor
  · rintro ⟨bucket, member, inside⟩
    obtain ⟨depth, found⟩ := OrderedMap.mem_values_iff.mp member
    exact ⟨depth, bucket, found, inside⟩
  · rintro ⟨depth, bucket, found, inside⟩
    exact ⟨bucket, OrderedMap.mem_values_iff.mpr ⟨depth, found⟩, inside⟩

theorem Buckets.mem_insert {other : PathBuf} :
    other ∈ (buckets.insert depth path).1.paths ↔ other = path ∨ other ∈ buckets.paths := by
  rw [mem_paths, mem_paths]
  simp only [insert, OrderedMap.get_insert]
  constructor
  · rintro ⟨level, bucket, found, inside⟩
    split at found
    · cases found
      rcases PathSet.mem_insert.mp inside with same | old
      · exact .inl same
      right
      cases held : buckets.get depth with
      | none =>
        rw [held, Option.getD_none] at old
        cases old
      | some earlier =>
        rw [held, Option.getD_some] at old
        exact ⟨depth, earlier, held, old⟩
    · exact .inr ⟨level, bucket, found, inside⟩
  · intro either
    by_cases added : other = path
    · exact ⟨depth, _, if_pos rfl, PathSet.mem_insert.mpr (.inl added)⟩
    obtain ⟨level, bucket, found, inside⟩ := either.resolve_left added
    by_cases same : level = depth
    · subst same
      refine ⟨level, _, if_pos rfl, PathSet.mem_insert.mpr (.inr ?_)⟩
      rw [found]
      exact inside
    · exact ⟨level, bucket, by rw [if_neg same]; exact found, inside⟩

/-- A number for every path of a set, added up. -/
def PathSet.total (weight : PathBuf → Nat) (paths : PathSet) : Nat :=
  OrderedMap.sum (fun path _ => weight path) paths

/-- A number for every path in the buckets, added up. -/
def Buckets.total (weight : PathBuf → Nat) (buckets : Buckets) : Nat :=
  OrderedMap.sum (fun _ bucket => PathSet.total weight bucket) buckets

theorem PathSet.total_insert (weight : PathBuf → Nat) (paths : PathSet) (path : PathBuf) :
    (paths.insert path).total weight =
      paths.total weight + if paths.contains path then 0 else weight path := by
  have grown := OrderedMap.sum_insert (fun path _ => weight path) paths path ()
  rw [total, total, insert, contains]
  cases held : OrderedMap.get paths path with
  | none =>
    rw [held, Option.map_none, Option.getD_none] at grown
    exact grown
  | some old =>
    rw [held, Option.map_some, Option.getD_some] at grown
    rw [Option.isSome_some, if_pos rfl]
    omega

theorem Buckets.total_insert (weight : PathBuf → Nat) (buckets : Buckets) (depth : Nat)
    (path : PathBuf) : (buckets.insert depth path).1.total weight =
      buckets.total weight + if (buckets.insert depth path).2 then weight path else 0 := by
  have grown := OrderedMap.sum_insert (fun _ bucket => PathSet.total weight bucket) buckets depth
    (((buckets.get depth).getD OrderedMap.empty).insert path)
  rw [PathSet.total_insert] at grown
  have old : ((buckets.get depth).map (PathSet.total weight)).getD 0 =
      PathSet.total weight ((buckets.get depth).getD OrderedMap.empty) := by
    cases buckets.get depth with
    | none => rfl
    | some bucket => rfl
  rw [old] at grown
  have fresh : (buckets.insert depth path).2 =
      !PathSet.contains ((buckets.get depth).getD OrderedMap.empty) path := rfl
  show OrderedMap.sum _ (OrderedMap.insert buckets depth _) = OrderedMap.sum _ buckets + _
  by_cases present : PathSet.contains ((buckets.get depth).getD OrderedMap.empty) path = true
  · rw [if_pos present] at grown
    rw [if_neg (by rw [fresh, present]; exact Bool.false_ne_true)]
    omega
  · rw [if_neg present] at grown
    rw [Bool.not_eq_true] at present
    rw [if_pos (by rw [fresh, present]; rfl)]
    omega

/-- The state of one round. -/
structure Round where
  byDepth : Buckets
  count : Nat
  changed : Bool

/-- The body of `for mut path in deepest`. -/
def movePath (depth : Nat) (round : Round) (path : PathBuf) : Round :=
  match parent path with
  | some above =>
      let inserted := round.byDepth.insert (depth - 1) above
      { byDepth := inserted.1
        count := if inserted.2 then round.count + 1 else round.count
        changed := true }
  | none =>
      let inserted := round.byDepth.insert depth path
      { round with
        byDepth := inserted.1
        count := if inserted.2 then round.count + 1 else round.count }

/-- One round: the deepest bucket is taken and its paths are moved up. -/
def moveDeepest (depth : Nat) (deepest : PathSet) (byDepth : Buckets) (count : Nat) : Round :=
  deepest.toList.foldl (movePath depth)
    { byDepth := OrderedMap.remove byDepth depth
      count := count - deepest.length
      changed := false }

/-- What moving one path does: the path or its parent is kept, the count follows, and a path that
    moved up has made the buckets lighter. -/
theorem movePath_spec (depth : Nat) (round : Round) (path : PathBuf) :
    ∃ kept, Covers kept path ∧
      (∀ other, other ∈ (movePath depth round path).byDepth.paths ↔
        other = kept ∨ other ∈ round.byDepth.paths) ∧
      (round.count = round.byDepth.total (fun _ => 1) →
        (movePath depth round path).count =
          (movePath depth round path).byDepth.total fun _ => 1) ∧
      (movePath depth round path).byDepth.total List.length ≤
        round.byDepth.total List.length + path.length ∧
      ((movePath depth round path).changed = true → round.changed = true ∨
        (movePath depth round path).byDepth.total List.length <
          round.byDepth.total List.length + path.length) := by
  have counted : ∀ (level : Nat) (kept : PathBuf),
      round.count = round.byDepth.total (fun _ => 1) →
        (if (round.byDepth.insert level kept).2 then round.count + 1 else round.count) =
          (round.byDepth.insert level kept).1.total fun _ => 1 := by
    intro level kept exact
    rw [Buckets.total_insert]
    split <;> omega
  have weighed : ∀ (level : Nat) (kept : PathBuf),
      (round.byDepth.insert level kept).1.total List.length ≤
        round.byDepth.total List.length + kept.length := by
    intro level kept
    rw [Buckets.total_insert]
    split <;> omega
  rw [movePath]
  split
  · next above up =>
    have shorter := length_parent up
    have lighter := weighed (depth - 1) above
    exact ⟨above, Covers.parent up, fun _ => Buckets.mem_insert, counted (depth - 1) above,
      by dsimp only; omega, fun _ => .inr (by dsimp only; omega)⟩
  · exact ⟨path, Covers.refl path, fun _ => Buckets.mem_insert, counted depth path,
      weighed depth path, Or.inl⟩

/-- The run lemma of one round, over the paths that are moved. -/
theorem movePaths_spec (depth : Nat) (paths : List PathBuf) (round : Round) :
    Coarsens (paths.foldl (movePath depth) round).byDepth.paths (round.byDepth.paths ++ paths) ∧
      (round.count = round.byDepth.total (fun _ => 1) →
        (paths.foldl (movePath depth) round).count =
          (paths.foldl (movePath depth) round).byDepth.total fun _ => 1) ∧
      (paths.foldl (movePath depth) round).byDepth.total List.length ≤
        round.byDepth.total List.length + (paths.map List.length).sum ∧
      ((paths.foldl (movePath depth) round).changed = true → round.changed = true ∨
        (paths.foldl (movePath depth) round).byDepth.total List.length <
          round.byDepth.total List.length + (paths.map List.length).sum) := by
  induction paths generalizing round with
  | nil =>
    rw [List.append_nil]
    exact ⟨Coarsens.of_mem fun _ => Iff.rfl, id, Nat.le_add_right _ _, Or.inl⟩
  | cons path paths ih =>
    obtain ⟨kept, covers, members, counts, weighs, lighter⟩ := movePath_spec depth round path
    obtain ⟨coarser, countsAll, weighsAll, lighterAll⟩ := ih (movePath depth round path)
    rw [List.foldl_cons, List.map_cons, List.sum_cons]
    refine ⟨?_, fun exact => countsAll (counts exact), by omega, ?_⟩
    · apply coarser.trans
      have moved : Coarsens (movePath depth round path).byDepth.paths
          (round.byDepth.paths ++ [path]) := by
        have lower : Coarsens (round.byDepth.paths ++ [kept]) (round.byDepth.paths ++ [path]) :=
          (Coarsens.refl _).append (Coarsens.single covers)
        refine Coarsens.trans ?_ lower
        apply Coarsens.of_mem
        intro other
        rw [members, List.mem_append, List.mem_singleton, or_comm]
      have all := moved.append (Coarsens.refl paths)
      rw [List.append_assoc] at all
      exact all
    · intro changed
      rcases lighterAll changed with now | less
      · rcases lighter now with before | less
        · exact .inl before
        · exact .inr (by omega)
      · exact .inr (by omega)

/-! The bucket that a round takes. -/

variable {byDepth : Buckets} {deepest : PathSet}

theorem Buckets.mem_remove (found : byDepth.get depth = some deepest) :
    path ∈ Buckets.paths (byDepth.remove depth) ++ deepest.toList ↔ path ∈ byDepth.paths := by
  rw [List.mem_append, mem_paths, mem_paths]
  constructor
  · rintro (⟨level, bucket, held, inside⟩ | inside)
    · rw [OrderedMap.get_remove] at held
      split at held
      · cases held
      · exact ⟨level, bucket, held, inside⟩
    · exact ⟨depth, deepest, found, inside⟩
  rintro ⟨level, bucket, held, inside⟩
  by_cases same : level = depth
  · subst same
    rw [found] at held
    cases held
    exact .inr inside
  · refine .inl ⟨level, bucket, ?_, inside⟩
    rw [OrderedMap.get_remove, if_neg same, held]

theorem Buckets.total_remove (weight : PathBuf → Nat) (found : byDepth.get depth = some deepest) :
    Buckets.total weight (byDepth.remove depth) + (deepest.toList.map weight).sum =
      byDepth.total weight := by
  have whole := OrderedMap.sum_remove (fun _ bucket => PathSet.total weight bucket) found
  rw [PathSet.total, OrderedMap.sum] at whole
  rw [PathSet.toList, OrderedMap.keys, List.map_map]
  exact whole

/-- What a round does to the buckets. -/
theorem moveDeepest_spec {count : Nat} (found : byDepth.get depth = some deepest)
    (exact : count = byDepth.total fun _ => 1) :
    Coarsens (moveDeepest depth deepest byDepth count).byDepth.paths byDepth.paths ∧
      (moveDeepest depth deepest byDepth count).count =
        (moveDeepest depth deepest byDepth count).byDepth.total fun _ => 1 := by
  obtain ⟨coarser, counts, -, -⟩ := movePaths_spec depth deepest.toList
    { byDepth := byDepth.remove depth, count := count - deepest.length, changed := false }
  refine ⟨coarser.trans (Coarsens.of_mem fun _ => Buckets.mem_remove found), counts ?_⟩
  have taken := Buckets.total_remove (fun _ => 1) found
  rw [List.map_const', List.sum_replicate, smul_eq_mul, Nat.mul_one, PathSet.toList,
    OrderedMap.keys, List.length_map] at taken
  show count - deepest.entries.length = _
  dsimp only
  omega

/-- A round that moved a path up made the buckets lighter. -/
theorem moveDeepest_lighter {count : Nat} (found : byDepth.get depth = some deepest)
    (changed : (moveDeepest depth deepest byDepth count).changed = true) :
    (moveDeepest depth deepest byDepth count).byDepth.total List.length <
      byDepth.total List.length := by
  obtain ⟨-, -, -, lighter⟩ := movePaths_spec depth deepest.toList
    { byDepth := byDepth.remove depth, count := count - deepest.length, changed := false }
  rcases lighter changed with before | less
  · cases before
  · rw [← Buckets.total_remove List.length found]
    exact less

/-- The loop `while count >= capacity`. -/
def compressLoop (capacity : Nat) (byDepth : Buckets) (count : Nat) : Buckets × Nat :=
  if capacity ≤ count then
    match _found : byDepth.last with
    | none => (byDepth, count)
    | some (depth, deepest) =>
        let round := moveDeepest depth deepest byDepth count
        if _changed : round.changed = true then compressLoop capacity round.byDepth round.count
        else (round.byDepth, round.count)
  else (byDepth, count)
termination_by byDepth.total List.length
decreasing_by exact moveDeepest_lighter (OrderedMap.last_mem _found) _changed

/-- The paths moved into depth buckets. -/
def groupByDepth (paths : PathSet) : Buckets :=
  paths.toList.foldl (fun byDepth path => (Buckets.insert byDepth path.length path).1)
    OrderedMap.empty

/-- `compress_changed_paths` (`lib.rs:254`): the paths and whether another one fits. -/
def compressChangedPaths (paths : PathSet) (capacity : Nat) : PathSet × Bool :=
  if capacity = 0 then (paths, false)
  else if paths.length < capacity then (paths, true)
  else
    let compressed := compressLoop capacity (groupByDepth paths) paths.length
    (PathSet.ofList compressed.1.paths, decide (compressed.2 < capacity))

/-- The loop keeps the paths covered and the count true, by induction over its rounds. -/
theorem compressLoop_spec (capacity : Nat) (byDepth : Buckets) (count : Nat)
    (exact : count = byDepth.total fun _ => 1) :
    Coarsens (compressLoop capacity byDepth count).1.paths byDepth.paths ∧
      (compressLoop capacity byDepth count).2 =
        (compressLoop capacity byDepth count).1.total fun _ => 1 := by
  have same := Coarsens.refl byDepth.paths
  induction byDepth, count using compressLoop.induct capacity with
  | case1 byDepth count full empty =>
    rw [compressLoop, if_pos full]
    split
    · exact ⟨same, exact⟩
    · next found =>
      rw [empty] at found
      cases found
  | case2 byDepth count full depth deepest found round changed ih =>
    obtain ⟨coarser, counted⟩ := moveDeepest_spec (OrderedMap.last_mem found) exact
    rw [compressLoop, if_pos full]
    split
    · exact ⟨same, exact⟩
    next other found' =>
    rw [found] at found'
    cases found'
    rw [dif_pos changed]
    obtain ⟨coarsest, last⟩ := ih counted (Coarsens.of_mem fun _ => Iff.rfl)
    exact ⟨coarsest.trans coarser, last⟩
  | case3 byDepth count full depth deepest found round unchanged =>
    obtain ⟨coarser, counted⟩ := moveDeepest_spec (OrderedMap.last_mem found) exact
    rw [compressLoop, if_pos full]
    split
    · exact ⟨same, exact⟩
    · next other found' =>
      rw [found] at found'
      cases found'
      rw [dif_neg unchanged]
      exact ⟨coarser, counted⟩
  | case4 byDepth count room =>
    rw [compressLoop, if_neg room]
    exact ⟨same, exact⟩

theorem Buckets.fresh_of_not_mem (depth : Nat)
    (absent : path ∉ buckets.paths) : (buckets.insert depth path).2 = true := by
  show (!PathSet.contains ((buckets.get depth).getD OrderedMap.empty) path) = true
  rw [Bool.not_eq_true']
  by_contra present
  apply absent
  rw [Bool.not_eq_false, PathSet.contains_iff] at present
  cases found : buckets.get depth with
  | none =>
    rw [found] at present
    cases present
  | some bucket =>
    rw [found] at present
    exact Buckets.mem_paths.mpr ⟨depth, bucket, found, present⟩

/-- Grouping by induction over the paths that are still to be moved, none of which is there. -/
theorem groupPaths_spec {paths : List PathBuf} (distinct : paths.Nodup)
    (absent : ∀ path ∈ paths, path ∉ byDepth.paths) :
    let grouped := paths.foldl (fun byDepth path => (Buckets.insert byDepth path.length path).1)
      byDepth
    (∀ path, path ∈ grouped.paths ↔ path ∈ paths ∨ path ∈ byDepth.paths) ∧
      grouped.total (fun _ => 1) = paths.length + byDepth.total fun _ => 1 := by
  induction paths generalizing byDepth with
  | nil => simp
  | cons path paths ih =>
    obtain ⟨new, distinct⟩ := List.nodup_cons.mp distinct
    have later : ∀ other ∈ paths, other ∉ (byDepth.insert path.length path).1.paths := by
      intro other member held
      rcases Buckets.mem_insert.mp held with rfl | old
      · exact new member
      · exact absent other (List.mem_cons_of_mem path member) old
    obtain ⟨members, counted⟩ := ih distinct later
    dsimp only at members counted ⊢
    rw [List.foldl_cons]
    constructor
    · intro other
      rw [members, Buckets.mem_insert, List.mem_cons]
      tauto
    · rw [counted, Buckets.total_insert,
        if_pos (Buckets.fresh_of_not_mem _ (absent path List.mem_cons_self)), List.length_cons]
      omega

theorem groupByDepth_spec (paths : PathSet) :
    (∀ path, path ∈ (groupByDepth paths).paths ↔ path ∈ paths.toList) ∧
      paths.length = (groupByDepth paths).total fun _ => 1 := by
  have distinct : paths.toList.Nodup := OrderedMap.nodup_keys paths
  have absent : ∀ path ∈ paths.toList, path ∉ Buckets.paths OrderedMap.empty := by
    intro path _ held
    cases held
  obtain ⟨members, counted⟩ := groupPaths_spec distinct absent
  constructor
  · intro path
    refine (members path).trans (or_iff_left ?_)
    intro held
    cases held
  · refine Eq.trans ?_ counted.symm
    rw [PathSet.toList, OrderedMap.keys, List.length_map]
    rfl

/-- The buckets hold as many paths as their total says. -/
theorem Buckets.length_paths (buckets : Buckets) :
    buckets.paths.length = buckets.total fun _ => 1 := by
  rw [paths, List.length_flatMap, OrderedMap.values, List.map_map, total, OrderedMap.sum]
  congr 1
  apply List.map_congr_left
  intro entry _
  show (PathSet.toList entry.2).length = PathSet.total (fun _ => 1) entry.2
  rw [PathSet.total, OrderedMap.sum_one, PathSet.toList, OrderedMap.keys, List.length_map]
  rfl

/-- Coarsening stands for the given paths, and it reports room only with fewer paths than the
    capacity. -/
theorem compressChangedPaths_spec (paths : PathSet) (capacity : Nat) :
    Coarsens (compressChangedPaths paths capacity).1.toList paths.toList ∧
      ((compressChangedPaths paths capacity).2 = true →
        (compressChangedPaths paths capacity).1.length < capacity) := by
  rw [compressChangedPaths]
  split
  · refine ⟨Coarsens.of_mem fun _ => Iff.rfl, ?_⟩
    intro room
    cases room
  split
  · next room => exact ⟨Coarsens.of_mem fun _ => Iff.rfl, fun _ => room⟩
  obtain ⟨members, exact⟩ := groupByDepth_spec paths
  obtain ⟨coarser, counted⟩ := compressLoop_spec capacity (groupByDepth paths) paths.length exact
  constructor
  · refine Coarsens.trans (Coarsens.of_mem ?_) (coarser.trans (Coarsens.of_mem members))
    intro path
    refine PathSet.mem_insertAll.trans (or_iff_left ?_)
    intro held
    cases held
  intro room
  have fewer := of_decide_eq_true room
  have size := PathSet.length_insertAll_le
    (compressLoop capacity (groupByDepth paths) paths.length).1.paths OrderedMap.empty
  rw [Buckets.length_paths, ← counted] at size
  exact Nat.lt_of_le_of_lt size fewer

/-- `insert_changed_path` (`lib.rs:300`): the set, and whether it retains the path. -/
def insertChangedPath (paths : PathSet) (path : PathBuf) : PathSet × Bool :=
  if paths.length ≥ SUBSCRIBER_PATH_BUFFER_CAPACITY && !paths.contains path then
    let compressed := compressChangedPaths paths SUBSCRIBER_PATH_BUFFER_CAPACITY
    if compressed.2 then (compressed.1.insert path, true) else (compressed.1, false)
  else (paths.insert path, true)

theorem insertChangedPath_spec {paths : PathSet}
    (bounded : paths.length ≤ SUBSCRIBER_PATH_BUFFER_CAPACITY)
    (retained : (insertChangedPath paths path).2 = true) :
    Coarsens (insertChangedPath paths path).1.toList (paths.toList ++ [path]) ∧
      (insertChangedPath paths path).1.length ≤ SUBSCRIBER_PATH_BUFFER_CAPACITY := by
  have added : ∀ set : PathSet, ∀ other,
      other ∈ (set.insert path).toList ↔ other ∈ set.toList ++ [path] := by
    intro set other
    rw [PathSet.mem_insert, List.mem_append, List.mem_singleton, or_comm]
  rw [insertChangedPath] at retained ⊢
  split
  · next full =>
    rw [if_pos full] at retained
    obtain ⟨coarser, fewer⟩ := compressChangedPaths_spec paths SUBSCRIBER_PATH_BUFFER_CAPACITY
    dsimp only at retained ⊢
    split at retained
    · next room =>
      rw [if_pos room]
      constructor
      · exact (Coarsens.of_mem (added _)).trans
          (coarser.append (Coarsens.single (Covers.refl path)))
      · have less := fewer room
        have grown := PathSet.length_insert_le
          (compressChangedPaths paths SUBSCRIBER_PATH_BUFFER_CAPACITY).1 path
        dsimp only
        omega
    · cases retained
  · next room =>
    refine ⟨Coarsens.of_mem (added paths), ?_⟩
    dsimp only
    by_cases present : paths.contains path = true
    · rw [PathSet.length_insert_of_contains present]
      exact bounded
    · have grown := PathSet.length_insert_le paths path
      rw [Bool.not_eq_true] at present
      rw [present, Bool.not_false, Bool.and_true, decide_eq_true_eq] at room
      omega

/-- The loop over a batch, which stops at the first path that is not retained. -/
def insertChangedPaths (set : PathSet) : List PathBuf → Option PathSet
  | [] => some set
  | path :: paths =>
      if (insertChangedPath set path).2 then insertChangedPaths (insertChangedPath set path).1 paths
      else none

theorem insertChangedPaths_spec {set inserted : PathSet} {paths : List PathBuf}
    (bounded : set.length ≤ SUBSCRIBER_PATH_BUFFER_CAPACITY)
    (all : insertChangedPaths set paths = some inserted) :
    Coarsens inserted.toList (set.toList ++ paths) ∧
      inserted.length ≤ SUBSCRIBER_PATH_BUFFER_CAPACITY := by
  induction paths generalizing set with
  | nil =>
    cases all
    rw [List.append_nil]
    exact ⟨Coarsens.of_mem fun _ => Iff.rfl, bounded⟩
  | cons path paths ih =>
    rw [insertChangedPaths] at all
    split at all
    · next retained =>
      obtain ⟨coarser, size⟩ := insertChangedPath_spec bounded retained
      obtain ⟨coarsest, last⟩ := ih size all
      refine ⟨coarsest.trans ?_, last⟩
      have both := coarser.append (Coarsens.refl paths)
      rw [List.append_assoc] at both
      exact both
    · cases all

/-- `FileWatcherEvent`. -/
structure FileWatcherEvent where
  paths : List PathBuf
  rescanRequired : Bool

/-- The event tells of a change at the path: it lists the path or one of its ancestors, or asks
    for a rescan. -/
def FileWatcherEvent.Tells (event : FileWatcherEvent) (path : PathBuf) : Prop :=
  event.rescanRequired = true ∨ ∃ kept ∈ event.paths, Covers kept path

/-- `PendingChanges` (`lib.rs:312`). -/
structure PendingChanges where
  paths : PathSet := OrderedMap.empty
  rescanRequired : Bool := false

namespace PendingChanges

def merge (pending : PendingChanges) (event : FileWatcherEvent) : PendingChanges :=
  if pending.rescanRequired || event.rescanRequired then { rescanRequired := true }
  else
    match insertChangedPaths pending.paths event.paths with
    | some paths => { paths }
    | none => { rescanRequired := true }

def isEmpty (pending : PendingChanges) : Bool :=
  pending.paths.toList.isEmpty && !pending.rescanRequired

/-- `take`: the event and what is pending afterwards. -/
def take (pending : PendingChanges) : Option FileWatcherEvent × PendingChanges :=
  if pending.isEmpty then (none, pending)
  else (some ⟨pending.paths.toList, pending.rescanRequired⟩, {})

/-- What is pending will tell of a change at the path. -/
def Holds (pending : PendingChanges) (path : PathBuf) : Prop :=
  pending.rescanRequired = true ∨ ∃ kept ∈ pending.paths.toList, Covers kept path

/-- Merging keeps every change that was pending or told. -/
theorem merge_spec {pending : PendingChanges} (event : FileWatcherEvent)
    (bounded : pending.paths.length ≤ SUBSCRIBER_PATH_BUFFER_CAPACITY) :
    (∀ path, pending.Holds path ∨ event.Tells path → (pending.merge event).Holds path) ∧
      (pending.merge event).paths.length ≤ SUBSCRIBER_PATH_BUFFER_CAPACITY ∧
      ∀ kept ∈ (pending.merge event).paths.toList,
        ∃ path ∈ pending.paths.toList ++ event.paths, Covers kept path := by
  have rescans : (∀ path, pending.Holds path ∨ event.Tells path →
        Holds { rescanRequired := true } path) ∧
      (OrderedMap.empty : PathSet).length ≤ SUBSCRIBER_PATH_BUFFER_CAPACITY ∧
      ∀ kept ∈ PathSet.toList (OrderedMap.empty : PathSet),
        ∃ path ∈ pending.paths.toList ++ event.paths, Covers kept path := by
    refine ⟨fun _ _ => .inl rfl, Nat.zero_le _, ?_⟩
    intro kept held
    cases held
  rw [merge]
  split
  · exact rescans
  next quiet =>
  rw [Bool.or_eq_true, not_or] at quiet
  split
  · next paths all =>
    obtain ⟨coarser, size⟩ := insertChangedPaths_spec bounded all
    refine ⟨?_, size, coarser.2⟩
    rintro path (held | told)
    · obtain ⟨kept, member, covers⟩ := held.resolve_left quiet.1
      obtain ⟨last, stands, above⟩ := coarser.1 kept (List.mem_append_left _ member)
      exact .inr ⟨last, stands, above.trans covers⟩
    · obtain ⟨kept, member, covers⟩ := told.resolve_left quiet.2
      obtain ⟨last, stands, above⟩ := coarser.1 kept (List.mem_append_right _ member)
      exact .inr ⟨last, stands, above.trans covers⟩
  · exact rescans

theorem not_holds_of_isEmpty {pending : PendingChanges} (empty : pending.isEmpty = true)
    (path : PathBuf) : ¬ pending.Holds path := by
  rw [isEmpty, Bool.and_eq_true, List.isEmpty_iff, Bool.not_eq_true'] at empty
  rintro (rescan | ⟨kept, member, -⟩)
  · rw [empty.2] at rescan
    cases rescan
  · rw [empty.1] at member
    cases member

/-- Either nothing is pending or all of it is told. -/
theorem take_spec (pending : PendingChanges) :
    (pending.isEmpty = true ∧ pending.take = (none, pending)) ∨
      ∃ event, pending.take = (some event, {}) ∧ event.paths = pending.paths.toList ∧
        ∀ path, pending.Holds path → event.Tells path := by
  rw [take]
  split
  · next empty => exact .inl ⟨empty, rfl⟩
  · exact .inr ⟨_, rfl, rfl, fun _ held => held⟩

end PendingChanges

end Codex.FileWatcher
