import Mathlib

/-!
# Ordered maps

A map kept as its entries in ascending key order, with the order as a field. Iteration is over
the entries; a map is determined by what it holds under each key.
-/

namespace Codex

structure OrderedMap (α β : Type) [LinearOrder α] where
  entries : List (α × β)
  sorted : (entries.map Prod.fst).Pairwise (· < ·)

namespace OrderedMap

variable {α β : Type} [LinearOrder α]

instance [DecidableEq β] : DecidableEq (OrderedMap α β) := fun left right =>
  decidable_of_iff (left.entries = right.entries) ⟨fun same => by
    cases left
    cases right
    cases same
    rfl, fun same => same ▸ rfl⟩

def empty : OrderedMap α β := ⟨[], List.Pairwise.nil⟩

def keys (map : OrderedMap α β) : List α := map.entries.map Prod.fst

def values (map : OrderedMap α β) : List β := map.entries.map Prod.snd

def length (map : OrderedMap α β) : Nat := map.entries.length

/-- The value of the first entry with a key. -/
def find (key : α) : List (α × β) → Option β
  | [] => none
  | entry :: entries => if entry.1 = key then some entry.2 else find key entries

def get (map : OrderedMap α β) (key : α) : Option β := find key map.entries

variable {key : α} {value : β} {entries : List (α × β)} {map : OrderedMap α β} {entry : α × β}

theorem mem_of_find (found : find key entries = some value) : (key, value) ∈ entries := by
  induction entries with
  | nil => cases found
  | cons entry entries ih =>
    rw [find] at found
    split at found
    · next same =>
      simp only [Option.some.injEq] at found
      subst same found
      exact List.mem_cons_self
    · exact List.mem_cons_of_mem _ (ih found)

theorem find_of_mem (sorted : (entries.map Prod.fst).Pairwise (· < ·))
    (member : (key, value) ∈ entries) :
    find key entries = some value := by
  induction entries with
  | nil => cases member
  | cons entry entries ih =>
    obtain ⟨below, rest⟩ := List.pairwise_cons.mp sorted
    rw [find]
    rcases List.mem_cons.mp member with same | later
    · subst same
      exact if_pos rfl
    · have less := below key (List.mem_map_of_mem later)
      rw [if_neg (ne_of_lt less), ih rest later]

theorem get_eq_some_iff :
    map.get key = some value ↔ (key, value) ∈ map.entries :=
  ⟨mem_of_find, find_of_mem map.sorted⟩

theorem mem_keys_iff :
    key ∈ map.keys ↔ (map.get key).isSome = true := by
  rw [Option.isSome_iff_exists, keys, List.mem_map]
  refine ⟨?_, ?_⟩
  · rintro ⟨⟨other, value⟩, member, rfl⟩
    exact ⟨value, get_eq_some_iff.mpr member⟩
  · rintro ⟨value, found⟩
    exact ⟨(key, value), get_eq_some_iff.mp found, rfl⟩

theorem get_eq_none_iff :
    map.get key = none ↔ key ∉ map.keys := by
  rw [mem_keys_iff, Option.not_isSome_iff_eq_none]

theorem nodup_keys (map : OrderedMap α β) : map.keys.Nodup := map.sorted.imp ne_of_lt

/-- Maps that hold the same under each key are the same. -/
theorem ext_get {left right : OrderedMap α β} (same : ∀ key, left.get key = right.get key) :
    left = right := by
  have nodup : ∀ map : OrderedMap α β, map.entries.Nodup := fun map =>
    List.Nodup.of_map Prod.fst map.nodup_keys
  have perm : left.entries.Perm right.entries := by
    rw [List.perm_ext_iff_of_nodup (nodup left) (nodup right)]
    rintro ⟨key, value⟩
    rw [← get_eq_some_iff, ← get_eq_some_iff, same]
  have equal : left.entries = right.entries := by
    refine List.Perm.eq_of_pairwise ?_ (List.pairwise_map.mp left.sorted)
      (List.pairwise_map.mp right.sorted) perm
    intro first second _ _ forth back
    exact absurd (lt_trans forth back) (lt_irrefl _)
  obtain ⟨entries, sorted⟩ := left
  obtain ⟨others, otherSorted⟩ := right
  dsimp only at equal
  subst equal
  rfl

/-- The entries with one more, or another under its key. -/
def insertEntry (key : α) (value : β) : List (α × β) → List (α × β)
  | [] => [(key, value)]
  | entry :: entries =>
      if key < entry.1 then (key, value) :: entry :: entries
      else if key = entry.1 then (key, value) :: entries
      else entry :: insertEntry key value entries

theorem find_insertEntry (key other : α) (value : β) (entries : List (α × β)) :
    find other (insertEntry key value entries) =
      if other = key then some value else find other entries := by
  induction entries with
  | nil =>
    simp only [insertEntry, find]
    grind
  | cons entry entries ih =>
    simp only [insertEntry]
    split
    · simp only [find]
      grind
    · split
      · simp only [find]
        grind
      · simp only [find, ih]
        grind

theorem mem_insertEntry
    (member : entry ∈ insertEntry key value entries) : entry = (key, value) ∨ entry ∈ entries := by
  induction entries with
  | nil => exact .inl (List.mem_singleton.mp member)
  | cons first entries ih =>
    rw [insertEntry] at member
    split at member
    · exact List.mem_cons.mp member
    split at member
    · rcases List.mem_cons.mp member with same | later
      · exact .inl same
      · exact .inr (List.mem_cons_of_mem _ later)
    · rcases List.mem_cons.mp member with same | later
      · exact .inr (same ▸ List.mem_cons_self)
      · rcases ih later with same | old
        · exact .inl same
        · exact .inr (List.mem_cons_of_mem _ old)

theorem sorted_insertEntry (sorted : (entries.map Prod.fst).Pairwise (· < ·)) (key : α)
    (value : β) :
    ((insertEntry key value entries).map Prod.fst).Pairwise (· < ·) := by
  induction entries with
  | nil => exact List.pairwise_singleton _ _
  | cons entry entries ih =>
    obtain ⟨below, rest⟩ := List.pairwise_cons.mp sorted
    rw [insertEntry]
    split
    · next less =>
      refine List.pairwise_cons.mpr ⟨?_, sorted⟩
      intro other member
      rcases List.mem_cons.mp member with same | later
      · exact same ▸ less
      · exact lt_trans less (below other later)
    split
    · next same =>
      subst same
      exact List.pairwise_cons.mpr ⟨below, rest⟩
    next notLess different =>
    refine List.pairwise_cons.mpr ⟨?_, ih rest⟩
    intro other member
    obtain ⟨inserted, isMember, rfl⟩ := List.mem_map.mp member
    rcases mem_insertEntry isMember with same | old
    · rw [same]
      exact lt_of_le_of_ne (not_lt.mp notLess) (Ne.symm different)
    · exact below inserted.1 (List.mem_map_of_mem old)

theorem length_insertEntry (absent : key ∉ entries.map Prod.fst) (value : β) :
    (insertEntry key value entries).length = entries.length + 1 := by
  induction entries with
  | nil => rfl
  | cons entry entries ih =>
    simp only [List.map_cons, List.mem_cons, not_or] at absent
    rw [insertEntry]
    split
    · rfl
    · rw [if_neg absent.1, List.length_cons, ih absent.2, List.length_cons]

theorem length_insertEntry_of_mem (sorted : (entries.map Prod.fst).Pairwise (· < ·))
    (present : key ∈ entries.map Prod.fst)
    (value : β) : (insertEntry key value entries).length = entries.length := by
  induction entries with
  | nil => cases present
  | cons entry entries ih =>
    obtain ⟨below, rest⟩ := List.pairwise_cons.mp sorted
    rw [insertEntry]
    by_cases less : key < entry.1
    · rcases List.mem_cons.mp present with same | later
      · exact absurd same (ne_of_lt less)
      · exact absurd (below key later) (not_lt_of_gt less)
    rw [if_neg less]
    by_cases same : key = entry.1
    · rw [if_pos same]
      rfl
    · rw [if_neg same, List.length_cons, List.length_cons]
      rcases List.mem_cons.mp present with isFirst | later
      · exact absurd isFirst same
      · rw [ih rest later]

def insert (map : OrderedMap α β) (key : α) (value : β) : OrderedMap α β :=
  ⟨insertEntry key value map.entries, sorted_insertEntry map.sorted key value⟩

theorem get_insert (map : OrderedMap α β) (key other : α) (value : β) :
    (map.insert key value).get other = if other = key then some value else map.get other :=
  find_insertEntry key other value map.entries

theorem length_insert (absent : map.get key = none) (value : β) :
    (map.insert key value).length = map.length + 1 :=
  length_insertEntry (get_eq_none_iff.mp absent) value

theorem length_insert_of_get {old : β} (found : map.get key = some old)
    (value : β) : (map.insert key value).length = map.length := by
  apply length_insertEntry_of_mem map.sorted
  exact mem_keys_iff.mpr (by rw [found]; rfl)

theorem length_insert_le (map : OrderedMap α β) (key : α) (value : β) :
    (map.insert key value).length ≤ map.length + 1 := by
  cases found : map.get key with
  | none => exact le_of_eq (length_insert found value)
  | some old =>
    rw [length_insert_of_get found]
    exact Nat.le_succ _

/-- The map of some entries, later ones winning. -/
def ofList (entries : List (α × β)) : OrderedMap α β :=
  entries.foldl (fun map entry => map.insert entry.1 entry.2) empty

/-- A value of a map that some entries were inserted into is one of theirs or an old one. -/
theorem get_insertAll
    (found : (entries.foldl (fun map entry => map.insert entry.1 entry.2) map).get key =
      some value) : (key, value) ∈ entries ∨ map.get key = some value := by
  induction entries generalizing map with
  | nil => exact .inr found
  | cons entry entries ih =>
    rcases ih found with member | old
    · exact .inl (List.mem_cons_of_mem _ member)
    rw [get_insert] at old
    split at old
    · next same =>
      cases old
      exact .inl (same ▸ List.mem_cons_self)
    · exact .inr old

theorem isSome_insertAll (held : key ∈ entries.map Prod.fst ∨ (map.get key).isSome = true) :
    ((entries.foldl (fun map entry => map.insert entry.1 entry.2) map).get key).isSome = true := by
  induction entries generalizing map with
  | nil =>
    rcases held with member | old
    · cases member
    · exact old
  | cons entry entries ih =>
    rw [List.foldl_cons]
    apply ih
    rw [get_insert]
    by_cases same : key = entry.1
    · rw [if_pos same]
      exact .inr rfl
    rw [if_neg same]
    rcases held with member | old
    · rcases List.mem_cons.mp member with isFirst | later
      · exact absurd isFirst same
      · exact .inl later
    · exact .inr old

theorem length_insertAll_le (entries : List (α × β)) (map : OrderedMap α β) :
    (entries.foldl (fun map entry => map.insert entry.1 entry.2) map).length ≤
      map.length + entries.length := by
  induction entries generalizing map with
  | nil => exact le_refl _
  | cons entry entries ih =>
    rw [List.foldl_cons, List.length_cons]
    have first := length_insert_le map entry.1 entry.2
    have rest := ih (map.insert entry.1 entry.2)
    omega

theorem mem_of_get_ofList
    (found : (ofList entries).get key = some value) : (key, value) ∈ entries := by
  rcases get_insertAll found with member | old
  · exact member
  · cases old

theorem isSome_get_ofList
    (member : key ∈ entries.map Prod.fst) : ((ofList entries).get key).isSome = true :=
  isSome_insertAll (.inl member)

theorem length_ofList_le (entries : List (α × β)) : (ofList entries).length ≤ entries.length := by
  have le := length_insertAll_le entries (empty : OrderedMap α β)
  rwa [show (empty : OrderedMap α β).length = 0 from rfl, Nat.zero_add] at le

/-- The entries under some keys. -/
def retain (map : OrderedMap α β) (keep : α → Bool) : OrderedMap α β :=
  ⟨map.entries.filter fun entry => keep entry.1,
    List.Pairwise.sublist (List.filter_sublist.map _) map.sorted⟩

theorem get_retain (map : OrderedMap α β) (keep : α → Bool) (key : α) :
    (map.retain keep).get key = if keep key then map.get key else none := by
  refine Option.ext fun value => ?_
  rw [get_eq_some_iff, retain]
  dsimp only
  rw [List.mem_filter, ← get_eq_some_iff]
  by_cases kept : keep key = true
  · simp [kept]
  · simp [kept]

def remove (map : OrderedMap α β) (key : α) : OrderedMap α β := map.retain fun other => other ≠ key

theorem get_remove (map : OrderedMap α β) (key other : α) :
    (map.remove key).get other = if other = key then none else map.get other := by
  rw [remove, get_retain]
  by_cases same : other = key
  · simp [same]
  · simp [same]

/-- A removal takes one entry. -/
theorem length_remove
    (found : map.get key = some value) : (map.remove key).length + 1 = map.length := by
  have one : map.keys.countP (fun other => decide (other = key)) = 1 := by
    have count := List.count_eq_one_of_mem map.nodup_keys
      (mem_keys_iff.mpr (by rw [found]; rfl) : key ∈ map.keys)
    rw [List.count_eq_countP] at count
    rw [← count]
    refine List.countP_congr fun other _ => ?_
    simp
  have entries : map.entries.countP (fun entry => decide (entry.1 = key)) = 1 := by
    rw [keys, List.countP_map] at one
    exact one
  have whole := @List.length_eq_countP_add_countP _ (fun entry => decide (entry.1 = key)) map.entries
  rw [length, length, remove, retain]
  dsimp only
  rw [← List.countP_eq_length_filter, whole, entries, Nat.add_comm]
  congr 1
  refine List.countP_congr fun entry _ => ?_
  simp

/-- Another value under each key. -/
def mapValues {γ : Type} (map : OrderedMap α β) (f : α → β → γ) : OrderedMap α γ :=
  ⟨map.entries.map fun entry => (entry.1, f entry.1 entry.2), by
    have keys : (map.entries.map fun entry => (entry.1, f entry.1 entry.2)).map Prod.fst =
        map.entries.map Prod.fst := by
      rw [List.map_map]
      rfl
    rw [keys]
    exact map.sorted⟩

theorem get_mapValues {γ : Type} (map : OrderedMap α β) (f : α → β → γ) (key : α) :
    (map.mapValues f).get key = (map.get key).map (f key) := by
  rw [get, get, mapValues]
  dsimp only
  generalize map.entries = entries
  induction entries with
  | nil => rfl
  | cons entry rest ih =>
    rw [List.map_cons, find, find]
    by_cases same : entry.1 = key
    · subst same
      rw [if_pos rfl, if_pos rfl, Option.map_some]
    · rw [if_neg same, if_neg same, ih]

theorem mem_values_iff :
    value ∈ map.values ↔ ∃ key, map.get key = some value := by
  rw [values, List.mem_map]
  refine ⟨?_, ?_⟩
  · rintro ⟨⟨key, other⟩, member, rfl⟩
    exact ⟨key, get_eq_some_iff.mpr member⟩
  · rintro ⟨key, found⟩
    exact ⟨(key, value), get_eq_some_iff.mp found, rfl⟩

/-- The entry with the least key. -/
def first (map : OrderedMap α β) : Option (α × β) := map.entries.head?

theorem first_le (isFirst : map.first = some entry) (member : key ∈ map.keys) : entry.1 ≤ key := by
  obtain ⟨entries, sorted⟩ := map
  cases entries with
  | nil => cases isFirst
  | cons head rest =>
    simp only [first, List.head?_cons, Option.some.injEq] at isFirst
    subst isFirst
    rcases List.mem_cons.mp member with same | later
    · exact le_of_eq same.symm
    · exact le_of_lt ((List.pairwise_cons.mp sorted).1 key later)

theorem first_eq_none (isFirst : map.first = none) (key : α) :
    key ∉ map.keys := by
  rw [first, List.head?_eq_none_iff] at isFirst
  rw [keys, isFirst]
  exact List.not_mem_nil

theorem first_mem (isFirst : map.first = some entry) :
    map.get entry.1 = some entry.2 :=
  get_eq_some_iff.mpr (List.mem_of_head? isFirst)

end OrderedMap

end Codex
