import Codex.Lib.Json

/-!
# TOML values

Tables are kept with their entries sorted by key. A path leads through the keys of tables and the
positions of arrays, and ends at a scalar at a leaf.
-/

namespace Codex

theorem Fields.mem_insert {β : Type} {name : String} {value : β} {fields : List (String × β)}
    {field : String × β} (member : field ∈ Fields.insert name value fields) :
    field = (name, value) ∨ field ∈ fields := by
  induction fields with
  | nil => exact .inl (List.mem_singleton.mp member)
  | cons first fields ih =>
    rw [Fields.insert] at member
    split at member
    · exact List.mem_cons.mp member
    · split at member
      · exact (List.mem_cons.mp member).imp_right (List.mem_cons_of_mem _)
      · rcases List.mem_cons.mp member with same | later
        · exact .inr (same ▸ List.mem_cons_self)
        · exact (ih later).imp_right (List.mem_cons_of_mem _)

/-- `toml::Value`. -/
inductive Toml where
  | string (text : String)
  | integer (value : Int)
  | float (bits : Nat)
  | boolean (value : Bool)
  | datetime (text : String)
  | array (items : List Toml)
  | table (entries : List (String × Toml))

/-- A step of a path. -/
inductive TomlComponent where
  | key (name : String)
  | index (position : Nat)
  deriving DecidableEq, Repr

namespace Toml

open TomlComponent

/-- A value that is no container. -/
def isScalar : Toml → Bool
  | table _ | array _ => false
  | string _ | integer _ | float _ | boolean _ | datetime _ => true

def isTable : Toml → Bool
  | table _ => true
  | array _ | string _ | integer _ | float _ | boolean _ | datetime _ => false

/-- `Value::as_bool`. -/
def asBool : Toml → Option Bool
  | boolean value => some value
  | table _ | array _ | string _ | integer _ | float _ | datetime _ => none

def entriesOf : Toml → List (String × Toml)
  | table entries => entries
  | array _ | string _ | integer _ | float _ | boolean _ | datetime _ => []

def itemsOf : Toml → List Toml
  | array items => items
  | table _ | string _ | integer _ | float _ | boolean _ | datetime _ => []

/-- `Value::get` of a string, which only a table has. -/
def get (value : Toml) (key : String) : Option Toml := Fields.get key value.entriesOf

def child (value : Toml) : TomlComponent → Option Toml
  | key name => value.get name
  | index position => value.itemsOf[position]?

/-- The value at a path. -/
def at? (value : Toml) : List TomlComponent → Option Toml
  | [] => some value
  | component :: path => (value.child component).bind fun inner => inner.at? path

/-- The scalar at a path. -/
def leafAt (value : Toml) (path : List TomlComponent) : Option Toml :=
  (value.at? path).filter isScalar

mutual

/-- The keys of every table ascend. -/
def Canonical : Toml → Prop
  | string _ | integer _ | float _ | boolean _ | datetime _ => True
  | array items => CanonicalItems items
  | table entries => Fields.Sorted entries ∧ CanonicalEntries entries

def CanonicalItems : List Toml → Prop
  | [] => True
  | item :: items => Canonical item ∧ CanonicalItems items

def CanonicalEntries : List (String × Toml) → Prop
  | [] => True
  | (_, value) :: entries => Canonical value ∧ CanonicalEntries entries

end

theorem canonicalEntries_iff {entries : List (String × Toml)} :
    CanonicalEntries entries ↔ ∀ entry ∈ entries, entry.2.Canonical := by
  induction entries with
  | nil => simp only [CanonicalEntries, List.not_mem_nil, false_imp_iff, implies_true]
  | cons entry entries ih => rw [CanonicalEntries, ih, List.forall_mem_cons]

theorem canonicalItems_iff {items : List Toml} :
    CanonicalItems items ↔ ∀ item ∈ items, item.Canonical := by
  induction items with
  | nil => simp only [CanonicalItems, List.not_mem_nil, false_imp_iff, implies_true]
  | cons item items ih => rw [CanonicalItems, ih, List.forall_mem_cons]

variable {value : Toml}

theorem Canonical.get {inner : Toml} (canonical : value.Canonical) {name : String}
    (found : value.get name = some inner) : inner.Canonical := by
  cases value with
  | table entries =>
    rw [Canonical, canonicalEntries_iff] at canonical
    exact canonical.2 _ (Fields.mem_of_get_eq_some found)
  | string _ | integer _ | float _ | boolean _ | datetime _ | array _ => cases found

theorem at?_append (value : Toml) (first second : List TomlComponent) :
    value.at? (first ++ second) = (value.at? first).bind fun inner => inner.at? second := by
  induction first generalizing value with
  | nil => rfl
  | cons component first ih =>
    rw [List.cons_append, at?, at?, Option.bind_assoc]
    congr 1
    funext inner
    exact ih inner

theorem leafAt_eq_some {leaf : Toml} {path : List TomlComponent} :
    value.leafAt path = some leaf ↔ value.at? path = some leaf ∧ leaf.isScalar = true := by
  rw [leafAt, Option.filter_eq_some_iff]

@[simp]
theorem leafAt_nil (value : Toml) :
    value.leafAt [] = if value.isScalar then some value else none := by
  rw [leafAt, at?, Option.filter_some]

theorem leafAt_cons (value : Toml) (component : TomlComponent) (path : List TomlComponent) :
    value.leafAt (component :: path) =
      (value.child component).bind fun inner => inner.leafAt path := by
  rw [leafAt, at?]
  cases value.child component <;> rfl

/-- A scalar has nothing inside. -/
theorem child_of_scalar (scalar : value.isScalar = true)
    (component : TomlComponent) : value.child component = none := by
  cases component <;> cases value <;> first | rfl | cases scalar

theorem leafAt_of_scalar {leaf : Toml} (scalar : value.isScalar = true)
    {path : List TomlComponent} : value.leafAt path = some leaf ↔ (path, leaf) ∈ [([], value)] := by
  rw [List.mem_singleton, Prod.mk.injEq]
  cases path with
  | nil =>
    rw [leafAt_nil, if_pos scalar, Option.some.injEq]
    exact ⟨fun same => ⟨rfl, same.symm⟩, fun both => both.2.symm⟩
  | cons component path =>
    rw [leafAt_cons, child_of_scalar scalar, Option.bind_none]
    exact iff_of_false (fun found => by cases found) (fun both => by cases both.1)

mutual

/-- The scalars of a value and their paths, in order. -/
def leaves : Toml → List (List TomlComponent × Toml)
  | table entries => leavesOfEntries entries
  | array items => leavesOfItems 0 items
  | string text => [([], string text)]
  | integer value => [([], integer value)]
  | float bits => [([], float bits)]
  | boolean value => [([], boolean value)]
  | datetime text => [([], datetime text)]

def leavesOfEntries : List (String × Toml) → List (List TomlComponent × Toml)
  | [] => []
  | (name, value) :: entries =>
      (leaves value).map (fun leaf => (key name :: leaf.1, leaf.2)) ++ leavesOfEntries entries

def leavesOfItems (position : Nat) : List Toml → List (List TomlComponent × Toml)
  | [] => []
  | item :: items =>
      (leaves item).map (fun leaf => (index position :: leaf.1, leaf.2)) ++
        leavesOfItems (position + 1) items

end

mutual

theorem mem_leaves_iff : (value : Toml) → value.Canonical → {path : List TomlComponent} →
    {leaf : Toml} → ((path, leaf) ∈ leaves value ↔ value.leafAt path = some leaf)
  | table entries, canonical, path, leaf => by
    rw [leaves, mem_leavesOfEntries_iff entries canonical.1 (canonicalEntries_iff.mp canonical.2)]
    cases path with
    | nil => simp [isScalar]
    | cons component path =>
      rw [leafAt_cons]
      cases component with
      | key name => simp [child, get, entriesOf]
      | index position => simp [child, itemsOf]
  | array items, canonical, path, leaf => by
    rw [leaves, mem_leavesOfItems_iff items 0 (canonicalItems_iff.mp canonical)]
    cases path with
    | nil => simp [isScalar]
    | cons component path =>
      rw [leafAt_cons]
      cases component with
      | key name => simp [child, get, entriesOf, Fields.get]
      | index position => simp [child, itemsOf]
  | string _, _, _, _ | integer _, _, _, _ | float _, _, _, _ | boolean _, _, _, _
  | datetime _, _, _, _ => by
    rw [leaves]
    exact (leafAt_of_scalar rfl).symm

theorem mem_leavesOfEntries_iff : (entries : List (String × Toml)) → Fields.Sorted entries →
    (∀ entry ∈ entries, entry.2.Canonical) → {path : List TomlComponent} → {leaf : Toml} →
    ((path, leaf) ∈ leavesOfEntries entries ↔ ∃ name rest, path = key name :: rest ∧
      ((Fields.get name entries).bind fun inner => inner.leafAt rest) = some leaf)
  | [], _, _, path, leaf => by simp [leavesOfEntries, Fields.get]
  | (name, value) :: entries, sorted, canonical, path, leaf => by
    obtain ⟨below, rest⟩ := List.pairwise_cons.mp sorted
    obtain ⟨first, later⟩ := List.forall_mem_cons.mp canonical
    rw [leavesOfEntries, List.mem_append, mem_leavesOfEntries_iff entries rest later]
    constructor
    · rintro (inFirst | ⟨other, tail, isPath, found⟩)
      · obtain ⟨⟨tail, found⟩, member, same⟩ := List.mem_map.mp inFirst
        rw [Prod.mk.injEq] at same
        refine ⟨name, tail, same.1.symm, ?_⟩
        rw [Fields.get, if_pos rfl, Option.bind_some, (mem_leaves_iff value first).mp member]
        exact congrArg some same.2
      refine ⟨other, tail, isPath, ?_⟩
      have different : name ≠ other := by
        rintro rfl
        obtain ⟨inner, isInner, _⟩ := Option.bind_eq_some_iff.mp found
        have member := List.mem_map_of_mem (f := Prod.fst) (Fields.mem_of_get_eq_some isInner)
        exact absurd (below _ member) (lt_irrefl _)
      rw [Fields.get, if_neg different]
      exact found
    · rintro ⟨other, tail, rfl, found⟩
      rw [Fields.get] at found
      by_cases same : name = other
      · rw [if_pos same, Option.bind_some] at found
        refine .inl (List.mem_map.mpr ⟨(tail, leaf), (mem_leaves_iff value first).mpr found, ?_⟩)
        rw [same]
      · rw [if_neg same] at found
        exact .inr ⟨other, tail, rfl, found⟩

theorem mem_leavesOfItems_iff : (items : List Toml) → (position : Nat) →
    (∀ item ∈ items, item.Canonical) → {path : List TomlComponent} → {leaf : Toml} →
    ((path, leaf) ∈ leavesOfItems position items ↔ ∃ offset rest,
      path = index (position + offset) :: rest ∧
      ((items[offset]?).bind fun inner => inner.leafAt rest) = some leaf)
  | [], position, _, path, leaf => by simp [leavesOfItems]
  | item :: items, position, canonical, path, leaf => by
    obtain ⟨first, later⟩ := List.forall_mem_cons.mp canonical
    rw [leavesOfItems, List.mem_append, mem_leavesOfItems_iff items (position + 1) later]
    constructor
    · rintro (inFirst | ⟨offset, tail, isPath, found⟩)
      · obtain ⟨⟨tail, found⟩, member, same⟩ := List.mem_map.mp inFirst
        rw [Prod.mk.injEq] at same
        refine ⟨0, tail, same.1.symm, ?_⟩
        rw [List.getElem?_cons_zero, Option.bind_some, (mem_leaves_iff item first).mp member]
        exact congrArg some same.2
      · refine ⟨offset + 1, tail, by rw [isPath, Nat.add_assoc, Nat.add_comm 1], ?_⟩
        rw [List.getElem?_cons_succ]
        exact found
    rintro ⟨offset, tail, rfl, found⟩
    cases offset with
    | zero =>
      rw [List.getElem?_cons_zero, Option.bind_some] at found
      exact .inl (List.mem_map.mpr ⟨(tail, leaf), (mem_leaves_iff item first).mpr found, rfl⟩)
    | succ offset =>
      rw [List.getElem?_cons_succ] at found
      exact .inr ⟨offset, tail, by rw [Nat.add_assoc, Nat.add_comm 1], found⟩

end

end Toml

end Codex
