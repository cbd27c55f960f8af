import Mathlib

/-!
# Machine integers and finite maps

The release profile builds with `overflow-checks = false`, so unchecked arithmetic wraps.
Lengths and byte counters are `Nat` with the wrapping operation written out where a
counter could wrap; `u32` values are `UInt32`. Finite maps are Mathlib's `AList`.
-/

namespace Codex.Machine

/-- `usize::MAX` on a 64-bit target. -/
def USIZE_MAX : Nat := 2 ^ 64 - 1

/-- Wrapping `usize` subtraction on a 64-bit target. -/
def usizeSub (a b : Nat) : Nat := (a + 2 ^ 64 - b) % 2 ^ 64

theorem usizeSub_eq {a b : Nat} (le : b ≤ a) (bound : a < 2 ^ 64) : usizeSub a b = a - b := by
  unfold usizeSub
  omega

/-- Unchecked `usize` subtraction from a count of things in memory, of which there are less than
    `2 ^ 64`: it wraps below zero. -/
def countSub (a b : Nat) : Nat := if b ≤ a then a - b else a + 2 ^ 64 - b

theorem countSub_eq {a b : Nat} (le : b ≤ a) : countSub a b = a - b := if_pos le

/-- `u32::checked_add`. -/
def checkedAddU32 (a b : UInt32) : Option UInt32 :=
  if a.toNat + b.toNat < 2 ^ 32 then some (a + b) else none

theorem checkedAddU32_one_eq_some {a c : UInt32} (added : checkedAddU32 a 1 = some c) :
    c.toNat = a.toNat + 1 := by
  unfold checkedAddU32 at added
  split at added
  · next fits =>
    simp only [Option.some.injEq] at added
    subst added
    rw [UInt32.toNat_add]
    exact Nat.mod_eq_of_lt fits
  · cases added

theorem checkedAddU32_one_eq_none {a : UInt32} (full : checkedAddU32 a 1 = none) :
    a.toNat + 1 = 2 ^ 32 := by
  unfold checkedAddU32 at full
  split at full
  · cases full
  · next overflow =>
    have bound := a.toNat_lt
    have one : (1 : UInt32).toNat = 1 := rfl
    omega

/-- `u32::to_be_bytes` of `value as u32`. -/
def toBeBytes (value : Nat) : List UInt8 :=
  [UInt8.ofNat (value / 2 ^ 24), UInt8.ofNat (value / 2 ^ 16), UInt8.ofNat (value / 2 ^ 8),
    UInt8.ofNat value]

/-- `u32::from_be_bytes`, widened to `usize`. -/
def fromBeBytes (a b c d : UInt8) : Nat :=
  a.toNat * 2 ^ 24 + b.toNat * 2 ^ 16 + c.toNat * 2 ^ 8 + d.toNat

theorem fromBeBytes_toBeBytes {value : Nat} (fits : value < 2 ^ 32) :
    fromBeBytes (UInt8.ofNat (value / 2 ^ 24)) (UInt8.ofNat (value / 2 ^ 16))
      (UInt8.ofNat (value / 2 ^ 8)) (UInt8.ofNat value) = value := by
  simp only [fromBeBytes, UInt8.toNat_ofNat']
  omega

section Total

variable {α β : Type} [DecidableEq α]

/-- The sum of a measure over the values of a finite map. -/
def total (size : β → Nat) (map : AList (fun _ : α => β)) : Nat :=
  (map.entries.map (fun entry => size entry.2)).sum

variable {map : AList (fun _ : α => β)} {key : α} {value : β}

theorem total_insert (size : β → Nat)
    (absent : key ∉ map) : total size (map.insert key value) = size value + total size map := by
  rw [total, AList.entries_insert_of_notMem absent]
  simp [total]

/-- The entries of a map are that of a present key and the others. -/
theorem entries_perm_erase (found : map.lookup key = some value) :
    map.entries.Perm (⟨key, value⟩ :: (map.erase key).entries) := by
  have member : key ∈ map.entries.keys := by
    rw [← AList.keys, ← AList.mem_keys, ← AList.lookup_isSome, found]
    rfl
  obtain ⟨stored, before, after, -, split, erased⟩ := List.exists_of_kerase member
  have entry : (⟨key, value⟩ : Sigma fun _ : α => β) ∈ map.entries :=
    AList.mem_lookup_iff.mp found
  have storedEntry : (⟨key, stored⟩ : Sigma fun _ : α => β) ∈ map.entries := by
    rw [split]
    simp
  have same : stored = value :=
    List.NodupKeys.eq_of_mk_mem map.nodupKeys storedEntry entry
  have erasedEntries : (map.erase key).entries = before ++ after := erased
  rw [split, erasedEntries, same]
  exact List.perm_middle

theorem total_erase (size : β → Nat) (found : map.lookup key = some value) :
    total size map = size value + total size (map.erase key) := by
  have split := (entries_perm_erase found).map (fun entry => size entry.2)
  rw [total, split.sum_nat, List.map_cons, List.sum_cons, ← total]

/-- Erasing a present key removes exactly one entry. -/
theorem length_erase (found : map.lookup key = some value) :
    map.entries.length = (map.erase key).entries.length + 1 := by
  have counted := total_erase (fun _ => 1) found
  simp only [total, List.map_const', List.sum_replicate_nat] at counted
  omega

theorem total_insert_erase (size : β → Nat) (map : AList (fun _ : α => β)) (key : α) (value : β) :
    total size (map.insert key value) = size value + total size (map.erase key) := by
  rw [total, AList.entries_insert, List.map_cons, List.sum_cons]
  rfl

theorem length_insert_erase (map : AList (fun _ : α => β)) (key : α) (value : β) :
    (map.insert key value).entries.length = (map.erase key).entries.length + 1 := by
  rw [AList.entries_insert, List.length_cons]
  rfl

/-- Erasing an absent key changes nothing. -/
theorem erase_of_absent (absent : map.lookup key = none) : map.erase key = map := by
  have notMem : key ∉ map.entries.keys := by
    rw [← AList.keys, ← AList.mem_keys, ← AList.lookup_eq_none]
    exact absent
  exact AList.ext (List.kerase_of_notMem_keys notMem)

end Total

section Lookup

variable {α β : Type} [DecidableEq α]

theorem lookup_erase_eq (map : AList (fun _ : α => β)) (key other : α) :
    (map.erase key).lookup other = if other = key then none else map.lookup other := by
  by_cases same : other = key
  · rw [if_pos same, same, AList.lookup_erase]
  · rw [if_neg same, AList.lookup_erase_ne same]

theorem lookup_insert_eq (map : AList (fun _ : α => β)) (key other : α) (value : β) :
    (map.insert key value).lookup other = if other = key then some value else map.lookup other := by
  by_cases same : other = key
  · rw [if_pos same, same, AList.lookup_insert]
  · rw [if_neg same, AList.lookup_insert_ne same]

end Lookup

section Retain

variable {α β : Type} [DecidableEq α]

/-- `HashMap::retain`. -/
def retain (keep : α → β → Bool) (map : AList (fun _ : α => β)) : AList (fun _ : α => β) where
  entries := map.entries.filter (fun entry => keep entry.1 entry.2)
  nodupKeys := map.nodupKeys.sublist List.filter_sublist

theorem lookup_retain (keep : α → β → Bool) (map : AList (fun _ : α => β)) (key : α) :
    (retain keep map).lookup key = (map.lookup key).filter (keep key) := by
  apply Option.ext
  intro value
  rw [← Option.mem_def, AList.mem_lookup_iff, Option.filter_eq_some_iff]
  change _ ∈ map.entries.filter _ ↔ _
  rw [List.mem_filter, ← AList.mem_lookup_iff, Option.mem_def]

omit [DecidableEq α] in
/-- What is retained and what is not make up the whole. -/
theorem total_retain (size : β → Nat) (keep : α → β → Bool) (map : AList (fun _ : α => β)) :
    total size map = total size (retain keep map) +
      total size (retain (fun key value => !keep key value) map) := by
  unfold total retain
  dsimp only
  induction map.entries with
  | nil => rfl
  | cons entry entries ih =>
    cases kept : keep entry.1 entry.2 <;>
      simp only [List.filter_cons, List.map_cons, List.sum_cons, kept, ih, Bool.not_true,
        Bool.not_false, if_true, Bool.false_eq_true, if_false] <;>
      omega

omit [DecidableEq α] in
theorem length_retain_le (keep : α → β → Bool) (map : AList (fun _ : α => β)) :
    (retain keep map).entries.length ≤ map.entries.length :=
  List.length_filter_le _ _

/-- Successive wrapping subtractions do not wrap as long as their sum is there. -/
theorem foldl_usizeSub {sizes : List Nat} {start : Nat} (bound : start < 2 ^ 64)
    (enough : sizes.sum ≤ start) : sizes.foldl usizeSub start = start - sizes.sum := by
  induction sizes generalizing start with
  | nil => rfl
  | cons size sizes ih =>
    rw [List.sum_cons] at enough
    rw [List.foldl_cons, usizeSub_eq (by omega) bound, ih (by omega) (by omega), List.sum_cons]
    omega

/-- `HashMap::retain` with a predicate that changes the values it keeps. -/
def retainMut (change : α → β → Option β) (map : AList (fun _ : α => β)) :
    AList (fun _ : α => β) where
  entries := map.entries.filterMap (fun entry => (change entry.1 entry.2).map (Sigma.mk entry.1))
  nodupKeys := by
    refine List.Sublist.nodup ?_ map.nodupKeys
    generalize map.entries = entries
    induction entries with
    | nil => exact List.nil_sublist _
    | cons entry entries ih =>
      simp only [List.filterMap_cons, List.keys, List.map_cons]
      cases change entry.1 entry.2 with
      | none => exact ih.cons _
      | some value => exact ih.cons_cons _

theorem lookup_retainMut (change : α → β → Option β) (map : AList (fun _ : α => β)) (key : α) :
    (retainMut change map).lookup key = (map.lookup key).bind (change key) := by
  apply Option.ext
  intro value
  rw [← Option.mem_def, AList.mem_lookup_iff, Option.bind_eq_some_iff]
  change _ ∈ map.entries.filterMap _ ↔ _
  rw [List.mem_filterMap]
  refine ⟨?_, ?_⟩
  · rintro ⟨⟨other, old⟩, member, changed⟩
    obtain ⟨new, isNew, same⟩ := Option.map_eq_some_iff.mp changed
    cases same
    exact ⟨old, AList.mem_lookup_iff.mpr member, isNew⟩
  · rintro ⟨old, found, changed⟩
    exact ⟨⟨key, old⟩, AList.mem_lookup_iff.mp found, by rw [changed]; rfl⟩

omit [DecidableEq α] in
/-- What is left of each value and what is taken from it make up the whole. -/
theorem total_retainMut (size taken : β → Nat) (change : α → β → Option β)
    (map : AList (fun _ : α => β))
    (each : ∀ key value, size value = ((change key value).map size).getD 0 + taken value) :
    total size map = total size (retainMut change map) + total taken map := by
  unfold total retainMut
  dsimp only
  induction map.entries with
  | nil => rfl
  | cons entry entries ih =>
    have whole := each entry.1 entry.2
    rw [List.filterMap_cons, List.map_cons, List.sum_cons, ih, List.map_cons, List.sum_cons]
    cases changed : change entry.1 entry.2 with
    | none =>
      rw [changed] at whole
      simp only [Option.map_none, Option.getD_none] at whole ⊢
      omega
    | some value =>
      rw [changed] at whole
      simp only [Option.map_some, Option.getD_some, List.map_cons, List.sum_cons] at whole ⊢
      omega

end Retain

end Codex.Machine
