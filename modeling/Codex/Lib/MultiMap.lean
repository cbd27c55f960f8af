import Codex.Lib.Machine

/-!
# Maps with several values for a key

A finite map from keys to lists of values. The order of its entries stands for the order in
which a hash map happens to iterate, so facts about the values of a whole map are stated up to
a permutation.
-/

namespace Codex

variable {α β : Type} [DecidableEq α]

abbrev MultiMap (α β : Type) := AList (fun _ : α => List β)

namespace MultiMap

def getVec (map : MultiMap α β) (key : α) : Option (List β) := AList.lookup key map

/-- The values of a key. -/
def valuesAt (map : MultiMap α β) (key : α) : List β := (map.getVec key).getD []

def push (map : MultiMap α β) (key : α) (value : β) : MultiMap α β :=
  AList.insert key (map.valuesAt key ++ [value]) map

/-- The values of all keys. -/
def values (map : MultiMap α β) : List β := map.entries.flatMap (·.2)

/-- The entries in the order of one iteration. -/
def Iteration (map : MultiMap α β) : Type :=
  { visited : List (Sigma fun _ : α => List β) // visited.Perm map.entries }

theorem valuesAt_push (map : MultiMap α β) (key other : α) (value : β) :
    (map.push key value).valuesAt other =
      if other = key then map.valuesAt key ++ [value] else map.valuesAt other := by
  rw [valuesAt, getVec, push, Machine.lookup_insert_eq]
  split <;> rfl

theorem values_perm_erase (map : MultiMap α β) (key : α) :
    map.values.Perm (map.valuesAt key ++ values (map.erase key)) := by
  cases found : AList.lookup key map with
  | none =>
    have absent : key ∉ map := AList.lookup_eq_none.mp found
    have same : (map.erase key).entries = map.entries := List.kerase_of_notMem_keys absent
    rw [valuesAt, getVec, found, values, values, same]
    exact .refl _
  | some stored =>
    rw [valuesAt, getVec, found]
    exact (Machine.entries_perm_erase found).flatMap_right _

theorem values_push (map : MultiMap α β) (key : α) (value : β) :
    (map.push key value).values.Perm (map.values ++ [value]) := by
  have split := values_perm_erase map key
  have pushed : (map.push key value).values =
      map.valuesAt key ++ [value] ++ values (map.erase key) := by
    rw [push, values, AList.entries_insert, List.flatMap_cons]
    rfl
  rw [pushed, List.append_assoc]
  refine (List.Perm.append_left _ List.perm_append_comm).trans ?_
  rw [← List.append_assoc]
  exact split.symm.append_right _

/-- Values that know their key are found under it. -/
theorem valuesAt_perm_filter {map : MultiMap α β} {keyOf : β → α}
    (own : ∀ entry ∈ map.entries, ∀ value ∈ entry.2, keyOf value = entry.1) (key : α) :
    (map.valuesAt key).Perm (map.values.filter (fun value => keyOf value = key)) := by
  have here : ∀ value ∈ map.valuesAt key, keyOf value = key := by
    intro value member
    cases found : AList.lookup key map with
    | none =>
      rw [valuesAt, getVec, found] at member
      cases member
    | some stored =>
      rw [valuesAt, getVec, found] at member
      exact own ⟨key, stored⟩ (AList.mem_lookup_iff.mp found) value member
  have elsewhere : ∀ value ∈ values (map.erase key), keyOf value ≠ key := by
    intro value member same
    obtain ⟨entry, inside, member⟩ := List.mem_flatMap.mp member
    have kept : entry ∈ map.entries := (List.kerase_sublist key map.entries).subset inside
    have erased : entry.1 ∈ map.erase key := List.mem_keys_of_mem inside
    rw [AList.mem_erase] at erased
    exact erased.1 (by rw [← own entry kept value member, same])
  have split := (values_perm_erase map key).filter (fun value => keyOf value = key)
  have all : (map.valuesAt key).filter (fun value => keyOf value = key) = map.valuesAt key :=
    List.filter_eq_self.mpr (by simpa using here)
  have none : (values (map.erase key)).filter (fun value => keyOf value = key) = [] :=
    List.filter_eq_nil_iff.mpr (by simpa using elsewhere)
  rw [List.filter_append, all, none, List.append_nil] at split
  exact split.symm

end MultiMap

end Codex
