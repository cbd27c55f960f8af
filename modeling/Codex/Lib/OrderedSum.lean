import Codex.Lib.OrderedMap

/-!
# Sums over ordered maps

A number for every entry, added up. Insertion and removal change the sum by the number of the
entry they touch.
-/

namespace Codex.OrderedMap

variable {α β : Type} [LinearOrder α]

def sum (weight : α → β → Nat) (map : OrderedMap α β) : Nat :=
  (map.entries.map fun entry => weight entry.1 entry.2).sum

theorem sum_insertEntry (weight : α → β → Nat) {key : α} (value : β) {entries : List (α × β)}
    (sorted : (entries.map Prod.fst).Pairwise (· < ·)) :
    ((insertEntry key value entries).map fun entry => weight entry.1 entry.2).sum +
        ((find key entries).map (weight key)).getD 0 =
      (entries.map fun entry => weight entry.1 entry.2).sum + weight key value := by
  induction entries with
  | nil => simp [insertEntry, find]
  | cons entry entries ih =>
    obtain ⟨below, rest⟩ := List.pairwise_cons.mp sorted
    have absent : key < entry.1 → find key entries = none := by
      intro less
      cases found : find key entries with
      | none => rfl
      | some old =>
        have later := below key (List.mem_map_of_mem (mem_of_find found))
        exact absurd (lt_trans less later) (lt_irrefl _)
    rw [insertEntry, find]
    split
    · next less =>
      rw [if_neg (ne_of_gt less), absent less]
      simp only [List.map_cons, List.sum_cons, Option.map_none, Option.getD_none]
      omega
    split
    · next same =>
      subst same
      rw [if_pos rfl]
      simp only [List.map_cons, List.sum_cons, Option.map_some, Option.getD_some]
      omega
    · next different =>
      rw [if_neg (Ne.symm different)]
      have inner := ih rest
      simp only [List.map_cons, List.sum_cons]
      omega

theorem sum_insert (weight : α → β → Nat) (map : OrderedMap α β) (key : α) (value : β) :
    (map.insert key value).sum weight + ((map.get key).map (weight key)).getD 0 =
      map.sum weight + weight key value :=
  sum_insertEntry weight value map.sorted

variable {map : OrderedMap α β}

theorem sum_remove (weight : α → β → Nat) {key : α} {value : β} (found : map.get key = some value) :
    (map.remove key).sum weight + weight key value = map.sum weight := by
  have restored : (map.remove key).insert key value = map := by
    apply ext_get
    intro other
    rw [get_insert, get_remove]
    by_cases same : other = key
    · rw [if_pos same, same, found]
    · rw [if_neg same, if_neg same]
  have grown := sum_insert weight (map.remove key) key value
  rw [restored, get_remove, if_pos rfl, Option.map_none, Option.getD_none, Nat.add_zero] at grown
  exact grown.symm

/-- Adding up ones counts the entries. -/
theorem sum_one (map : OrderedMap α β) : map.sum (fun _ _ => 1) = map.length := by
  rw [sum, List.map_const', List.sum_replicate, smul_eq_mul, Nat.mul_one]
  rfl

/-- The entry with the greatest key. -/
def last (map : OrderedMap α β) : Option (α × β) := map.entries.getLast?

theorem last_mem {entry : α × β} (isLast : map.last = some entry) :
    map.get entry.1 = some entry.2 :=
  get_eq_some_iff.mpr (List.mem_of_getLast? isLast)

end Codex.OrderedMap
