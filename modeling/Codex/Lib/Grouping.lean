import Mathlib

/-!
# Combining a list in groups

A `Grouping` is a way to combine a list with a binary operation: the members of a group are
combined in order, and a member may be a group itself.
-/

namespace Codex

/-- A list of values, some of them combined first. -/
inductive Grouping (α : Type) where
  | single (value : α)
  | group (first : Grouping α) (rest : List (Grouping α))

namespace Grouping

variable {α : Type}

mutual

/-- The values, in order. -/
def leaves : Grouping α → List α
  | single value => [value]
  | group first rest => leaves first ++ leavesAll rest

/-- The values of a list of groups, in order. -/
def leavesAll : List (Grouping α) → List α
  | [] => []
  | grouping :: rest => leaves grouping ++ leavesAll rest

end

theorem leaves_ne_nil : (grouping : Grouping α) → leaves grouping ≠ []
  | single value => by
    rw [leaves]
    exact List.cons_ne_nil value []
  | group first rest => by
    rw [leaves]
    exact List.append_ne_nil_of_left_ne_nil (leaves_ne_nil first) _

variable (combine : α → α → α)

mutual

/-- What the groups combine to. -/
def value : Grouping α → α
  | single value => value
  | group first rest => (values rest).foldl combine (value first)

/-- What each of a list of groups combines to. -/
def values : List (Grouping α) → List α
  | [] => []
  | grouping :: rest => value grouping :: values rest

end

/-- The list combined from left to right. -/
def flat (first : α) (rest : List α) : Grouping α := group (single first) (rest.map single)

theorem leavesAll_single (rest : List α) : leavesAll (rest.map single) = rest := by
  induction rest with
  | nil => rfl
  | cons value rest ih => simp only [List.map_cons, leavesAll, leaves, ih, List.singleton_append]

theorem values_single (rest : List α) : values combine (rest.map single) = rest := by
  induction rest with
  | nil => rfl
  | cons value rest ih => simp only [List.map_cons, values, Grouping.value, ih]

@[simp]
theorem leaves_flat (first : α) (rest : List α) : leaves (flat first rest) = first :: rest := by
  simp only [flat, leaves, leavesAll_single, List.singleton_append]

@[simp]
theorem value_flat (first : α) (rest : List α) :
    value combine (flat first rest) = rest.foldl combine first := by
  simp only [flat, value, values_single]

theorem values_eq_map (rest : List (Grouping α)) :
    values combine rest = rest.map (value combine) := by
  induction rest with
  | nil => rfl
  | cons grouping rest ih => rw [values, ih, List.map_cons]

variable {combine}

section Induction

variable {motive : List α → α → Prop}

mutual

/-- What holds of single values and is kept by the operation holds of every grouping. -/
theorem value_induction (single : ∀ value, motive [value] value)
    (pair : ∀ {left right : List α} {a b : α}, motive left a → motive right b →
      motive (left ++ right) (combine a b)) :
    (grouping : Grouping α) → motive (leaves grouping) (value combine grouping)
  | .single value => by
    rw [leaves, Grouping.value]
    exact single value
  | .group first rest => by
    rw [leaves, value]
    exact values_induction single pair rest (value_induction single pair first)

theorem values_induction (single : ∀ value, motive [value] value)
    (pair : ∀ {left right : List α} {a b : α}, motive left a → motive right b →
      motive (left ++ right) (combine a b)) :
    (rest : List (Grouping α)) → {before : List α} → {start : α} → motive before start →
      motive (before ++ leavesAll rest) ((values combine rest).foldl combine start)
  | [], before, start, started => by
    rw [leavesAll, values, List.append_nil]
    exact started
  | grouping :: rest, before, start, started => by
    rw [leavesAll, values, List.foldl_cons, ← List.append_assoc]
    exact values_induction single pair rest
      (pair started (value_induction single pair grouping))

end

end Induction

/-- Over the values of a domain the operation chooses an operand of the greatest rank. -/
structure Chooses (combine : α → α → α) (domain : α → Prop) (rank : α → Nat) : Prop where
  choice : ∀ {a b}, domain a → domain b → combine a b = a ∨ combine a b = b
  left : ∀ {a b}, domain a → domain b → rank a ≤ rank (combine a b)
  right : ∀ {a b}, domain a → domain b → rank b ≤ rank (combine a b)

variable {domain : α → Prop} {rank : α → Nat}

theorem Chooses.value_greatest (chooses : Chooses combine domain rank) (grouping : Grouping α)
    (inside : ∀ a ∈ leaves grouping, domain a) :
    value combine grouping ∈ leaves grouping ∧
      ∀ a ∈ leaves grouping, rank a ≤ rank (value combine grouping) := by
  refine value_induction (motive := fun found chosen => (∀ a ∈ found, domain a) →
    chosen ∈ found ∧ ∀ a ∈ found, rank a ≤ rank chosen) ?_ ?_ grouping inside
  · intro value _
    refine ⟨List.mem_singleton_self value, ?_⟩
    intro a member
    rw [List.mem_singleton.mp member]
  intro left right a b leftHolds rightHolds all
  obtain ⟨leftAll, rightAll⟩ := List.forall_mem_append.mp all
  obtain ⟨leftMember, leftBound⟩ := leftHolds leftAll
  obtain ⟨rightMember, rightBound⟩ := rightHolds rightAll
  have inA := leftAll a leftMember
  have inB := rightAll b rightMember
  constructor
  · rcases chooses.choice inA inB with same | same
    · rw [same]
      exact List.mem_append_left _ leftMember
    · rw [same]
      exact List.mem_append_right _ rightMember
  · intro c member
    rcases List.mem_append.mp member with first | second
    · exact le_trans (leftBound c first) (chooses.left inA inB)
    · exact le_trans (rightBound c second) (chooses.right inA inB)

/-- Neither the order nor the groups matter. -/
theorem Chooses.value_perm (chooses : Chooses combine domain rank)
    (injective : ∀ {a b}, domain a → domain b → rank a = rank b → a = b)
    {grouping other : Grouping α} (inside : ∀ a ∈ leaves grouping, domain a)
    (permuted : (leaves other).Perm (leaves grouping)) :
    value combine other = value combine grouping := by
  have otherInside : ∀ a ∈ leaves other, domain a :=
    fun a member => inside a (permuted.mem_iff.mp member)
  obtain ⟨member, bound⟩ := chooses.value_greatest grouping inside
  obtain ⟨otherMember, otherBound⟩ := chooses.value_greatest other otherInside
  apply injective (otherInside _ otherMember) (inside _ member)
  apply le_antisymm
  · exact bound _ (permuted.mem_iff.mp otherMember)
  · exact otherBound _ (permuted.mem_iff.mpr member)

end Grouping

end Codex
