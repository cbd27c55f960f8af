import Mathlib.Data.List.Induction
import Mathlib.Tactic.Common

/-!
# Retained positions

The elements of a list at the positions that a predicate keeps, and where they stand in what is
left.
-/

namespace Codex.Retain

variable {α : Type} (keep : Nat → Bool)

/-- The elements at the positions that are kept. -/
def retain (items : List α) : List α :=
  (items.zipIdx.filter fun entry => keep entry.2).map Prod.fst

/-- How many positions before one are kept. -/
def rank (index : Nat) : Nat := (List.range index).countP keep

theorem rank_succ (index : Nat) :
    rank keep (index + 1) = rank keep index + if keep index then 1 else 0 := by
  rw [rank, List.range_succ, List.countP_append, rank]
  congr 1
  cases kept : keep index <;> simp [kept]

variable {first second position : Nat}

theorem rank_mono (le : first ≤ second) :
    rank keep first ≤ rank keep second := by
  induction le with
  | refl => exact Nat.le_refl _
  | step _ ih =>
    rw [rank_succ]
    omega

theorem rank_lt (kept : keep first = true) (less : first < second) :
    rank keep first < rank keep second := by
  have next := rank_succ keep first
  rw [if_pos kept] at next
  have later := rank_mono keep (show first + 1 ≤ second from less)
  omega

theorem retain_concat (items : List α) (item : α) :
    retain keep (items ++ [item]) =
      retain keep items ++ if keep items.length then [item] else [] := by
  rw [retain, List.zipIdx_append, List.filter_append, List.map_append, retain]
  congr 1
  cases kept : keep items.length <;> simp [kept]

theorem length_retain (items : List α) : (retain keep items).length = rank keep items.length := by
  induction items using List.reverseRecOn with
  | nil => rfl
  | append_singleton items item ih =>
    rw [retain_concat, List.length_append, ih, List.length_append, List.length_singleton, rank_succ]
    congr 1
    split <;> rfl

/-- A kept element stands behind the kept elements before it. -/
theorem getElem?_retain {index : Nat} (kept : keep index = true) (items : List α) :
    (retain keep items)[rank keep index]? = items[index]? := by
  induction items using List.reverseRecOn with
  | nil => rfl
  | append_singleton items item ih =>
    rw [retain_concat]
    rcases Nat.lt_trichotomy index items.length with before | rfl | after
    · have inside : rank keep index < (retain keep items).length := by
        rw [length_retain]
        exact rank_lt keep kept before
      rw [List.getElem?_append_left inside, ih, List.getElem?_append_left before]
    · rw [if_pos kept, ← length_retain]
      simp
    have outside : (retain keep (items ++ [item])).length ≤ rank keep index := by
      rw [length_retain, List.length_append, List.length_singleton]
      exact rank_mono keep after
    rw [retain_concat] at outside
    rw [List.getElem?_eq_none outside, List.getElem?_eq_none]
    rw [List.length_append, List.length_singleton]
    exact after

/-- What is left are kept elements. -/
theorem exists_rank {items : List α} (inside : position < (retain keep items).length) :
    ∃ index, index < items.length ∧ keep index = true ∧ rank keep index = position := by
  induction items using List.reverseRecOn with
  | nil => exact absurd inside (Nat.not_lt_zero _)
  | append_singleton items item ih =>
    by_cases before : position < (retain keep items).length
    · obtain ⟨index, less, kept, same⟩ := ih before
      exact ⟨index, by rw [List.length_append]; omega, kept, same⟩
    rw [length_retain, List.length_append, List.length_singleton, rank_succ] at inside
    rw [length_retain] at before
    refine ⟨items.length, by simp, ?_, ?_⟩
    · by_contra dropped
      rw [if_neg dropped] at inside
      omega
    · split at inside <;> omega

/-- How many elements are kept before a position. -/
theorem length_filter_lt (items : List α) {index : Nat} (inside : index ≤ items.length) :
    ((items.zipIdx.filter fun entry => keep entry.2).filter fun entry =>
      entry.2 < index).length = rank keep index := by
  induction items using List.reverseRecOn with
  | nil =>
    obtain rfl : index = 0 := by simpa using inside
    rfl
  | append_singleton items item ih =>
    rw [List.length_append, List.length_singleton] at inside
    rw [List.zipIdx_append, List.filter_append, List.filter_append, List.length_append]
    rcases Nat.lt_or_eq_of_le inside with before | rfl
    · rw [ih (Nat.le_of_lt_succ before)]
      cases kept : keep items.length <;> simp [kept, Nat.le_of_lt_succ before]
    have all : (items.zipIdx.filter fun entry => keep entry.2).filter (fun entry =>
        entry.2 < items.length + 1) = items.zipIdx.filter fun entry => keep entry.2 := by
      apply List.filter_eq_self.mpr
      intro entry member
      have bound := (List.mem_zipIdx (List.mem_filter.mp member).1).2.1
      simp only [decide_eq_true_eq]
      omega
    have count := length_retain keep items
    rw [retain, List.length_map] at count
    rw [all, count, rank_succ]
    cases kept : keep items.length <;> simp [kept]

/-- A list with others put in at a position. -/
theorem getElem?_spliced (items new : List α) (inside : position ≤ items.length) (index : Nat) :
    (items.take position ++ new ++ items.drop position)[index]? =
      if index < position then items[index]?
      else if index < position + new.length then new[index - position]?
      else items[index - new.length]? := by
  have front : (items.take position).length = position := by
    rw [List.length_take, Nat.min_eq_left inside]
  rw [List.append_assoc, List.getElem?_append, front]
  split
  next less => rw [List.getElem?_take_of_lt less]
  next more =>
    rw [List.getElem?_append]
    split
    next within => rw [if_pos (by omega)]
    next beyond =>
      rw [if_neg (by omega), List.getElem?_drop]
      congr 1
      omega

/-- The kept elements with new ones in the place of an element. -/
def replacedAt (items new : List α) (place : Nat) : List α :=
  (retain keep items).take (rank keep place) ++ new ++ (retain keep items).drop (rank keep place)

/-- Where a kept element stands when new ones have come in the place of an element. -/
def shifted (count place index : Nat) : Nat := rank keep index + if place < index then count else 0

variable {keep}

theorem shifted_lt {count place : Nat} (kept : keep first = true)
    (less : first < second) : shifted keep count place first < shifted keep count place second := by
  have ranks := rank_lt keep kept less
  rw [shifted, shifted]
  split
  next later =>
    rw [if_pos (Nat.lt_trans later less)]
    omega
  next => omega

theorem shifted_before {count place index : Nat} (kept : keep index = true)
    (less : index < place) : shifted keep count place index < rank keep place := by
  have ranks := rank_lt keep kept less
  rw [shifted, if_neg (Nat.not_lt_of_lt less)]
  exact ranks

theorem shifted_after {count place index : Nat} (less : place < index) :
    rank keep place + count ≤ shifted keep count place index := by
  have ranks := rank_mono keep (Nat.le_of_lt less)
  rw [shifted, if_pos less]
  omega

theorem rank_le_length {items : List α} {place : Nat} (inside : place < items.length) :
    rank keep place ≤ (retain keep items).length := by
  rw [length_retain]
  exact rank_mono keep (Nat.le_of_lt inside)

/-- A kept element is found where it has been shifted to. -/
theorem getElem?_replacedAt {items new : List α} {place index : Nat}
    (inside : place < items.length) (dropped : keep place = false) (kept : keep index = true) :
    (replacedAt keep items new place)[shifted keep new.length place index]? = items[index]? := by
  rw [replacedAt, getElem?_spliced _ _ (rank_le_length inside)]
  rcases Nat.lt_trichotomy index place with before | rfl | after
  · have shift := @shifted_before keep new.length _ _ kept before
    rw [if_pos shift, shifted, if_neg (Nat.not_lt_of_lt before), Nat.add_zero]
    exact getElem?_retain keep kept items
  · rw [kept] at dropped
    cases dropped
  · have shift := @shifted_after keep new.length _ _ after
    rw [if_neg (by omega), if_neg (by omega), shifted, if_pos after, Nat.add_sub_cancel]
    exact getElem?_retain keep kept items

/-- The new elements stand together in the place. -/
theorem getElem?_new {items new : List α} {place : Nat} (inside : place < items.length)
    {index : Nat} (within : index < new.length) :
    (replacedAt keep items new place)[rank keep place + index]? = new[index]? := by
  rw [replacedAt, getElem?_spliced _ _ (rank_le_length inside), if_neg (by omega),
    if_pos (by omega), Nat.add_sub_cancel_left]

/-- What is found is new, or a kept element. -/
theorem exists_shifted {items new : List α} {place : Nat} (inside : place < items.length)
    (dropped : keep place = false) (found : position < (replacedAt keep items new place).length) :
    (rank keep place ≤ position ∧ position < rank keep place + new.length) ∨
      ∃ index, index < items.length ∧ keep index = true ∧
        shifted keep new.length place index = position := by
  have front := @rank_le_length _ keep _ _ inside
  rw [replacedAt, List.length_append, List.length_append, List.length_take, List.length_drop,
    Nat.min_eq_left front] at found
  by_cases early : position < rank keep place
  · obtain ⟨index, less, kept, same⟩ :=
      exists_rank keep (show position < (retain keep items).length by omega)
    refine .inr ⟨index, less, kept, ?_⟩
    have before : ¬ place < index := by
      intro after
      have ranks := rank_mono keep (Nat.le_of_lt after)
      omega
    rw [shifted, if_neg before, same, Nat.add_zero]
  by_cases late : rank keep place + new.length ≤ position
  · obtain ⟨index, less, kept, same⟩ :=
      exists_rank keep (show position - new.length < (retain keep items).length by omega)
    refine .inr ⟨index, less, kept, ?_⟩
    have after : place < index := by
      rcases Nat.lt_trichotomy index place with before | rfl | after
      · have ranks := rank_lt keep kept before
        omega
      · rw [kept] at dropped
        cases dropped
      · exact after
    rw [shifted, if_pos after, same]
    omega
  · exact .inl ⟨by omega, by omega⟩

end Codex.Retain
