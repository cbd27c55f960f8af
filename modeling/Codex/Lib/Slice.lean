import Codex.Lib.Machine

/-!
# Cutting a sequence into chunks

`usize::div_ceil` and `slice::chunks`, with the facts that make a chunk size and a number of chunks
belong to each other.
-/

namespace Codex.Slice

/-- `usize::div_ceil`. -/
def divCeil (a b : Nat) : Nat := (a + b - 1) / b

variable {a b c : Nat}

theorem divCeil_le_iff (positive : 0 < b) : divCeil a b ≤ c ↔ a ≤ c * b := by
  unfold divCeil
  rw [← Nat.lt_succ_iff, Nat.div_lt_iff_lt_mul positive, Nat.succ_mul]
  omega

theorem lt_divCeil_iff (positive : 0 < b) : c < divCeil a b ↔ c * b < a := by
  rw [← not_le, divCeil_le_iff positive, not_le]

theorem le_divCeil_mul (positive : 0 < b) : a ≤ divCeil a b * b :=
  (divCeil_le_iff positive).mp (Nat.le_refl _)

theorem divCeil_pos (positive : 0 < b) (nonempty : 0 < a) : 0 < divCeil a b :=
  (lt_divCeil_iff positive).mpr (by simpa using nonempty)

theorem divCeil_mono (positive : 0 < c) (le : a ≤ b) : divCeil a c ≤ divCeil b c := by
  rw [divCeil_le_iff positive]
  exact le.trans (le_divCeil_mul positive)

theorem divCeil_anti (positive : 0 < b) (le : b ≤ c) : divCeil a c ≤ divCeil a b := by
  rw [divCeil_le_iff (Nat.lt_of_lt_of_le positive le)]
  exact (le_divCeil_mul positive).trans (Nat.mul_le_mul_left _ le)

/-- Cutting into as many parts as chunks of a size make never needs a greater size. -/
theorem divCeil_divCeil_le (positive : 0 < b) (nonempty : 0 < a) :
    divCeil a (divCeil a b) ≤ b := by
  rw [divCeil_le_iff (divCeil_pos positive nonempty), Nat.mul_comm]
  exact le_divCeil_mul positive

/-- `slice::chunks`. -/
def chunks {α : Type} (size : Nat) (slice : List α) : List (List α) :=
  (List.range (divCeil slice.length size)).map (fun index => (slice.drop (index * size)).take size)

variable {α : Type} {size : Nat} {slice : List α}

@[simp] theorem length_chunks : (chunks size slice).length = divCeil slice.length size := by
  simp [chunks]

theorem flatten_take_drop (count : Nat) :
    ((List.range count).map (fun index => (slice.drop (index * size)).take size)).flatten =
      slice.take (count * size) := by
  induction count with
  | zero => simp
  | succ count ih =>
    rw [List.range_succ, List.map_append, List.flatten_append, ih, Nat.succ_mul, List.take_add]
    simp

theorem flatten_chunks (positive : 0 < size) : (chunks size slice).flatten = slice := by
  unfold chunks
  rw [flatten_take_drop]
  exact List.take_of_length_le (le_divCeil_mul positive)

theorem getElem?_chunks {index : Nat} {chunk : List α}
    (isChunk : (chunks size slice)[index]? = some chunk) :
    index < divCeil slice.length size ∧ chunk = (slice.drop (index * size)).take size := by
  have inside := (List.getElem?_eq_some_iff.mp isChunk).1
  rw [length_chunks] at inside
  rw [chunks, List.getElem?_map, List.getElem?_range inside] at isChunk
  exact ⟨inside, (Option.some.inj isChunk).symm⟩

/-- In a list where what the predicate holds of comes first, dropping it from the front is
    filtering it out. -/
theorem dropWhile_eq_filter {α : Type} {p : α → Bool} {r : α → α → Prop} {list : List α}
    (down : ∀ first second, r first second → p second → p first) (sorted : list.Pairwise r) :
    list.dropWhile p = list.filter (fun item => !p item) := by
  induction sorted with
  | nil => rfl
  | @cons first rest before _ ih =>
    cases holds : p first with
    | true => simp [holds, ih]
    | false =>
      have none : ∀ item ∈ rest, (!p item) = true := by
        intro item member
        cases later : p item with
        | false => rfl
        | true =>
          rw [down first item (before item member) later] at holds
          cases holds
      rw [List.dropWhile_cons, List.filter_cons, holds, List.filter_eq_self.mpr none]
      rfl

end Codex.Slice
