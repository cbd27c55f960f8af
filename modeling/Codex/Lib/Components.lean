import Mathlib.Data.List.Infix
import Mathlib.Tactic.Common

/-!
# Components between separators

A list that a separator divides into components: two lists with the same components are the same,
and the components of one begin those of another exactly when the other goes on behind a separator.
-/

namespace Codex.Components

variable {α : Type} [DecidableEq α] {separator : α}

theorem splitOn_injective {first second : List α}
    (same : first.splitOn separator = second.splitOn separator) : first = second := by
  have joined := congrArg [separator].intercalate same
  rwa [List.intercalate_splitOn, List.intercalate_splitOn] at joined

/-- A component holds no separator. -/
theorem separator_not_mem {whole part : List α} (member : part ∈ whole.splitOn separator) :
    separator ∉ part := by
  induction whole generalizing part with
  | nil =>
    obtain rfl : part = [] := by simpa using member
    exact List.not_mem_nil
  | cons head rest ih =>
    rw [List.splitOn_cons_eq_if_modifyHead] at member
    split at member
    next =>
      rcases List.mem_cons.mp member with rfl | later
      · exact List.not_mem_nil
      · exact ih later
    next other =>
      cases shape : rest.splitOn separator with
      | nil => exact absurd shape (List.splitOn_ne_nil _ _)
      | cons front parts =>
        rw [shape] at member ih
        rcases List.mem_cons.mp member with rfl | later
        · intro found
          rcases List.mem_cons.mp found with rfl | inside
          · exact other (beq_self_eq_true separator)
          · exact ih (List.mem_cons_self ..) inside
        · exact ih (List.mem_cons_of_mem _ later)

/-- The components of one list begin those of another. -/
theorem splitOn_isPrefix {first second : List α} :
    first.splitOn separator <+: second.splitOn separator ↔
      second = first ∨ ∃ rest, second = first ++ separator :: rest := by
  constructor
  · rintro ⟨more, whole⟩
    by_cases same : more = []
    · rw [same, List.append_nil] at whole
      exact .inl (splitOn_injective whole.symm)
    right
    refine ⟨[separator].intercalate more, @splitOn_injective _ _ separator _ _ ?_⟩
    have apart : ∀ part ∈ more, separator ∉ part := by
      intro part member
      have inside : part ∈ second.splitOn separator := by
        rw [← whole]
        exact List.mem_append_right _ member
      exact separator_not_mem inside
    rw [List.splitOn_append_cons_self, List.splitOn_intercalate _ apart same, whole]
  · rintro (rfl | ⟨rest, rfl⟩)
    · exact List.prefix_rfl
    · rw [List.splitOn_append_cons_self]
      exact List.prefix_append _ _

/-- Behind a separator there are more components. -/
theorem length_splitOn_lt (first rest : List α) :
    (first.splitOn separator).length < ((first ++ separator :: rest).splitOn separator).length := by
  have more := List.length_pos_of_ne_nil (List.splitOn_ne_nil separator rest)
  rw [List.splitOn_append_cons_self, List.length_append]
  omega

end Codex.Components
