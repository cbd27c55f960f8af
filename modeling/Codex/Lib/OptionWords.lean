import Mathlib.Algebra.Ring.Parity
import Mathlib.Data.List.DropRight

/-!
# Options among words

Words of a command line are read while they are options, and an option that takes a value takes the
next word. Which words these are is a parameter.
-/

namespace Codex

/-- Which words are options, and which options take the next word. -/
structure OptionWords (α : Type) where
  isOption : α → Bool
  takesNext : α → Bool

namespace OptionWords

variable {α : Type}

/-- The options in front with their values, and what is left. -/
def read (convention : OptionWords α) : List α → List (α × Option α) × List α
  | [] => ([], [])
  | [word] => if convention.isOption word then ([(word, none)], []) else ([], [word])
  | word :: next :: words =>
      if convention.isOption word then
        if convention.takesNext word then
          ((word, some next) :: (convention.read words).1, (convention.read words).2)
        else
          ((word, none) :: (convention.read (next :: words)).1,
            (convention.read (next :: words)).2)
      else ([], word :: next :: words)

variable {convention : OptionWords α} {word next : α} {words : List α}

theorem read_other (other : convention.isOption word = false) :
    convention.read (word :: words) = ([], word :: words) := by
  cases words with
  | nil | cons next words => rw [read, if_neg (Bool.eq_false_iff.mp other)]

theorem read_flag (isOption : convention.isOption word = true)
    (alone : convention.takesNext word = false) :
    convention.read (word :: words) =
      ((word, none) :: (convention.read words).1, (convention.read words).2) := by
  cases words with
  | nil =>
    change convention.read [word] = ([(word, none)], [])
    rw [read, if_pos isOption]
  | cons next words => rw [read, if_pos isOption, if_neg (Bool.eq_false_iff.mp alone)]

theorem read_value (isOption : convention.isOption word = true)
    (takes : convention.takesNext word = true) :
    convention.read (word :: next :: words) =
      ((word, some next) :: (convention.read words).1, (convention.read words).2) := by
  rw [read, if_pos isOption, if_pos takes]

theorem length_left_le (convention : OptionWords α) (words : List α) :
    (convention.read words).2.length ≤ words.length := by
  induction words using read.induct convention with
  | case1 => exact Nat.le_refl 0
  | case2 word isOption =>
    rw [read, if_pos isOption]
    exact Nat.zero_le _
  | case3 word other => rw [read, if_neg other]
  | case4 word next words isOption takes ih =>
    rw [read_value isOption takes, List.length_cons, List.length_cons]
    exact ih.trans (Nat.le_add_right _ 2)
  | case5 word next words isOption alone ih =>
    rw [read_flag isOption (Bool.eq_false_iff.mpr alone), List.length_cons]
    exact ih.trans (Nat.le_add_right _ 1)
  | case6 word next words other => rw [read, if_neg other]

/-- The number of words at the end that take the next one. -/
def trailing (takes : α → Bool) (words : List α) : Nat := (words.rtakeWhile takes).length

/-- A word occurs with an even number of words directly in front of it that take the next one: they
    take each other in pairs, and not the word. -/
def Free (takes : α → Bool) (word : α) (words : List α) : Prop :=
  ∃ front back, words = front ++ word :: back ∧ Even (trailing takes front)

variable {takes : α → Bool}

theorem trailing_cons (takes : α → Bool) (word : α) (words : List α) :
    trailing takes (word :: words) =
      if words.all takes && takes word then words.length + 1 else trailing takes words := by
  rw [trailing, trailing, List.rtakeWhile, List.rtakeWhile, List.length_reverse,
    List.length_reverse, List.reverse_cons, List.takeWhile_append]
  by_cases all : words.all takes = true
  · have whole : words.reverse.takeWhile takes = words.reverse := by
      refine List.takeWhile_eq_self_iff.mpr fun each member => ?_
      exact List.all_eq_true.mp all each (List.mem_reverse.mp member)
    rw [whole, if_pos rfl, all, Bool.true_and, List.length_append, List.length_reverse]
    by_cases taking : takes word = true
    · rw [if_pos taking, List.takeWhile_cons_of_pos taking]
      rfl
    · rw [if_neg taking, List.takeWhile_cons_of_neg taking]
      rfl
  have part : (words.reverse.takeWhile takes).length ≠ words.reverse.length := by
    intro same
    refine all (List.all_eq_true.mpr fun each member => ?_)
    have whole := (List.takeWhile_prefix takes).eq_of_length same
    exact List.takeWhile_eq_self_iff.mp whole each (List.mem_reverse.mpr member)
  rw [if_neg part, Bool.eq_false_iff.mpr all, Bool.false_and, if_neg Bool.false_ne_true]

theorem trailing_of_all (all : words.all takes = true) : trailing takes words = words.length := by
  rw [trailing, List.rtakeWhile_eq_self_iff.mpr (List.all_eq_true.mp all)]

/-- A word in front that takes no value changes nothing. -/
theorem trailing_cons_alone (alone : takes word = false) (words : List α) :
    trailing takes (word :: words) = trailing takes words := by
  rw [trailing_cons, alone, Bool.and_false, if_neg Bool.false_ne_true]

/-- A pair in front does not change whether the number is even. -/
theorem even_trailing_pair (taking : takes word = true) (next : α) (words : List α) :
    Even (trailing takes (word :: next :: words)) ↔ Even (trailing takes words) := by
  rw [trailing_cons, taking, Bool.and_true]
  by_cases all : words.all takes = true
  · by_cases nextTakes : takes next = true
    · rw [List.all_cons, nextTakes, all, if_pos (by rfl), trailing_of_all all, List.length_cons,
        Nat.even_add_one, Nat.even_add_one, not_not]
    · rw [List.all_cons, Bool.eq_false_iff.mpr nextTakes, Bool.false_and,
        if_neg Bool.false_ne_true, trailing_cons_alone (Bool.eq_false_iff.mpr nextTakes)]
  · rw [List.all_cons, Bool.eq_false_iff.mpr all, Bool.and_false, if_neg Bool.false_ne_true,
      trailing_cons, Bool.eq_false_iff.mpr all, Bool.false_and, if_neg Bool.false_ne_true]

theorem not_free_nil : ¬Free takes word [] := by
  rintro ⟨front, back, same, _⟩
  exact List.append_ne_nil_of_right_ne_nil front (List.cons_ne_nil word back) same.symm

/-- The first word is free. -/
theorem free_head : Free takes word (word :: words) := ⟨[], words, rfl, Even.zero⟩

theorem free_cons_alone (alone : takes next = false) :
    Free takes word (next :: words) ↔ word = next ∨ Free takes word words := by
  constructor
  · rintro ⟨front, back, same, even⟩
    cases front with
    | nil => exact Or.inl (List.cons.inj same).1.symm
    | cons first front =>
      obtain ⟨rfl, rest⟩ := List.cons.inj same
      rw [trailing_cons_alone alone] at even
      exact Or.inr ⟨front, back, rest, even⟩
  · rintro (rfl | ⟨front, back, rfl, even⟩)
    · exact free_head
    · refine ⟨next :: front, back, rfl, ?_⟩
      rw [trailing_cons_alone alone]
      exact even

theorem free_cons_pair {first : α} (taking : takes first = true) :
    Free takes word (first :: next :: words) ↔ word = first ∨ Free takes word words := by
  constructor
  · rintro ⟨front, back, same, even⟩
    rcases front with _ | ⟨_, _ | ⟨_, front⟩⟩
    · exact Or.inl (List.cons.inj same).1.symm
    · obtain ⟨rfl, _⟩ := List.cons.inj same
      rw [trailing_cons, taking] at even
      exact absurd even Nat.not_even_one
    · rw [List.cons_append, List.cons_append, List.cons.injEq, List.cons.injEq] at same
      obtain ⟨rfl, rfl, rest⟩ := same
      exact Or.inr ⟨front, back, rest, (even_trailing_pair taking _ _).mp even⟩
  · rintro (rfl | ⟨front, back, rfl, even⟩)
    · exact free_head
    · exact ⟨first :: next :: front, back, rfl, (even_trailing_pair taking _ _).mpr even⟩

theorem free_singleton : Free takes word [next] ↔ word = next := by
  constructor
  · rintro ⟨front, back, same, _⟩
    obtain ⟨_, isWord⟩ | ⟨_, none⟩ := List.append_eq_singleton_iff.mp same.symm
    · exact (List.cons.inj isWord).1
    · exact absurd none (List.cons_ne_nil _ _)
  · rintro rfl
    exact free_head

/-- Where every word is an option, the options that are read are the free words. -/
theorem exists_mem_read_iff (all : ∀ each ∈ words, convention.isOption each = true) :
    (∃ value, (word, value) ∈ (convention.read words).1) ↔
      Free convention.takesNext word words := by
  induction words using read.induct convention with
  | case1 =>
    refine iff_of_false ?_ not_free_nil
    rintro ⟨_, member⟩
    cases member
  | case2 first isOption =>
    rw [read, if_pos isOption, free_singleton]
    constructor
    · rintro ⟨value, member⟩
      exact congrArg Prod.fst (List.mem_singleton.mp member)
    · rintro rfl
      exact ⟨none, List.mem_singleton_self _⟩
  | case3 first other => exact absurd (all first List.mem_cons_self) other
  | case4 first next words isOption takes ih =>
    rw [read_value isOption takes, free_cons_pair takes, ← ih fun each member =>
      all each (List.mem_cons_of_mem _ (List.mem_cons_of_mem _ member))]
    simp only [List.mem_cons, Prod.mk.injEq, exists_or, exists_and_left, exists_eq, and_true]
  | case5 first next words isOption alone ih =>
    rw [read_flag isOption (Bool.eq_false_iff.mpr alone),
      free_cons_alone (Bool.eq_false_iff.mpr alone),
      ← ih fun each member => all each (List.mem_cons_of_mem _ member)]
    simp only [List.mem_cons, Prod.mk.injEq, exists_or, exists_and_left, exists_eq, and_true]
  | case6 first next words other => exact absurd (all first List.mem_cons_self) other

theorem Free.mem (free : Free takes word words) : word ∈ words := by
  obtain ⟨front, back, rfl, _⟩ := free
  exact List.mem_append_right front List.mem_cons_self

theorem value_of_alone {value : Option α} (member : (word, value) ∈ (convention.read words).1)
    (alone : convention.takesNext word = false) : value = none := by
  induction words using read.induct convention with
  | case1 => cases member
  | case2 first isOption =>
    rw [read, if_pos isOption, List.mem_singleton] at member
    exact congrArg Prod.snd member
  | case3 first other =>
    rw [read, if_neg other] at member
    cases member
  | case4 first next words isOption taking ih =>
    rw [read_value isOption taking, List.mem_cons] at member
    rcases member with same | member
    · rw [(Prod.mk.inj same).1, taking] at alone
      cases alone
    · exact ih member
  | case5 first next words isOption firstAlone ih =>
    rw [read_flag isOption (Bool.eq_false_iff.mpr firstAlone), List.mem_cons] at member
    rcases member with same | member
    · exact congrArg Prod.snd same
    · exact ih member
  | case6 first next words other =>
    rw [read, if_neg other] at member
    cases member

/-- An option that takes no value is read iff it is free. -/
theorem mem_read_iff (all : ∀ each ∈ words, convention.isOption each = true)
    (alone : convention.takesNext word = false) :
    (word, none) ∈ (convention.read words).1 ↔ Free convention.takesNext word words := by
  rw [← exists_mem_read_iff all]
  constructor
  · intro member
    exact ⟨none, member⟩
  · rintro ⟨value, member⟩
    obtain rfl := value_of_alone member alone
    exact member

end OptionWords

end Codex
