import Mathlib.Data.List.DropRight
import Mathlib.Tactic.Common

/-!
# Lists divided into turns

A list in which some elements open a turn: a lead-in, then the turns, each from the element that
opens it to the next one. Elements of another kind, the context, prepare a turn and may stand
before the element that opens it. Dropping turns from the end drops the context that prepared them
as well, but never what belongs to the lead-in.
-/

namespace Codex.Turns

variable {α : Type} (opens context : α → Bool)

/-- What comes before the turn of a number, counted from zero. -/
def keep (count : Nat) (items : List α) : List α := items.take (items.findIdxNth opens count)

/-- What comes before the first turn. -/
def lead (items : List α) : List α := items.takeWhile fun item => !opens item

/-- The turns, one after the other. -/
def body (items : List α) : List α := items.dropWhile fun item => !opens item

/-- The list without the context at the end of its turns. -/
def trim (items : List α) : List α := lead opens items ++ (body opens items).rdropWhile context

/-- The list without its last turns and the context that prepared them. -/
def dropLast (count : Nat) (items : List α) : List α :=
  if count = 0 then items else trim opens context (keep opens (items.countP opens - count) items)

variable {opens context}

theorem keep_nil (count : Nat) : keep opens count [] = [] := rfl

variable {item : α} {count : Nat} {items : List α}

theorem keep_zero_cons (opening : opens item = true) (items : List α) :
    keep opens 0 (item :: items) = [] := by
  rw [keep, List.findIdxNth_cons_zero_of_pos opening, List.take_zero]

theorem keep_succ_cons (opening : opens item = true) (count : Nat) (items : List α) :
    keep opens (count + 1) (item :: items) = item :: keep opens count items := by
  rw [keep, List.findIdxNth_cons_succ_of_pos opening, List.take_succ_cons, keep]

theorem keep_cons (plain : opens item = false) (count : Nat) (items : List α) :
    keep opens count (item :: items) = item :: keep opens count items := by
  rw [keep, List.findIdxNth_cons_of_neg plain, List.take_succ_cons, keep]

theorem keep_isPrefix (count : Nat) (items : List α) : keep opens count items <+: items :=
  List.take_prefix _ _

theorem keep_of_le (all : items.countP opens ≤ count) :
    keep opens count items = items := by
  rw [keep, List.findIdxNth_eq_length_of_ge_countP all, List.take_length]

theorem keep_zero (items : List α) : keep opens 0 items = lead opens items := by
  induction items with
  | nil => rfl
  | cons item items ih =>
    cases opening : opens item with
    | true =>
      rw [keep_zero_cons opening]
      simp [lead, opening]
    | false =>
      rw [keep_cons opening, ih]
      simp [lead, opening]

theorem countP_keep (count : Nat) (items : List α) :
    (keep opens count items).countP opens = min count (items.countP opens) := by
  induction items generalizing count with
  | nil => simp [keep_nil]
  | cons item items ih =>
    cases opening : opens item with
    | false =>
      rw [keep_cons opening, List.countP_cons_of_neg (by simp [opening]), ih,
        List.countP_cons_of_neg (by simp [opening])]
    | true =>
      cases count with
      | zero => simp [keep_zero_cons opening]
      | succ count =>
        rw [keep_succ_cons opening, List.countP_cons_of_pos opening, ih,
          List.countP_cons_of_pos opening, Nat.add_min_add_right]

/-- A turn that the first part already has starts where it starts in the whole. -/
theorem keep_append (inside : count < items.countP opens)
    (rest : List α) : keep opens count (items ++ rest) = keep opens count items := by
  induction items generalizing count with
  | nil => simp at inside
  | cons item items ih =>
    rw [List.cons_append]
    cases opening : opens item with
    | false =>
      rw [List.countP_cons_of_neg (by simp [opening])] at inside
      rw [keep_cons opening, keep_cons opening, ih inside]
    | true =>
      cases count with
      | zero => rw [keep_zero_cons opening, keep_zero_cons opening]
      | succ count =>
        rw [List.countP_cons_of_pos opening] at inside
        rw [keep_succ_cons opening, keep_succ_cons opening, ih (by omega)]

theorem keep_keep {more : Nat} (fewer : count ≤ more) (items : List α) :
    keep opens count (keep opens more items) = keep opens count items := by
  obtain ⟨rest, whole⟩ := @keep_isPrefix _ opens more items
  by_cases inside : count < (keep opens more items).countP opens
  · conv_rhs => rw [← whole, keep_append inside]
  rw [keep_of_le (Nat.not_lt.mp inside)]
  rw [countP_keep] at inside
  by_cases all : items.countP opens ≤ more
  · rw [keep_of_le all, keep_of_le (by omega)]
  · obtain rfl : count = more := by omega
    rfl

theorem lead_append_body (items : List α) : lead opens items ++ body opens items = items :=
  List.takeWhile_append_dropWhile

/-- What is trimmed is context. -/
theorem exists_trimmed (items : List α) :
    ∃ tail, trim opens context items ++ tail = items ∧ ∀ item ∈ tail, context item = true := by
  refine ⟨(body opens items).rtakeWhile context, ?_, fun item member =>
    List.mem_rtakeWhile_imp member⟩
  rw [trim, List.append_assoc, List.rdropWhile_append_rtakeWhile, lead_append_body]

theorem trim_isPrefix (items : List α) : trim opens context items <+: items := by
  obtain ⟨tail, whole, _⟩ := @exists_trimmed _ opens context items
  exact ⟨tail, whole⟩

theorem trim_lead (items : List α) :
    trim opens context (lead opens items) = lead opens items := by
  have still : lead opens (lead opens items) = lead opens items := List.takeWhile_idem
  have none : body opens (lead opens items) = [] := by
    have whole := @lead_append_body _ opens (lead opens items)
    rw [still] at whole
    exact List.append_cancel_left (whole.trans (List.append_nil _).symm)
  rw [trim, still, none, List.rdropWhile_nil, List.append_nil]

theorem lead_keep (count : Nat) (items : List α) :
    lead opens (keep opens count items) = lead opens items := by
  rw [← keep_zero, keep_keep (Nat.zero_le count), keep_zero]

/-- Trimming the first turns, in terms of positions. -/
theorem trim_keep (count : Nat) (items : List α) :
    trim opens context (keep opens count items) =
      items.take (items.findIdxNth opens 0) ++
        ((items.take (items.findIdxNth opens count)).drop
          (items.findIdxNth opens 0)).rdropWhile context := by
  have front := @keep_zero _ opens items
  have whole := @lead_append_body _ opens (keep opens count items)
  rw [lead_keep, ← front] at whole
  have size : (keep opens 0 items).length = items.findIdxNth opens 0 := by
    rw [keep, List.length_take, Nat.min_eq_left List.findIdxNth_le_length]
  have turns : body opens (keep opens count items) =
      (items.take (items.findIdxNth opens count)).drop (items.findIdxNth opens 0) := by
    have same := congrArg (List.drop (items.findIdxNth opens 0)) whole
    rw [← size, List.drop_left] at same
    rw [same, size, keep]
  rw [trim, lead_keep, ← front, turns, keep]

theorem lead_isPrefix_trim (items : List α) : lead opens items <+: trim opens context items :=
  List.prefix_append _ _

theorem dropLast_zero (items : List α) : dropLast opens context 0 items = items := if_pos rfl

theorem dropLast_of_pos (positive : 0 < count) (items : List α) :
    dropLast opens context count items =
      trim opens context (keep opens (items.countP opens - count) items) :=
  if_neg (Nat.ne_of_gt positive)

theorem dropLast_isPrefix (count : Nat) (items : List α) :
    dropLast opens context count items <+: items := by
  unfold dropLast
  split
  · exact List.prefix_rfl
  · exact (trim_isPrefix _).trans (keep_isPrefix _ _)

/-- What comes before the first turn stays. -/
theorem lead_isPrefix_dropLast (count : Nat) (items : List α) :
    lead opens items <+: dropLast opens context count items := by
  unfold dropLast
  split
  next => exact ⟨_, lead_append_body items⟩
  next =>
    rw [← lead_keep (items.countP opens - count) items]
    exact lead_isPrefix_trim _

theorem dropLast_all (all : items.countP opens ≤ count)
    (positive : 0 < count) : dropLast opens context count items = lead opens items := by
  rw [dropLast_of_pos positive, Nat.sub_eq_zero_of_le all, keep_zero, trim_lead]

section Apart

variable (apart : ∀ item, opens item = true → context item = false)
include apart

theorem countP_trim (items : List α) :
    (trim opens context items).countP opens = items.countP opens := by
  obtain ⟨tail, whole, trimmed⟩ := @exists_trimmed _ opens context items
  have none : tail.countP opens = 0 := by
    rw [List.countP_eq_zero]
    intro item member opening
    exact Bool.false_ne_true ((apart item opening).symm.trans (trimmed item member))
  conv_rhs => rw [← whole, List.countP_append, none, Nat.add_zero]

theorem keep_trim (inside : count < items.countP opens) :
    keep opens count (trim opens context items) = keep opens count items := by
  obtain ⟨tail, whole, _⟩ := @exists_trimmed _ opens context items
  rw [← countP_trim apart] at inside
  conv_rhs => rw [← whole, keep_append inside]

/-- The end of the turns is no context. -/
theorem getLast?_trim (turns : 0 < items.countP opens) :
    ∃ item, (trim opens context items).getLast? = some item ∧ context item = false := by
  have kept : (body opens items).rdropWhile context ≠ [] := by
    intro empty
    rw [List.rdropWhile_eq_nil_iff] at empty
    have front : (trim opens context items).countP opens = 0 := by
      rw [trim, List.rdropWhile_eq_nil_iff.mpr empty, List.append_nil, List.countP_eq_zero]
      intro item member
      simpa using List.mem_takeWhile_imp member
    rw [countP_trim apart] at front
    omega
  refine ⟨_, ?_, by simpa using List.rdropWhile_last_not context _ kept⟩
  rw [trim, List.getLast?_append_of_ne_nil _ kept, List.getLast?_eq_some_getLast kept]

theorem countP_dropLast (count : Nat) (items : List α) :
    (dropLast opens context count items).countP opens = items.countP opens - count := by
  unfold dropLast
  split
  next zero => rw [zero, Nat.sub_zero]
  next => rw [countP_trim apart, countP_keep, Nat.min_eq_left (Nat.sub_le _ _)]

/-- Turns dropped at once or one after the other. -/
theorem dropLast_dropLast (first second : Nat) (items : List α) :
    dropLast opens context second (dropLast opens context first items) =
      dropLast opens context (first + second) items := by
  rcases Nat.eq_zero_or_pos first with rfl | dropping
  · rw [dropLast_zero, Nat.zero_add]
  rcases Nat.eq_zero_or_pos second with rfl | droppingMore
  · rw [dropLast_zero, Nat.add_zero]
  by_cases all : items.countP opens ≤ first
  · have left : (lead opens items).countP opens ≤ second := by
      rw [← keep_zero, countP_keep]
      omega
    rw [dropLast_all all dropping, dropLast_all left droppingMore, ← keep_zero, ← keep_zero,
      keep_keep (Nat.le_refl 0), keep_zero, dropLast_all (by omega) (by omega)]
  · rw [dropLast_of_pos droppingMore, countP_dropLast apart, dropLast_of_pos dropping,
      dropLast_of_pos (by omega), keep_trim apart, keep_keep, Nat.sub_sub]
    · omega
    · rw [countP_keep]
      omega

end Apart

end Codex.Turns
