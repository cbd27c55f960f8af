import Codex.Lib.Text

/-!
# Splitting a text once

`str::split_once` and `str::rsplit_once`: what stands on either side of the first, or the last,
occurrence of a delimiter.
-/

namespace Codex.Text

/-- `str::rsplit_once` of a character. -/
def rsplitOnce (c : Char) (text : Text) : Option (Text × Text) :=
  (splitOnce [c] text.reverse).map fun split => (split.2.reverse, split.1.reverse)

variable {text front back : Text} {c : Char}

theorem splitOnce_eq_append {marker : Text}
    (split : splitOnce marker text = some (front, back)) : text = front ++ marker ++ back := by
  induction text generalizing front back with
  | nil =>
    rw [splitOnce] at split
    obtain ⟨rfl, same⟩ := Option.ite_none_right_eq_some.mp split
    cases same
    rfl
  | cons c text ih =>
    rw [splitOnce] at split
    by_cases here : marker <+: c :: text
    · rw [if_pos here] at split
      cases split
      obtain ⟨rest, whole⟩ := here
      rw [← whole, List.drop_left, List.nil_append]
    · rw [if_neg here] at split
      obtain ⟨⟨inner, rest⟩, found, same⟩ := Option.map_eq_some_iff.mp split
      cases same
      rw [ih found]
      rfl

/-- The first occurrence of a character. -/
theorem splitOnce_append (apart : c ∉ front) (back : Text) :
    splitOnce [c] (front ++ c :: back) = some (front, back) := by
  induction front with
  | nil => simp [splitOnce]
  | cons first front ih =>
    rw [List.mem_cons, not_or] at apart
    rw [List.cons_append, splitOnce, if_neg, ih apart.2]
    · rfl
    · rintro ⟨rest, same⟩
      exact apart.1 (List.cons.inj same).1

theorem splitOnce_eq_none (apart : c ∉ text) :
    splitOnce [c] text = none := by
  rw [Option.eq_none_iff_forall_ne_some]
  rintro ⟨front, back⟩ split
  exact apart (by rw [splitOnce_eq_append split]; simp)

theorem rsplitOnce_eq_append
    (split : rsplitOnce c text = some (front, back)) : text = front ++ c :: back := by
  obtain ⟨⟨inner, rest⟩, found, same⟩ := Option.map_eq_some_iff.mp split
  cases same
  have whole := congrArg List.reverse (splitOnce_eq_append found)
  simpa using whole

theorem rsplitOnce_append (apart : c ∉ back) (front : Text) :
    rsplitOnce c (front ++ c :: back) = some (front, back) := by
  have whole : (front ++ c :: back).reverse = back.reverse ++ c :: front.reverse := by simp
  rw [rsplitOnce, whole, splitOnce_append (by simpa using apart)]
  simp

theorem rsplitOnce_eq_none (apart : c ∉ text) :
    rsplitOnce c text = none := by
  rw [rsplitOnce, splitOnce_eq_none (by simpa using apart)]
  rfl

/-- Behind the last occurrence there is none. -/
theorem rsplitOnce_not_mem (split : rsplitOnce c text = some (front, back)) : c ∉ back := by
  have member : c ∈ text.reverse := by simp [rsplitOnce_eq_append split]
  obtain ⟨after, before, whole, apart⟩ := List.eq_append_cons_of_mem member
  have shape : text = before.reverse ++ c :: after.reverse := by
    have reversed := congrArg List.reverse whole
    simpa using reversed
  rw [shape, rsplitOnce_append (by simpa using apart)] at split
  cases split
  simpa using apart

/-- What comes before the last of several occurrences has one. -/
theorem mem_of_rsplitOnce (several : 2 ≤ text.count c)
    (split : rsplitOnce c text = some (front, back)) : c ∈ front := by
  rw [rsplitOnce_eq_append split, List.count_append, List.count_cons_self,
    List.count_eq_zero_of_not_mem (rsplitOnce_not_mem split)] at several
  exact List.count_pos_iff.mp (by omega)

end Codex.Text
