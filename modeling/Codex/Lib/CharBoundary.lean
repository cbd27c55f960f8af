import Codex.Lib.Text

/-!
# Character boundaries

Offsets into a `str` are bytes, and an offset that a slice starts or ends at stands between two
characters: a slice at any other offset panics, which is `none` here, and so does a subtraction
that would underflow.
-/

namespace Codex.Text

/-- A subtraction of a `usize`. -/
def checkedSub (a b : Nat) : Option Nat := if b ≤ a then some (a - b) else none

/-- `str::is_char_boundary`. -/
def isCharBoundary : Text → Nat → Bool
  | _, 0 => true
  | [], _ + 1 => false
  | c :: text, offset + 1 =>
      c.utf8Size ≤ offset + 1 && isCharBoundary text (offset + 1 - c.utf8Size)

/-- `str::floor_char_boundary`. -/
def floorCharBoundary : Text → Nat → Nat
  | [], _ => 0
  | c :: text, offset =>
      if c.utf8Size ≤ offset then c.utf8Size + floorCharBoundary text (offset - c.utf8Size) else 0

/-- `str::ceil_char_boundary`. -/
def ceilCharBoundary : Text → Nat → Nat
  | _, 0 => 0
  | [], _ + 1 => 0
  | c :: text, offset + 1 => c.utf8Size + ceilCharBoundary text (offset + 1 - c.utf8Size)

/-- `&text[..stop]`. -/
def getTo (text : Text) (stop : Nat) : Option Text :=
  if isCharBoundary text stop then some (sliceTo stop text) else none

/-- `&text[start..]`. -/
def getFrom (text : Text) (start : Nat) : Option Text :=
  if isCharBoundary text start then some (sliceFrom start text) else none

/-- `&text[start..stop]`. -/
def getRange (text : Text) (start stop : Nat) : Option Text :=
  if start ≤ stop then (getTo text stop).bind fun front => getFrom front start else none

theorem isCharBoundary_append (front back : Text) :
    isCharBoundary (front ++ back) (utf8Len front) = true := by
  induction front with
  | nil => simp only [List.nil_append, utf8Len, List.map_nil, List.sum_nil, isCharBoundary]
  | cons c front ih =>
    have positive := c.utf8Size_pos
    obtain ⟨offset, isOffset⟩ : ∃ offset, c.utf8Size + utf8Len front = offset + 1 :=
      ⟨c.utf8Size + utf8Len front - 1, by omega⟩
    rw [utf8Len_cons, List.cons_append, isOffset, isCharBoundary, ← isOffset,
      Nat.add_sub_cancel_left, ih]
    simp only [Nat.le_add_right, decide_true, Bool.and_self]

variable {text : Text} {offset : Nat}

/-- A boundary stands between two parts of the text. -/
theorem isCharBoundary_iff :
    isCharBoundary text offset = true ↔
      ∃ front back, text = front ++ back ∧ utf8Len front = offset := by
  refine ⟨?_, ?_⟩
  · intro boundary
    induction text generalizing offset with
    | nil =>
      cases offset with
      | zero => exact ⟨[], [], rfl, rfl⟩
      | succ offset => cases boundary
    | cons c text ih =>
      cases offset with
      | zero => exact ⟨[], c :: text, rfl, rfl⟩
      | succ offset =>
        rw [isCharBoundary, Bool.and_eq_true, decide_eq_true_eq] at boundary
        obtain ⟨front, back, split, size⟩ := ih boundary.2
        refine ⟨c :: front, back, by rw [split, List.cons_append], ?_⟩
        rw [utf8Len_cons, size]
        omega
  · rintro ⟨front, back, rfl, rfl⟩
    exact isCharBoundary_append front back

theorem getTo_append (front back : Text) : getTo (front ++ back) (utf8Len front) = some front := by
  rw [getTo, if_pos (isCharBoundary_append front back), sliceTo_append]

theorem getFrom_append (front back : Text) :
    getFrom (front ++ back) (utf8Len front) = some back := by
  rw [getFrom, if_pos (isCharBoundary_append front back), sliceFrom_append]

theorem getRange_append (front middle back : Text) :
    getRange (front ++ middle ++ back) (utf8Len front) (utf8Len (front ++ middle)) =
      some middle := by
  rw [getRange, if_pos (by rw [utf8Len_append]; exact Nat.le_add_right _ _), getTo_append,
    Option.bind_some, getFrom_append]

/-- The shorter of two fronts of a text is a front of the other. -/
theorem exists_append_of_utf8Len_le {front rest before back : Text}
    (same : front ++ rest = before ++ back) (le : utf8Len front ≤ utf8Len before) :
    ∃ removed, before = front ++ removed ∧ rest = removed ++ back := by
  rcases List.append_eq_append_iff.mp same with found | ⟨removed, isFront, isBack⟩
  · exact found
  · rw [isFront, utf8Len_append] at le
    have nothing : removed = [] := utf8Len_eq_zero (by omega)
    rw [nothing, List.append_nil] at isFront
    rw [nothing, List.nil_append] at isBack
    exact ⟨[], by rw [isFront, List.append_nil], isBack.symm⟩

theorem eq_of_append_eq {front rest before back : Text} (same : front ++ rest = before ++ back)
    (size : utf8Len front = utf8Len before) : front = before ∧ rest = back := by
  obtain ⟨removed, isBefore, isRest⟩ := exists_append_of_utf8Len_le same size.le
  rw [isBefore, utf8Len_append] at size
  have nothing : removed = [] := utf8Len_eq_zero (by omega)
  rw [nothing, List.append_nil] at isBefore
  rw [nothing, List.nil_append] at isRest
  exact ⟨isBefore.symm, isRest⟩

theorem checkedSub_add (a b : Nat) : checkedSub (a + b) a = some b := by
  rw [checkedSub, if_pos (Nat.le_add_right a b), Nat.add_sub_cancel_left]

theorem floorCharBoundary_append (front back : Text) (offset : Nat) :
    floorCharBoundary (front ++ back) offset =
      if utf8Len front ≤ offset then utf8Len front + floorCharBoundary back (offset - utf8Len front)
      else floorCharBoundary front offset := by
  induction front generalizing offset with
  | nil => simp only [List.nil_append, utf8Len, List.map_nil, List.sum_nil, Nat.zero_le, if_true,
      Nat.zero_add, Nat.sub_zero]
  | cons c front ih =>
    rw [List.cons_append, floorCharBoundary, utf8Len_cons, floorCharBoundary]
    by_cases fits : c.utf8Size ≤ offset
    · rw [if_pos fits, if_pos fits, ih]
      by_cases all : utf8Len front ≤ offset - c.utf8Size
      · rw [if_pos all, if_pos (by omega), Nat.add_assoc, Nat.sub_sub]
      · rw [if_neg all, if_neg (by omega)]
    · rw [if_neg fits, if_neg fits, if_neg (by omega)]

/-- What stands before the floor and what stands behind it. -/
theorem exists_floorCharBoundary (text : Text) (offset : Nat) :
    ∃ front back, text = front ++ back ∧ utf8Len front = floorCharBoundary text offset ∧
      utf8Len front ≤ offset := by
  induction text generalizing offset with
  | nil => exact ⟨[], [], rfl, rfl, Nat.zero_le _⟩
  | cons c text ih =>
    rw [floorCharBoundary]
    split
    · next fits =>
      obtain ⟨front, back, split, size, le⟩ := ih (offset - c.utf8Size)
      refine ⟨c :: front, back, by rw [split, List.cons_append], ?_, ?_⟩
      · rw [utf8Len_cons, size]
      · rw [utf8Len_cons]
        omega
    · exact ⟨[], c :: text, rfl, rfl, Nat.zero_le _⟩

theorem floorCharBoundary_le (text : Text) (offset : Nat) :
    floorCharBoundary text offset ≤ offset := by
  obtain ⟨front, _, _, size, le⟩ := exists_floorCharBoundary text offset
  rw [← size]
  exact le

@[simp]
theorem ceilCharBoundary_zero (text : Text) : ceilCharBoundary text 0 = 0 := by
  cases text <;> rfl

theorem ceilCharBoundary_append (front back : Text) (offset : Nat) :
    ceilCharBoundary (front ++ back) offset =
      if offset ≤ utf8Len front then ceilCharBoundary front offset
      else utf8Len front + ceilCharBoundary back (offset - utf8Len front) := by
  induction front generalizing offset with
  | nil =>
    cases offset with
    | zero => simp only [List.nil_append, ceilCharBoundary_zero, Nat.zero_le, if_true]
    | succ offset => simp [utf8Len]
  | cons c front ih =>
    cases offset with
    | zero => simp only [ceilCharBoundary_zero, Nat.zero_le, if_true]
    | succ offset =>
      rw [List.cons_append, ceilCharBoundary, ceilCharBoundary, utf8Len_cons, ih]
      by_cases inside : offset + 1 - c.utf8Size ≤ utf8Len front
      · rw [if_pos inside, if_pos (by omega)]
      · rw [if_neg inside, if_neg (by omega), Nat.add_assoc, Nat.sub_sub]

/-- What stands before the ceiling and what stands behind it. -/
theorem exists_ceilCharBoundary (inside : offset ≤ utf8Len text) :
    ∃ front back, text = front ++ back ∧ utf8Len front = ceilCharBoundary text offset ∧
      offset ≤ utf8Len front := by
  induction text generalizing offset with
  | nil =>
    rw [Nat.le_zero.mp inside]
    exact ⟨[], [], rfl, rfl, Nat.le_refl _⟩
  | cons c text ih =>
    cases offset with
    | zero => exact ⟨[], c :: text, rfl, rfl, Nat.zero_le _⟩
    | succ offset =>
      rw [utf8Len_cons] at inside
      rw [ceilCharBoundary]
      obtain ⟨front, back, split, size, le⟩ := @ih (offset + 1 - c.utf8Size) (by omega)
      refine ⟨c :: front, back, by rw [split, List.cons_append], ?_, ?_⟩
      · rw [utf8Len_cons, size]
      · rw [utf8Len_cons]
        omega

theorem ceilCharBoundary_utf8Len (text : Text) :
    ceilCharBoundary text (utf8Len text) = utf8Len text := by
  induction text with
  | nil => rfl
  | cons c text ih =>
    have positive := c.utf8Size_pos
    obtain ⟨offset, isOffset⟩ : ∃ offset, c.utf8Size + utf8Len text = offset + 1 :=
      ⟨c.utf8Size + utf8Len text - 1, by omega⟩
    rw [utf8Len_cons, isOffset, ceilCharBoundary, ← isOffset, Nat.add_sub_cancel_left, ih]

end Codex.Text
