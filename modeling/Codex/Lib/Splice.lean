import Mathlib.Data.List.Basic
import Mathlib.Tactic.Common

/-!
# Splices

Replacements of ranges of a list, made from the last to the first, and what they make of the list
when the ranges are in order and disjoint.
-/

namespace Codex.Splice

variable {α β : Type}

/-- A start, the number of elements that go, and those that come in their place. -/
abbrev Edit (α : Type) := Nat × Nat × List α

/-- `Vec::splice` of a range. -/
def splice (list : List α) (start oldLen : Nat) (new : List α) : List α :=
  list.take start ++ new ++ list.drop (start + oldLen)

/-- The edits, the last one first. -/
def spliceAll (list : List α) (edits : List (Edit α)) : List α :=
  edits.foldr (fun edit list => splice list edit.1 edit.2.1 edit.2.2) list

variable {list new : List α} {edits part : List (Edit α)} {length position stop : Nat}

theorem mem_spliceAll {element : α} (member : element ∈ spliceAll list edits) :
    element ∈ list ∨ ∃ edit ∈ edits, element ∈ edit.2.2 := by
  induction edits with
  | nil => exact .inl member
  | cons edit rest ih =>
    change element ∈ splice (spliceAll list rest) _ _ _ at member
    rw [splice, List.mem_append, List.mem_append] at member
    have later : element ∈ spliceAll list rest →
        element ∈ list ∨ ∃ other ∈ edit :: rest, element ∈ other.2.2 := by
      intro old
      rcases ih old with kept | ⟨other, listed, own⟩
      · exact .inl kept
      · exact .inr ⟨other, List.mem_cons_of_mem _ listed, own⟩
    rcases member with (before | new) | after
    · exact later (List.mem_of_mem_take before)
    · exact .inr ⟨edit, List.mem_cons_self, new⟩
    · exact later (List.mem_of_mem_drop after)

/-- The list from a position on, with the ranges of the edits substituted. -/
def substitute (list : List α) : Nat → List (Edit α) → List α
  | position, [] => list.drop position
  | position, (start, oldLen, new) :: rest =>
      (list.take start).drop position ++ new ++ substitute list (start + oldLen) rest

/-- The ranges of the edits are in order, disjoint, and between a position and a length. -/
def Fits (length : Nat) : Nat → List (Edit α) → Prop
  | position, [] => position ≤ length
  | position, (start, oldLen, _) :: rest => position ≤ start ∧ Fits length (start + oldLen) rest

theorem Fits.le (fits : Fits length position edits) :
    position ≤ length := by
  induction edits generalizing position with
  | nil => exact fits
  | cons edit rest ih =>
    obtain ⟨start, oldLen, new⟩ := edit
    obtain ⟨before, later⟩ := fits
    have := ih later
    omega

theorem Fits.weaken {start : Nat} (fits : Fits length start edits)
    (before : position ≤ start) : Fits length position edits := by
  cases edits with
  | nil => exact Nat.le_trans before fits
  | cons edit rest => exact ⟨Nat.le_trans before fits.1, fits.2⟩

/-- Edits that are pairwise in order and within the list fit. -/
theorem fits_of_pairwise (ordered : edits.Pairwise fun a b => a.1 + a.2.1 ≤ b.1)
    (within : ∀ edit ∈ edits, position ≤ edit.1 ∧ edit.1 + edit.2.1 ≤ length)
    (inside : position ≤ length) : Fits length position edits := by
  induction edits generalizing position with
  | nil => exact inside
  | cons edit rest ih =>
    obtain ⟨start, oldLen, new⟩ := edit
    obtain ⟨before, ordered⟩ := List.pairwise_cons.mp ordered
    have first := within _ List.mem_cons_self
    refine ⟨first.1, ih ordered ?_ first.2⟩
    intro other member
    exact ⟨before other member, (within other (List.mem_cons_of_mem _ member)).2⟩

theorem spliceAll_eq_take_append (fits : Fits list.length position edits) :
    spliceAll list edits = list.take position ++ substitute list position edits := by
  induction edits generalizing position with
  | nil => exact (List.take_append_drop position list).symm
  | cons edit rest ih =>
    obtain ⟨start, oldLen, new⟩ := edit
    obtain ⟨before, later⟩ := fits
    have inside := later.le
    have kept : (list.take (start + oldLen)).length = start + oldLen :=
      List.length_take_of_le inside
    have split : list.take start = list.take position ++ (list.take start).drop position := by
      have whole := List.take_append_drop position (list.take start)
      rw [List.take_take, Nat.min_eq_left before] at whole
      exact whole.symm
    calc spliceAll list ((start, oldLen, new) :: rest)
        = splice (spliceAll list rest) start oldLen new := rfl
      _ = list.take start ++ new ++ substitute list (start + oldLen) rest := by
          rw [ih later, splice, List.take_append_of_le_length (by omega), List.take_take,
            Nat.min_eq_left (Nat.le_add_right _ _), List.drop_left' kept]
      _ = list.take position ++ substitute list position ((start, oldLen, new) :: rest) := by
          rw [substitute, split]
          simp only [List.append_assoc]
          rw [← split]

/-- Splicing from the last edit to the first substitutes the ranges. -/
theorem spliceAll_eq_substitute
    (fits : Fits list.length 0 edits) : spliceAll list edits = substitute list 0 edits := by
  rw [spliceAll_eq_take_append fits, List.take_zero, List.nil_append]

/-- The lines of an edit, changed one by one. -/
def mapEdit (change : α → β) (edit : Edit α) : Edit β := (edit.1, edit.2.1, edit.2.2.map change)

theorem fits_map (change : α → β) :
    Fits length position (edits.map (mapEdit change)) ↔ Fits length position edits := by
  induction edits generalizing position with
  | nil => rfl
  | cons edit rest ih => exact and_congr_right fun _ => ih

theorem map_spliceAll (change : α → β) (list : List α) (edits : List (Edit α)) :
    (spliceAll list edits).map change =
      spliceAll (list.map change) (edits.map (mapEdit change)) := by
  induction edits with
  | nil => rfl
  | cons edit rest ih =>
    change (splice (spliceAll list rest) _ _ _).map change =
      splice (spliceAll (list.map change) (rest.map (mapEdit change))) _ _ _
    rw [← ih]
    simp [splice, mapEdit, List.map_take, List.map_drop]

/-- Edits that follow each other without a gap from a position to another, and the elements that
    they bring in. -/
def Spells : Nat → Nat → List α → List (Edit α) → Prop
  | position, stop, new, [] => position = stop ∧ new = []
  | position, stop, new, (start, oldLen, own) :: rest =>
      start = position ∧ ∃ later, new = own ++ later ∧ Spells (position + oldLen) stop later rest

theorem Spells.le (spells : Spells position stop new part) : position ≤ stop := by
  induction part generalizing position new with
  | nil => exact Nat.le_of_eq spells.1
  | cons edit rest ih =>
    obtain ⟨start, oldLen, own⟩ := edit
    obtain ⟨_, later, _, spells⟩ := spells
    exact Nat.le_trans (Nat.le_add_right _ _) (ih spells)

theorem Spells.within (spells : Spells position stop new part) :
    ∀ edit ∈ part, position ≤ edit.1 ∧ edit.1 + edit.2.1 ≤ stop := by
  induction part generalizing position new with
  | nil => simp
  | cons first rest ih =>
    obtain ⟨start, oldLen, own⟩ := first
    obtain ⟨rfl, later, _, spells⟩ := spells
    intro edit member
    rcases List.mem_cons.mp member with rfl | old
    · exact ⟨Nat.le_refl _, spells.le⟩
    · have := ih spells edit old
      omega

theorem Spells.ordered (spells : Spells position stop new part) :
    part.Pairwise fun first second => first.1 + first.2.1 ≤ second.1 := by
  induction part generalizing position new with
  | nil => exact List.Pairwise.nil
  | cons first rest ih =>
    obtain ⟨start, oldLen, own⟩ := first
    obtain ⟨rfl, later, _, spells⟩ := spells
    exact List.pairwise_cons.mpr ⟨fun edit member => (spells.within edit member).1, ih spells⟩

/-- What comes in is brought in by one of the edits. -/
theorem Spells.exists_of_mem (spells : Spells position stop new part) {element : α}
    (member : element ∈ new) :
    ∃ edit ∈ part, element ∈ edit.2.2 := by
  induction part generalizing position new with
  | nil =>
    obtain ⟨_, rfl⟩ := spells
    cases member
  | cons first rest ih =>
    obtain ⟨start, oldLen, own⟩ := first
    obtain ⟨_, later, rfl, spells⟩ := spells
    rcases List.mem_append.mp member with own | other
    · exact ⟨_, List.mem_cons_self, own⟩
    · obtain ⟨edit, listed, new⟩ := ih spells other
      exact ⟨edit, List.mem_cons_of_mem _ listed, new⟩

/-- What spelled edits substitute. -/
theorem Spells.substitute (spells : Spells position stop new part) (list : List α)
    (rest : List (Edit α)) :
    substitute list position (part ++ rest) = new ++ substitute list stop rest := by
  induction part generalizing position new with
  | nil =>
    obtain ⟨rfl, rfl⟩ := spells
    rfl
  | cons edit others ih =>
    obtain ⟨start, oldLen, own⟩ := edit
    obtain ⟨rfl, later, rfl, spells⟩ := spells
    rw [List.cons_append, Splice.substitute, ih spells]
    simp

theorem Spells.fits {rest : List (Edit α)} (spells : Spells position stop new part)
    (fits : Fits length stop rest) :
    Fits length position (part ++ rest) := by
  induction part generalizing position new with
  | nil =>
    obtain ⟨rfl, _⟩ := spells
    exact fits
  | cons edit others ih =>
    obtain ⟨start, oldLen, own⟩ := edit
    obtain ⟨rfl, later, _, spells⟩ := spells
    exact ⟨Nat.le_refl _, ih spells⟩

theorem Spells.map (change : α → β) (spells : Spells position stop new part) :
    Spells position stop (new.map change) (part.map (mapEdit change)) := by
  induction part generalizing position new with
  | nil =>
    obtain ⟨rfl, rfl⟩ := spells
    exact ⟨rfl, rfl⟩
  | cons edit rest ih =>
    obtain ⟨start, oldLen, own⟩ := edit
    obtain ⟨rfl, later, rfl, spells⟩ := spells
    exact ⟨rfl, later.map change, List.map_append, ih spells⟩

/-- The elements before the first edit are kept. -/
theorem substitute_from {start : Nat} (before : position ≤ start)
    (fits : Fits list.length start edits) :
    substitute list position edits = (list.take start).drop position ++
      substitute list start edits := by
  have cut : ∀ stop, start ≤ stop → (list.take stop).drop position =
      (list.take start).drop position ++ (list.take stop).drop start := by
    intro stop after
    have whole := List.take_append_drop start (list.take stop)
    rw [List.take_take, Nat.min_eq_left after] at whole
    have inside := fits.le
    rw [← whole, List.drop_append_of_le_length (by simp; omega), whole]
  cases edits with
  | nil =>
    have all := cut list.length fits
    rwa [List.take_length] at all
  | cons edit rest =>
    obtain ⟨first, oldLen, own⟩ := edit
    rw [substitute, substitute, cut first fits.1]
    simp only [List.append_assoc]

/-- Spelling each edit out does not change what is substituted. -/
theorem substitute_spelled {spelled : List (Edit α × List (Edit α))}
    (each : ∀ entry ∈ spelled, Spells entry.1.1 (entry.1.1 + entry.1.2.1) entry.1.2.2 entry.2)
    (fits : Fits list.length position (spelled.map Prod.fst)) :
    substitute list position (spelled.map Prod.fst) =
        substitute list position (spelled.flatMap Prod.snd) ∧
      Fits list.length position (spelled.flatMap Prod.snd) := by
  induction spelled generalizing position with
  | nil => exact ⟨rfl, fits⟩
  | cons entry rest ih =>
    obtain ⟨⟨start, oldLen, new⟩, part⟩ := entry
    obtain ⟨before, later⟩ := fits
    have first := each _ List.mem_cons_self
    obtain ⟨same, restFits⟩ := ih (fun entry member => each entry (List.mem_cons_of_mem _ member))
      later
    have partFits := first.fits restFits
    refine ⟨?_, ?_⟩
    · rw [List.flatMap_cons, substitute_from before partFits, first.substitute, ← same]
      simp only [List.map_cons, substitute, List.append_assoc]
    · rw [List.flatMap_cons]
      exact partFits.weaken before

/-- A stable sort keeps what holds pairwise between elements that tie. -/
theorem pairwise_mergeSort_ties {le : α → α → Bool} {related : α → α → Prop}
    (trans : ∀ a b c, le a b = true → le b c = true → le a c = true)
    (total : ∀ a b, (le a b || le b a) = true) (listed : list.Pairwise related) :
    (list.mergeSort le).Pairwise fun a b => le a b = true ∧ (le b a = true → related a b) := by
  rw [← List.mergeSort_zipIdx, List.pairwise_map]
  have sorted := List.pairwise_mergeSort (List.zipIdxLE_trans trans) (List.zipIdxLE_total total)
    list.zipIdx
  have distinct : (list.zipIdx.mergeSort (List.zipIdxLE le)).Pairwise fun a b => a.2 ≠ b.2 := by
    have numbered : list.zipIdx.Pairwise fun a b => a.2 ≠ b.2 := by
      rw [← List.pairwise_map, List.zipIdx_map_snd]
      exact List.nodup_range'
    exact numbered.perm (List.mergeSort_perm _ _).symm Ne.symm
  refine (sorted.and distinct).imp_of_mem ?_
  rintro ⟨a, i⟩ ⟨b, j⟩ first second ⟨ordered, apart⟩
  rw [List.mem_mergeSort, List.mem_zipIdx_iff_getElem?] at first second
  simp only at first second apart ⊢
  simp only [List.zipIdxLE] at ordered
  split at ordered
  next before =>
    refine ⟨before, fun tie => ?_⟩
    rw [if_pos tie, decide_eq_true_eq] at ordered
    obtain ⟨firstInside, rfl⟩ := List.getElem?_eq_some_iff.mp first
    obtain ⟨secondInside, rfl⟩ := List.getElem?_eq_some_iff.mp second
    exact List.pairwise_iff_getElem.mp listed _ _ firstInside secondInside (by omega)
  · cases ordered

end Codex.Splice
