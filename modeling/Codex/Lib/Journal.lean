import Mathlib

/-!
# Journals of edits

An edit replaces the value of one key and remembers the value it found there. A journal is a
list of edits, in the order in which they were made, whose remembered values are those of its
own replay. Undoing an edit removes it from the journal; that is sound when no later edit of
the same key is left.
-/

namespace Codex

variable {κ ν : Type} [DecidableEq κ]

structure Edit (κ ν : Type) where
  key : κ
  before : ν
  after : ν

/-- The state after the edits. -/
def replay (start : κ → ν) (edits : List (Edit κ ν)) : κ → ν :=
  edits.foldl (fun state edit => Function.update state edit.key edit.after) start

/-- The edits remember what they found, and an edit of a key that was edited before changes
    its value. -/
inductive Journal (start : κ → ν) : List (Edit κ ν) → Prop
  | nil : Journal start []
  | snoc {edits : List (Edit κ ν)} (edit : Edit κ ν) (journal : Journal start edits)
      (found : edit.before = replay start edits edit.key)
      (changes : edit.before ≠ edit.after ∨ ∀ earlier ∈ edits, earlier.key ≠ edit.key) :
      Journal start (edits ++ [edit])

section Replay

variable {start : κ → ν}

theorem replay_append (first second : List (Edit κ ν)) :
    replay start (first ++ second) = replay (replay start first) second := by
  rw [replay, List.foldl_append]
  rfl

theorem replay_snoc (edits : List (Edit κ ν)) (edit : Edit κ ν) :
    replay start (edits ++ [edit]) =
      Function.update (replay start edits) edit.key edit.after := by
  rw [replay_append]
  rfl

/-- Edits of other keys do not matter. -/
theorem replay_of_notMem {edits : List (Edit κ ν)} {key : κ}
    (other : ∀ edit ∈ edits, edit.key ≠ key) : replay start edits key = start key := by
  induction edits generalizing start with
  | nil => rfl
  | cons edit edits ih =>
    have step := @ih (Function.update start edit.key edit.after)
      (fun later member => other later (List.mem_cons_of_mem _ member))
    rw [Function.update_of_ne (other edit List.mem_cons_self).symm] at step
    exact step

theorem replay_congr {start' : κ → ν} {edits : List (Edit κ ν)} {key : κ}
    (same : start key = start' key) : replay start edits key = replay start' edits key := by
  induction edits generalizing start start' with
  | nil => exact same
  | cons edit edits ih =>
    apply ih
    show Function.update start edit.key edit.after key =
      Function.update start' edit.key edit.after key
    by_cases here : key = edit.key
    · rw [here, Function.update_self, Function.update_self]
    · rw [Function.update_of_ne here, Function.update_of_ne here, same]

/-- Dropping an edit whose key no later edit has gives its key the earlier value. -/
theorem replay_remove {front kept : List (Edit κ ν)} {edit : Edit κ ν}
    (last : ∀ later ∈ kept, later.key ≠ edit.key) :
    replay start (front ++ kept) = Function.update (replay start (front ++ edit :: kept))
      edit.key (replay start front edit.key) := by
  funext key
  rw [replay_append, replay_append]
  by_cases here : key = edit.key
  · rw [here, Function.update_self, replay_of_notMem last]
  · rw [Function.update_of_ne here]
    apply replay_congr
    exact (Function.update_of_ne here _ _).symm

end Replay

namespace Journal

variable {start : κ → ν}

variable {edit : Edit κ ν}

theorem last {edits : List (Edit κ ν)} (journal : Journal start (edits ++ [edit])) :
    Journal start edits ∧ edit.before = replay start edits edit.key ∧
      (edit.before ≠ edit.after ∨ ∀ earlier ∈ edits, earlier.key ≠ edit.key) := by
  generalize all : edits ++ [edit] = whole at journal
  cases journal with
  | nil => simp at all
  | snoc final journal found changes =>
    obtain ⟨rfl, same⟩ := List.append_inj' all rfl
    obtain rfl := List.singleton_inj.mp same
    exact ⟨journal, found, changes⟩

/-- The beginning of a journal is a journal. -/
theorem front {first second : List (Edit κ ν)} (journal : Journal start (first ++ second)) :
    Journal start first := by
  induction second using List.reverseRecOn with
  | nil => simpa using journal
  | append_singleton second edit ih =>
    rw [← List.append_assoc] at journal
    exact ih journal.last.1

/-- An edit can be undone when no later edit of its key is left. -/
theorem remove {front kept : List (Edit κ ν)} (journal : Journal start (front ++ edit :: kept))
    (isLast : ∀ later ∈ kept, later.key ≠ edit.key) : Journal start (front ++ kept) := by
  induction kept using List.reverseRecOn with
  | nil =>
    rw [List.append_nil]
    exact journal.front
  | append_singleton kept later ih =>
    rw [← List.cons_append, ← List.append_assoc] at journal
    obtain ⟨earlier, found, changes⟩ := journal.last
    have isLast' : ∀ other ∈ kept, other.key ≠ edit.key :=
      fun other member => isLast other (List.mem_append_left _ member)
    have other : later.key ≠ edit.key :=
      isLast later (List.mem_append_right _ (List.mem_singleton_self _))
    rw [← List.append_assoc]
    refine .snoc later (ih earlier isLast') ?_ ?_
    · rw [found, replay_remove isLast', Function.update_of_ne other]
    · refine changes.imp id (fun fresh earlier member => fresh earlier ?_)
      rw [List.mem_append, List.mem_cons]
      rcases List.mem_append.mp member with inFront | inKept
      · exact .inl inFront
      · exact .inr (.inr inKept)

/-- While a later edit of the same key is current, an edit is not. -/
theorem superseded {front kept : List (Edit κ ν)} (journal : Journal start (front ++ edit :: kept))
    (current : ∀ later ∈ kept, replay start (front ++ edit :: kept) later.key = later.after)
    (later : ∃ other ∈ kept, other.key = edit.key) :
    replay start (front ++ edit :: kept) edit.key ≠ edit.after := by
  classical
  -- the first later edit of the key found what this edit left, and changed it
  obtain ⟨between, next, rest, split, isNext, notBetween⟩ :
      ∃ between next rest, kept = between ++ next :: rest ∧ next.key = edit.key ∧
        ∀ other ∈ between, other.key ≠ edit.key := by
    obtain ⟨other, member, same⟩ := later
    obtain ⟨next, between, rest, noneBefore, isNext, split⟩ :=
      List.exists_of_eraseP (p := fun other => decide (other.key = edit.key)) member
        (decide_eq_true same)
    refine ⟨between, next, rest, split.1, of_decide_eq_true isNext, ?_⟩
    intro other member same
    exact noneBefore other member (decide_eq_true same)
  have whole : front ++ edit :: kept = front ++ edit :: between ++ [next] ++ rest := by
    rw [split]
    simp
  have journal' : Journal start (front ++ edit :: between ++ [next]) := by
    rw [whole] at journal
    exact journal.front
  obtain ⟨-, found, changes⟩ := journal'.last
  have left : replay start (front ++ edit :: between) edit.key = edit.after := by
    rw [replay_append]
    show replay (Function.update _ _ _) between edit.key = _
    rw [replay_of_notMem notBetween, Function.update_self]
  have changed : next.before ≠ next.after := by
    refine changes.resolve_right (fun fresh => fresh edit ?_ isNext.symm)
    exact List.mem_append_right _ List.mem_cons_self
  have isCurrent := current next (by rw [split]; simp)
  rw [isNext] at isCurrent found
  rw [isCurrent, ← left, ← found]
  exact changed.symm

end Journal

end Codex
