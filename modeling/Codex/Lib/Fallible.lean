import Codex.Lib.Hoare

/-!
# Loops that may fail

What holds after a loop that has not failed: an invariant, and what a round has established that no
later round takes away.
-/

namespace Codex.Hoare

variable {σ ε α β : Type}

theorem map_ok {result : Except ε α} {change : α → β} {value : β} :
    result.map change = .ok value ↔ ∃ before, result = .ok before ∧ change before = value := by
  cases result with
  | error failure =>
    constructor
    · exact fun impossible => by cases impossible
    · rintro ⟨_, impossible, -⟩
      cases impossible
  | ok before =>
    constructor
    · exact fun mapped => ⟨before, rfl, Except.ok.inj mapped⟩
    · rintro ⟨_, same, rfl⟩
      cases same
      rfl

/-- What every round keeps holds after the loop. -/
theorem foldlM_invariant {round : σ → α → Except ε σ} {invariant : σ → Prop} {items : List α}
    (kept : ∀ item ∈ items, ∀ state next, round state item = .ok next →
      invariant state → invariant next)
    {start final : σ} (ran : items.foldlM round start = .ok final) (holds : invariant start) :
    invariant final := by
  induction items generalizing start with
  | nil =>
    cases ran
    exact holds
  | cons item items ih =>
    rw [List.foldlM_cons] at ran
    obtain ⟨middle, first, rest⟩ := bind_ok.mp ran
    exact ih (fun other member => kept other (List.mem_cons_of_mem _ member)) rest
      (kept item (List.mem_cons_self ..) _ _ first holds)

/-- What the round of an item establishes, and every round keeps, holds after the loop. -/
theorem foldlM_established {round : σ → α → Except ε σ} {property : σ → Prop} {items : List α}
    (kept : ∀ item ∈ items, ∀ state next, round state item = .ok next →
      property state → property next)
    {item : α} (member : item ∈ items)
    (established : ∀ state next, round state item = .ok next → property next)
    {start final : σ} (ran : items.foldlM round start = .ok final) : property final := by
  obtain ⟨before, after, rfl⟩ := List.append_of_mem member
  rw [List.foldlM_append] at ran
  obtain ⟨state, -, later⟩ := bind_ok.mp ran
  rw [List.foldlM_cons] at later
  obtain ⟨next, here, rest⟩ := bind_ok.mp later
  refine foldlM_invariant (fun other inside => kept other ?_) rest (established state next here)
  exact List.mem_append_right _ (List.mem_cons_of_mem _ inside)

end Codex.Hoare
