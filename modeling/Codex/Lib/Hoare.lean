import Mathlib

/-!
# Pre- and postconditions of fallible computations

A computation of `ExceptT ε (StateM σ)` returns a value or an error, and in both cases leaves a
state behind. `Holds post fail (action.from state)` says what holds of that state: `post` after
a return, `fail` after an error. The rules follow the structure of a `do` block.
-/

namespace Codex.Hoare

variable {σ ε α β : Type}

/-- A fallible computation with a state that errors do not undo. -/
abbrev Effect (σ ε α : Type) := ExceptT ε (StateM σ) α

/-- The result of a computation from a state. -/
def Effect.from (action : Effect σ ε α) (state : σ) : Except ε α × σ := action.run.run state

/-- What holds of a result. -/
def Holds (post : α → σ → Prop) (fail : ε → σ → Prop) : Except ε α × σ → Prop
  | (.ok value, state) => post value state
  | (.error error, state) => fail error state

/-- A pure computation that returns has returned from each of its parts. -/
theorem bind_ok {first : Except ε α} {rest : α → Except ε β} {value : β} :
    (first >>= rest) = .ok value ↔ ∃ middle, first = .ok middle ∧ rest middle = .ok value := by
  cases first with
  | error failure => exact ⟨nofun, nofun⟩
  | ok middle => exact ⟨fun ok => ⟨middle, rfl, ok⟩, fun ⟨_, same, ok⟩ => by cases same; exact ok⟩

section Rules

variable {action : Effect σ ε α} {post : α → σ → Prop} {fail : ε → σ → Prop} {state : σ}

theorem from_get (state : σ) : Effect.from (get : Effect σ ε σ) state = (.ok state, state) := rfl

theorem from_modify (change : σ → σ) (state : σ) :
    Effect.from (modify change : Effect σ ε PUnit) state = (.ok ⟨⟩, change state) := rfl

theorem from_bind (action : Effect σ ε α) (rest : α → Effect σ ε β) (state : σ) :
    Effect.from (action >>= rest) state =
      match action.from state with
      | (.ok value, next) => (rest value).from next
      | (.error failure, next) => (.error failure, next) := by
  simp only [Effect.from, ExceptT.run_bind, StateT.run_bind]
  show StateT.run _ (action.run.run state).2 = _
  rcases action.run.run state with ⟨outcome, next⟩
  cases outcome <;> rfl

theorem from_tryCatch (action : Effect σ ε α) (handler : ε → Effect σ ε α) (state : σ) :
    Effect.from (tryCatch action handler) state =
      match action.from state with
      | (.ok value, next) => (.ok value, next)
      | (.error failure, next) => (handler failure).from next := by
  show StateT.run (match (action.from state).1 with
    | .ok value => pure (.ok value)
    | .error failure => handler failure) (action.from state).2 = _
  generalize action.from state = result
  obtain ⟨outcome, next⟩ := result
  cases outcome <;> rfl

/-- The rule of consequence. -/
theorem Holds.mono {post' : α → σ → Prop} {fail' : ε → σ → Prop} {result : Except ε α × σ}
    (holds : Holds post fail result) (ok : ∀ value state, post value state → post' value state)
    (error : ∀ error state, fail error state → fail' error state) : Holds post' fail' result := by
  obtain ⟨outcome, state⟩ := result
  cases outcome with
  | ok value => exact ok value state holds
  | error failure => exact error failure state holds

/-- The rule of sequence. -/
theorem Holds.bind {rest : α → Effect σ ε β} {middle : α → σ → Prop} {post : β → σ → Prop}
    (first : Holds middle fail (action.from state))
    (next : ∀ value state, middle value state → Holds post fail ((rest value).from state)) :
    Holds post fail ((action >>= rest).from state) := by
  rw [from_bind]
  generalize action.from state = result at first ⊢
  obtain ⟨outcome, after⟩ := result
  cases outcome with
  | ok value => exact next value after first
  | error failure => exact first

/-- What an action that changes nothing returned is handed to the rest. -/
theorem Holds.after {rest : α → Effect σ ε β} {value : α} {post : β → σ → Prop}
    (returns : action.from state = (.ok value, state))
    (next : Holds post fail ((rest value).from state)) :
    Holds post fail ((action >>= rest).from state) := by
  rw [from_bind, returns]
  exact next

/-- The rule of handlers: what holds after an error is what the handler starts from. -/
theorem Holds.handle {handler : ε → Effect σ ε α} {caught : ε → σ → Prop}
    (first : Holds post caught (action.from state))
    (handles : ∀ failure state, caught failure state →
      Holds post fail ((handler failure).from state)) :
    Holds post fail (Effect.from (tryCatch action handler) state) := by
  rw [from_tryCatch]
  generalize action.from state = result at first ⊢
  obtain ⟨outcome, after⟩ := result
  cases outcome with
  | ok value => exact first
  | error failure => exact handles failure after first

end Rules

end Codex.Hoare
