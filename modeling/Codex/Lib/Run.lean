import Mathlib

/-!
# Runs of a step function

A component is a state, a step that consumes one event, and the outputs of that
step. `runAll` feeds a list of events and stops at the first error; `Trace` is the
same run as a relation, extended at its end, so that a property of the whole history
is proved from one step. A step that depends on a guard (a discipline of the caller)
is a step relation, which `Trace` takes as it is.
-/

namespace Codex.Run

variable {State Event Output Error : Type}

/-- Feed the events in order, collect the outputs, and stop at the first error. -/
def runAll (step : State → Event → Except Error (List Output × State)) :
    State → List Event → Except Error (List Output × State)
  | state, [] => .ok ([], state)
  | state, event :: events =>
      match step state event with
      | .error error => .error error
      | .ok (outputs, next) =>
          match runAll step next events with
          | .error error => .error error
          | .ok (rest, final) => .ok (outputs ++ rest, final)

/-- The runs of a step relation from `start`: the events consumed so far, the outputs
    of all steps in order, and the state reached. -/
inductive Trace (step : State → Event → List Output → State → Prop) (start : State) :
    List Event → List Output → State → Prop
  | nil : Trace step start [] [] start
  | snoc {events : List Event} {outputs : List Output} {state : State} (event : Event)
      (emitted : List Output) (next : State) (run : Trace step start events outputs state)
      (stepped : step state event emitted next) :
      Trace step start (events ++ [event]) (outputs ++ emitted) next

/-- A property of the history that holds of the empty run and that every step keeps
    holds of every run. -/
theorem Trace.invariant {step : State → Event → List Output → State → Prop} {start : State}
    {inv : List Event → List Output → State → Prop} (initial : inv [] [] start)
    (preserved : ∀ events outputs state event emitted next, inv events outputs state →
      step state event emitted next → inv (events ++ [event]) (outputs ++ emitted) next)
    {events : List Event} {outputs : List Output} {state : State}
    (run : Trace step start events outputs state) : inv events outputs state := by
  induction run with
  | nil => exact initial
  | snoc event emitted next _ stepped ih => exact preserved _ _ _ event emitted next ih stepped

variable {start final : State} {events : List Event} {outputs : List Output}

/-- The last step of a run. -/
theorem Trace.last {step : State → Event → List Output → State → Prop} {event : Event}
    (run : Trace step start (events ++ [event]) outputs final) :
    ∃ before emitted state, outputs = before ++ emitted ∧
      Trace step start events before state ∧ step state event emitted final := by
  generalize all : events ++ [event] = history at run
  cases run with
  | nil => simp at all
  | snoc last emitted next run stepped =>
    obtain ⟨rfl, same⟩ := List.append_inj' all rfl
    obtain rfl := List.singleton_inj.mp same
    exact ⟨_, emitted, _, rfl, run, stepped⟩

/-- The step relation of a step function: the successful calls. -/
def okStep (step : State → Event → Except Error (List Output × State)) (state : State)
    (event : Event) (emitted : List Output) (next : State) : Prop :=
  step state event = .ok (emitted, next)

theorem trace_append_runAll {step : State → Event → Except Error (List Output × State)}
    {state : State} {done : List Event} {more : List Output}
    (run : Trace (okStep step) start done outputs state)
    (ran : runAll step state events = .ok (more, final)) :
    Trace (okStep step) start (done ++ events) (outputs ++ more) final := by
  induction events generalizing done outputs state more with
  | nil =>
    simp only [runAll, Except.ok.injEq, Prod.mk.injEq] at ran
    obtain ⟨rfl, rfl⟩ := ran
    simpa using run
  | cons event events ih =>
    simp only [runAll] at ran
    split at ran
    · cases ran
    next emitted next stepped =>
    split at ran
    · cases ran
    · next rest final' ranRest =>
      simp only [Except.ok.injEq, Prod.mk.injEq] at ran
      obtain ⟨rfl, rfl⟩ := ran
      have extended := ih (.snoc event emitted next run stepped) ranRest
      simpa [List.append_assoc] using extended

/-- A run of `runAll` without error is a trace of the successful steps. -/
theorem trace_of_runAll {step : State → Event → Except Error (List Output × State)}
    (ran : runAll step start events = .ok (outputs, final)) :
    Trace (okStep step) start events outputs final := by
  simpa using trace_append_runAll .nil ran

end Codex.Run
