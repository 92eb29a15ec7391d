import Mathlib.Tactic.NormNum

/-!
# Runs of a total step function

Every event leads to a next state.  What every step keeps, a run keeps, and what every step counts
or spends, a run counts or spends as often as it happens.
-/

namespace Replay

variable {σ ε : Type*}

/-- The state after the events, in order. -/
def replay (step : σ → ε → σ) (state : σ) (events : List ε) : σ := events.foldl step state

/-- How often something happens on the way. -/
def occurrences (step : σ → ε → σ) (happens : σ → ε → Bool) : σ → List ε → ℕ
  | _, [] => 0
  | state, event :: events =>
      (if happens state event then 1 else 0) + occurrences step happens (step state event) events

variable {step : σ → ε → σ} {happens : σ → ε → Bool} {state : σ} {events : List ε}

@[simp]
theorem replay_nil : replay step state [] = state := rfl

@[simp]
theorem replay_cons (event : ε) :
    replay step state (event :: events) = replay step (step state event) events := rfl

@[simp]
theorem occurrences_nil : occurrences step happens state [] = 0 := rfl

@[simp]
theorem occurrences_cons (event : ε) :
    occurrences step happens state (event :: events) =
      (if happens state event then 1 else 0) +
        occurrences step happens (step state event) events := rfl

theorem replay_append (before after : List ε) :
    replay step state (before ++ after) = replay step (replay step state before) after :=
  List.foldl_append

/-- What every step keeps. -/
theorem invariant_of_replay {invariant : σ → Prop}
    (kept : ∀ state event, invariant state → invariant (step state event))
    (holds : invariant state) (events : List ε) : invariant (replay step state events) := by
  induction events generalizing state with
  | nil => exact holds
  | cons event events ih => exact ih (kept state event holds)

/-- A counter that moves exactly when something happens. -/
theorem eq_add_occurrences (counter : σ → ℤ) (counts : ∀ state event,
      counter (step state event) = counter state + if happens state event then 1 else 0)
    (state : σ) (events : List ε) :
    counter (replay step state events) = counter state + occurrences step happens state events := by
  induction events generalizing state with
  | nil => simp
  | cons event events ih =>
      rw [replay_cons, ih, counts, occurrences_cons]
      push_cast
      omega

/-- What is spent whenever something happens bounds how often it does. -/
theorem occurrences_add_le (left : σ → ℕ) (spends : ∀ state event,
      (if happens state event then 1 else 0) + left (step state event) ≤ left state)
    (state : σ) (events : List ε) :
    occurrences step happens state events + left (replay step state events) ≤ left state := by
  induction events generalizing state with
  | nil => simp
  | cons event events ih =>
      have first := spends state event
      have rest := ih (step state event)
      rw [replay_cons, occurrences_cons]
      omega

end Replay
