import CodexPilot.Library.Transitions
import Mathlib.Algebra.BigOperators.Group.Multiset.Basic

/-!
# Interleavings of tasks over one shared state

Any number of tasks share one state, and each keeps a place of its own.  An event lets one task take
one atomic step, which may change the shared state and that task's place and no other.

Where every step of a run is a point at which one pending call takes effect, or changes nothing that
can be seen, the run shows what the calls do one after another, in the order of these points.
-/

namespace Interleaving

/-- Tasks at their places, and the state they share. -/
structure Tasks (ι σ τ : Type*) where
  shared : σ
  place : ι → τ

variable {ι σ τ ε : Type*} [DecidableEq ι] {move : ι → σ → τ → ε → Option (σ × τ)}
  {tasks next : Tasks ι σ τ} {event : ι × ε}

/-- One task takes one step. -/
def step (move : ι → σ → τ → ε → Option (σ × τ)) (tasks : Tasks ι σ τ) (event : ι × ε) :
    Option (Tasks ι σ τ) :=
  (move event.1 tasks.shared (tasks.place event.1) event.2).map fun moved =>
    { shared := moved.1, place := Function.update tasks.place event.1 moved.2 }

theorem step_eq_some_iff :
    step move tasks event = some next ↔
      ∃ shared place,
        move event.1 tasks.shared (tasks.place event.1) event.2 = some (shared, place) ∧
          next = { shared, place := Function.update tasks.place event.1 place } := by
  constructor
  · intro stepped
    obtain ⟨⟨shared, place⟩, moved, rfl⟩ := Option.map_eq_some_iff.mp stepped
    exact ⟨shared, place, moved, rfl⟩
  · rintro ⟨shared, place, moved, rfl⟩
    exact Option.map_eq_some_iff.mpr ⟨(shared, place), moved, rfl⟩

/-- What a step is: a move of one task, after which the others are where they were. -/
theorem moved_of_step (stepped : step move tasks event = some next) :
    move event.1 tasks.shared (tasks.place event.1) event.2 =
        some (next.shared, next.place event.1) ∧
      ∀ other, other ≠ event.1 → next.place other = tasks.place other := by
  obtain ⟨shared, place, moved, rfl⟩ := step_eq_some_iff.mp stepped
  refine ⟨by simpa using moved, fun other different => ?_⟩
  exact Function.update_of_ne different place tasks.place

/-- A move of one task is a step. -/
theorem exists_step_of_move {id : ι} {action : ε} {shared : σ} {place : τ}
    (moved : move id tasks.shared (tasks.place id) action = some (shared, place)) :
    ∃ next, step move tasks (id, action) = some next ∧ next.shared = shared ∧
      next.place id = place := by
  refine ⟨_, step_eq_some_iff.mpr ⟨shared, place, moved, rfl⟩, rfl, ?_⟩
  exact Function.update_self id place tasks.place

/-- The frame rule: what the task that moved and every other task at its old place meet, all meet.
-/
theorem forall_place_of_step (holds : ι → τ → Prop) (stepped : step move tasks event = some next)
    (own : holds event.1 (next.place event.1))
    (others : ∀ other, other ≠ event.1 → holds other (tasks.place other)) (id : ι) :
    holds id (next.place id) := by
  by_cases same : id = event.1
  · exact same ▸ own
  · rw [(moved_of_step stepped).2 id same]
    exact others id same

section Assertions

variable {assertion : ι → σ → τ → Prop}

/-- The interference rule: an assertion about every task's place is kept when each task's own moves
keep its own assertion and every other task's. -/
theorem assertions_of_step
    (own : ∀ id shared place action shared' place', assertion id shared place →
      move id shared place action = some (shared', place') → assertion id shared' place')
    (others : ∀ id shared place action shared' place' other place'', other ≠ id →
      assertion other shared place'' →
      move id shared place action = some (shared', place') → assertion other shared' place'')
    (holds : ∀ id, assertion id tasks.shared (tasks.place id))
    (stepped : step move tasks event = some next) (id : ι) :
    assertion id next.shared (next.place id) := by
  have moved := (moved_of_step stepped).1
  refine forall_place_of_step (fun id place => assertion id next.shared place) stepped
    (own _ _ _ _ _ _ (holds _) moved) (fun other different => ?_) id
  exact others _ _ _ _ _ _ other _ different (holds other) moved

end Assertions

end Interleaving

namespace Linearization

open Transitions

variable {σ ε τ α : Type*}

/-- Calls come in, and at most one takes effect: `view` is what can be seen of a state. -/
def Linearizes (view : σ → τ) (effect : τ → α → τ) (pending : σ → Multiset α)
    (invoked : ε → Multiset α) (state : σ) (event : ε) (next : σ) : Prop :=
  (view next = view state ∧ pending next = pending state + invoked event) ∨
    ∃ call, view next = effect (view state) call ∧
      pending state + invoked event = call ::ₘ pending next

variable {step : σ → ε → Option σ} {view : σ → τ} {effect : τ → α → τ} {pending : σ → Multiset α}
  {invoked : ε → Multiset α} {invariant : σ → Prop} {condition : σ → ε → Prop}
  {state final : σ} {events : List ε}

/-- The calls that have taken effect, in order, lead to what can be seen. -/
theorem exists_order_of_run
    (points : ∀ state event next, invariant state → condition state event →
      step state event = some next →
        invariant next ∧ Linearizes view effect pending invoked state event next)
    (holds : invariant state) (along : Along step condition state events)
    (ran : run step state events = some final) :
    ∃ order : List α, view final = order.foldl effect (view state) ∧
      pending state + (events.map invoked).sum = ↑order + pending final := by
  induction events generalizing state with
  | nil =>
      cases ran
      exact ⟨[], rfl, by simp⟩
  | cons event events ih =>
      obtain ⟨next, stepped, rest⟩ := Option.bind_eq_some_iff.mp ran
      obtain ⟨met, later⟩ := along next stepped
      obtain ⟨holds', linearizes⟩ := points state event next holds met stepped
      obtain ⟨order, seen, accounted⟩ := ih holds' later rest
      rw [List.map_cons, List.sum_cons, ← add_assoc]
      obtain ⟨unchanged, waits⟩ | ⟨call, effective, taken⟩ := linearizes
      · exact ⟨order, unchanged ▸ seen, waits ▸ accounted⟩
      · refine ⟨call :: order, ?_, ?_⟩
        · rw [List.foldl_cons, ← effective]
          exact seen
        · rw [taken, Multiset.cons_add, accounted, ← Multiset.cons_add, Multiset.cons_coe]

end Linearization
