import Mathlib.Data.List.Basic

/-!
# Logs with checkpoints

A log is replayed item by item, and what counts of a state is a view of it.  A checkpoint puts the
view at a fixed value, so that nothing before it counts.
-/

namespace Checkpoints

variable {σ ι ω : Type*}

/-- The view goes on from itself, and a checkpoint forgets it. -/
structure Resets (step : σ → ι → σ) (view : σ → ω) (isCheckpoint : ι → Prop) : Prop where
  follows : ∀ s t item, view s = view t → view (step s item) = view (step t item)
  resets : ∀ s t item, isCheckpoint item → view (step s item) = view (step t item)

namespace Resets

variable {step : σ → ι → σ} {view : σ → ω} {isCheckpoint : ι → Prop}

/-- The view at the end depends on the view at the beginning only. -/
theorem foldl_congr (checkpoints : Resets step view isCheckpoint) {s t : σ}
    (same : view s = view t) (log : List ι) :
    view (log.foldl step s) = view (log.foldl step t) := by
  induction log generalizing s t with
  | nil => exact same
  | cons item log ih => exact ih (checkpoints.follows s t item same)

/-- With a checkpoint in the log, the view at the end does not depend on the beginning. -/
theorem foldl_eq (checkpoints : Resets step view isCheckpoint) {log : List ι}
    (found : ∃ item ∈ log, isCheckpoint item) (s t : σ) :
    view (log.foldl step s) = view (log.foldl step t) := by
  obtain ⟨item, member, isOne⟩ := found
  obtain ⟨front, behind, rfl⟩ := List.append_of_mem member
  rw [List.foldl_append, List.foldl_append, List.foldl_cons, List.foldl_cons]
  exact checkpoints.foldl_congr (checkpoints.resets _ _ item isOne) behind

/-- What is before a checkpoint does not count. -/
theorem foldl_append_cons (checkpoints : Resets step view isCheckpoint) {item : ι}
    (isOne : isCheckpoint item) (front behind : List ι) {s t : σ}
    (value : view (step s item) = view t) :
    view ((front ++ item :: behind).foldl step s) = view (behind.foldl step t) := by
  rw [List.foldl_append, List.foldl_cons]
  exact checkpoints.foldl_congr ((checkpoints.resets _ s item isOne).trans value) behind

end Resets

end Checkpoints
