import Mathlib.Data.List.Nodup

/-!
# Journaled runs

A store is a function of its keys.  A journal is a list of writes, replayed in order; a run is a
loop of fallible steps that keep their state when they fail, and whose journal only grows.
-/

namespace Journal

section Replay

variable {κ ν : Type*} [DecidableEq κ] {store : κ → ν} {writes : List (κ × ν)} {key : κ} {value : ν}

/-- Carry out the writes in order. -/
def replay (store : κ → ν) (writes : List (κ × ν)) : κ → ν :=
  writes.foldl (fun store write => Function.update store write.1 write.2) store

@[simp]
theorem replay_cons (store : κ → ν) (write : κ × ν) (writes : List (κ × ν)) :
    replay store (write :: writes) = replay (Function.update store write.1 write.2) writes := rfl

theorem replay_append (store : κ → ν) (left right : List (κ × ν)) :
    replay store (left ++ right) = replay (replay store left) right := by
  simp [replay, List.foldl_append]

/-- A key that no write names keeps its value. -/
theorem replay_of_notMem (absent : key ∉ writes.map Prod.fst) :
    replay store writes key = store key := by
  induction writes generalizing store with
  | nil => rfl
  | cons write writes ih =>
      simp only [List.map_cons, List.mem_cons, not_or] at absent
      rw [replay_cons, ih absent.2, Function.update_of_ne absent.1]

/-- When the keys are distinct, every write is the last one of its key. -/
theorem replay_of_mem (nodup : (writes.map Prod.fst).Nodup) (member : (key, value) ∈ writes) :
    replay store writes key = value := by
  induction writes generalizing store with
  | nil => cases member
  | cons write writes ih =>
      obtain ⟨fresh, restNodup⟩ := List.nodup_cons.mp nodup
      rw [replay_cons]
      rcases List.mem_cons.mp member with rfl | later
      · rw [replay_of_notMem fresh, Function.update_self]
      · exact ih restNodup later

/-- The last write of a key decides. -/
theorem replay_of_last {before after : List (κ × ν)} (final : key ∉ after.map Prod.fst) :
    replay store (before ++ (key, value) :: after) key = value := by
  rw [replay_append, replay_cons, replay_of_notMem final, Function.update_self]

/-- A key that is written has a last write. -/
theorem exists_last_of_mem (member : key ∈ writes.map Prod.fst) :
    ∃ before value after, writes = before ++ (key, value) :: after ∧
      key ∉ after.map Prod.fst := by
  induction writes with
  | nil => cases member
  | cons write writes ih =>
      by_cases later : key ∈ writes.map Prod.fst
      · obtain ⟨before, value, after, rfl, final⟩ := ih later
        exact ⟨write :: before, value, after, rfl, final⟩
      · have first : key = write.1 := by
          simpa [later] using member
        exact ⟨[], write.2, writes, by rw [first]; rfl, later⟩

end Replay

section Runs

variable {ε σ β : Type} {ι κ : Type*} {step : β → ι → EStateM ε σ β} {log : σ → List κ}

/-- The state a computation ends in, also when it fails. -/
def finalState {α : Type} : EStateM.Result ε σ α → σ
  | .ok _ state => state
  | .error _ state => state

@[simp]
theorem finalState_ok {α : Type} (value : α) (state : σ) :
    finalState (.ok value state : EStateM.Result ε σ α) = state := rfl

@[simp]
theorem finalState_error {α : Type} (error : ε) (state : σ) :
    finalState (.error error state : EStateM.Result ε σ α) = state := rfl

theorem bind_of_ok {α γ : Type} {first : EStateM ε σ α} {next : α → EStateM ε σ γ}
    {state middle : σ} {value : α} (succeeded : first state = .ok value middle) :
    (first >>= next) state = next value middle := by
  simp [bind, EStateM.bind, succeeded]

theorem bind_of_error {α γ : Type} {first : EStateM ε σ α} {next : α → EStateM ε σ γ}
    {state middle : σ} {error : ε} (failed : first state = .error error middle) :
    (first >>= next) state = .error error middle := by
  simp [bind, EStateM.bind, failed]

/-- A sequence succeeds when both of its parts do. -/
theorem exists_of_bind_ok {α γ : Type} {first : EStateM ε σ α} {next : α → EStateM ε σ γ}
    {state last : σ} {result : γ} (succeeded : (first >>= next) state = .ok result last) :
    ∃ value middle, first state = .ok value middle ∧ next value middle = .ok result last := by
  cases outcome : first state with
  | ok value middle =>
      rw [bind_of_ok outcome] at succeeded
      exact ⟨value, middle, rfl, succeeded⟩
  | error error middle =>
      rw [bind_of_error outcome] at succeeded
      cases succeeded

@[simp]
theorem finalState_bind_pure {α γ : Type} (first : EStateM ε σ α) (value : γ) (state : σ) :
    finalState ((first >>= fun _ => pure value) state) = finalState (first state) := by
  cases outcome : first state with
  | ok _ middle => rw [bind_of_ok outcome]; rfl
  | error error middle => rw [bind_of_error outcome]; rfl

/-- The journal of a loop only grows when that of each step does. -/
theorem log_subset_foldlM
    (grows : ∀ value item state, log state ⊆ log (finalState (step value item state)))
    (items : List ι) (value : β) (state : σ) :
    log state ⊆ log (finalState (items.foldlM step value state)) := by
  induction items generalizing value state with
  | nil => exact fun _ member => member
  | cons item items ih =>
      rw [List.foldlM_cons]
      have first := grows value item state
      cases outcome : step value item state with
      | ok next middle =>
          rw [bind_of_ok outcome]
          rw [outcome, finalState_ok] at first
          exact List.Subset.trans first (ih next middle)
      | error error middle =>
          rw [bind_of_error outcome]
          rwa [outcome] at first

/-- What a step has journaled when the steps before it succeeded, the loop has journaled. -/
theorem log_step_subset_foldlM
    (grows : ∀ value item state, log state ⊆ log (finalState (step value item state)))
    {before after : List ι} {item : ι} {value reached : β} {state middle : σ}
    (succeeded : before.foldlM step value state = .ok reached middle) :
    log (finalState (step reached item middle)) ⊆
      log (finalState ((before ++ item :: after).foldlM step value state)) := by
  rw [List.foldlM_append, bind_of_ok succeeded, List.foldlM_cons]
  cases outcome : step reached item middle with
  | ok next final =>
      rw [bind_of_ok outcome]
      exact log_subset_foldlM grows after next final
  | error error final =>
      rw [bind_of_error outcome]
      exact fun _ member => member

/-- Everything in the journal of a loop was there before it or was put there by a step that it
reached. -/
theorem exists_step_of_mem_foldlM {items : List ι} {value : β} {state : σ} {key : κ}
    (member : key ∈ log (finalState (items.foldlM step value state))) (fresh : key ∉ log state) :
    ∃ before item after reached middle, items = before ++ item :: after ∧
      before.foldlM step value state = .ok reached middle ∧ key ∉ log middle ∧
      key ∈ log (finalState (step reached item middle)) := by
  induction items generalizing value state with
  | nil => exact absurd member fresh
  | cons item items ih =>
      by_cases early : key ∈ log (finalState (step value item state))
      · exact ⟨[], item, items, value, state, rfl, rfl, fresh, early⟩
      · rw [List.foldlM_cons] at member
        cases outcome : step value item state with
        | ok next middle =>
            rw [bind_of_ok outcome] at member
            rw [outcome] at early
            obtain ⟨before, later, after, reached, final, rfl, ran, absent, present⟩ :=
              ih member early
            refine ⟨item :: before, later, after, reached, final, rfl, ?_, absent, present⟩
            rw [List.foldlM_cons, bind_of_ok outcome, ran]
        | error error middle =>
            rw [bind_of_error outcome] at member
            rw [outcome] at early
            exact absurd member early

end Runs
end Journal
