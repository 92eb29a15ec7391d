import Mathlib.Order.Defs.PartialOrder

/-!
# Runs of a transition function

A transition function takes an event in a state, or refuses it.  What every step keeps, every run
keeps; where a step keeps it only under a condition, so does every run whose steps all meet it.
-/

namespace Transitions

variable {σ ε : Type*} {step : σ → ε → Option σ} {state final : σ} {events : List ε}

/-- Take the events in order. -/
def run (step : σ → ε → Option σ) : σ → List ε → Option σ
  | state, [] => some state
  | state, event :: events => (step state event).bind fun next => run step next events

@[simp]
theorem run_nil : run step state [] = some state := rfl

@[simp]
theorem run_cons (event : ε) :
    run step state (event :: events) =
      (step state event).bind fun next => run step next events := rfl

theorem run_append (before after : List ε) :
    run step state (before ++ after) =
      (run step state before).bind fun middle => run step middle after := by
  induction before generalizing state with
  | nil => rfl
  | cons event before ih =>
      simp only [List.cons_append, run_cons]
      cases step state event with
      | none => rfl
      | some next => exact ih

/-- Every step of a run meets a condition on its event and the state before it. -/
def Along (step : σ → ε → Option σ) (condition : σ → ε → Prop) : σ → List ε → Prop
  | _, [] => True
  | state, event :: events => ∀ next, step state event = some next →
      condition state event ∧ Along step condition next events

theorem along_cons {condition : σ → ε → Prop} {event : ε} {next : σ}
    (stepped : step state event = some next) (met : condition state event)
    (rest : Along step condition next events) : Along step condition state (event :: events) := by
  intro other stepped'
  cases stepped.symm.trans stepped'
  exact ⟨met, rest⟩

/-- The two parts of a run meet what the run meets. -/
theorem along_append {condition : σ → ε → Prop} {before after : List ε} {middle : σ}
    (ran : run step state before = some middle)
    (along : Along step condition state (before ++ after)) :
    Along step condition state before ∧ Along step condition middle after := by
  induction before generalizing state with
  | nil =>
      cases ran
      exact ⟨trivial, along⟩
  | cons event before ih =>
      obtain ⟨next, stepped, rest⟩ := Option.bind_eq_some_iff.mp ran
      obtain ⟨met, later⟩ := along next stepped
      obtain ⟨first, last⟩ := ih rest later
      exact ⟨along_cons stepped met first, last⟩

/-- A condition that can be tested can be tested along a run. -/
instance decidableAlong {condition : σ → ε → Prop}
    [∀ state event, Decidable (condition state event)] :
    (state : σ) → (events : List ε) → Decidable (Along step condition state events)
  | _, [] => isTrue trivial
  | state, event :: events =>
      match stepped : step state event with
      | none => isTrue fun _ stepped' => nomatch stepped.symm.trans stepped'
      | some next =>
          have : Decidable (Along step condition next events) := decidableAlong next events
          decidable_of_iff (condition state event ∧ Along step condition next events)
            ⟨fun met => along_cons stepped met.1 met.2, fun along => along next stepped⟩

/-- Two conditions that are met along a run are met together. -/
theorem along_and {first second : σ → ε → Prop} (one : Along step first state events)
    (other : Along step second state events) :
    Along step (fun state event => first state event ∧ second state event) state events := by
  induction events generalizing state with
  | nil => exact trivial
  | cons event events ih =>
      intro next stepped
      obtain ⟨met, later⟩ := one next stepped
      obtain ⟨met', later'⟩ := other next stepped
      exact ⟨⟨met, met'⟩, ih later later'⟩

/-- What every event meets in every state is met along a run. -/
theorem along_of_always {condition : σ → ε → Prop}
    (always : ∀ event ∈ events, ∀ state, condition state event) (state : σ) :
    Along step condition state events := by
  induction events generalizing state with
  | nil => exact trivial
  | cons event events ih =>
      refine fun next _ => ⟨always event List.mem_cons_self state, ?_⟩
      exact ih (fun later member => always later (List.mem_cons_of_mem event member)) next

/-- A condition on the events alone is met along a run when every event meets it. -/
theorem along_of_forall_mem {condition : ε → Prop}
    (always : ∀ event ∈ events, condition event) (state : σ) :
    Along step (fun _ event => condition event) state events :=
  along_of_always (fun event member _ => always event member) state

section Invariant

variable {invariant : σ → Prop} {condition : σ → ε → Prop}

/-- The invariant rule: what every step that meets the condition keeps, every run of such steps
keeps. -/
theorem invariant_of_run
    (kept : ∀ state event next, invariant state → condition state event →
      step state event = some next → invariant next)
    (holds : invariant state) (along : Along step condition state events)
    (ran : run step state events = some final) : invariant final := by
  induction events generalizing state with
  | nil =>
      cases ran
      exact holds
  | cons event events ih =>
      obtain ⟨next, stepped, rest⟩ := Option.bind_eq_some_iff.mp ran
      obtain ⟨met, later⟩ := along next stepped
      exact ih (kept state event next holds met stepped) later rest

/-- The invariant rule for what every step keeps. -/
theorem preserved_of_run
    (kept : ∀ state event next, invariant state → step state event = some next → invariant next)
    (holds : invariant state) (ran : run step state events = some final) : invariant final := by
  have always : Along step (fun _ _ => True) state events :=
    along_of_forall_mem (fun _ _ => trivial) state
  exact invariant_of_run
    (fun before event next holds _ stepped => kept before event next holds stepped) holds always ran

/-- What every step keeps holds along a run. -/
theorem along_of_invariant
    (kept : ∀ state event next, invariant state → step state event = some next → invariant next)
    (holds : invariant state) (events : List ε) :
    Along step (fun state _ => invariant state) state events := by
  induction events generalizing state with
  | nil => exact trivial
  | cons event events ih =>
      exact fun next stepped => ⟨holds, ih (kept state event next holds stepped)⟩

/-- Where the condition is exactly what a step needs so that the next state is as wanted, and enough
to keep the invariant, the steps of a run meet it exactly when every state on the way is as wanted;
only steps that are allowed count. -/
theorem along_iff_wanted_of_along {allowed : σ → ε → Prop} {wanted : σ → Prop}
    (exactly : ∀ state event next, invariant state → allowed state event →
      step state event = some next → (wanted next ↔ condition state event))
    (kept : ∀ state event next, invariant state → allowed state event → condition state event →
      step state event = some next → invariant next)
    (holds : invariant state) (starts : wanted state) (along : Along step allowed state events) :
    Along step condition state events ↔
      ∀ before, before <+: events → ∀ reached, run step state before = some reached →
        wanted reached := by
  induction events generalizing state with
  | nil =>
      refine ⟨fun _ before isPrefix reached ran => ?_, fun _ => trivial⟩
      rw [List.prefix_nil.mp isPrefix] at ran
      cases ran
      exact starts
  | cons event events ih =>
      constructor
      · intro met before isPrefix reached ran
        cases before with
        | nil =>
            cases ran
            exact starts
        | cons first before =>
            obtain ⟨rfl, shorter⟩ := List.cons_prefix_cons.mp isPrefix
            obtain ⟨next, stepped, rest⟩ := Option.bind_eq_some_iff.mp ran
            obtain ⟨own, later⟩ := met next stepped
            obtain ⟨may, others⟩ := along next stepped
            have holds' := kept state first next holds may own stepped
            have starts' := (exactly state first next holds may stepped).mpr own
            exact (ih holds' starts' others).mp later before shorter reached rest
      · intro throughout next stepped
        obtain ⟨may, others⟩ := along next stepped
        have starts' : wanted next := throughout [event] ⟨events, rfl⟩ next (by simp [stepped])
        have own := (exactly state event next holds may stepped).mp starts'
        have holds' := kept state event next holds may own stepped
        refine ⟨own, (ih holds' starts' others).mpr ?_⟩
        intro before isPrefix reached ran
        refine throughout (event :: before) (List.cons_prefix_cons.mpr ⟨rfl, isPrefix⟩) reached ?_
        simpa [stepped] using ran

/-- Where the condition is exactly what a step needs to keep the invariant, the steps of a run meet
it exactly when the invariant holds in every state on the way; only steps that are allowed count. -/
theorem along_iff_invariant_of_along {allowed : σ → ε → Prop}
    (exactly : ∀ state event next, invariant state → allowed state event →
      step state event = some next → (invariant next ↔ condition state event))
    (holds : invariant state) (along : Along step allowed state events) :
    Along step condition state events ↔
      ∀ before, before <+: events → ∀ reached, run step state before = some reached →
        invariant reached :=
  along_iff_wanted_of_along exactly
    (fun state event next holds may met stepped =>
      (exactly state event next holds may stepped).mpr met)
    holds holds along

/-- The same where every step is allowed. -/
theorem along_iff_invariant
    (exactly : ∀ state event next, invariant state → step state event = some next →
      (invariant next ↔ condition state event)) (holds : invariant state) :
    Along step condition state events ↔
      ∀ before, before <+: events → ∀ reached, run step state before = some reached →
        invariant reached :=
  along_iff_invariant_of_along
    (fun state event next holds _ stepped => exactly state event next holds stepped) holds
    (along_of_always (fun _ _ _ => trivial) state)

/-- Where a step that misses the condition spoils the run for good, a run that ends well meets it;
only steps that are allowed count. -/
theorem along_of_unspoilt {allowed : σ → ε → Prop} {spoilt : σ → Prop}
    (spoils : ∀ state event next, allowed state event → ¬condition state event →
      step state event = some next → spoilt next)
    (stays : ∀ state event next, spoilt state → allowed state event →
      step state event = some next → spoilt next)
    (along : Along step allowed state events) (ran : run step state events = some final)
    (well : ¬spoilt final) : Along step condition state events := by
  induction events generalizing state with
  | nil => exact trivial
  | cons event events ih =>
      intro next stepped
      obtain ⟨may, others⟩ := along next stepped
      have rest : run step next events = some final := by simpa [stepped] using ran
      refine ⟨Classical.byContradiction fun missed => ?_, ih others rest⟩
      exact well (invariant_of_run stays (spoils state event next may missed stepped) others rest)

end Invariant

/-- What no step lowers, no run lowers. -/
theorem le_of_run {β : Type*} [Preorder β] (measure : σ → β)
    (grows : ∀ state event next, step state event = some next → measure state ≤ measure next)
    (ran : run step state events = some final) : measure state ≤ measure final := by
  induction events generalizing state with
  | nil =>
      cases ran
      exact le_rfl
  | cons event events ih =>
      obtain ⟨next, stepped, rest⟩ := Option.bind_eq_some_iff.mp ran
      exact le_trans (grows state event next stepped) (ih rest)

section Recording

variable {ρ : Type*} {recorded : σ × ρ → ε → Option (σ × ρ)}

/-- A function that takes the same steps and keeps a record runs as the first one does. -/
theorem run_map_fst
    (projects : ∀ state record event,
      (recorded (state, record) event).map Prod.fst = step state event) (record : ρ) :
    (run recorded (state, record) events).map Prod.fst = run step state events := by
  induction events generalizing state record with
  | nil => rfl
  | cons event events ih =>
      simp only [run_cons, ← projects state record event]
      cases recorded (state, record) event with
      | none => rfl
      | some next => exact ih next.2

/-- Every run has a record. -/
theorem exists_recorded
    (projects : ∀ state record event,
      (recorded (state, record) event).map Prod.fst = step state event)
    (ran : run step state events = some final) (record : ρ) :
    ∃ noted, run recorded (state, record) events = some (final, noted) := by
  rw [← run_map_fst projects record] at ran
  obtain ⟨⟨reached, noted⟩, reaches, rfl⟩ := Option.map_eq_some_iff.mp ran
  exact ⟨noted, reaches⟩

end Recording

end Transitions
