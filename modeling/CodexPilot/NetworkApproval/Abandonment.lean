import CodexPilot.NetworkApproval.Agreement

/-!
# Abandoned approvals

The entry of a host is removed by its owner alone.  An owner whose future is dropped before it has
published leaves an entry that nobody will decide, and this is the only way to leave one.
-/

namespace CodexPilot.NetworkApproval

open Interleaving Transitions

variable {ι : Type*}

/-- The call is still running, as the owner of the entry. -/
def Place.Decides (place : Place ι) (key : HostApprovalKey) : Prop :=
  ∃ request point, place = .running request point ∧ point.Owns ∧ request.key = key

/-- Whoever created an undecided entry is still running; so is whoever a waiting call waits for. -/
structure Attended (tasks : Tasks ι (NetworkApprovalService ι) (Place ι)) : Prop where
  entries : ∀ key owner, tasks.shared.pendingHostApprovals key = some owner →
    tasks.shared.decisions owner = none → (tasks.place owner).Decides key
  waiters : ∀ id request point owner, tasks.place id = .running request point →
    point.joins = some owner → tasks.shared.decisions owner = none →
      (tasks.place owner).Decides request.key

/-- The future of an owner that has not published is not dropped. -/
def Published (tasks : Tasks ι (NetworkApprovalService ι) (Place ι)) (event : ι × Action) : Prop :=
  event.2 = .drop → ∀ request point, tasks.place event.1 = .running request point →
    point.Owns → point.published ≠ none

/-- No owner was dropped before it had published. -/
def NoneAbandoned (tasks : Tasks ι (NetworkApprovalService ι) (Place ι)) : Prop :=
  ∀ id request point, tasks.place id = .dropped request point → point.Owns → point.published ≠ none

section World

variable [DecidableEq ι] {tasks next : Tasks ι (NetworkApprovalService ι) (Place ι)}
  {event : ι × Action}

omit [DecidableEq ι] in
theorem attended_iff (sane : Sane tasks) : Attended tasks ↔ NoneAbandoned tasks := by
  constructor
  · intro attended id request point dropped owns unpublished
    obtain ⟨pending, decision, -, -⟩ := sane.entered id
    rw [dropped] at pending decision
    have mine := (pending request.key).mpr (owned_dropped.mpr ⟨owns, rfl⟩)
    have undecided : tasks.shared.decisions id = none := by
      rw [decision]
      exact congrArg (Option.map fun resolution => resolution.decision) unpublished
    obtain ⟨request', point', running, -, -⟩ := attended.entries request.key id mine undecided
    cases dropped.symm.trans running
  · intro abandoned
    have entries : ∀ key owner, tasks.shared.pendingHostApprovals key = some owner →
        tasks.shared.decisions owner = none → (tasks.place owner).Decides key := by
      intro key owner mine undecided
      obtain ⟨pending, decision, -, -⟩ := sane.entered owner
      obtain ⟨request, point, running | dropped, owns, same⟩ := (pending key).mp mine
      · exact ⟨request, point, running, owns, same⟩
      · have published := abandoned owner request point dropped owns
        rw [dropped, undecided] at decision
        exact absurd (Option.map_eq_none_iff.mp decision.symm) published
    refine ⟨entries, fun id request point owner running joins undecided => ?_⟩
    have relies := sane.waiting id
    rw [running] at relies
    obtain present | decided := joined_of_relies relies joins
    · exact entries request.key owner present undecided
    · exact absurd undecided decided

/-- Only the drop of its future takes a running call there. -/
theorem drop_of_dropped {id : ι} {service service' : NetworkApprovalService ι} {place : Place ι}
    {action : Action} {request : NetworkPolicyRequest} {point : Point ι}
    (moves : move id service place action = some (service', .dropped request point)) :
    action = .drop ∧ place = .running request point := by
  unfold move at moves
  split at moves
  case h_4 =>
    obtain ⟨stepped, -, same⟩ := Option.map_eq_some_iff.mp moves
    cases same
  case h_7 =>
    split at moves <;> cases moves
    exact ⟨rfl, rfl⟩
  all_goals cases moves

/-- A step leaves no abandoned owner exactly when it drops none. -/
theorem noneAbandoned_of_step_iff (abandoned : NoneAbandoned tasks)
    (stepped : step move tasks event = some next) : NoneAbandoned next ↔ Published tasks event := by
  obtain ⟨moves, elsewhere⟩ := moved_of_step stepped
  constructor
  · intro kept drops request point running owns
    rw [drops, running] at moves
    simp only [move] at moves
    split at moves
    case isTrue awaits =>
      have dropped := (Prod.mk.inj (Option.some.inj moves)).2.symm
      exact kept event.1 request point dropped owns
    case isFalse => cases moves
  · intro published id request point dropped owns
    by_cases same : id = event.1
    · subst same
      rw [dropped] at moves
      obtain ⟨drops, running⟩ := drop_of_dropped moves
      exact published drops request point running owns
    · rw [elsewhere id same] at dropped
      exact abandoned id request point dropped owns

/-- In every run, whoever created an undecided entry is still running in every state on the way
exactly when no owner is dropped before it has published. -/
theorem attended_iff_published (events : List (ι × Action)) :
    Along (step move) Published (start : Tasks ι (NetworkApprovalService ι) (Place ι)) events ↔
      ∀ before, before <+: events → ∀ reached, run (step move) start before = some reached →
        Attended reached := by
  have exactly : ∀ (state : Tasks ι (NetworkApprovalService ι) (Place ι)) event after,
      Sane state ∧ NoneAbandoned state → step move state event = some after →
        (Sane after ∧ NoneAbandoned after ↔ Published state event) := by
    intro state event after ⟨sane, abandoned⟩ stepped
    rw [← noneAbandoned_of_step_iff abandoned stepped]
    exact and_iff_right (sane_of_step sane stepped)
  have abandoned : NoneAbandoned (start : Tasks ι (NetworkApprovalService ι) (Place ι)) :=
    fun id request point dropped => by cases dropped
  rw [along_iff_invariant exactly ⟨sane_start, abandoned⟩]
  refine forall₄_congr fun before _ reached ran => ?_
  rw [attended_iff (sane_of_run ran)]
  exact and_iff_right (sane_of_run ran)

end World

/-- The first call owns the entry and is dropped while the user is asked; the second joins the
entry. -/
def abandonedRun : List (ℕ × Action) :=
  [(0, .request sampleRequest), (0, .proceed), (0, .proceed), (0, .proceed),
    (0, .turn (some sampleTurn)), (0, .proceed), (0, .drop),
    (1, .request sampleRequest), (1, .proceed), (1, .proceed), (1, .proceed), (1, .proceed),
    (1, .proceed)]

/-- The entry stays, undecided, and the second call has no next step but to be dropped. -/
theorem abandoned_blocks :
    ∃ tasks, run (step move) start abandonedRun = some tasks ∧
      tasks.shared.pendingHostApprovals sampleRequest.key = some 0 ∧
        tasks.shared.decisions 0 = none ∧ (∀ key, ¬(tasks.place 0).Decides key) ∧
          move 1 tasks.shared (tasks.place 1) .proceed = none := by
  have ends : (run (step move) start abandonedRun).map (fun tasks =>
      (tasks.shared.pendingHostApprovals sampleRequest.key, tasks.shared.decisions 0,
        tasks.place 0, (move 1 tasks.shared (tasks.place 1) .proceed).isNone)) =
      some (some 0, none, .dropped sampleRequest (.review sampleTurn none), true) := by
    decide
  obtain ⟨tasks, ran, same⟩ := Option.map_eq_some_iff.mp ends
  obtain ⟨pending, undecided, dropped, stuck⟩ := by simpa using same
  refine ⟨tasks, ran, pending, undecided, ?_, stuck⟩
  rintro key ⟨request, point, running, -, -⟩
  cases dropped.symm.trans running

end CodexPilot.NetworkApproval
