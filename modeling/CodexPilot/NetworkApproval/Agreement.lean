import CodexPilot.NetworkApproval.Entries

/-!
# One owner asks, and all agree

Every call that joined a pending entry relies on its owner: the entry stays until the decision is
published, the decision is published once, and every call that joined returns it.
-/

namespace CodexPilot.NetworkApproval

open Interleaving Transitions

variable {ι : Type*} [DecidableEq ι]

/-! ## Waiting calls -/

/-- The entry of an owner is there, or its decision is published. -/
def Joined (service : NetworkApprovalService ι) (key : HostApprovalKey) (owner : ι) : Prop :=
  service.pendingHostApprovals key = some owner ∨ service.decisions owner ≠ none

/-- What a call may rely on: the entry that it joined stays until the decision is published, it was
not notified before it looked, and it returns what was published. -/
def Relies (service : NetworkApprovalService ι) (key : HostApprovalKey) : Point ι → Prop
  | .wait owner => Joined service key owner
  | .poll owner seen => Joined service key owner ∧ seen ≤ service.notifications owner
  | .notified owner seen => Joined service key owner ∧ seen = 0
  | .returned (.joined owner) answer =>
      ∃ decision, service.decisions owner = some decision ∧ answer = decision.toNetworkDecision
  | .returned (.owned resolution) answer => answer = resolution.decision.toNetworkDecision
  | _ => True

/-- What a task may rely on. -/
def Waiting (service : NetworkApprovalService ι) : Place ι → Prop
  | .running request point => Relies service request.key point
  | _ => True

/-- What a step keeps for those who wait. -/
structure Advances (service service' : NetworkApprovalService ι) : Prop where
  pending : ∀ key owner, service.pendingHostApprovals key = some owner →
    service'.pendingHostApprovals key = some owner ∨ service'.decisions owner ≠ none
  decision : ∀ owner decision,
    service.decisions owner = some decision → service'.decisions owner = some decision
  notifications : ∀ owner, service.notifications owner ≤ service'.notifications owner

section Waiting

variable {id : ι} {service service' : NetworkApprovalService ι} {request : NetworkPolicyRequest}
  {point point' : Point ι} {place place' : Place ι}

omit [DecidableEq ι] in
theorem Advances.of_unchanged (unchanged : Unchanged service service') :
    Advances service service' := by
  obtain ⟨pending, -, decisions, notifications, -, -⟩ := unchanged
  refine ⟨fun key owner mine => .inl ?_, fun owner decision decided => ?_, fun owner => ?_⟩
  · rw [pending, mine]
  · rw [decisions, decided]
  · rw [notifications]

theorem advances_of_moved (entered : Entered service id place)
    (moved : Moved id service place service' place') : Advances service service' := by
  cases moved with
  | request request => exact .of_unchanged (.refl service)
  | calls unchanged => exact .of_unchanged unchanged
  | dropped awaits => exact ⟨fun _ _ mine => .inl mine, fun _ _ decided => decided, fun _ => le_rfl⟩
  | @stepped request point point' _ stepped =>
      cases stepped with
      | created free absent =>
          refine ⟨fun key owner mine => .inl ?_, fun _ _ decided => decided, fun _ => le_rfl⟩
          have other : key ≠ request.key := by
            rintro rfl
            exact absurd (absent.symm.trans mine) (by simp)
          exact (Function.update_of_ne other _ _).trans mine
      | asks unchanged asks next => exact .of_unchanged unchanged
      | publish resolution byPolicy =>
          refine ⟨fun key owner mine => .inl mine, fun owner decision decided => ?_,
            fun _ => le_rfl⟩
          have other : owner ≠ id := by
            rintro rfl
            exact absurd (entered.decision.symm.trans decided)
              (by simp [Place.published, Point.published])
          exact (Function.update_of_ne other _ _).trans decided
      | notify resolution byPolicy =>
          refine ⟨fun key owner mine => .inl mine, fun _ _ decided => decided, fun owner => ?_⟩
          by_cases same : owner = id
          · subst same
            simp
          · exact (Function.update_of_ne same _ _).ge
      | remove resolution byPolicy free holds same =>
          refine ⟨fun key owner mine => ?_, fun _ _ decided => decided, fun _ => le_rfl⟩
          by_cases own : key = request.key
          · subst own
            have pending : service.pendingHostApprovals request.key = some id :=
              (entered.pending request.key).mpr (owned_running.mpr ⟨trivial, rfl⟩)
            cases pending.symm.trans mine
            refine .inr ?_
            rw [entered.decision]
            exact Option.some_ne_none _
          · exact .inl ((Function.update_of_ne own _ _).trans mine)
      | outcome unchanged held holds same => exact .of_unchanged unchanged
      | _ => exact ⟨fun _ _ mine => .inl mine, fun _ _ decided => decided, fun _ => le_rfl⟩

omit [DecidableEq ι] in
theorem Joined.later {key : HostApprovalKey} {owner : ι} (joined : Joined service key owner)
    (advances : Advances service service') : Joined service' key owner := by
  obtain pending | decided := joined
  · exact advances.pending key owner pending
  · obtain ⟨decision, decided⟩ := Option.ne_none_iff_exists'.mp decided
    exact .inr (by simp [advances.decision owner decision decided])

omit [DecidableEq ι] in
theorem Waiting.other (waiting : Waiting service place) (advances : Advances service service') :
    Waiting service' place := by
  cases place with
  | idle | dropped request point => trivial
  | running request point =>
      cases point with
      | wait owner => exact Joined.later waiting advances
      | poll owner seen =>
          obtain ⟨joined, before⟩ := waiting
          exact ⟨joined.later advances, before.trans (advances.notifications owner)⟩
      | notified owner seen =>
          obtain ⟨joined, zero⟩ := waiting
          exact ⟨joined.later advances, zero⟩
      | returned source answer =>
          cases source with
          | cache => trivial
          | joined owner =>
              obtain ⟨decision, decided, same⟩ := waiting
              exact ⟨decision, advances.decision owner decision decided, same⟩
          | owned resolution => exact waiting
      | _ => trivial

omit [DecidableEq ι] in
/-- Where nothing is decided, nobody has been notified. -/
theorem Entered.notifications_eq_zero (entered : Entered service id place)
    (undecided : service.decisions id = none) : service.notifications id = 0 := by
  obtain ⟨-, decision, notifications, -⟩ := entered
  rw [decision, Option.map_eq_none_iff] at undecided
  rw [notifications]
  cases place with
  | idle => rfl
  | running request point | dropped request point =>
      change point.notifications = 0
      change point.published = none at undecided
      unfold Point.notifications
      split <;> simp_all

omit [DecidableEq ι] in
/-- An owner that has not returned relies on nobody. -/
theorem relies_of_owner {key : HostApprovalKey} (own : point.Owns ∨ point.HoldsGuard) :
    Relies service key point := by
  cases point <;> first | trivial | exact own.elim (fun owns => owns.elim) fun holds => holds.elim

theorem relies_of_stepped (relies : Relies service request.key point)
    (quiet : ∀ owner, service.decisions owner = none → service.notifications owner = 0)
    (stepped : Stepped id service request point service' point') :
    Relies service' request.key point' := by
  cases stepped with
  | joined owner pending => exact .inl pending
  | wait owner => exact ⟨relies, le_rfl⟩
  | told owner seen decision decided => exact ⟨decision, decided, rfl⟩
  | untold owner seen undecided =>
      obtain ⟨joined, before⟩ := relies
      rw [quiet owner undecided] at before
      exact ⟨joined, Nat.le_zero.mp before⟩
  | woken owner seen notified => exact relies.1
  | asks unchanged asks next => exact relies_of_owner (.inl (Point.owns_of_followsAsking next))
  | remove resolution byPolicy free holds same
  | outcome unchanged held holds same => exact relies_of_owner (.inr holds)
  | leave resolution => exact rfl
  | _ => trivial

theorem Waiting.own (waiting : Waiting service place)
    (quiet : ∀ owner, service.decisions owner = none → service.notifications owner = 0)
    (moved : Moved id service place service' place') : Waiting service' place' := by
  cases moved with
  | request request | calls unchanged => trivial
  | stepped stepped => exact relies_of_stepped waiting quiet stepped
  | dropped awaits => trivial

end Waiting

/-! ## Agreement -/

/-- The call has returned. -/
def Place.Finished (place : Place ι) : Prop :=
  ∃ request source answer, place = .running request (.returned source answer)

/-- How many steps of its own a call that joined needs at most, once its owner has notified. -/
def Point.left : Point ι → ℕ
  | .notified _ _ => 3
  | .wait _ => 2
  | .poll _ _ => 1
  | _ => 0

/-- One call at a time owns the entry of a host; a call that joined it returns what its owner
published; no entry is left of a call that has returned; and whoever waits for such a call can
return at once. -/
structure Agreement (tasks : Tasks ι (NetworkApprovalService ι) (Place ι)) : Prop where
  alone : ∀ key id other,
    (tasks.place id).Owned key → (tasks.place other).Owned key → id = other
  answered : ∀ id request owner answer,
    tasks.place id = .running request (.returned (.joined owner) answer) →
      ∃ decision, tasks.shared.decisions owner = some decision ∧
        answer = decision.toNetworkDecision ∧
          ∀ request' resolution answer',
            tasks.place owner = .running request' (.returned (.owned resolution) answer') →
              resolution.decision = decision ∧ answer' = answer
  cleared : ∀ key owner, tasks.shared.pendingHostApprovals key = some owner →
    ¬(tasks.place owner).Finished
  unblocked : ∀ id request point owner, tasks.place id = .running request point →
    point.joins = some owner → (tasks.place owner).Finished →
      ∃ final decision, tasks.shared.decisions owner = some decision ∧
        run (step move) tasks (List.replicate point.left (id, .proceed)) = some final ∧
          final.place id =
            .running request (.returned (.joined owner) decision.toNetworkDecision)

section World

variable {tasks next : Tasks ι (NetworkApprovalService ι) (Place ι)} {event : ι × Action}

/-- Everything that the calls rely on. -/
structure Sane (tasks : Tasks ι (NetworkApprovalService ι) (Place ι)) : Prop where
  entered : AllEntered tasks
  waiting : ∀ id, Waiting tasks.shared (tasks.place id)

theorem sane_of_step (sane : Sane tasks) (stepped : step move tasks event = some next) :
    Sane next := by
  have moved := moved_of_move (moved_of_step stepped).1
  refine ⟨allEntered_of_step sane.entered stepped, ?_⟩
  refine forall_place_of_step (fun _ place => Waiting next.shared place) stepped ?_ ?_
  · exact (sane.waiting event.1).own (fun owner => (sane.entered owner).notifications_eq_zero) moved
  · exact fun other _ => (sane.waiting other).other (advances_of_moved (sane.entered event.1) moved)

omit [DecidableEq ι] in
theorem sane_start : Sane (start : Tasks ι (NetworkApprovalService ι) (Place ι)) :=
  ⟨allEntered_start, fun _ => trivial⟩

theorem sane_of_run {events : List (ι × Action)} (ran : run (step move) start events = some next) :
    Sane next :=
  preserved_of_run (fun _ _ _ sane stepped => sane_of_step sane stepped) sane_start ran

/-- A call that looks at a decision returns it. -/
theorem returns_of_poll {id owner : ι} {request : NetworkPolicyRequest} {seen : ℕ}
    {decision : PendingApprovalDecision} (decided : tasks.shared.decisions owner = some decision)
    (stands : tasks.place id = .running request (.poll owner seen)) :
    ∃ final, run (step move) tasks [(id, .proceed)] = some final ∧
      final.place id = .running request (.returned (.joined owner) decision.toNetworkDecision) := by
  have moves : move id tasks.shared (tasks.place id) .proceed =
      some (tasks.shared,
        .running request (.returned (.joined owner) decision.toNetworkDecision)) := by
    simp [stands, move, proceed, decided]
  obtain ⟨final, stepped, -, place⟩ := exists_step_of_move moves
  exact ⟨final, by simp [stepped], place⟩

theorem returns_of_wait {id owner : ι} {request : NetworkPolicyRequest}
    {decision : PendingApprovalDecision} (decided : tasks.shared.decisions owner = some decision)
    (stands : tasks.place id = .running request (.wait owner)) :
    ∃ final, run (step move) tasks [(id, .proceed), (id, .proceed)] = some final ∧
      final.place id = .running request (.returned (.joined owner) decision.toNetworkDecision) := by
  have moves : move id tasks.shared (tasks.place id) .proceed =
      some (tasks.shared, .running request (.poll owner (tasks.shared.notifications owner))) := by
    simp [stands, move, proceed]
  obtain ⟨middle, stepped, shared, place⟩ := exists_step_of_move moves
  rw [← shared] at decided
  obtain ⟨final, ran, returned⟩ := returns_of_poll decided place
  exact ⟨final, by rw [run_cons, stepped]; exact ran, returned⟩

theorem returns_of_notified {id owner : ι} {request : NetworkPolicyRequest} {seen : ℕ}
    {decision : PendingApprovalDecision} (decided : tasks.shared.decisions owner = some decision)
    (notified : tasks.shared.notifications owner ≠ seen)
    (stands : tasks.place id = .running request (.notified owner seen)) :
    ∃ final, run (step move) tasks [(id, .proceed), (id, .proceed), (id, .proceed)] = some final ∧
      final.place id = .running request (.returned (.joined owner) decision.toNetworkDecision) := by
  have moves : move id tasks.shared (tasks.place id) .proceed =
      some (tasks.shared, .running request (.wait owner)) := by
    simp [stands, move, proceed, notified]
  obtain ⟨middle, stepped, shared, place⟩ := exists_step_of_move moves
  rw [← shared] at decided
  obtain ⟨final, ran, returned⟩ := returns_of_wait decided place
  exact ⟨final, by rw [run_cons, stepped]; exact ran, returned⟩

omit [DecidableEq ι] in
/-- Who has returned owns nothing. -/
theorem not_owned_of_finished {place : Place ι} (finished : place.Finished)
    (key : HostApprovalKey) : ¬place.Owned key := by
  obtain ⟨request, source, answer, rfl⟩ := finished
  exact fun owned => (owned_running.mp owned).1

omit [DecidableEq ι] in
theorem joined_of_relies {service : NetworkApprovalService ι} {key : HostApprovalKey}
    {point : Point ι} {owner : ι} (relies : Relies service key point)
    (joins : point.joins = some owner) : Joined service key owner := by
  cases point with
  | wait other =>
      cases joins
      exact relies
  | poll other seen | notified other seen =>
      cases joins
      exact relies.1
  | _ => cases joins

omit [DecidableEq ι] in
/-- An owner that has returned has published and notified. -/
theorem published_of_finished {id owner : ι} {request : NetworkPolicyRequest} {point : Point ι}
    (sane : Sane tasks) (stands : tasks.place id = .running request point)
    (joins : point.joins = some owner) (finished : (tasks.place owner).Finished) :
    ∃ decision, tasks.shared.decisions owner = some decision ∧
      tasks.shared.notifications owner = 1 := by
  obtain ⟨pending, decision, notifications, -⟩ := sane.entered owner
  have relies := sane.waiting id
  rw [stands] at relies
  obtain present | decided := joined_of_relies relies joins
  · exact absurd ((pending request.key).mp present) (not_owned_of_finished finished request.key)
  · obtain ⟨request', source, answer, returned⟩ := finished
    rw [returned] at decision notifications
    cases source with
    | owned resolution => exact ⟨resolution.decision, decision, notifications⟩
    | cache | joined other => exact absurd decision decided

theorem Sane.unblocked (sane : Sane tasks) {id owner : ι} {request : NetworkPolicyRequest}
    {point : Point ι} (stands : tasks.place id = .running request point)
    (joins : point.joins = some owner) (finished : (tasks.place owner).Finished) :
    ∃ final decision, tasks.shared.decisions owner = some decision ∧
      run (step move) tasks (List.replicate point.left (id, .proceed)) = some final ∧
        final.place id =
          .running request (.returned (.joined owner) decision.toNetworkDecision) := by
  obtain ⟨decision, decided, notified⟩ := published_of_finished sane stands joins finished
  cases point with
  | wait other =>
      cases joins
      obtain ⟨final, ran, returned⟩ := returns_of_wait decided stands
      exact ⟨final, decision, decided, ran, returned⟩
  | poll other seen =>
      cases joins
      obtain ⟨final, ran, returned⟩ := returns_of_poll decided stands
      exact ⟨final, decision, decided, ran, returned⟩
  | notified other seen =>
      cases joins
      have unseen : tasks.shared.notifications owner ≠ seen := by
        have relies := sane.waiting id
        rw [stands] at relies
        rw [notified, relies.2]
        exact Nat.one_ne_zero
      obtain ⟨final, ran, returned⟩ := returns_of_notified decided unseen stands
      exact ⟨final, decision, decided, ran, returned⟩
  | _ => cases joins

omit [DecidableEq ι] in
theorem Sane.answered (sane : Sane tasks) {id owner : ι} {request : NetworkPolicyRequest}
    {answer : NetworkDecision}
    (stands : tasks.place id = .running request (.returned (.joined owner) answer)) :
    ∃ decision, tasks.shared.decisions owner = some decision ∧
      answer = decision.toNetworkDecision ∧
        ∀ request' resolution answer',
          tasks.place owner = .running request' (.returned (.owned resolution) answer') →
            resolution.decision = decision ∧ answer' = answer := by
  have relies := sane.waiting id
  rw [stands] at relies
  obtain ⟨decision, decided, rfl⟩ := relies
  refine ⟨decision, decided, rfl, fun request' resolution answer' returned => ?_⟩
  have published := (sane.entered owner).decision
  rw [returned, decided] at published
  have same : resolution.decision = decision := (Option.some.inj published).symm
  have owned := sane.waiting owner
  rw [returned] at owned
  exact ⟨same, same ▸ owned⟩

/-- In every run, the calls for one host are asked once and answered alike. -/
theorem agreement_of_run {events : List (ι × Action)}
    (ran : run (step move) start events = some tasks) : Agreement tasks := by
  have sane := sane_of_run ran
  refine ⟨fun key id other owns owned => ?_, fun _ _ _ _ stands => sane.answered stands,
    fun key owner present finished => ?_,
    fun _ _ _ _ stands joins finished => sane.unblocked stands joins finished⟩
  · have mine := ((sane.entered id).pending key).mpr owns
    have theirs := ((sane.entered other).pending key).mpr owned
    exact Option.some.inj (mine.symm.trans theirs)
  · exact not_owned_of_finished finished key (((sane.entered owner).pending key).mp present)

end World

/-- A request for one host. -/
def sampleRequest : NetworkPolicyRequest := ⟨.http, "example.com".toList, 80⟩

/-- A turn whose user is asked. -/
def sampleTurn : TurnContext := ⟨.onRequest, .user⟩

/-- Two calls for one host, of which the first owns the entry and is told the answer. -/
def ownerAndWaiter (answer : ReviewDecision) : List (ℕ × Action) :=
  [(0, .request sampleRequest), (1, .request sampleRequest)] ++
    [(0, .proceed), (0, .proceed), (0, .proceed), (1, .proceed), (1, .proceed), (1, .proceed)] ++
    [(0, .turn (some sampleTurn)), (0, .proceed), (1, .proceed), (1, .proceed)] ++
    [(0, .answer answer), (0, .proceed), (0, .proceed), (0, .proceed), (0, .proceed)]

/-- The waiting call of a finished owner returns at once, with its decision. -/
theorem agreement_of_ownerAndWaiter :
    ∃ tasks, run (step move) start (ownerAndWaiter .approved) = some tasks ∧ Agreement tasks := by
  have ends : (run (step move) start (ownerAndWaiter .approved)).isSome := by decide
  obtain ⟨tasks, ran⟩ := Option.isSome_iff_exists.mp ends
  exact ⟨tasks, ran, agreement_of_run ran⟩

end CodexPilot.NetworkApproval
