import CodexPilot.NetworkApproval.Steps

/-!
# Pending entries and their owners

The pending entry of a host names the call that asks for it, from the moment the call creates the
entry to the moment it removes it.  What the service says of the decision, of the notifications and
of the lock is where that call stands.
-/

namespace CodexPilot.NetworkApproval

open Interleaving Transitions

variable {ι : Type*}

/-- The task owns the pending entry of the host. -/
def Place.Owned (place : Place ι) (key : HostApprovalKey) : Prop :=
  ∃ request point, place.Stands request point ∧ point.Owns ∧ request.key = key

@[simp]
theorem owned_running {request : NetworkPolicyRequest} {point : Point ι} {key : HostApprovalKey} :
    (Place.running request point).Owned key ↔ point.Owns ∧ request.key = key := by
  simp [Place.Owned]

@[simp]
theorem owned_dropped {request : NetworkPolicyRequest} {point : Point ι} {key : HostApprovalKey} :
    (Place.dropped request point).Owned key ↔ point.Owns ∧ request.key = key := by
  simp [Place.Owned]

@[simp]
theorem not_owned_idle {key : HostApprovalKey} : ¬(Place.idle : Place ι).Owned key := by
  simp [Place.Owned]

/-- What a task has published, by its place. -/
def Place.published : Place ι → Option Resolution
  | .idle => none
  | .running _ point | .dropped _ point => point.published

/-- How often a task has notified, by its place. -/
def Place.notifications : Place ι → ℕ
  | .idle => 0
  | .running _ point | .dropped _ point => point.notifications

/-- What the service says of a task is where the task stands. -/
structure Entered (service : NetworkApprovalService ι) (id : ι) (place : Place ι) : Prop where
  pending : ∀ key, service.pendingHostApprovals key = some id ↔ place.Owned key
  decision : service.decisions id = place.published.map fun resolution => resolution.decision
  notifications : service.notifications id = place.notifications
  guard : ∀ request point, place = .running request point → point.HoldsGuard →
    service.guard = some id ∧ service.pendingHostApprovals request.key = none

variable [DecidableEq ι]

section Steps

variable {id : ι} {service service' : NetworkApprovalService ι} {request : NetworkPolicyRequest}
  {point point' : Point ι} {place place' : Place ι}

theorem pending_of_stepped (stepped : Stepped id service request point service' point')
    (pending : ∀ key, service.pendingHostApprovals key = some id ↔
      point.Owns ∧ request.key = key) (key : HostApprovalKey) :
    service'.pendingHostApprovals key = some id ↔ point'.Owns ∧ request.key = key := by
  cases stepped with
  | created free absent =>
      by_cases same : request.key = key
      · subst same
        simp [Point.Owns, Point.Unsettled, Point.Asks]
      · simpa [Point.Owns, Point.Unsettled, Point.Asks, same,
            Function.update_of_ne (Ne.symm same)] using pending key
  | asks unchanged asks next =>
      rw [unchanged.pending, pending key]
      exact and_congr_left fun _ =>
        ⟨fun _ => Point.owns_of_followsAsking next, fun _ => Point.owns_of_asks asks⟩
  | remove resolution byPolicy free holds same =>
      by_cases own : request.key = key
      · subst own
        simp [Point.not_owns_of_holdsGuard holds]
      · simpa [Point.not_owns_of_holdsGuard holds, own, Function.update_of_ne (Ne.symm own)] using
          pending key
  | outcome unchanged held holds same =>
      rw [unchanged.pending, pending key]
      exact and_congr_left fun _ => iff_of_false (Point.not_owns_of_holdsGuard held)
        (Point.not_owns_of_holdsGuard holds)
  | _ => exact pending key

theorem decision_of_stepped (stepped : Stepped id service request point service' point')
    (decision : service.decisions id = point.published.map fun resolution => resolution.decision) :
    service'.decisions id = point'.published.map fun resolution => resolution.decision := by
  cases stepped with
  | asks unchanged asks next =>
      rw [unchanged.decisions, decision, Point.published_of_asks asks,
        Point.published_of_followsAsking next]
  | publish resolution byPolicy => exact Function.update_self _ _ _
  | remove resolution byPolicy free holds same =>
      rw [Point.published_of_holdsGuard holds, same]
      exact decision
  | outcome unchanged held holds same =>
      rw [unchanged.decisions, decision, Point.published_of_holdsGuard held,
        Point.published_of_holdsGuard holds, same]
  | _ => exact decision

theorem notifications_of_stepped (stepped : Stepped id service request point service' point')
    (notifications : service.notifications id = point.notifications) :
    service'.notifications id = point'.notifications := by
  cases stepped with
  | asks unchanged asks next =>
      rw [unchanged.notifications, notifications, Point.notifications_of_asks asks,
        Point.notifications_of_followsAsking next]
  | notify resolution byPolicy =>
      refine (Function.update_self _ _ _).trans ?_
      rw [notifications]
      rfl
  | remove resolution byPolicy free holds same =>
      rw [Point.notifications_of_holdsGuard holds]
      exact notifications
  | outcome unchanged held holds same =>
      rw [unchanged.notifications, notifications, Point.notifications_of_holdsGuard held,
        Point.notifications_of_holdsGuard holds]
  | _ => exact notifications

theorem guard_of_stepped (stepped : Stepped id service request point service' point')
    (guard : point.HoldsGuard →
      service.guard = some id ∧ service.pendingHostApprovals request.key = none)
    (holds : point'.HoldsGuard) :
    service'.guard = some id ∧ service'.pendingHostApprovals request.key = none := by
  cases stepped with
  | asks unchanged asks next =>
      exact absurd (Point.owns_of_followsAsking next) (Point.not_owns_of_holdsGuard holds)
  | remove resolution byPolicy free holds same => exact ⟨rfl, Function.update_self _ _ _⟩
  | outcome unchanged held holds same =>
      rw [unchanged.guard, unchanged.pending]
      exact guard held
  | _ => exact holds.elim

theorem Entered.own (entered : Entered service id place)
    (moved : Moved id service place service' place') : Entered service' id place' := by
  obtain ⟨pending, decision, notifications, guard⟩ := entered
  cases moved with
  | request request =>
      refine ⟨fun key => ?_, decision, notifications, ?_⟩
      · simpa [Point.Owns, Point.Unsettled, Point.Asks] using pending key
      · rintro _ _ ⟨⟩ holds
        exact holds.elim
  | calls unchanged =>
      refine ⟨fun key => ?_, ?_, ?_, fun _ _ stands => by cases stands⟩
      · exact unchanged.pending ▸ pending key
      · exact unchanged.decisions ▸ decision
      · exact unchanged.notifications ▸ notifications
  | stepped stepped =>
      simp only [owned_running] at pending
      refine ⟨fun key => ?_, decision_of_stepped stepped decision,
        notifications_of_stepped stepped notifications, ?_⟩
      · rw [owned_running]
        exact pending_of_stepped stepped pending key
      · rintro _ _ ⟨⟩ holds
        exact guard_of_stepped stepped (guard _ _ rfl) holds
  | dropped awaits =>
      refine ⟨fun key => ?_, decision, notifications, fun _ _ stands => by cases stands⟩
      rw [owned_dropped, ← owned_running]
      exact pending key

/-- What a step of one task leaves as it is for another. -/
structure Framed (service service' : NetworkApprovalService ι) (other : ι) : Prop where
  pending : ∀ key,
    service'.pendingHostApprovals key = some other ↔ service.pendingHostApprovals key = some other
  decision : service'.decisions other = service.decisions other
  notifications : service'.notifications other = service.notifications other
  guard : service.guard = some other → service'.guard = some other ∧
    ∀ key, service.pendingHostApprovals key = none → service'.pendingHostApprovals key = none

omit [DecidableEq ι] in
theorem Framed.of_unchanged {other : ι} (unchanged : Unchanged service service') :
    Framed service service' other := by
  obtain ⟨pending, guard, decisions, notifications, -, -⟩ := unchanged
  refine ⟨fun key => by rw [pending], by rw [decisions], by rw [notifications], fun held => ?_⟩
  exact ⟨guard.trans held, fun key absent => by rw [pending, absent]⟩

theorem framed_of_stepped {other : ι} (different : other ≠ id)
    (entered : Entered service id (.running request point))
    (stepped : Stepped id service request point service' point') :
    Framed service service' other := by
  cases stepped with
  | created free absent =>
      refine ⟨fun key => ?_, rfl, rfl, fun held => absurd (free.symm.trans held) (by simp)⟩
      by_cases same : key = request.key
      · subst same
        simp [absent, Ne.symm different]
      · simp [Function.update_of_ne same]
  | asks unchanged asks next => exact .of_unchanged unchanged
  | publish resolution byPolicy =>
      exact ⟨fun _ => .rfl, Function.update_of_ne different _ _, rfl,
        fun held => ⟨held, fun _ absent => absent⟩⟩
  | notify resolution byPolicy =>
      exact ⟨fun _ => .rfl, rfl, Function.update_of_ne different _ _,
        fun held => ⟨held, fun _ absent => absent⟩⟩
  | remove resolution byPolicy free holds same =>
      refine ⟨fun key => ?_, rfl, rfl, fun held => absurd (free.symm.trans held) (by simp)⟩
      by_cases own : key = request.key
      · subst own
        have mine : service.pendingHostApprovals request.key = some id :=
          (entered.pending request.key).mpr (owned_running.mpr ⟨trivial, rfl⟩)
        simp [mine, Ne.symm different]
      · simp [Function.update_of_ne own]
  | outcome unchanged held holds same => exact .of_unchanged unchanged
  | leave resolution =>
      obtain ⟨held, -⟩ := entered.guard request (.leave resolution) rfl trivial
      refine ⟨fun _ => .rfl, rfl, rfl, fun others => ?_⟩
      exact absurd (Option.some.inj (others.symm.trans held)) different
  | _ => exact ⟨fun _ => .rfl, rfl, rfl, fun held => ⟨held, fun _ absent => absent⟩⟩

theorem framed_of_moved {other : ι} (different : other ≠ id) (entered : Entered service id place)
    (moved : Moved id service place service' place') : Framed service service' other := by
  cases moved with
  | request request => exact .of_unchanged (.refl service)
  | calls unchanged => exact .of_unchanged unchanged
  | stepped stepped => exact framed_of_stepped different entered stepped
  | dropped awaits =>
      refine ⟨fun _ => .rfl, rfl, rfl, fun held => ⟨?_, fun _ absent => absent⟩⟩
      have kept : service.guard ≠ some id := by
        rw [held]
        exact fun same => different (Option.some.inj same)
      exact (if_neg kept).trans held

omit [DecidableEq ι] in
theorem Entered.other {other : ι} (entered : Entered service other place)
    (framed : Framed service service' other) : Entered service' other place where
  pending key := (framed.pending key).trans (entered.pending key)
  decision := framed.decision.trans entered.decision
  notifications := framed.notifications.trans entered.notifications
  guard request point stands holds := by
    obtain ⟨held, absent⟩ := entered.guard request point stands holds
    obtain ⟨still, kept⟩ := framed.guard held
    exact ⟨still, kept _ absent⟩

end Steps

/-- What the service says of every task is where the task stands. -/
def AllEntered (tasks : Tasks ι (NetworkApprovalService ι) (Place ι)) : Prop :=
  ∀ id, Entered tasks.shared id (tasks.place id)

omit [DecidableEq ι] in
theorem allEntered_start : AllEntered (start : Tasks ι (NetworkApprovalService ι) (Place ι)) := by
  intro id
  refine ⟨fun key => ?_, rfl, rfl, fun _ _ stands => by cases stands⟩
  exact iff_of_false (Option.some_ne_none id).symm not_owned_idle

section World

variable {tasks next : Tasks ι (NetworkApprovalService ι) (Place ι)} {event : ι × Action}

theorem allEntered_of_step (entered : AllEntered tasks)
    (stepped : step move tasks event = some next) : AllEntered next := by
  have moved := moved_of_move (moved_of_step stepped).1
  refine forall_place_of_step (fun id place => Entered next.shared id place) stepped
    ((entered event.1).own moved) fun other different => ?_
  exact (entered other).other (framed_of_moved different (entered event.1) moved)

end World

end CodexPilot.NetworkApproval
