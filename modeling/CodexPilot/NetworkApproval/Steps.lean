import CodexPilot.NetworkApproval.Service

/-!
# What a step of the network approval service can be

Each step of a call is of one of a few kinds: it reads a cache, joins or creates a pending entry,
waits, asks, changes a cache, publishes, notifies, removes its entry or leaves.  The invariants are
read off from these kinds.
-/

namespace CodexPilot.NetworkApproval

open Interleaving

variable {ι : Type*}

namespace Resolution

/-- The session is to remember the decision. -/
def IsSession (resolution : Resolution) : Prop :=
  resolution.decision = .allowForSession ∨ resolution.cacheSessionDeny = true

end Resolution

namespace Point

/-- The owner has yet to be answered. -/
def Asks : Point ι → Prop
  | .readTurn | .resolveCall _ | .review _ _ | .persist _ _ | .record _ _ _ => True
  | _ => False

/-- The owner has yet to record what the session is to remember. -/
def Unsettled : Point ι → Prop
  | .uncacheDenied | .cacheApproved | .uncacheApproved | .cacheDenied => True
  | point => point.Asks

/-- Where a step of an owner that asks can lead: what it publishes at once is not to be remembered.
-/
def FollowsAsking : Point ι → Prop
  | .uncacheDenied | .uncacheApproved => True
  | .publish resolution _ => ¬resolution.IsSession
  | point => point.Asks

/-- The owner has its entry among the pending approvals. -/
def Owns : Point ι → Prop
  | .publish _ _ | .notify _ _ | .remove _ _ => True
  | point => point.Unsettled

/-- The owner has removed its entry and still holds the lock. -/
def HoldsGuard : Point ι → Prop
  | .resolveOutcome _ | .recordOutcome _ _ | .leave _ => True
  | _ => False

/-- The call waits for the decision of an owner. -/
def joins : Point ι → Option ι
  | .wait owner | .poll owner _ | .notified owner _ => some owner
  | _ => none

/-- What the owner has resolved, once it is to be published. -/
def settled : Point ι → Option Resolution
  | .publish resolution _ | .notify resolution _ | .remove resolution _ | .resolveOutcome resolution
  | .recordOutcome _ resolution | .leave resolution | .returned (.owned resolution) _ =>
      some resolution
  | _ => none

/-- What the owner has published. -/
def published : Point ι → Option Resolution
  | .publish _ _ => none
  | point => point.settled

/-- How often the owner has notified its waiters. -/
def notifications : Point ι → ℕ
  | .notify _ _ => 0
  | point => if point.published.isSome then 1 else 0

end Point

namespace Point

theorem owns_of_asks {point : Point ι} (asks : point.Asks) : point.Owns := by
  cases point <;> first | exact trivial | exact asks.elim

theorem owns_of_followsAsking {point : Point ι} (follows : point.FollowsAsking) : point.Owns := by
  cases point <;> first | exact trivial | exact follows.elim

theorem owns_of_unsettled {point : Point ι} (unsettled : point.Unsettled) : point.Owns := by
  cases point <;> first | exact trivial | exact unsettled.elim

theorem unsettled_of_asks {point : Point ι} (asks : point.Asks) : point.Unsettled := by
  cases point <;> first | exact trivial | exact asks.elim

theorem not_owns_of_holdsGuard {point : Point ι} (holds : point.HoldsGuard) : ¬point.Owns := by
  cases point <;> first | exact fun owns => owns | exact holds.elim

theorem published_of_asks {point : Point ι} (asks : point.Asks) : point.published = none := by
  cases point <;> first | rfl | exact asks.elim

theorem published_of_followsAsking {point : Point ι} (follows : point.FollowsAsking) :
    point.published = none := by
  cases point <;> first | rfl | exact follows.elim

theorem published_of_holdsGuard {point : Point ι} (holds : point.HoldsGuard) :
    point.published = point.settled := by
  cases point <;> first | rfl | exact holds.elim

theorem notifications_of_asks {point : Point ι} (asks : point.Asks) : point.notifications = 0 := by
  cases point <;> first | rfl | exact asks.elim

theorem notifications_of_followsAsking {point : Point ι} (follows : point.FollowsAsking) :
    point.notifications = 0 := by
  cases point <;> first | rfl | exact follows.elim

theorem notifications_of_holdsGuard {point : Point ι} (holds : point.HoldsGuard) :
    point.notifications = 1 := by
  cases point <;> first | rfl | exact holds.elim

theorem joins_of_owns {point : Point ι} (owns : point.Owns) : point.joins = none := by
  cases point <;> first | rfl | exact owns.elim

theorem joins_of_holdsGuard {point : Point ι} (holds : point.HoldsGuard) : point.joins = none := by
  cases point <;> first | rfl | exact holds.elim

end Point

/-- The call is at the point, or its future was dropped there. -/
def Place.Stands (place : Place ι) (request : NetworkPolicyRequest) (point : Point ι) : Prop :=
  place = .running request point ∨ place = .dropped request point

namespace Place

@[simp]
theorem stands_running {request request' : NetworkPolicyRequest} {point point' : Point ι} :
    (Place.running request point).Stands request' point' ↔ request = request' ∧ point = point' := by
  simp [Stands]

@[simp]
theorem stands_dropped {request request' : NetworkPolicyRequest} {point point' : Point ι} :
    (Place.dropped request point).Stands request' point' ↔ request = request' ∧ point = point' := by
  simp [Stands]

@[simp]
theorem not_stands_idle {request : NetworkPolicyRequest} {point : Point ι} :
    ¬(Place.idle : Place ι).Stands request point := by
  simp [Stands]

end Place

/-- Nothing that the calls agree by has changed. -/
structure Unchanged (before after : NetworkApprovalService ι) : Prop where
  pending : after.pendingHostApprovals = before.pendingHostApprovals
  guard : after.guard = before.guard
  decisions : after.decisions = before.decisions
  notifications : after.notifications = before.notifications
  approved : after.sessionApprovedHosts = before.sessionApprovedHosts
  denied : after.sessionDeniedHosts = before.sessionDeniedHosts

theorem Unchanged.refl (service : NetworkApprovalService ι) : Unchanged service service :=
  ⟨rfl, rfl, rfl, rfl, rfl, rfl⟩

theorem unchanged_recordCallOutcome (service : NetworkApprovalService ι)
    (registrationId : RustStd.Text) (outcome : NetworkApprovalOutcome) :
    Unchanged service (service.recordCallOutcome registrationId outcome) := by
  unfold NetworkApprovalService.recordCallOutcome
  split
  · exact .refl service
  · exact ⟨rfl, rfl, rfl, rfl, rfl, rfl⟩

variable [DecidableEq ι]

/-- The kinds of steps of a call. -/
inductive Stepped (id : ι) (service : NetworkApprovalService ι) (request : NetworkPolicyRequest) :
    Point ι → NetworkApprovalService ι → Point ι → Prop
  | deniedByCache (cached : request.key ∈ service.sessionDeniedHosts) :
      Stepped id service request .checkDenied service (.returned .cache (.deny reasonNotAllowed))
  | notDenied : Stepped id service request .checkDenied service .checkApproved
  | allowedByCache (cached : request.key ∈ service.sessionApprovedHosts) :
      Stepped id service request .checkApproved service (.returned .cache .allow)
  | notApproved : Stepped id service request .checkApproved service .join
  | joined (owner : ι) (pending : service.pendingHostApprovals request.key = some owner) :
      Stepped id service request .join service (.wait owner)
  | created (free : service.guard = none)
      (absent : service.pendingHostApprovals request.key = none) :
      Stepped id service request .join
        { service with
          pendingHostApprovals :=
            Function.update service.pendingHostApprovals request.key (some id) } .readTurn
  | wait (owner : ι) :
      Stepped id service request (.wait owner) service (.poll owner (service.notifications owner))
  | told (owner : ι) (seen : ℕ) (decision : PendingApprovalDecision)
      (decided : service.decisions owner = some decision) :
      Stepped id service request (.poll owner seen) service
        (.returned (.joined owner) decision.toNetworkDecision)
  | untold (owner : ι) (seen : ℕ) (undecided : service.decisions owner = none) :
      Stepped id service request (.poll owner seen) service (.notified owner seen)
  | woken (owner : ι) (seen : ℕ) (notified : service.notifications owner ≠ seen) :
      Stepped id service request (.notified owner seen) service (.wait owner)
  | asks {point point' : Point ι} {service' : NetworkApprovalService ι}
      (unchanged : Unchanged service service') (asks : point.Asks)
      (next : point'.FollowsAsking) :
      Stepped id service request point service' point'
  | uncacheDenied :
      Stepped id service request .uncacheDenied
        { service with
          sessionDeniedHosts := service.sessionDeniedHosts.erase request.key } .cacheApproved
  | cacheApproved :
      Stepped id service request .cacheApproved
        { service with sessionApprovedHosts := insert request.key service.sessionApprovedHosts }
        (.publish ⟨.allowForSession, false⟩ false)
  | uncacheApproved :
      Stepped id service request .uncacheApproved
        { service with
          sessionApprovedHosts := service.sessionApprovedHosts.erase request.key } .cacheDenied
  | cacheDenied :
      Stepped id service request .cacheDenied
        { service with sessionDeniedHosts := insert request.key service.sessionDeniedHosts }
        (.publish ⟨.deny, true⟩ false)
  | publish (resolution : Resolution) (byPolicy : Bool) :
      Stepped id service request (.publish resolution byPolicy)
        { service with
          decisions := Function.update service.decisions id (some resolution.decision) }
        (.notify resolution byPolicy)
  | notify (resolution : Resolution) (byPolicy : Bool) :
      Stepped id service request (.notify resolution byPolicy)
        { service with
          notifications := Function.update service.notifications id (service.notifications id + 1) }
        (.remove resolution byPolicy)
  | remove (resolution : Resolution) (byPolicy : Bool) {point' : Point ι}
      (free : service.guard = none) (holds : point'.HoldsGuard)
      (same : point'.settled = some resolution) :
      Stepped id service request (.remove resolution byPolicy)
        { service with
          pendingHostApprovals := Function.update service.pendingHostApprovals request.key none
          guard := some id } point'
  | outcome {point point' : Point ι} {service' : NetworkApprovalService ι}
      (unchanged : Unchanged service service') (held : point.HoldsGuard) (holds : point'.HoldsGuard)
      (same : point'.settled = point.settled) : Stepped id service request point service' point'
  | leave (resolution : Resolution) :
      Stepped id service request (.leave resolution) { service with guard := none }
        (.returned (.owned resolution) resolution.decision.toNetworkDecision)

/-- The kinds of steps of a task. -/
inductive Moved (id : ι) (service : NetworkApprovalService ι) :
    Place ι → NetworkApprovalService ι → Place ι → Prop
  | request (request : NetworkPolicyRequest) :
      Moved id service .idle service (.running request .checkDenied)
  | calls {service' : NetworkApprovalService ι} (unchanged : Unchanged service service') :
      Moved id service .idle service' .idle
  | stepped {request : NetworkPolicyRequest} {point point' : Point ι}
      {service' : NetworkApprovalService ι}
      (stepped : Stepped id service request point service' point') :
      Moved id service (.running request point) service' (.running request point')
  | dropped {request : NetworkPolicyRequest} {point : Point ι} (awaits : point.IsAwait) :
      Moved id service (.running request point)
        { service with guard := if service.guard = some id then none else service.guard }
        (.dropped request point)

omit [DecidableEq ι] in
theorem followsAsking_settle (resolution : Resolution) :
    (resolution.settle : Point ι).FollowsAsking := by
  unfold Resolution.settle
  split
  case isTrue => exact trivial
  case isFalse once =>
    split
    case isTrue => exact trivial
    case isFalse quiet => exact fun session => session.elim once quiet

omit [DecidableEq ι] in
theorem followsAsking_settleAnswer (turn : TurnContext) (call : Option ActiveNetworkApprovalCall)
    (answer : ReviewDecision) : (settleAnswer turn call answer : Point ι).FollowsAsking := by
  cases answer with
  | approved | approvedExecpolicyAmendment | approvedForSession => exact followsAsking_settle _
  | networkPolicyAmendment action => exact trivial
  | denied | abort =>
      cases call with
      | none => exact followsAsking_settle _
      | some call => exact trivial

variable {id : ι} {service service' : NetworkApprovalService ι} {request : NetworkPolicyRequest}
  {point point' : Point ι} {place place' : Place ι} {action : Action}

theorem stepped_of_proceed (proceeds : proceed id service request point = some (service', point')) :
    Stepped id service request point service' point' := by
  unfold proceed at proceeds
  split at proceeds
  case h_1 =>
    split at proceeds <;> cases proceeds
    · exact .deniedByCache ‹_›
    · exact .notDenied
  case h_2 =>
    split at proceeds <;> cases proceeds
    · exact .allowedByCache ‹_›
    · exact .notApproved
  case h_3 =>
    split at proceeds
    case isFalse => cases proceeds
    case isTrue free =>
      split at proceeds <;> cases proceeds
      · exact .joined _ ‹_›
      · exact .created free ‹_›
  case h_4 =>
    cases proceeds
    exact .wait _
  case h_5 =>
    split at proceeds <;> cases proceeds
    · exact .told _ _ _ ‹_›
    · exact .untold _ _ ‹_›
  case h_6 =>
    split at proceeds <;> cases proceeds
    exact .woken _ _ ‹_›
  case h_7 =>
    cases proceeds
    exact .asks (.refl service) trivial trivial
  case h_8 =>
    cases proceeds
    exact .asks (.refl service) trivial (followsAsking_settle _)
  case h_9 call =>
    cases proceeds
    refine .asks (.refl service) trivial ?_
    cases call with
    | none => exact followsAsking_settle _
    | some call => exact trivial
  case h_10 =>
    cases proceeds
    exact .asks (unchanged_recordCallOutcome _ _ _) trivial (followsAsking_settle _)
  case h_11 =>
    cases proceeds
    exact .uncacheDenied
  case h_12 =>
    cases proceeds
    exact .cacheApproved
  case h_13 =>
    cases proceeds
    exact .uncacheApproved
  case h_14 =>
    cases proceeds
    exact .cacheDenied
  case h_15 =>
    cases proceeds
    exact .publish _ _
  case h_16 =>
    cases proceeds
    exact .notify _ _
  case h_17 resolution byPolicy =>
    split at proceeds <;> cases proceeds
    refine .remove resolution byPolicy ‹_› ?_ ?_
    · cases byPolicy <;> exact trivial
    · cases byPolicy <;> rfl
  case h_18 =>
    cases proceeds
    refine .outcome (.refl service) trivial ?_ ?_
    · split <;> exact trivial
    · split <;> rfl
  case h_19 =>
    cases proceeds
    exact .outcome (unchanged_recordCallOutcome _ _ _) trivial trivial rfl
  case h_20 =>
    cases proceeds
    exact .leave _
  case h_21 => cases proceeds

theorem moved_of_move (moves : move id service place action = some (service', place')) :
    Moved id service place service' place' := by
  unfold move at moves
  split at moves
  case h_1 =>
    cases moves
    exact .request _
  case h_2 | h_3 =>
    cases moves
    exact .calls ⟨rfl, rfl, rfl, rfl, rfl, rfl⟩
  case h_4 =>
    obtain ⟨⟨service', point'⟩, proceeds, stepped⟩ := Option.map_eq_some_iff.mp moves
    cases stepped
    exact .stepped (stepped_of_proceed proceeds)
  case h_5 context =>
    cases moves
    refine .stepped (.asks (.refl service) trivial ?_)
    cases context with
    | none => exact fun session => session.elim nofun nofun
    | some turn =>
        dsimp only
        split
        · exact trivial
        · exact fun session => session.elim nofun nofun
  case h_6 =>
    cases moves
    exact .stepped (.asks (.refl service) trivial (followsAsking_settleAnswer _ _ _))
  case h_7 =>
    split at moves <;> cases moves
    exact .dropped ‹_›
  case h_8 => cases moves

end CodexPilot.NetworkApproval
