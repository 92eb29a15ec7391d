import CodexPilot.NetworkApproval.Caches

/-!
# Decisions for the session

A decision for the session is cached before it is published.  A call reads the caches before it
looks for a pending entry, so a decision that is cached and whose entry is removed in between
escapes it, and it asks again.  A call that has joined an older entry can still return what its
owner published.  Where neither happens, nothing asks for a host or allows it against the decision
for the session.
-/

namespace CodexPilot.NetworkApproval

open Interleaving Transitions

variable {ι : Type*} [DecidableEq ι]

/-- The step asks the session about the host. -/
def Prompts (key : HostApprovalKey) (tasks : Tasks ι (NetworkApprovalService ι) (Place ι))
    (event : ι × Action) : Prop :=
  ∃ request turn, tasks.place event.1 = .running request (.resolveCall turn) ∧ request.key = key ∧
    event.2 = .proceed

/-- The step returns an allowance for the host. -/
def ReturnsAllow (key : HostApprovalKey) (tasks next : Tasks ι (NetworkApprovalService ι) (Place ι))
    (event : ι × Action) : Prop :=
  ∃ request point source, tasks.place event.1 = .running request point ∧ request.key = key ∧
    next.place event.1 = .running request (.returned source .allow)

/-- A call has been resolved, and the session is to remember it. -/
def Resolved (tasks : Tasks ι (NetworkApprovalService ι) (Place ι)) (key : HostApprovalKey)
    (resolution : Resolution) : Prop :=
  ∃ id request point, (tasks.place id).Stands request point ∧ request.key = key ∧
    point.settled = some resolution

section Final

variable {before after : List (ι × Action)}
  {tasks middle final next : Tasks ι (NetworkApprovalService ι) (Place ι)} {event : ι × Action}
  {key : HostApprovalKey} {resolution : Resolution}

omit [DecidableEq ι] in
/-- Nobody asks about a host in a cache. -/
theorem Consistent.not_prompts (consistent : Consistent tasks)
    (cached : key ∈ tasks.shared.sessionApprovedHosts ∨ key ∈ tasks.shared.sessionDeniedHosts) :
    ¬Prompts key tasks event := by
  rintro ⟨request, turn, stands, rfl, -⟩
  obtain ⟨unapproved, undenied⟩ :=
    (consistent.cached event.1).unsettled request (.resolveCall turn) (.inl stands) trivial
  exact cached.elim unapproved undenied

theorem ne_deny_of_allow {decision : PendingApprovalDecision}
    (allows : decision.toNetworkDecision = .allow) : decision ≠ .deny := by
  rintro rfl
  cases allows

/-- An allowance is returned from the cache, or told by the owner, or was the owner's own decision.
-/
theorem allows_of_stepped {id : ι} {service service' : NetworkApprovalService ι}
    {request : NetworkPolicyRequest} {point point' : Point ι} {source : Source ι}
    (stepped : Stepped id service request point service' point')
    (returns : point' = .returned source .allow) :
    request.key ∈ service.sessionApprovedHosts ∨
      (∃ owner decision, point.joins = some owner ∧ service.decisions owner = some decision ∧
        decision ≠ .deny) ∨
      ∃ resolution, point.HoldsGuard ∧ point.settled = some resolution ∧
        resolution.decision ≠ .deny := by
  cases stepped with
  | allowedByCache cached => exact .inl cached
  | told owner seen decision decided =>
      refine .inr (.inl ⟨owner, decision, rfl, decided, ?_⟩)
      injection returns with _ allows
      exact ne_deny_of_allow allows
  | asks unchanged asks next =>
      rw [returns] at next
      exact next.elim
  | remove resolution byPolicy free holds same | outcome unchanged held holds same =>
      rw [returns] at holds
      exact holds.elim
  | leave resolution =>
      refine .inr (.inr ⟨resolution, trivial, rfl, ?_⟩)
      injection returns with _ allows
      exact ne_deny_of_allow allows
  | _ => cases returns

theorem stepped_of_moved {id : ι} {service service' : NetworkApprovalService ι}
    {request : NetworkPolicyRequest} {point point' : Point ι}
    (moved : Moved id service (.running request point) service' (.running request point')) :
    Stepped id service request point service' point' := by
  cases moved with
  | stepped stepped => exact stepped

/-- Nobody returns an allowance for a host that the session denies. -/
theorem Consistent.not_returnsAllow (consistent : Consistent tasks)
    (denied : key ∈ tasks.shared.sessionDeniedHosts)
    (stepped : step move tasks event = some next) : ¬ReturnsAllow key tasks next event := by
  rintro ⟨request, point, source, stands, rfl, returns⟩
  have cached := consistent.cached event.1
  have moved := moved_of_move (moved_of_step stepped).1
  rw [stands, returns] at moved
  obtain approved | ⟨owner, decision, joins, decided, allows⟩ |
      ⟨resolution, holds, settled, allows⟩ :=
    allows_of_stepped (stepped_of_moved moved) rfl
  · exact consistent.apart request.key denied approved
  · exact allows (cached.waiting request point owner decision stands joins denied decided)
  · exact allows (cached.leaving request point resolution stands holds settled denied)

theorem consistent_of_run {events : List (ι × Action)}
    (along : Along (step move) Current start events)
    (ran : run (step move) start events = some tasks) : Consistent tasks :=
  invariant_of_run (fun _ _ _ => consistent_of_step) consistent_start along ran

/-- What the session remembers of a resolved call stays remembered. -/
theorem remembered_of_run {events : List (ι × Action)} (consistent : Consistent tasks)
    (remembered : Remembered tasks.shared key resolution)
    (along : Along (step move) Current tasks events)
    (ran : run (step move) tasks events = some final) :
    Consistent final ∧ Remembered final.shared key resolution := by
  have kept : ∀ (before : Tasks ι (NetworkApprovalService ι) (Place ι)) event after,
      Consistent before ∧ Remembered before.shared key resolution → Current before event →
        step move before event = some after →
          Consistent after ∧ Remembered after.shared key resolution := by
    intro before event after ⟨consistent, allows, denies⟩ current stepped
    obtain ⟨approvedKept, deniedKept⟩ := remembered_of_step consistent stepped
    refine ⟨consistent_of_step consistent current stepped,
      fun allowed => approvedKept (allows allowed), fun session => ?_⟩
    obtain ⟨deny, denied⟩ := denies session
    exact ⟨deny, deniedKept denied⟩
  have held := invariant_of_run kept ⟨consistent, remembered⟩ along ran
  exact held

/-- After a call has been resolved for the session, a run that creates no entry for a cached host,
and denies no host for the session while an older allowance for it is still to be returned, never
asks for the host again, nor allows it where the session denies it. -/
theorem session_decision_final (before after : List (ι × Action))
    (along : Along (step move) Current start (before ++ after))
    (resolves : run (step move) start before = some middle)
    (resolved : Resolved middle key resolution)
    (continues : run (step move) middle after = some final)
    (stepped : step move final event = some next) :
    (resolution.decision = .allowForSession → ¬Prompts key final event) ∧
      (resolution.cacheSessionDeny = true →
        ¬Prompts key final event ∧ ¬ReturnsAllow key final next event) := by
  obtain ⟨first, later⟩ := along_append resolves along
  have consistent := consistent_of_run first resolves
  obtain ⟨id, request, point, stands, rfl, settled⟩ := resolved
  have remembered := (consistent.cached id).remembered request point resolution stands settled
  obtain ⟨consistent, allows, denies⟩ := remembered_of_run consistent remembered later continues
  refine ⟨fun allowed => consistent.not_prompts (.inl (allows allowed)), fun session => ?_⟩
  obtain ⟨-, denied⟩ := denies session
  exact ⟨consistent.not_prompts (.inr denied), consistent.not_returnsAllow denied stepped⟩

end Final

/-- Two calls for one host.  The second has found the host in neither cache when the first is
answered for the session; it looks for a pending approval once the first has returned. -/
def overtaken (answer : ReviewDecision) (steps : ℕ) : List (Bool × Action) :=
  [(true, .request sampleRequest), (true, .proceed), (true, .proceed)] ++
    [(false, .request sampleRequest), (false, .proceed), (false, .proceed), (false, .proceed)] ++
    [(false, .turn (some sampleTurn)), (false, .proceed), (false, .answer answer)] ++
    List.replicate steps (false, .proceed)

/-- A second call that joins the entry before its owner has returned neither asks nor is allowed. -/
theorem denied_when_joined :
    ∃ middle final next,
      run (step move) start (overtaken (.networkPolicyAmendment .deny) 4) = some middle ∧
        run (step move) middle [(true, .proceed), (true, .proceed)] = some final ∧
          step move final (true, .proceed) = some next ∧
            ¬Prompts sampleRequest.key final (true, .proceed) ∧
              ¬ReturnsAllow sampleRequest.key final next (true, .proceed) := by
  have published : ((run (step move) start (overtaken (.networkPolicyAmendment .deny) 4)).bind
      fun middle => (run (step move) middle [(true, .proceed), (true, .proceed)]).bind fun final =>
        (step move final (true, .proceed)).map fun _ => middle.place false) =
      some (.running sampleRequest (.notify ⟨.deny, true⟩ false)) := by
    decide
  obtain ⟨middle, resolves, rest⟩ := Option.bind_eq_some_iff.mp published
  obtain ⟨final, continues, rest⟩ := Option.bind_eq_some_iff.mp rest
  obtain ⟨next, stepped, place⟩ := Option.map_eq_some_iff.mp rest
  have along : Along (step move) Current start
      (overtaken (.networkPolicyAmendment .deny) 4 ++ [(true, .proceed), (true, .proceed)]) := by
    decide
  have resolved : Resolved middle sampleRequest.key ⟨.deny, true⟩ :=
    ⟨false, _, _, .inl place, rfl, rfl⟩
  have decided := session_decision_final _ _ along resolves resolved continues stepped
  exact ⟨middle, final, next, resolves, continues, stepped, decided.2 rfl⟩

/-- The second call asks again, and is allowed what the session denies. -/
theorem asks_again_when_overtaken :
    (∃ middle final, run (step move) start (overtaken .approvedForSession 6) = some middle ∧
      Resolved middle sampleRequest.key ⟨.allowForSession, false⟩ ∧
        run (step move) middle [(true, .proceed), (true, .turn (some sampleTurn))] = some final ∧
          Prompts sampleRequest.key final (true, .proceed)) ∧
    ∃ middle final next,
      run (step move) start (overtaken (.networkPolicyAmendment .deny) 7) = some middle ∧
        Resolved middle sampleRequest.key ⟨.deny, true⟩ ∧
          run (step move) middle
            [(true, .proceed), (true, .turn (some sampleTurn)), (true, .proceed),
              (true, .answer .approved),
              (true, .proceed), (true, .proceed), (true, .proceed)] = some final ∧
            step move final (true, .proceed) = some next ∧
              ReturnsAllow sampleRequest.key final next (true, .proceed) := by
  constructor
  · have asked : ((run (step move) start (overtaken .approvedForSession 6)).bind fun middle =>
        (run (step move) middle [(true, .proceed), (true, .turn (some sampleTurn))]).map
          fun final =>
          (middle.place false, final.place true)) =
        some (.running sampleRequest (.returned (.owned ⟨.allowForSession, false⟩) .allow),
          .running sampleRequest (.resolveCall sampleTurn)) := by
      decide
    obtain ⟨middle, resolves, rest⟩ := Option.bind_eq_some_iff.mp asked
    obtain ⟨final, continues, places⟩ := Option.map_eq_some_iff.mp rest
    obtain ⟨returned, asks⟩ := Prod.mk.inj places
    exact ⟨middle, final, resolves, ⟨false, _, _, .inl returned, rfl, rfl⟩, continues,
      ⟨_, _, asks, rfl, rfl⟩⟩
  · have allowed : ((run (step move) start (overtaken (.networkPolicyAmendment .deny) 7)).bind
        fun middle => (run (step move) middle
            [(true, .proceed), (true, .turn (some sampleTurn)), (true, .proceed),
              (true, .answer .approved),
              (true, .proceed), (true, .proceed), (true, .proceed)]).bind fun final =>
          (step move final (true, .proceed)).map fun next =>
            (middle.place false, final.place true, next.place true)) =
        some (.running sampleRequest (.returned (.owned ⟨.deny, true⟩) (.deny reasonNotAllowed)),
          .running sampleRequest (.leave ⟨.allowOnce, false⟩),
          .running sampleRequest (.returned (.owned ⟨.allowOnce, false⟩) .allow)) := by
      decide
    obtain ⟨middle, resolves, rest⟩ := Option.bind_eq_some_iff.mp allowed
    obtain ⟨final, continues, rest⟩ := Option.bind_eq_some_iff.mp rest
    obtain ⟨next, stepped, places⟩ := Option.map_eq_some_iff.mp rest
    obtain ⟨returned, leaves, returns⟩ := by simpa using places
    exact ⟨middle, final, next, resolves, ⟨false, _, _, .inl returned, rfl, rfl⟩,
      continues, stepped,
      ⟨_, _, _, leaves, rfl, returns⟩⟩

end CodexPilot.NetworkApproval
