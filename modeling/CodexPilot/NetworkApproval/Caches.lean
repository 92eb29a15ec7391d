import CodexPilot.NetworkApproval.Agreement
import Mathlib.Data.Fintype.Basic

/-!
# The caches of the session

A decision for the session is cached before it is published.  As long as no entry is created for a
cached host, and no host is denied for the session over an older allowance, nothing in the world
contradicts the caches, and they only grow.
-/

namespace CodexPilot.NetworkApproval

open Interleaving Transitions

variable {ι : Type*}

/-- What the session is to remember is cached. -/
def Remembered (service : NetworkApprovalService ι) (key : HostApprovalKey)
    (resolution : Resolution) : Prop :=
  (resolution.decision = .allowForSession → key ∈ service.sessionApprovedHosts) ∧
    (resolution.cacheSessionDeny = true →
      resolution.decision = .deny ∧ key ∈ service.sessionDeniedHosts)

/-- How a call stands to the caches: an owner that has not recorded its decision asks for a host in
neither; a decision is recorded before it is published; and no call is about to allow a host that
the session denies. -/
structure Cached (service : NetworkApprovalService ι) (place : Place ι) : Prop where
  unsettled : ∀ request point, place.Stands request point → point.Unsettled →
    request.key ∉ service.sessionApprovedHosts ∧ request.key ∉ service.sessionDeniedHosts
  remembered : ∀ request point resolution, place.Stands request point →
    point.settled = some resolution → Remembered service request.key resolution
  owner : ∀ request point resolution, place.Stands request point → point.Owns →
    point.settled = some resolution → request.key ∈ service.sessionDeniedHosts →
      resolution.decision = .deny
  leaving : ∀ request point resolution, place = .running request point → point.HoldsGuard →
    point.settled = some resolution → request.key ∈ service.sessionDeniedHosts →
      resolution.decision = .deny
  waiting : ∀ request point owner decision, place = .running request point →
    point.joins = some owner → request.key ∈ service.sessionDeniedHosts →
      service.decisions owner = some decision → decision = .deny

/-- A running call meets the condition. -/
def Place.All (place : Place ι) (condition : NetworkPolicyRequest → Point ι → Prop) : Prop :=
  match place with
  | .running request point => condition request point
  | _ => True

theorem Place.all_iff {place : Place ι} {condition : NetworkPolicyRequest → Point ι → Prop} :
    place.All condition ↔ ∀ request point, place = .running request point →
      condition request point := by
  cases place <;> simp [Place.All]

instance {condition : NetworkPolicyRequest → Point ι → Prop}
    [∀ request point, Decidable (condition request point)] :
    (place : Place ι) → Decidable (place.All condition)
  | .running request point => inferInstanceAs (Decidable (condition request point))
  | .idle => isTrue trivial
  | .dropped _ _ => isTrue trivial

/-- An entry is created only for a host in neither cache. -/
def CreatesUncached (tasks : Tasks ι (NetworkApprovalService ι) (Place ι))
    (request : NetworkPolicyRequest) (point : Point ι) : Prop :=
  point = .join → tasks.shared.pendingHostApprovals request.key = none →
    request.key ∉ tasks.shared.sessionApprovedHosts ∧ request.key ∉ tasks.shared.sessionDeniedHosts

/-- A denial for the session is recorded only while no call for the host has an older allowance to
return. -/
def DeniesLast (tasks : Tasks ι (NetworkApprovalService ι) (Place ι))
    (request : NetworkPolicyRequest) (point : Point ι) : Prop :=
  point = .cacheDenied → ∀ id, (tasks.place id).All fun request' point' =>
    request'.key = request.key → ∀ owner ∈ point'.joins,
      ∀ decision ∈ tasks.shared.decisions owner, decision = .deny

/-- The step neither creates an entry for a cached host nor denies a host over an older allowance.
-/
def Current (tasks : Tasks ι (NetworkApprovalService ι) (Place ι)) (event : ι × Action) : Prop :=
  event.2 = .proceed → (tasks.place event.1).All fun request point =>
    CreatesUncached tasks request point ∧ DeniesLast tasks request point

section Decide

variable [DecidableEq ι] (tasks : Tasks ι (NetworkApprovalService ι) (Place ι))

instance (request : NetworkPolicyRequest) (point : Point ι) :
    Decidable (CreatesUncached tasks request point) :=
  inferInstanceAs (Decidable (_ → _))

instance [Fintype ι] (request : NetworkPolicyRequest) (point : Point ι) :
    Decidable (DeniesLast tasks request point) :=
  inferInstanceAs (Decidable (_ → _))

instance [Fintype ι] (event : ι × Action) : Decidable (Current tasks event) :=
  inferInstanceAs (Decidable (_ → _))

end Decide

/-- Nothing in the world contradicts the caches. -/
structure Consistent (tasks : Tasks ι (NetworkApprovalService ι) (Place ι)) : Prop where
  sane : Sane tasks
  cached : ∀ id, Cached tasks.shared (tasks.place id)
  apart : ∀ key, key ∈ tasks.shared.sessionDeniedHosts → key ∉ tasks.shared.sessionApprovedHosts

variable [DecidableEq ι]

section Own

variable {id : ι} {service service' : NetworkApprovalService ι} {request : NetworkPolicyRequest}
  {point point' : Point ι}

omit [DecidableEq ι] in
theorem not_isSession_of_followsAsking {resolution : Resolution} (follows : point.FollowsAsking)
    (settled : point.settled = some resolution) : ¬resolution.IsSession := by
  cases point with
  | publish other byPolicy =>
      cases settled
      exact follows
  | _ => first | exact follows.elim | cases settled

theorem unsettled_of_stepped
    (unsettled : point.Unsettled →
      request.key ∉ service.sessionApprovedHosts ∧ request.key ∉ service.sessionDeniedHosts)
    (fresh : point = .join → service.pendingHostApprovals request.key = none →
      request.key ∉ service.sessionApprovedHosts ∧ request.key ∉ service.sessionDeniedHosts)
    (stepped : Stepped id service request point service' point') (still : point'.Unsettled) :
    request.key ∉ service'.sessionApprovedHosts ∧ request.key ∉ service'.sessionDeniedHosts := by
  cases stepped with
  | created free absent => exact fresh rfl absent
  | asks unchanged asks next =>
      rw [unchanged.approved, unchanged.denied]
      exact unsettled (Point.unsettled_of_asks asks)
  | uncacheDenied =>
      obtain ⟨unapproved, -⟩ := unsettled trivial
      exact ⟨unapproved, Finset.notMem_erase _ _⟩
  | uncacheApproved =>
      obtain ⟨-, undenied⟩ := unsettled trivial
      exact ⟨Finset.notMem_erase _ _, undenied⟩
  | remove resolution byPolicy free holds same | outcome unchanged held holds same =>
      exact absurd (Point.owns_of_unsettled still) (Point.not_owns_of_holdsGuard holds)
  | _ => exact still.elim

theorem remembered_of_stepped {resolution : Resolution}
    (remembered : ∀ resolution, point.settled = some resolution →
      Remembered service request.key resolution)
    (stepped : Stepped id service request point service' point')
    (settled : point'.settled = some resolution) : Remembered service' request.key resolution := by
  cases stepped with
  | asks unchanged asks next =>
      have once := not_isSession_of_followsAsking next settled
      exact ⟨fun allowed => absurd (.inl allowed) once, fun denied => absurd (.inr denied) once⟩
  | cacheApproved =>
      cases settled
      exact ⟨fun _ => Finset.mem_insert_self _ _, nofun⟩
  | cacheDenied =>
      cases settled
      exact ⟨nofun, fun _ => ⟨rfl, Finset.mem_insert_self _ _⟩⟩
  | publish resolution' byPolicy
  | notify resolution' byPolicy => exact remembered resolution settled
  | remove resolution' byPolicy free holds same =>
      exact remembered resolution (same.symm.trans settled)
  | outcome unchanged held holds same =>
      unfold Remembered
      rw [unchanged.approved, unchanged.denied]
      exact remembered resolution (same.symm.trans settled)
  | leave resolution' => exact remembered resolution settled
  | _ => cases settled

theorem owner_of_stepped {resolution : Resolution} (unsettled : point.Unsettled →
      request.key ∉ service.sessionApprovedHosts ∧ request.key ∉ service.sessionDeniedHosts)
    (owner : ∀ resolution, point.Owns → point.settled = some resolution →
      request.key ∈ service.sessionDeniedHosts → resolution.decision = .deny)
    (stepped : Stepped id service request point service' point') (owns : point'.Owns)
    (settled : point'.settled = some resolution)
    (denied : request.key ∈ service'.sessionDeniedHosts) : resolution.decision = .deny := by
  cases stepped with
  | asks unchanged asks next =>
      rw [unchanged.denied] at denied
      exact absurd denied (unsettled (Point.unsettled_of_asks asks)).2
  | cacheApproved => exact absurd denied (unsettled trivial).2
  | cacheDenied =>
      cases settled
      rfl
  | publish resolution' byPolicy
  | notify resolution' byPolicy => exact owner resolution trivial settled denied
  | remove resolution' byPolicy free holds same =>
      exact absurd owns (Point.not_owns_of_holdsGuard holds)
  | outcome unchanged held holds same => exact absurd owns (Point.not_owns_of_holdsGuard holds)
  | _ => first | exact owns.elim | cases settled

theorem leaving_of_stepped {resolution : Resolution}
    (owner : ∀ resolution, point.Owns → point.settled = some resolution →
      request.key ∈ service.sessionDeniedHosts → resolution.decision = .deny)
    (leaving : ∀ resolution, point.HoldsGuard → point.settled = some resolution →
      request.key ∈ service.sessionDeniedHosts → resolution.decision = .deny)
    (stepped : Stepped id service request point service' point') (holds : point'.HoldsGuard)
    (settled : point'.settled = some resolution)
    (denied : request.key ∈ service'.sessionDeniedHosts) : resolution.decision = .deny := by
  cases stepped with
  | asks unchanged asks next =>
      exact absurd (Point.owns_of_followsAsking next) (Point.not_owns_of_holdsGuard holds)
  | remove resolution' byPolicy free holds' same =>
      exact owner resolution trivial (same.symm.trans settled) denied
  | outcome unchanged held holds' same =>
      rw [unchanged.denied] at denied
      exact leaving resolution held (same.symm.trans settled) denied
  | _ => exact holds.elim

theorem waiting_of_stepped {owner : ι} {decision : PendingApprovalDecision}
    (entry : ∀ owner decision, service.pendingHostApprovals request.key = some owner →
      request.key ∈ service.sessionDeniedHosts → service.decisions owner = some decision →
        decision = .deny) (waiting : ∀ owner decision, point.joins = some owner →
      request.key ∈ service.sessionDeniedHosts → service.decisions owner = some decision →
        decision = .deny)
    (stepped : Stepped id service request point service' point') (joins : point'.joins = some owner)
    (denied : request.key ∈ service'.sessionDeniedHosts)
    (decided : service'.decisions owner = some decision) : decision = .deny := by
  cases stepped with
  | joined other pending =>
      cases joins
      exact entry owner decision pending denied decided
  | wait other | untold other seen undecided
  | woken other seen notified => exact waiting owner decision joins denied decided
  | asks unchanged asks next =>
      exact absurd (joins.symm.trans (Point.joins_of_owns (Point.owns_of_followsAsking next)))
        (by simp)
  | remove resolution byPolicy free holds same | outcome unchanged held holds same =>
      exact absurd (joins.symm.trans (Point.joins_of_holdsGuard holds)) (by simp)
  | _ => cases joins

theorem cached_of_stepped
    (cached : Cached service (.running request point))
    (fresh : point = .join → service.pendingHostApprovals request.key = none →
      request.key ∉ service.sessionApprovedHosts ∧ request.key ∉ service.sessionDeniedHosts)
    (entry : ∀ owner decision, service.pendingHostApprovals request.key = some owner →
      request.key ∈ service.sessionDeniedHosts → service.decisions owner = some decision →
        decision = .deny) (stepped : Stepped id service request point service' point') :
    Cached service' (.running request point') := by
  have here := Place.stands_running.mpr (⟨rfl, rfl⟩ : request = request ∧ point = point)
  have unsettled := cached.unsettled request point here
  have owner := fun resolution => cached.owner request point resolution here
  have leaving := fun resolution => cached.leaving request point resolution rfl
  refine ⟨?_, ?_, ?_, ?_, ?_⟩
  · rintro _ _ stands still
    obtain ⟨rfl, rfl⟩ := Place.stands_running.mp stands
    exact unsettled_of_stepped unsettled fresh stepped still
  · rintro _ _ resolution stands settled
    obtain ⟨rfl, rfl⟩ := Place.stands_running.mp stands
    exact remembered_of_stepped (fun resolution => cached.remembered request point resolution here)
      stepped settled
  · rintro _ _ resolution stands owns settled denied
    obtain ⟨rfl, rfl⟩ := Place.stands_running.mp stands
    exact owner_of_stepped unsettled owner stepped owns settled denied
  · rintro _ _ resolution ⟨⟩ holds settled denied
    exact leaving_of_stepped owner leaving stepped holds settled denied
  · rintro _ _ owner' decision ⟨⟩ joins denied decided
    exact waiting_of_stepped entry
      (fun owner decision => cached.waiting request point owner decision rfl)
      stepped joins denied decided

end Own

omit [DecidableEq ι] in
theorem cached_idle (service : NetworkApprovalService ι) : Cached service .idle where
  unsettled _ _ stands := absurd stands Place.not_stands_idle
  remembered _ _ _ stands := absurd stands Place.not_stands_idle
  owner _ _ _ stands := absurd stands Place.not_stands_idle
  leaving _ _ _ stands := by cases stands
  waiting _ _ _ _ stands := by cases stands

omit [DecidableEq ι] in
theorem cached_request (service : NetworkApprovalService ι) (request : NetworkPolicyRequest) :
    Cached service (.running request .checkDenied) where
  unsettled := by
    rintro _ _ stands unsettled
    obtain ⟨rfl, rfl⟩ := Place.stands_running.mp stands
    exact unsettled.elim
  remembered := by
    rintro _ _ _ stands settled
    obtain ⟨rfl, rfl⟩ := Place.stands_running.mp stands
    cases settled
  owner := by
    rintro _ _ _ stands owns
    obtain ⟨rfl, rfl⟩ := Place.stands_running.mp stands
    exact owns.elim
  leaving := by
    rintro _ _ _ ⟨⟩ holds
    exact holds.elim
  waiting := by
    rintro _ _ _ _ ⟨⟩ joins
    cases joins

omit [DecidableEq ι] in
theorem Cached.drop {service service' : NetworkApprovalService ι} {request : NetworkPolicyRequest}
    {point : Point ι} (cached : Cached service (.running request point))
    (approved : service'.sessionApprovedHosts = service.sessionApprovedHosts)
    (denied : service'.sessionDeniedHosts = service.sessionDeniedHosts) :
    Cached service' (.dropped request point) where
  unsettled := by
    rintro _ _ stands
    obtain ⟨rfl, rfl⟩ := Place.stands_dropped.mp stands
    rw [approved, denied]
    exact cached.unsettled request point (.inl rfl)
  remembered := by
    rintro _ _ resolution stands
    obtain ⟨rfl, rfl⟩ := Place.stands_dropped.mp stands
    unfold Remembered
    rw [approved, denied]
    exact cached.remembered request point resolution (.inl rfl)
  owner := by
    rintro _ _ resolution stands
    obtain ⟨rfl, rfl⟩ := Place.stands_dropped.mp stands
    rw [denied]
    exact cached.owner request point resolution (.inl rfl)
  leaving _ _ _ stands := by cases stands
  waiting _ _ _ _ stands := by cases stands

theorem Cached.own {id : ι} {service service' : NetworkApprovalService ι} {place place' : Place ι}
    (cached : Cached service place)
    (fresh : ∀ request point', place = .running request .join → place' = .running request point' →
      service.pendingHostApprovals request.key = none →
        request.key ∉ service.sessionApprovedHosts ∧ request.key ∉ service.sessionDeniedHosts)
    (entry : ∀ key owner decision, service.pendingHostApprovals key = some owner →
      key ∈ service.sessionDeniedHosts → service.decisions owner = some decision → decision = .deny)
    (moved : Moved id service place service' place') : Cached service' place' := by
  cases moved with
  | request request => exact cached_request service request
  | calls unchanged => exact cached_idle service'
  | dropped awaits => exact cached.drop rfl rfl
  | @stepped request point point' _ stepped =>
      refine cached_of_stepped cached (fun joins => ?_) (entry request.key) stepped
      exact fresh request point' (by rw [joins]) rfl

/-- What a step changes in the caches, and of the decisions. -/
structure CacheEffect (id : ι) (service : NetworkApprovalService ι) (place : Place ι)
    (service' : NetworkApprovalService ι) : Prop where
  approved : ∀ key, key ∈ service'.sessionApprovedHosts → key ∈ service.sessionApprovedHosts ∨
    ∃ request, place = .running request .cacheApproved ∧ request.key = key
  approvedKept : ∀ key, key ∈ service.sessionApprovedHosts → key ∈ service'.sessionApprovedHosts ∨
    ∃ request, place = .running request .uncacheApproved ∧ request.key = key
  denied : ∀ key, key ∈ service'.sessionDeniedHosts → key ∈ service.sessionDeniedHosts ∨
    ∃ request, place = .running request .cacheDenied ∧ request.key = key
  deniedKept : ∀ key, key ∈ service.sessionDeniedHosts → key ∈ service'.sessionDeniedHosts ∨
    ∃ request, place = .running request .uncacheDenied ∧ request.key = key
  decided : ∀ owner decision, service'.decisions owner = some decision →
    service.decisions owner = some decision ∨ owner = id ∧ service'.sessionDeniedHosts =
      service.sessionDeniedHosts ∧ ∃ request resolution byPolicy,
        place = .running request (.publish resolution byPolicy) ∧ decision = resolution.decision

section Other

variable {id : ι} {service service' : NetworkApprovalService ι} {place place' mover : Place ι}

omit [DecidableEq ι] in
theorem CacheEffect.of_unchanged (unchanged : Unchanged service service') :
    CacheEffect id service place service' := by
  obtain ⟨-, -, decisions, -, approved, denied⟩ := unchanged
  refine ⟨fun key member => .inl (approved ▸ member), fun key member => .inl (approved ▸ member),
    fun key member => .inl (denied ▸ member), fun key member => .inl (denied ▸ member),
    fun owner decision decided => .inl (decisions ▸ decided)⟩

theorem cacheEffect_of_moved (moved : Moved id service place service' place') :
    CacheEffect id service place service' := by
  cases moved with
  | request request => exact .of_unchanged (.refl service)
  | calls unchanged => exact .of_unchanged unchanged
  | dropped awaits =>
      exact ⟨fun _ => .inl, fun _ => .inl, fun _ => .inl, fun _ => .inl, fun _ _ => .inl⟩
  | @stepped request point point' _ stepped =>
      cases stepped with
      | asks unchanged asks next
      | outcome unchanged held holds same => exact .of_unchanged unchanged
      | uncacheDenied =>
          refine ⟨fun _ => .inl, fun _ => .inl, fun key member =>
            .inl (Finset.mem_of_mem_erase member),
            fun key member => ?_, fun _ _ => .inl⟩
          by_cases own : key = request.key
          · exact .inr ⟨request, rfl, own.symm⟩
          · exact .inl (Finset.mem_erase.mpr ⟨own, member⟩)
      | cacheApproved =>
          refine ⟨fun key member => ?_, fun key member => .inl (Finset.mem_insert_of_mem member),
            fun _ => .inl, fun _ => .inl, fun _ _ => .inl⟩
          obtain own | before := Finset.mem_insert.mp member
          · exact .inr ⟨request, rfl, own.symm⟩
          · exact .inl before
      | uncacheApproved =>
          refine ⟨fun key member => .inl (Finset.mem_of_mem_erase member), fun key member => ?_,
            fun _ => .inl, fun _ => .inl, fun _ _ => .inl⟩
          by_cases own : key = request.key
          · exact .inr ⟨request, rfl, own.symm⟩
          · exact .inl (Finset.mem_erase.mpr ⟨own, member⟩)
      | cacheDenied =>
          refine ⟨fun _ => .inl, fun _ => .inl, fun key member => ?_,
            fun key member => .inl (Finset.mem_insert_of_mem member), fun _ _ => .inl⟩
          obtain own | before := Finset.mem_insert.mp member
          · exact .inr ⟨request, rfl, own.symm⟩
          · exact .inl before
      | publish resolution byPolicy =>
          refine ⟨fun _ => .inl, fun _ => .inl, fun _ => .inl, fun _ => .inl,
            fun owner decision decided => ?_⟩
          by_cases own : owner = id
          · subst own
            refine .inr ⟨rfl, rfl, request, resolution, byPolicy, rfl, ?_⟩
            exact Option.some.inj (decided.symm.trans (Function.update_self _ _ _))
          · exact .inl ((Function.update_of_ne own _ _).symm.trans decided)
      | _ => exact ⟨fun _ => .inl, fun _ => .inl, fun _ => .inl, fun _ => .inl, fun _ _ => .inl⟩

omit [DecidableEq ι] in
theorem owned_of_stands {request : NetworkPolicyRequest} {point : Point ι}
    (stands : place.Stands request point) (owns : point.Owns) : place.Owned request.key :=
  ⟨request, point, stands, owns, rfl⟩

omit [DecidableEq ι] in
/-- A step of one task keeps the relation of another to the caches. -/
theorem Cached.other (cached : Cached service place) (moving : Cached service mover)
    (effect : CacheEffect id service mover service')
    (apart : ∀ key, place.Owned key → ¬mover.Owned key)
    (guarded : ∀ request point, place = .running request point → point.HoldsGuard →
      ¬mover.Owned request.key) (current : ∀ request, mover = .running request .cacheDenied →
      request.key ∈ service'.sessionDeniedHosts → request.key ∉ service.sessionDeniedHosts →
      ∀ request' point owner decision, place = .running request' point →
        request'.key = request.key → point.joins = some owner →
          service.decisions owner = some decision → decision = .deny)
    (unpublished : ∀ request resolution byPolicy,
      mover = .running request (.publish resolution byPolicy) → service.decisions id = none)
    (joined : ∀ request point, place = .running request point → point.joins = some id →
      service.decisions id = none → mover.Owned request.key) : Cached service' place := by
  have undenied : ∀ request point, place.Stands request point → point.Owns →
      request.key ∈ service'.sessionDeniedHosts → request.key ∈ service.sessionDeniedHosts := by
    intro request point stands owns denied
    refine (effect.denied request.key denied).resolve_right ?_
    rintro ⟨request', stands', same⟩
    exact apart request.key (owned_of_stands stands owns)
      ⟨request', .cacheDenied, .inl stands', trivial, same⟩
  refine ⟨fun request point stands unsettled => ?_,
    fun request point resolution stands settled => ?_,
    fun request point resolution stands owns settled denied => ?_,
    fun request point resolution stands holds settled denied => ?_,
    fun request point owner decision stands joins denied decided => ?_⟩
  · have owns := Point.owns_of_unsettled unsettled
    obtain ⟨unapproved, notDenied⟩ := cached.unsettled request point stands unsettled
    refine ⟨fun approved => ?_, fun denied => notDenied (undenied request point stands owns denied)⟩
    obtain before | ⟨request', stands', same⟩ := effect.approved request.key approved
    · exact unapproved before
    · exact apart request.key (owned_of_stands stands owns)
        ⟨request', .cacheApproved, .inl stands', trivial, same⟩
  · obtain ⟨allows, denies⟩ := cached.remembered request point resolution stands settled
    refine ⟨fun allowed => ?_, fun session => ?_⟩
    · refine (effect.approvedKept request.key (allows allowed)).resolve_right ?_
      rintro ⟨request', stands', same⟩
      exact (moving.unsettled request' .uncacheApproved (.inl stands') trivial).1
        (same ▸ allows allowed)
    · obtain ⟨deny, denied⟩ := denies session
      refine ⟨deny, (effect.deniedKept request.key denied).resolve_right ?_⟩
      rintro ⟨request', stands', same⟩
      exact (moving.unsettled request' .uncacheDenied (.inl stands') trivial).2 (same ▸ denied)
  · exact cached.owner request point resolution stands owns settled
      (undenied request point stands owns denied)
  · refine cached.leaving request point resolution stands holds settled ?_
    refine (effect.denied request.key denied).resolve_right ?_
    rintro ⟨request', stands', same⟩
    exact guarded request point stands holds ⟨request', .cacheDenied, .inl stands', trivial, same⟩
  · obtain before | ⟨own, kept, request', resolution, byPolicy, stands', rfl⟩ :=
      effect.decided owner decision decided
    · by_cases old : request.key ∈ service.sessionDeniedHosts
      · exact cached.waiting request point owner decision stands joins old before
      · obtain ⟨request', stands', same⟩ := (effect.denied request.key denied).resolve_left old
        rw [← same] at denied old
        exact current request' stands' denied old request point owner decision stands
          same.symm joins
          before
    · obtain ⟨request₂, point₂, stands₂, owns, same⟩ := joined request point stands (own ▸ joins)
        (unpublished request' resolution byPolicy stands')
      rw [stands'] at stands₂
      obtain ⟨rfl, rfl⟩ := Place.stands_running.mp stands₂
      rw [kept, ← same] at denied
      exact moving.owner request' (.publish resolution byPolicy) resolution (.inl stands') trivial
          rfl
        denied

end Other

section World

variable {tasks next : Tasks ι (NetworkApprovalService ι) (Place ι)} {event : ι × Action}

omit [DecidableEq ι] in
/-- Whoever joins the entry of a host that the session denies is denied. -/
theorem deny_of_entry (consistent : Consistent tasks) {key : HostApprovalKey} {owner : ι}
    {decision : PendingApprovalDecision}
    (present : tasks.shared.pendingHostApprovals key = some owner)
    (denied : key ∈ tasks.shared.sessionDeniedHosts)
    (decided : tasks.shared.decisions owner = some decision) : decision = .deny := by
  obtain ⟨pending, published, -, -⟩ := consistent.sane.entered owner
  obtain ⟨request, point, stands, owns, rfl⟩ := (pending key).mp present
  have settled : ∃ resolution, point.settled = some resolution ∧
      resolution.decision = decision := by
    have published : point.published.map (fun resolution => resolution.decision) =
        some decision := by
      rw [← decided, published]
      obtain running | dropped := stands
      · rw [running]
        rfl
      · rw [dropped]
        rfl
    obtain ⟨resolution, published, same⟩ := Option.map_eq_some_iff.mp published
    refine ⟨resolution, ?_, same⟩
    cases point <;> first | exact published | cases published
  obtain ⟨resolution, settled, rfl⟩ := settled
  exact (consistent.cached owner).owner request point resolution stands owns settled denied

/-- Away from its session, a running call only proceeds or is dropped. -/
theorem proceed_of_moves {id : ι} {service service' : NetworkApprovalService ι} {place' : Place ι}
    {request : NetworkPolicyRequest} {point : Point ι} {action : Action}
    (moves : move id service (.running request point) action = some (service', place'))
    (kept : action ≠ .drop) (asks : ¬point.Asks) : action = .proceed := by
  cases action with
  | proceed => rfl
  | drop => exact absurd rfl kept
  | turn context
  | answer decision => cases point <;> first | exact absurd trivial asks | cases moves
  | request request' | registerCall call | unregisterCall registrationId => cases moves

/-- Dropping a future changes no cache. -/
theorem denied_of_drop {id : ι} {service service' : NetworkApprovalService ι}
    {place place' : Place ι} (moves : move id service place .drop = some (service', place')) :
    service'.sessionDeniedHosts = service.sessionDeniedHosts := by
  cases place with
  | running request point =>
      simp only [move] at moves
      split at moves <;> cases moves
      rfl
  | idle | dropped request point => cases moves

theorem cached_of_step (consistent : Consistent tasks) (current : Current tasks event)
    (stepped : step move tasks event = some next) : Cached next.shared (next.place event.1) := by
  obtain ⟨moves, -⟩ := moved_of_step stepped
  refine (consistent.cached event.1).own (fun request point' joins runs absent => ?_)
    (fun key owner decision => deny_of_entry consistent) (moved_of_move moves)
  have kept : event.2 ≠ .drop := by
    intro drops
    rw [joins, runs, drops] at moves
    simp [move, Point.IsAwait] at moves
  have proceeds : event.2 = .proceed := by
    rw [joins] at moves
    exact proceed_of_moves moves kept fun asks => asks
  exact (Place.all_iff.mp (current proceeds) request .join joins).1 rfl absent

/-- What a step that meets the condition keeps. -/
theorem consistent_of_step (consistent : Consistent tasks) (current : Current tasks event)
    (stepped : step move tasks event = some next) : Consistent next := by
  have moves := (moved_of_step stepped).1
  have moved := moved_of_move moves
  have effect := cacheEffect_of_moved moved
  have moving := consistent.cached event.1
  refine ⟨sane_of_step consistent.sane stepped, ?_, fun key denied approved => ?_⟩
  · refine forall_place_of_step (fun _ place => Cached next.shared place) stepped
      (cached_of_step consistent current stepped) fun other different => ?_
    have entered := consistent.sane.entered
    have pending : ∀ key, (tasks.place event.1).Owned key →
        tasks.shared.pendingHostApprovals key = some event.1 :=
      fun key => ((entered event.1).pending key).mpr
    refine (consistent.cached other).other moving effect (fun key owned owns => ?_)
      (fun request point stands holds owns => ?_) (fun request stands denied fresh => ?_)
      (fun request resolution byPolicy stands => ?_) fun request point stands joins undecided => ?_
    · have mine := ((entered other).pending key).mpr owned
      exact different (Option.some.inj (mine.symm.trans (pending key owns)))
    · have absent := ((entered other).guard request point stands holds).2
      exact absurd (absent.symm.trans (pending request.key owns)) (by simp)
    · have kept : event.2 ≠ .drop := by
        intro drops
        rw [drops] at moves
        exact fresh (denied_of_drop moves ▸ denied)
      have proceeds : event.2 = .proceed := by
        rw [stands] at moves
        exact proceed_of_moves moves kept fun asks => asks
      intro request' point owner decision running same joins decided
      have older := (Place.all_iff.mp (current proceeds) request .cacheDenied stands).2 rfl other
      exact Place.all_iff.mp older request' point running same owner joins decision decided
    · rw [(entered event.1).decision, stands]
      rfl
    · have relies := consistent.sane.waiting other
      rw [stands] at relies
      obtain present | decided := joined_of_relies relies joins
      · exact ((entered event.1).pending request.key).mp present
      · exact absurd undecided decided
  · obtain old | ⟨request, stands, rfl⟩ := effect.denied key denied
    · obtain before | ⟨request, stands, rfl⟩ := effect.approved key approved
      · exact consistent.apart key old before
      · exact (moving.unsettled request .cacheApproved (.inl stands) trivial).2 old
    · obtain before | ⟨request', stands', same⟩ := effect.approved request.key approved
      · exact (moving.unsettled request .cacheDenied (.inl stands) trivial).1 before
      · cases stands.symm.trans stands'

omit [DecidableEq ι] in
theorem consistent_start : Consistent (start : Tasks ι (NetworkApprovalService ι) (Place ι)) where
  sane := sane_start
  cached _ := cached_idle _
  apart key denied := absurd denied (Finset.notMem_empty key)

/-- The caches only grow: nothing that the session remembers is forgotten. -/
theorem remembered_of_step (consistent : Consistent tasks)
    (stepped : step move tasks event = some next) :
    tasks.shared.sessionApprovedHosts ⊆ next.shared.sessionApprovedHosts ∧
      tasks.shared.sessionDeniedHosts ⊆ next.shared.sessionDeniedHosts := by
  have effect := cacheEffect_of_moved (moved_of_move (moved_of_step stepped).1)
  have moving := consistent.cached event.1
  refine ⟨fun key approved => (effect.approvedKept key approved).resolve_right ?_,
    fun key denied => (effect.deniedKept key denied).resolve_right ?_⟩
  · rintro ⟨request, stands, rfl⟩
    exact (moving.unsettled request .uncacheApproved (.inl stands) trivial).1 approved
  · rintro ⟨request, stands, rfl⟩
    exact (moving.unsettled request .uncacheDenied (.inl stands) trivial).2 denied

end World

end CodexPilot.NetworkApproval
