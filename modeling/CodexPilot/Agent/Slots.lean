import CodexPilot.Agent.Registry

/-!
# Slots of agents

However spawns, drops and releases interleave, the counter is the number of reservations and agents,
up to the decrements that are still to come.  With one limit for all spawns it never exceeds it, no
slot is lost or granted twice, no path has two holders, and a drop undoes its reservation.
-/

namespace CodexPilot.Agent

open RustStd Tables Transitions

/-- The agent takes a slot. -/
def AgentMetadata.takesSlot (metadata : AgentMetadata) : Bool :=
  metadata.agentId.isSome && !metadata.isRoot

namespace System

/-- Reservations not yet dropped. -/
def liveReservations (system : System) : ℕ := count system.reservations fun _ _ => true

def registeredAgents (system : System) : ℕ :=
  count system.registry.agentTree fun _ => AgentMetadata.takesSlot

end System

/-- Every slot that is counted is held, or its decrement is still to come. -/
structure Accounted (system : System) : Prop where
  consistent : Consistent system.registry.agentTree system.reservations
  apart : ∀ call, (system.increments.lookup call).isSome → system.reservations.lookup call = none
  counted : system.registry.totalCount = system.liveReservations + system.registeredAgents +
    system.dropping + system.releasing

section Counts

variable {reservations : Table ℕ SpawnReservation} {tree : Table Text AgentMetadata} {call : ℕ}
  {reservation written : SpawnReservation} {path : AgentPath} {key : Text}
  {metadata : AgentMetadata}

theorem count_insert_fresh (fresh : reservations.lookup call = none) :
    count (reservations.insert call written) (fun _ _ => true) =
      count reservations (fun _ _ => true) + 1 := by
  rw [count_insert, count_others_of_uncounted _ (fun row found => by cases fresh.symm.trans found),
    if_pos rfl]

theorem count_insert_found (found : reservations.lookup call = some reservation) :
    count (reservations.insert call written) (fun _ _ => true) =
      count reservations fun _ _ => true := by
  rw [count_insert]
  exact (count_eq_others_add _ found).symm

theorem count_erase_found (found : reservations.lookup call = some reservation) :
    count reservations (fun _ _ => true) =
      count (reservations.erase call) (fun _ _ => true) + 1 := by
  rw [count_erase, count_eq_others_add _ found, if_pos rfl]

theorem takesSlot_placeholder : (AgentMetadata.placeholder path).takesSlot = false := rfl

end Counts

section Steps

variable {system next : System} {call : ℕ} {reservation : SpawnReservation} {path : AgentPath}
  {key threadId : Text} {metadata : AgentMetadata}

namespace Accounted

theorem initial : Accounted System.initial where
  consistent := .empty
  apart := nofun
  counted := rfl

/-- Only calls without a reservation are in the loop. -/
theorem increment (accounted : Accounted system) {increments : Table ℕ (ℕ × ℕ)}
    (apart : ∀ call, (increments.lookup call).isSome → system.reservations.lookup call = none) :
    Accounted { system with increments } :=
  ⟨accounted.consistent, apart, accounted.counted⟩

theorem increment_insert (accounted : Accounted system) {attempt : ℕ × ℕ}
    (fresh : system.reservations.lookup call = none) :
    Accounted { system with increments := system.increments.insert call attempt } := by
  refine accounted.increment fun other trying => ?_
  obtain rfl | apart := eq_or_ne other call
  · exact fresh
  · rw [AList.lookup_insert_ne apart] at trying
    exact accounted.apart other trying

theorem increment_erase (accounted : Accounted system) :
    Accounted { system with increments := system.increments.erase call } := by
  refine accounted.increment fun other trying => ?_
  obtain rfl | apart := eq_or_ne other call
  · simp [AList.lookup_erase] at trying
  · rw [AList.lookup_erase_ne apart] at trying
    exact accounted.apart other trying

theorem reserve (accounted : Accounted system) (fresh : system.reservations.lookup call = none) :
    Accounted (system.reserve call) where
  consistent := accounted.consistent.reserve fresh
  apart := by
    intro other trying
    obtain rfl | apart := eq_or_ne other call
    · simp [System.reserve, AList.lookup_erase] at trying
    · simp only [System.reserve, AList.lookup_erase_ne apart] at trying
      simp only [System.reserve, AList.lookup_insert_ne apart]
      exact accounted.apart other trying
  counted := by
    have counted := accounted.counted
    have live : (system.reserve call).liveReservations = system.liveReservations + 1 :=
      count_insert_fresh fresh
    rw [live]
    change system.registry.totalCount + 1 = _ + system.registeredAgents + system.dropping +
      system.releasing
    omega

/-- A call that has a reservation is not in the loop. -/
theorem apart_insert (accounted : Accounted system) {written : SpawnReservation}
    (found : system.reservations.lookup call = some reservation) (other : ℕ)
    (trying : (system.increments.lookup other).isSome) :
    (system.reservations.insert call written).lookup other = none := by
  have none := accounted.apart other trying
  obtain rfl | apart := eq_or_ne other call
  · cases found.symm.trans none
  · rwa [AList.lookup_insert_ne apart]

theorem apart_erase (accounted : Accounted system) (other : ℕ)
    (trying : (system.increments.lookup other).isSome) :
    (system.reservations.erase call).lookup other = none := by
  obtain rfl | apart := eq_or_ne other call
  · exact AList.lookup_erase _ _
  · rw [AList.lookup_erase_ne apart]
    exact accounted.apart other trying

theorem reservePath (accounted : Accounted system)
    (found : system.reservations.lookup call = some reservation)
    (without : reservation.reservedAgentPath = none) (below : path.isRoot = false)
    {registry : AgentRegistry} (reserved : system.registry.reserveAgentPath path = some registry) :
    Accounted { system with
      registry
      reservations := system.reservations.insert call
        { reservation with reservedAgentPath := some path } } := by
  obtain ⟨vacant, ⟨⟩⟩ := Option.ite_none_left_eq_some.mp reserved
  have vacant : system.registry.agentTree.lookup path.text = none := by simpa using vacant
  refine ⟨accounted.consistent.reservePath found without vacant below,
    accounted.apart_insert found, ?_⟩
  have counted := accounted.counted
  have live : count (system.reservations.insert call
      { reservation with reservedAgentPath := some path }) (fun _ _ => true) =
        system.liveReservations := count_insert_found found
  have registered : count (system.registry.agentTree.insert path.text (.placeholder path))
      (fun _ => AgentMetadata.takesSlot) = system.registeredAgents := by
    rw [count_insert, count_others_of_uncounted _ (by simp [vacant]), takesSlot_placeholder]
    rfl
  rw [System.liveReservations, live, System.registeredAgents, registered]
  exact counted

theorem reserveNickname (accounted : Accounted system)
    (found : system.reservations.lookup call = some reservation) {registry : AgentRegistry}
    {names : List Text} {preferred : Option Text} {choice : ℕ} {nickname : Text}
    (reserved : system.registry.reserveAgentNickname names preferred choice =
      some (nickname, registry)) :
    Accounted { system with
      registry
      reservations := system.reservations.insert call
        { reservation with reservedAgentNickname := some nickname } } := by
  obtain ⟨sameTree, sameCount⟩ := AgentRegistry.of_reserveAgentNickname reserved
  refine ⟨?_, accounted.apart_insert found, ?_⟩
  · rw [sameTree]
    exact accounted.consistent.reserveNickname found (some nickname)
  · have counted := accounted.counted
    have live : count (system.reservations.insert call
        { reservation with reservedAgentNickname := some nickname }) (fun _ _ => true) =
          system.liveReservations := count_insert_found found
    rw [System.liveReservations, live, System.registeredAgents, sameTree, sameCount]
    exact counted

theorem agentId_ne_of_unregistered (unregistered : system.isRegistered threadId = false)
    (found : system.registry.agentTree.lookup key = some metadata) :
    metadata.agentId ≠ some threadId := by
  have other := List.any_eq_false.mp unregistered ⟨key, metadata⟩ (AList.mem_lookup_iff.mp found)
  simpa using other

/-- A thread that is not registered has no entry of its own. -/
theorem lookup_threadKey (accounted : Accounted system)
    (unregistered : system.isRegistered threadId = false) :
    system.registry.agentTree.lookup (threadKey threadId) = none := by
  rw [Option.eq_none_iff_forall_ne_some]
  intro metadata found
  have keyed := accounted.consistent.keyed _ metadata found
  unfold keyOf at keyed
  split at keyed
  · rename_i path _
    exact threadKey_ne_text path (Option.some.inj keyed).symm
  · obtain ⟨other, identified, same⟩ := Option.map_eq_some_iff.mp keyed
    cases List.append_cancel_left same
    exact agentId_ne_of_unregistered unregistered found identified

/-- The agent takes the key of its path, or one that nobody has. -/
theorem key_of_commit (accounted : Accounted system)
    (found : system.reservations.lookup call = some reservation)
    (carries : metadata.agentPath = reservation.reservedAgentPath)
    (unregistered : system.isRegistered threadId = false)
    (isKey : key = metadata.agentPath.elim (threadKey threadId) AgentPath.text) :
    (∀ other path, Reserves (system.reservations.erase call) other path ↔
      Reserves system.reservations other path ∧ path.text ≠ key) ∧
      (∀ row, system.registry.agentTree.lookup key = some row → row.takesSlot = false) ∧
      metadata.isRoot = false := by
  cases isPath : metadata.agentPath with
  | none =>
      rw [isPath] at carries isKey
      cases isKey
      refine ⟨fun other path => ?_, fun row stored => ?_, by simp [AgentMetadata.isRoot, isPath]⟩
      · rw [reserves_erase, and_comm]
        refine and_congr_right fun earlier => ⟨fun _ => (threadKey_ne_text path).symm, fun _ => ?_⟩
        rintro rfl
        obtain ⟨_, found', holds⟩ := earlier
        cases found.symm.trans found'
        cases carries.trans holds
      · cases (accounted.lookup_threadKey unregistered).symm.trans stored
  | some path =>
      have ours : Reserves system.reservations call path :=
        ⟨reservation, found, carries.symm.trans isPath⟩
      rw [isPath] at isKey
      cases isKey
      refine ⟨accounted.consistent.reserves_erase_iff ours, fun row stored => ?_, ?_⟩
      · cases (accounted.consistent.held call path ours).symm.trans stored
        exact takesSlot_placeholder
      · simpa [AgentMetadata.isRoot, isPath] using accounted.consistent.nonRoot call path ours

theorem commit (accounted : Accounted system)
    (found : system.reservations.lookup call = some reservation)
    (identified : metadata.agentId = some threadId)
    (carries : metadata.agentPath = reservation.reservedAgentPath)
    (unregistered : system.isRegistered threadId = false) :
    Accounted { system with
      registry := system.registry.registerSpawnedThread metadata
      reservations := system.reservations.erase call } := by
  have isKey := keyOf_of_identified identified
  obtain ⟨fewer, uncounted, nonRoot⟩ := accounted.key_of_commit found carries unregistered rfl
  have committed : system.registry.registerSpawnedThread metadata =
      { system.registry with
        usedAgentNicknames := metadata.agentNickname.toList ++ system.registry.usedAgentNicknames
        agentTree := system.registry.agentTree.insert
          (metadata.agentPath.elim (threadKey threadId) AgentPath.text) metadata } := by
    simp [AgentRegistry.registerSpawnedThread, identified]
  rw [committed]
  refine ⟨accounted.consistent.change (fun other apart => AList.lookup_insert_ne apart) ?_ fewer,
    accounted.apart_erase, ?_⟩
  · intro stored same
    rw [AList.lookup_insert] at same
    cases same
    exact ⟨isKey, by simp [identified]⟩
  · have counted := accounted.counted
    have live : system.liveReservations =
        count (system.reservations.erase call) (fun _ _ => true) + 1 := count_erase_found found
    have takes : metadata.takesSlot = true := by
      simp [AgentMetadata.takesSlot, identified, nonRoot]
    have registered : count (system.registry.agentTree.insert
        (metadata.agentPath.elim (threadKey threadId) AgentPath.text) metadata)
        (fun _ => AgentMetadata.takesSlot) = system.registeredAgents + 1 := by
      rw [count_insert, count_others_of_uncounted _ uncounted, takes]
      rfl
    rw [System.liveReservations, System.registeredAgents, registered]
    dsimp only
    omega

/-- The path of a reservation is vacant again after its release. -/
theorem releaseReservedAgentPath_eq (accounted : Accounted system)
    (ours : Reserves system.reservations call path) :
    system.registry.releaseReservedAgentPath path =
      { system.registry with agentTree := system.registry.agentTree.erase path.text } := by
  unfold AgentRegistry.releaseReservedAgentPath
  rw [accounted.consistent.held call path ours]
  rfl

/-- Dropping a reservation removes what stands at its path, and nothing else. -/
theorem drop (accounted : Accounted system)
    (found : system.reservations.lookup call = some reservation) :
    Accounted { system with
      registry := reservation.reservedAgentPath.elim system.registry
        system.registry.releaseReservedAgentPath
      reservations := system.reservations.erase call
      dropping := system.dropping + 1 } := by
  have counted := accounted.counted
  have live : system.liveReservations =
      count (system.reservations.erase call) (fun _ _ => true) + 1 := count_erase_found found
  cases holds : reservation.reservedAgentPath with
  | none =>
      refine ⟨accounted.consistent.congr fun other path => ?_, accounted.apart_erase, ?_⟩
      · rw [reserves_erase]
        refine ⟨And.right, fun earlier => ⟨?_, earlier⟩⟩
        rintro rfl
        obtain ⟨_, found', holds'⟩ := earlier
        cases found.symm.trans found'
        cases holds.symm.trans holds'
      · rw [System.liveReservations]
        change system.registry.totalCount = _ + system.registeredAgents + _ + _
        dsimp only
        omega
  | some path =>
      have ours : Reserves system.reservations call path := ⟨reservation, found, holds⟩
      have placeholder := accounted.consistent.held call path ours
      rw [Option.elim_some, accounted.releaseReservedAgentPath_eq ours]
      refine ⟨accounted.consistent.change (fun other apart => AList.lookup_erase_ne apart) ?_
        (accounted.consistent.reserves_erase_iff ours), accounted.apart_erase, ?_⟩
      · intro metadata stored
        cases (AList.lookup_erase _ _).symm.trans stored
      · have registered : count (system.registry.agentTree.erase path.text)
            (fun _ => AgentMetadata.takesSlot) = system.registeredAgents := by
          refine (count_erase _).trans (count_others_of_uncounted _ fun row stored => ?_)
          cases placeholder.symm.trans stored
          exact takesSlot_placeholder
        rw [System.liveReservations, System.registeredAgents, registered]
        dsimp only
        omega

/-- An agent that is not the root gives its slot back. -/
theorem release (accounted : Accounted system)
    (found : system.registry.agentTree.lookup key = some metadata)
    (identified : metadata.agentId = some threadId) :
    Accounted { system with
      registry := { system.registry with agentTree := system.registry.agentTree.erase key }
      releasing := if metadata.isRoot then system.releasing else system.releasing + 1 } := by
  refine ⟨accounted.consistent.change (fun other apart => AList.lookup_erase_ne apart) ?_ ?_,
    accounted.apart, ?_⟩
  · intro stored same
    cases (AList.lookup_erase _ _).symm.trans same
  · refine fun call path => ⟨fun reserves => ⟨reserves, fun same => ?_⟩, And.left⟩
    cases found.symm.trans (same ▸ accounted.consistent.held call path reserves)
    cases identified
  · have counted := accounted.counted
    have registered : system.registeredAgents =
        count (system.registry.agentTree.erase key) (fun _ => AgentMetadata.takesSlot) +
          if metadata.isRoot then 0 else 1 := by
      have takes : metadata.takesSlot = !metadata.isRoot := by
        simp [AgentMetadata.takesSlot, identified]
      rw [System.registeredAgents, count_erase, count_eq_others_add _ found, takes]
      cases metadata.isRoot <;> rfl
    have live : system.liveReservations = count system.reservations fun _ _ => true := rfl
    rw [System.liveReservations, System.registeredAgents]
    dsimp only
    split_ifs at registered ⊢ <;> omega

theorem registerRootThread (accounted : Accounted system) :
    Accounted { system with registry := system.registry.registerRootThread threadId } := by
  unfold AgentRegistry.registerRootThread
  dsimp only
  split
  · exact accounted
  · rename_i vacant
    have vacant : system.registry.agentTree.lookup AgentPath.root.text = none := by
      simpa using vacant
    refine ⟨accounted.consistent.change (fun other apart => AList.lookup_insert_ne apart) ?_ ?_,
      accounted.apart, ?_⟩
    · intro stored same
      cases (AList.lookup_insert _).symm.trans same
      exact ⟨rfl, nofun⟩
    · refine fun call path => ⟨fun reserves => ⟨reserves, fun same => ?_⟩, And.left⟩
      cases vacant.symm.trans (same ▸ accounted.consistent.held call path reserves)
    · refine accounted.counted.trans ?_
      have registered : count (system.registry.agentTree.insert AgentPath.root.text
          { AgentMetadata.placeholder .root with agentId := some threadId })
            (fun _ => AgentMetadata.takesSlot) = system.registeredAgents := by
        rw [count_insert, count_others_of_uncounted _ (by simp [vacant])]
        rfl
      exact congrArg (system.liveReservations + · + system.dropping + system.releasing)
        registered.symm

/-- While a decrement is to come, the counter is not zero. -/
theorem totalCount_pos (accounted : Accounted system)
    (pending : 0 < system.dropping + system.releasing) : 0 < system.registry.totalCount := by
  have counted := accounted.counted
  omega

/-- No decrement wraps. -/
theorem fetchSub_add_one (accounted : Accounted system)
    (pending : 0 < system.dropping + system.releasing) :
    fetchSub system.registry.totalCount + 1 = system.registry.totalCount := by
  have positive := accounted.totalCount_pos pending
  rw [fetchSub, if_neg positive.ne']
  omega

theorem fetchSub_le (accounted : Accounted system)
    (pending : 0 < system.dropping + system.releasing) :
    fetchSub system.registry.totalCount ≤ system.registry.totalCount := by
  have one := accounted.fetchSub_add_one pending
  omega

theorem dropCount (accounted : Accounted system) (pending : system.dropping ≠ 0) :
    Accounted { system with
      registry := { system.registry with totalCount := fetchSub system.registry.totalCount }
      dropping := system.dropping - 1 } := by
  refine ⟨accounted.consistent, accounted.apart, ?_⟩
  have counted := accounted.counted
  have one := accounted.fetchSub_add_one (by omega)
  change fetchSub system.registry.totalCount = system.liveReservations + system.registeredAgents +
    (system.dropping - 1) + system.releasing
  omega

theorem releaseCount (accounted : Accounted system) (pending : system.releasing ≠ 0) :
    Accounted { system with
      registry := { system.registry with totalCount := fetchSub system.registry.totalCount }
      releasing := system.releasing - 1 } := by
  refine ⟨accounted.consistent, accounted.apart, ?_⟩
  have counted := accounted.counted
  have one := accounted.fetchSub_add_one (by omega)
  change fetchSub system.registry.totalCount = system.liveReservations + system.registeredAgents +
    system.dropping + (system.releasing - 1)
  omega

end Accounted

theorem lookup_of_isFresh (fresh : system.isFresh call = true) :
    system.reservations.lookup call = none := by
  simpa using (Bool.and_eq_true_iff.mp fresh).2

/-- No step loses a slot or grants one twice. -/
theorem accounted_of_step {event : Event} (accounted : Accounted system)
    (stepped : step system event = some next) : Accounted next := by
  cases event with
  | load call maxThreads =>
      simp only [step] at stepped
      split_ifs at stepped with stale full
      · cases stepped
        exact accounted
      · cases stepped
        exact accounted.increment_insert (lookup_of_isFresh (by simpa using stale))
  | compareExchange call spurious =>
      obtain ⟨⟨current, maxThreads⟩, trying, stepped⟩ := Option.bind_eq_some_iff.mp stepped
      have fresh := accounted.apart call (by simp [trying])
      dsimp only at stepped
      split_ifs at stepped
      · cases stepped
        exact accounted.reserve fresh
      · cases stepped
        exact accounted.increment_erase
      · cases stepped
        exact accounted.increment_insert fresh
  | fetchAdd call =>
      obtain ⟨fresh, ⟨⟩⟩ := Option.ite_none_right_eq_some.mp stepped
      exact accounted.reserve (lookup_of_isFresh fresh)
  | reserveAgentPath call parent agentName =>
      obtain ⟨reservation, found, stepped⟩ := Option.bind_eq_some_iff.mp stepped
      split at stepped
      · rename_i path without joined
        split at stepped
        · cases stepped
          exact accounted
        · rename_i registry reserved
          cases stepped
          exact accounted.reservePath found without (AgentPath.isRoot_of_join joined) reserved
      · cases stepped
  | reserveAgentNickname call names preferred choice =>
      obtain ⟨reservation, found, stepped⟩ := Option.bind_eq_some_iff.mp stepped
      split at stepped
      · cases stepped
        exact accounted
      · rename_i nickname registry reserved
        cases stepped
        exact accounted.reserveNickname found reserved
  | commit call metadata =>
      obtain ⟨reservation, found, stepped⟩ := Option.bind_eq_some_iff.mp stepped
      obtain ⟨threadId, identified, stepped⟩ := Option.bind_eq_some_iff.mp stepped
      obtain ⟨met, ⟨⟩⟩ := Option.ite_none_right_eq_some.mp stepped
      obtain ⟨carries, unregistered⟩ := Bool.and_eq_true_iff.mp met
      exact accounted.commit found identified (of_decide_eq_true carries)
        (by simpa using unregistered)
  | drop call =>
      obtain ⟨reservation, found, ⟨⟩⟩ := Option.bind_eq_some_iff.mp stepped
      exact accounted.drop found
  | dropCount =>
      obtain ⟨pending, ⟨⟩⟩ := Option.ite_none_left_eq_some.mp stepped
      exact accounted.dropCount pending
  | releaseSpawnedThread threadId key =>
      cases key with
      | none =>
          obtain ⟨_, ⟨⟩⟩ := Option.ite_none_left_eq_some.mp stepped
          exact accounted
      | some key =>
          obtain ⟨metadata, found, stepped⟩ := Option.bind_eq_some_iff.mp stepped
          obtain ⟨identified, ⟨⟩⟩ := Option.ite_none_right_eq_some.mp stepped
          exact accounted.release found identified
  | releaseCount =>
      obtain ⟨pending, ⟨⟩⟩ := Option.ite_none_left_eq_some.mp stepped
      exact accounted.releaseCount pending
  | registerRootThread threadId =>
      cases stepped
      exact accounted.registerRootThread

end Steps

/-! ## The limit -/

/-- Every reservation is counted against this limit. -/
def Event.UsesLimit (limit : ℕ) : Event → Prop
  | .load _ maxThreads => maxThreads = limit
  | .fetchAdd _ => False
  | _ => True

/-- The counter is within the limit, and every attempt saw it below. -/
structure Limited (limit : ℕ) (system : System) : Prop where
  atMost : system.registry.totalCount ≤ limit
  attempts : ∀ call current maxThreads,
    system.increments.lookup call = some (current, maxThreads) → maxThreads = limit ∧
      current < limit

section Limits

variable {system next : System} {limit : ℕ}

namespace Limited

theorem initial : Limited limit System.initial where
  atMost := Nat.zero_le limit
  attempts := nofun

/-- Nothing else moves the counter upwards or starts an attempt. -/
theorem congr (limited : Limited limit system) (same : next.increments = system.increments)
    (fewer : next.registry.totalCount ≤ system.registry.totalCount) : Limited limit next where
  atMost := fewer.trans limited.atMost
  attempts := by
    rw [same]
    exact limited.attempts

theorem attempt (limited : Limited limit system) {call : ℕ}
    (below : system.registry.totalCount < limit) :
    Limited limit { system with
      increments := system.increments.insert call (system.registry.totalCount, limit) } := by
  refine ⟨limited.atMost, fun other current maxThreads found => ?_⟩
  obtain rfl | apart := eq_or_ne other call
  · cases (AList.lookup_insert _).symm.trans found
    exact ⟨rfl, below⟩
  · exact limited.attempts other current maxThreads
      ((AList.lookup_insert_ne apart).symm.trans found)

theorem attempts_erase (limited : Limited limit system) {call other current maxThreads : ℕ}
    (found : (system.increments.erase call).lookup other = some (current, maxThreads)) :
    maxThreads = limit ∧ current < limit := by
  obtain rfl | apart := eq_or_ne other call
  · cases (AList.lookup_erase _ _).symm.trans found
  · exact limited.attempts other current maxThreads ((AList.lookup_erase_ne apart).symm.trans found)

end Limited

/-- The counter only rises where it still is what an attempt has seen. -/
theorem limited_of_step {event : Event} (accounted : Accounted system)
    (limited : Limited limit system) (uses : event.UsesLimit limit)
    (stepped : step system event = some next) : Limited limit next := by
  cases event with
  | load call maxThreads =>
      cases uses
      simp only [step] at stepped
      split_ifs at stepped with stale full
      · cases stepped
        exact limited
      · cases stepped
        exact limited.attempt (not_le.mp full)
  | compareExchange call spurious =>
      obtain ⟨⟨current, maxThreads⟩, trying, stepped⟩ := Option.bind_eq_some_iff.mp stepped
      obtain ⟨rfl, below⟩ := limited.attempts call current maxThreads trying
      dsimp only at stepped
      split_ifs at stepped with same full
      · cases stepped
        have seen : system.registry.totalCount = current :=
          of_decide_eq_true (Bool.and_eq_true_iff.mp same).1
        exact ⟨Nat.lt_of_le_of_lt seen.le below, fun _ _ _ => limited.attempts_erase⟩
      · cases stepped
        exact ⟨limited.atMost, fun _ _ _ => limited.attempts_erase⟩
      · cases stepped
        exact limited.attempt (not_le.mp full)
  | fetchAdd call => cases uses
  | reserveAgentPath call parent agentName =>
      obtain ⟨reservation, found, stepped⟩ := Option.bind_eq_some_iff.mp stepped
      split at stepped
      · split at stepped
        · cases stepped
          exact limited
        · rename_i registry reserved
          cases stepped
          exact limited.congr rfl (AgentRegistry.totalCount_of_reserveAgentPath reserved).le
      · cases stepped
  | reserveAgentNickname call names preferred choice =>
      obtain ⟨reservation, found, stepped⟩ := Option.bind_eq_some_iff.mp stepped
      split at stepped
      · cases stepped
        exact limited
      · rename_i nickname registry reserved
        cases stepped
        exact limited.congr rfl (AgentRegistry.of_reserveAgentNickname reserved).2.le
  | commit call metadata =>
      obtain ⟨reservation, found, stepped⟩ := Option.bind_eq_some_iff.mp stepped
      obtain ⟨threadId, identified, stepped⟩ := Option.bind_eq_some_iff.mp stepped
      obtain ⟨met, ⟨⟩⟩ := Option.ite_none_right_eq_some.mp stepped
      exact limited.congr rfl (AgentRegistry.totalCount_registerSpawnedThread metadata).le
  | drop call =>
      obtain ⟨reservation, found, ⟨⟩⟩ := Option.bind_eq_some_iff.mp stepped
      refine limited.congr rfl ?_
      cases reservation.reservedAgentPath with
      | none => exact le_rfl
      | some path => exact (AgentRegistry.totalCount_releaseReservedAgentPath path).le
  | dropCount =>
      obtain ⟨pending, ⟨⟩⟩ := Option.ite_none_left_eq_some.mp stepped
      exact limited.congr rfl (accounted.fetchSub_le (by omega))
  | releaseSpawnedThread threadId key =>
      cases key with
      | none =>
          obtain ⟨_, ⟨⟩⟩ := Option.ite_none_left_eq_some.mp stepped
          exact limited
      | some key =>
          obtain ⟨metadata, found, stepped⟩ := Option.bind_eq_some_iff.mp stepped
          obtain ⟨identified, ⟨⟩⟩ := Option.ite_none_right_eq_some.mp stepped
          exact limited.congr rfl le_rfl
  | releaseCount =>
      obtain ⟨pending, ⟨⟩⟩ := Option.ite_none_left_eq_some.mp stepped
      exact limited.congr rfl (accounted.fetchSub_le (by omega))
  | registerRootThread threadId =>
      cases stepped
      exact limited.congr rfl (AgentRegistry.totalCount_registerRootThread threadId).le

end Limits

/-! ## Runs -/

/-- Who can hold a path. -/
inductive Holder where
  | reservation (call : ℕ)
  | agent (threadId : Text)

/-- A path that someone holds. -/
def Holds (system : System) (path : AgentPath) : Holder → Prop
  | .reservation call => Reserves system.reservations call path
  | .agent threadId => ∃ key metadata, system.registry.agentTree.lookup key = some metadata ∧
      metadata.agentId = some threadId ∧ metadata.agentPath = some path

/-- What the drop of a reservation does, before and after the counter follows. -/
structure Restores (system : System) (call : ℕ) (reservation : SpawnReservation)
    (dropped after : System) : Prop where
  drops : step system (.drop call) = some dropped
  counts : step dropped .dropCount = some after
  restored : after.registry.totalCount + 1 = system.registry.totalCount
  gone : after.reservations = system.reservations.erase call
  freed : after.registry.agentTree = reservation.reservedAgentPath.elim system.registry.agentTree
    fun path => system.registry.agentTree.erase path.text
  holders : ∀ holder path,
    Holds after path holder ↔ Holds system path holder ∧ holder ≠ .reservation call

/-- The counter is the number of reservations and agents up to the decrements still to come, a
decrement takes one, a path has one holder, and a drop undoes what its reservation did. -/
structure SlotsKept (system : System) : Prop where
  counted : system.registry.totalCount = system.liveReservations + system.registeredAgents +
    system.dropping + system.releasing
  decrements : ∀ event, event = .dropCount ∨ event = .releaseCount →
    ∀ next, step system event = some next →
      next.registry.totalCount + 1 = system.registry.totalCount
  exclusive : ∀ path holder other, Holds system path holder → Holds system path other →
    holder = other
  restores : ∀ call reservation, system.reservations.lookup call = some reservation →
    ∃ dropped after, Restores system call reservation dropped after

section Runs

variable {system : System} {path : AgentPath} {call : ℕ} {reservation : SpawnReservation}

namespace Accounted

/-- An agent that holds a path stands at its key. -/
theorem lookup_of_holds (accounted : Accounted system) {threadId : Text}
    (holds : Holds system path (.agent threadId)) :
    ∃ metadata, system.registry.agentTree.lookup path.text = some metadata ∧
      metadata.agentId = some threadId := by
  obtain ⟨key, metadata, found, identified, isPath⟩ := holds
  have keyed := accounted.consistent.keyed key metadata found
  simp only [keyOf, isPath, Option.some.injEq] at keyed
  exact ⟨metadata, keyed ▸ found, identified⟩

theorem not_holds_of_reserves (accounted : Accounted system) {threadId : Text}
    (reserves : Reserves system.reservations call path) :
    ¬ Holds system path (.agent threadId) := by
  intro holds
  obtain ⟨metadata, found, identified⟩ := accounted.lookup_of_holds holds
  cases found.symm.trans (accounted.consistent.held call path reserves)
  cases identified

theorem exclusive (accounted : Accounted system) {holder other : Holder}
    (holds : Holds system path holder) (holds' : Holds system path other) : holder = other := by
  cases holder with
  | reservation call =>
      cases other with
      | reservation call' =>
          exact congrArg Holder.reservation
            (accounted.consistent.exclusive call call' path holds holds')
      | agent threadId => exact absurd holds' (accounted.not_holds_of_reserves holds)
  | agent threadId =>
      cases other with
      | reservation call => exact absurd holds (accounted.not_holds_of_reserves holds')
      | agent threadId' =>
          obtain ⟨metadata, found, identified⟩ := accounted.lookup_of_holds holds
          obtain ⟨metadata', found', identified'⟩ := accounted.lookup_of_holds holds'
          cases found.symm.trans found'
          cases identified.symm.trans identified'
          rfl

theorem restores (accounted : Accounted system)
    (found : system.reservations.lookup call = some reservation) :
    ∃ dropped after, Restores system call reservation dropped after := by
  let registry := reservation.reservedAgentPath.elim system.registry
    system.registry.releaseReservedAgentPath
  let dropped : System := { system with
    registry
    reservations := system.reservations.erase call
    dropping := system.dropping + 1 }
  have drops : step system (.drop call) = some dropped := by
    simp only [step, found]
    rfl
  have freed : registry.agentTree = reservation.reservedAgentPath.elim system.registry.agentTree
      fun path => system.registry.agentTree.erase path.text := by
    cases holds : reservation.reservedAgentPath with
    | none => simp [registry, holds]
    | some path =>
        simp [registry, holds, accounted.releaseReservedAgentPath_eq ⟨reservation, found, holds⟩]
  have sameCount : registry.totalCount = system.registry.totalCount := by
    cases holds : reservation.reservedAgentPath <;> simp [registry, holds]
  have one := (accounted.drop found).fetchSub_add_one (by dsimp only; omega)
  refine ⟨dropped, { dropped with
    registry := { registry with totalCount := fetchSub registry.totalCount }
    dropping := system.dropping }, drops, rfl, one.trans sameCount, rfl, freed, ?_⟩
  intro holder path
  cases holder with
  | reservation other =>
      have apart : Holder.reservation other ≠ .reservation call ↔ other ≠ call := by simp
      rw [apart, and_comm]
      exact reserves_erase
  | agent threadId =>
      have apart : Holder.agent threadId ≠ .reservation call := by simp
      rw [iff_true_intro apart, and_true]
      simp only [Holds, freed]
      cases holds : reservation.reservedAgentPath with
      | none => rfl
      | some ours =>
          have placeholder := accounted.consistent.held call ours ⟨reservation, found, holds⟩
          refine exists_congr fun key => exists_congr fun metadata => ?_
          obtain rfl | apart := eq_or_ne key ours.text
          · rw [Option.elim_some, AList.lookup_erase, placeholder]
            constructor
            · rintro ⟨⟨⟩, _⟩
            · rintro ⟨⟨⟩, ⟨⟩, _⟩
          · rw [Option.elim_some, AList.lookup_erase_ne apart]

theorem slotsKept (accounted : Accounted system) : SlotsKept system where
  counted := accounted.counted
  decrements := by
    rintro event (rfl | rfl) next stepped
    all_goals
      obtain ⟨pending, ⟨⟩⟩ := Option.ite_none_left_eq_some.mp stepped
      exact accounted.fetchSub_add_one (by omega)
  exclusive := fun _ _ _ => accounted.exclusive
  restores := fun _ _ => accounted.restores

end Accounted

variable {events : List Event}

/-- Slots are neither lost nor granted twice in any run, and with one limit for all reservations the
counter never exceeds it. -/
theorem slotsKept_of_run (ran : run step System.initial events = some system) :
    SlotsKept system ∧ ∀ limit, (∀ event ∈ events, event.UsesLimit limit) →
      system.registry.totalCount ≤ limit := by
  have accounted : Accounted system :=
    preserved_of_run (fun _ _ _ => accounted_of_step) .initial ran
  refine ⟨accounted.slotsKept, fun limit uses => ?_⟩
  have kept : ∀ before event next, Accounted before ∧ Limited limit before →
      event.UsesLimit limit → step before event = some next →
        Accounted next ∧ Limited limit next :=
    fun _ _ _ both uses stepped =>
      ⟨accounted_of_step both.1 stepped, limited_of_step both.1 both.2 uses stepped⟩
  have bounded := invariant_of_run kept ⟨.initial, .initial⟩
    (along_of_forall_mem uses System.initial) ran
  exact bounded.2.atMost

/-- Two spawns compete for a path: one is dropped, the other is committed and released. -/
def contested : List Event :=
  let agent : AgentMetadata :=
    { agentId := some "1".toList, agentPath := some ⟨"/root/a".toList, by decide⟩,
      agentNickname := none, agentRole := none, lastTaskMessage := none }
  [.registerRootThread "0".toList, .load 0 2, .compareExchange 0 false, .load 1 2,
    .compareExchange 1 true, .reserveAgentPath 0 .root "a".toList, .compareExchange 1 false,
    .reserveAgentPath 1 .root "a".toList, .drop 1, .commit 0 agent, .dropCount,
    .releaseSpawnedThread "1".toList (some "/root/a".toList), .releaseCount]

theorem slotsKept_of_contested :
    ∃ system, run step System.initial contested = some system ∧
      system.registry.totalCount = 0 ∧ SlotsKept system ∧
        ∀ limit, (∀ event ∈ contested, event.UsesLimit limit) →
          system.registry.totalCount ≤ limit :=
  ⟨_, rfl, rfl, slotsKept_of_run rfl⟩

end Runs

end CodexPilot.Agent
