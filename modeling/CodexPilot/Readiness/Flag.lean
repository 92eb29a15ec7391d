import CodexPilot.Library.Interleaving
import Mathlib.Data.Finset.Basic

/-!
# The readiness flag

The flag keeps its readiness in two places: an atomic and a watch channel.  Tasks subscribe for a
token, mark the flag ready with one, ask whether it is ready, or wait until it is.  Every call is
cut into its atomic steps: one load, store or swap of the atomic, the acquisition and the release of
the token lock, one operation on the tokens under the lock, one operation on the channel.

A task that waits looks at the atomic first and opens its receiver afterwards.  A broadcast between
the two finds no receiver and is dropped, and the channel says false for ever.  Where every
broadcast is heard, or comes while no waiting task stands between the two, nobody waits for a flag
that is ready.
-/

namespace CodexPilot.Readiness

open Interleaving Transitions

/-- `Token`: handed out by `subscribe`. -/
structure Token where
  value : Int32
  deriving DecidableEq

/-- `errors::ReadinessError`. -/
inductive ReadinessError
  | tokenLockFailed
  | flagAlreadyReady
  deriving DecidableEq

/-- The sending half of the watch channel: its value, how often it has been sent, its receivers. -/
structure Sender (ι : Type*) where
  value : Bool
  version : ℕ
  receivers : Finset ι

/-- `ReadinessFlag`. -/
structure ReadinessFlag (ι : Type*) where
  ready : Bool
  nextId : Int32
  tokens : Finset Token
  locked : Bool
  tx : Sender ι

/-- `is_ready` is called by a task, or by `wait_ready` on its behalf. -/
inductive Caller
  | task
  | waitReady
  deriving DecidableEq

/-- What a call returns. -/
inductive Outcome
  | subscribed (token : Except ReadinessError Token)
  | marked (result : Except ReadinessError Bool)
  | isReady (ready : Bool)
  | waited
  deriving DecidableEq

/-- Where a task stands: the atomic step it takes next. -/
inductive Place
  | idle
  -- `is_ready`
  | loadReady (caller : Caller)
  | tryLock (caller : Caller)
  | checkEmpty (caller : Caller)
  | swapReady (caller : Caller)
  | dropSwapped (caller : Caller) (wasReady : Bool)
  | broadcastSwapped (caller : Caller)
  | dropUnchanged (caller : Caller)
  | reloadReady (caller : Caller)
  -- `subscribe`
  | subscribeLoad
  | subscribeLock
  | subscribeRecheck
  | drawToken
  | subscribeUnlock (token : Option Token)
  -- `mark_ready`
  | markLoad (token : Token)
  | markLock (token : Token)
  | removeToken (token : Token)
  | storeReady
  | clearTokens
  | markUnlock (marked : Bool)
  | broadcastMarked
  -- `wait_ready`
  | openReceiver
  | fastBorrow (seen : ℕ)
  | awaitChange (seen : ℕ)
  | borrow (seen : ℕ)
  | dropReceiver
  | returned (outcome : Outcome)
  deriving DecidableEq

/-- The calls of the trait `Readiness`. -/
inductive Request
  | isReady
  | subscribe
  | markReady (token : Token)
  | waitReady

/-- What a task does: make its call, take its next step, or give up on the token lock after
`LOCK_TIMEOUT`. -/
inductive Action
  | call (request : Request)
  | proceed
  | timeout

variable {ι : Type*} [DecidableEq ι]

namespace Sender

/-- `watch::Sender::send`: without a receiver it fails and leaves the value as it is. -/
def send (tx : Sender ι) (value : Bool) : Sender ι :=
  if tx.receivers = ∅ then tx else { tx with value, version := tx.version + 1 }

/-- `watch::Sender::subscribe`: the new receiver has seen the current version. -/
def subscribe (tx : Sender ι) (id : ι) : Sender ι := { tx with receivers := insert id tx.receivers }

/-- The receiver goes out of scope. -/
def unsubscribe (tx : Sender ι) (id : ι) : Sender ι :=
  { tx with receivers := tx.receivers.erase id }

@[simp]
theorem mem_receivers_subscribe (tx : Sender ι) (id other : ι) :
    other ∈ (tx.subscribe id).receivers ↔ other = id ∨ other ∈ tx.receivers :=
  Finset.mem_insert

@[simp]
theorem mem_receivers_unsubscribe (tx : Sender ι) (id other : ι) :
    other ∈ (tx.unsubscribe id).receivers ↔ other ≠ id ∧ other ∈ tx.receivers :=
  Finset.mem_erase

@[simp]
theorem receivers_send (tx : Sender ι) (value : Bool) :
    (tx.send value).receivers = tx.receivers := by
  unfold send
  split <;> rfl

theorem value_send_of_receivers {tx : Sender ι} (heard : tx.receivers ≠ ∅) (value : Bool) :
    (tx.send value).value = value := by
  rw [send, if_neg heard]

theorem send_of_no_receivers {tx : Sender ι} (unheard : tx.receivers = ∅) (value : Bool) :
    tx.send value = tx := if_pos unheard

end Sender

/-- `ReadinessFlag::new`. -/
def ReadinessFlag.new : ReadinessFlag ι where
  ready := false
  nextId := 1
  tokens := ∅
  locked := false
  tx := { value := false, version := 0, receivers := ∅ }

/-- The first step of a call. -/
def Request.entry : Request → Place
  | .isReady => .loadReady .task
  | .subscribe => .subscribeLoad
  | .markReady token => .markLoad token
  | .waitReady => .loadReady .waitReady

/-- Where `is_ready` returns to: `wait_ready` returns on `true` and opens a receiver on `false`. -/
def Caller.resume : Caller → Bool → Place
  | .task, ready => .returned (.isReady ready)
  | .waitReady, true => .returned .waited
  | .waitReady, false => .openReceiver

/-- One step of a call.  A task that waits for the lock, or for a change of the channel, has no step
until it is there. -/
def proceed (id : ι) (flag : ReadinessFlag ι) : Place → Option (ReadinessFlag ι × Place)
  | .idle => none
  | .loadReady caller =>
      some (flag, if flag.ready then caller.resume true else .tryLock caller)
  | .tryLock caller =>
      if flag.locked then some (flag, .reloadReady caller)
      else some ({ flag with locked := true }, .checkEmpty caller)
  | .checkEmpty caller =>
      some (flag, if flag.tokens = ∅ then .swapReady caller else .dropUnchanged caller)
  | .swapReady caller => some ({ flag with ready := true }, .dropSwapped caller flag.ready)
  | .dropSwapped caller wasReady =>
      some ({ flag with locked := false },
        if wasReady then caller.resume true else .broadcastSwapped caller)
  | .broadcastSwapped caller => some ({ flag with tx := flag.tx.send true }, caller.resume true)
  | .dropUnchanged caller => some ({ flag with locked := false }, .reloadReady caller)
  | .reloadReady caller => some (flag, caller.resume flag.ready)
  | .subscribeLoad =>
      some (flag, if flag.ready then .returned (.subscribed (.error .flagAlreadyReady))
        else .subscribeLock)
  | .subscribeLock =>
      if flag.locked then none else some ({ flag with locked := true }, .subscribeRecheck)
  | .subscribeRecheck => some (flag, if flag.ready then .subscribeUnlock none else .drawToken)
  | .drawToken =>
      let token : Token := ⟨flag.nextId⟩
      -- `fetch_add` wraps around; zero and tokens in use are skipped
      let flag := { flag with nextId := flag.nextId + 1 }
      if token.value ≠ 0 ∧ token ∉ flag.tokens then
        some ({ flag with tokens := insert token flag.tokens }, .subscribeUnlock (some token))
      else some (flag, .drawToken)
  | .subscribeUnlock token =>
      some ({ flag with locked := false },
        .returned (.subscribed (token.elim (.error .flagAlreadyReady) .ok)))
  | .markLoad token =>
      some (flag, if flag.ready ∨ token.value = 0 then .returned (.marked (.ok false))
        else .markLock token)
  | .markLock token =>
      if flag.locked then none else some ({ flag with locked := true }, .removeToken token)
  | .removeToken token =>
      if token ∈ flag.tokens then
        some ({ flag with tokens := flag.tokens.erase token }, .storeReady)
      else some (flag, .markUnlock false)
  | .storeReady => some ({ flag with ready := true }, .clearTokens)
  | .clearTokens => some ({ flag with tokens := ∅ }, .markUnlock true)
  | .markUnlock marked =>
      some ({ flag with locked := false },
        if marked then .broadcastMarked else .returned (.marked (.ok false)))
  | .broadcastMarked =>
      some ({ flag with tx := flag.tx.send true }, .returned (.marked (.ok true)))
  | .openReceiver => some ({ flag with tx := flag.tx.subscribe id }, .fastBorrow flag.tx.version)
  | .fastBorrow seen => some (flag, if flag.tx.value then .dropReceiver else .awaitChange seen)
  | .awaitChange seen =>
      if flag.tx.version = seen then none else some (flag, .borrow flag.tx.version)
  | .borrow seen => some (flag, if flag.tx.value then .dropReceiver else .awaitChange seen)
  | .dropReceiver => some ({ flag with tx := flag.tx.unsubscribe id }, .returned .waited)
  | .returned _ => none

/-- The token lock is not there in time. -/
def timeout (flag : ReadinessFlag ι) : Place → Option (ReadinessFlag ι × Place)
  | .subscribeLock => some (flag, .returned (.subscribed (.error .tokenLockFailed)))
  | .markLock _ => some (flag, .returned (.marked (.error .tokenLockFailed)))
  | _ => none

/-- The task is in no call: it has made none yet, or its last one has returned. -/
def Place.IsOver : Place → Prop
  | .idle | .returned _ => True
  | _ => False

instance (place : Place) : Decidable place.IsOver := by
  cases place <;> first | exact isTrue trivial | exact isFalse id

/-- One atomic step of one task. -/
def move (id : ι) (flag : ReadinessFlag ι) (place : Place) :
    Action → Option (ReadinessFlag ι × Place)
  | .call request => if place.IsOver then some (flag, request.entry) else none
  | .proceed => proceed id flag place
  | .timeout => timeout flag place

/-- A fresh flag and tasks that have not called it yet. -/
def start : Tasks ι (ReadinessFlag ι) Place where
  shared := .new
  place _ := .idle

/-! ## Lost wake-ups -/

namespace Place

/-- The readiness is stored, and the call has its broadcast before it. -/
def WillBroadcast : Place → Prop
  | .dropSwapped _ wasReady => wasReady = false
  | .markUnlock marked => marked = true
  | .clearTokens | .broadcastSwapped _ | .broadcastMarked => True
  | _ => False

/-- The next step is the broadcast. -/
def Broadcasts : Place → Prop
  | .broadcastSwapped _ | .broadcastMarked => True
  | _ => False

/-- `wait_ready` has seen the flag unready, and has not seen the channel say otherwise. -/
def IsWaiting : Place → Prop
  | .openReceiver | .fastBorrow _ | .awaitChange _ | .borrow _ => True
  | _ => False

/-- `wait_ready` owns a receiver. -/
def HoldsReceiver : Place → Prop
  | .fastBorrow _ | .awaitChange _ | .borrow _ | .dropReceiver => True
  | _ => False

instance (place : Place) : Decidable place.Broadcasts :=
  decidable_of_bool
    (match place with
      | .broadcastSwapped _ | .broadcastMarked => true
      | _ => false)
    (by cases place <;> simp [Broadcasts])

theorem holdsReceiver_of_isWaiting {place : Place} (waits : place.IsWaiting)
    (opened : place ≠ .openReceiver) : place.HoldsReceiver := by
  cases place <;> simp_all [IsWaiting, HoldsReceiver]

theorem not_willBroadcast_of_isOver {place : Place} (ended : place.IsOver) :
    ¬place.WillBroadcast := by
  cases place <;> simp_all [IsOver, WillBroadcast]

end Place

namespace Caller

theorem eq_false_of_isWaiting_resume {caller : Caller} {ready : Bool}
    (waits : (caller.resume ready).IsWaiting) : ready = false := by
  cases caller <;> cases ready <;> first | rfl | exact waits.elim

theorem not_holdsReceiver_resume (caller : Caller) (ready : Bool) :
    ¬(caller.resume ready).HoldsReceiver := by
  cases caller <;> cases ready <;> exact fun holds => holds

end Caller

section Moves

variable {id : ι} {flag flag' : ReadinessFlag ι} {place place' : Place} {action : Action}

/-- What one step does to the two halves of the readiness, to the receivers and to its task. -/
structure Effect (id : ι) (flag : ReadinessFlag ι) (place : Place) (flag' : ReadinessFlag ι)
    (place' : Place) : Prop where
  /-- The channel says true for good. -/
  value : flag.tx.value = true → flag'.tx.value = true
  /-- Who makes the flag ready has to broadcast it. -/
  ready : flag.ready = false → flag'.ready = true → place'.WillBroadcast
  /-- Who has to broadcast still has to, or does so now. -/
  broadcast : place.WillBroadcast →
    place'.WillBroadcast ∨ place.Broadcasts ∧ flag'.tx = flag.tx.send true
  /-- Nobody starts to wait for a flag seen ready. -/
  waiting : place'.IsWaiting → place.IsWaiting ∨ flag'.ready = false
  own : (place.HoldsReceiver → id ∈ flag.tx.receivers) →
    place'.HoldsReceiver → id ∈ flag'.tx.receivers
  others : ∀ other, other ≠ id → other ∈ flag.tx.receivers → other ∈ flag'.tx.receivers

/-- A step that touches neither half of the readiness and no receiver. -/
theorem effect_of_quiet (tx : flag'.tx = flag.tx) (ready : flag'.ready = flag.ready)
    (due : place.WillBroadcast → place'.WillBroadcast)
    (waits : place'.IsWaiting → place.IsWaiting ∨ flag.ready = false)
    (holds : place'.HoldsReceiver → place.HoldsReceiver) : Effect id flag place flag' place' where
  value said := tx ▸ said
  ready unready isReady := absurd (unready.symm.trans (ready.symm.trans isReady)) (by decide)
  broadcast before := .inl (due before)
  waiting after := ready ▸ waits after
  own owned held := tx ▸ owned (holds held)
  others _ _ member := tx ▸ member

theorem effect_of_call {request : Request}
    (moved : move id flag place (.call request) = some (flag', place')) :
    Effect id flag place flag' place' := by
  simp only [move] at moved
  split at moved
  case isFalse => cases moved
  case isTrue ended =>
    cases moved
    refine effect_of_quiet rfl rfl (fun due => ?_) (fun waits => ?_) (fun holds => ?_)
    · exact absurd due (Place.not_willBroadcast_of_isOver ended)
    · cases request <;> exact waits.elim
    · cases request <;> exact holds.elim

/-- `is_ready` returns. -/
theorem effect_of_resume {caller : Caller} {ready : Bool} (tx : flag'.tx = flag.tx)
    (kept : flag'.ready = flag.ready) (done : ¬place.WillBroadcast)
    (seen : ready = false → flag.ready = false) :
    Effect id flag place flag' (caller.resume ready) :=
  effect_of_quiet tx kept (fun due => absurd due done)
    (fun waits => .inr (seen (Caller.eq_false_of_isWaiting_resume waits)))
    (fun holds => absurd holds (caller.not_holdsReceiver_resume ready))

/-- The step that stores the readiness. -/
theorem effect_of_store (done : ¬place.WillBroadcast) (waits : ¬place'.IsWaiting)
    (holds : ¬place'.HoldsReceiver) (due : flag.ready = false → place'.WillBroadcast) :
    Effect id flag place { flag with ready := true } place' where
  value said := said
  ready unready _ := due unready
  broadcast before := absurd before done
  waiting after := absurd after waits
  own _ held := absurd held holds
  others _ _ member := member

/-- The step that broadcasts it. -/
theorem effect_of_broadcast (waits : ¬place'.IsWaiting) (holds : ¬place'.HoldsReceiver)
    (broadcasts : place.Broadcasts) :
    Effect id flag place { flag with tx := flag.tx.send true } place' where
  value said := by
    by_cases heard : flag.tx.receivers = ∅
    · exact (Sender.send_of_no_receivers heard true).symm ▸ said
    · exact Sender.value_send_of_receivers heard true
  ready unready isReady := absurd (unready.symm.trans isReady) (by decide)
  broadcast _ := .inr ⟨broadcasts, rfl⟩
  waiting after := absurd after waits
  own _ held := absurd held holds
  others _ _ member := by simpa using member

theorem effect_of_proceed (moved : move id flag place .proceed = some (flag', place')) :
    Effect id flag place flag' place' := by
  cases place <;> simp only [move, proceed] at moved <;> (try split at moved) <;> cases moved
  all_goals try
    (refine effect_of_quiet rfl rfl ?_ ?_ ?_ <;> intro before <;>
      first | exact before | exact before.elim | exact .inl before)
  case loadReady.isTrue.refl => exact effect_of_resume rfl rfl (fun due => due) nofun
  case reloadReady.refl => exact effect_of_resume rfl rfl (fun due => due) (fun seen => seen)
  case dropSwapped.isTrue.refl wasReady =>
    exact effect_of_resume rfl rfl (fun due => absurd (wasReady.symm.trans due) (by decide)) nofun
  case dropSwapped.isFalse.refl wasReady | markUnlock.isTrue.refl marked =>
    exact effect_of_quiet rfl rfl (fun _ => trivial) (fun waits => waits.elim) (fun holds => holds)
  case markUnlock.isFalse.refl unmarked =>
    exact effect_of_quiet rfl rfl (fun due => absurd due unmarked) (fun waits => waits.elim)
      (fun holds => holds)
  case broadcastSwapped.refl caller =>
    refine effect_of_broadcast (fun waits => ?_) (caller.not_holdsReceiver_resume true) trivial
    exact absurd (Caller.eq_false_of_isWaiting_resume waits) (by decide)
  case broadcastMarked.refl =>
    exact effect_of_broadcast (fun waits => waits) (fun holds => holds) trivial
  case swapReady.refl =>
    exact effect_of_store (fun due => due) (fun waits => waits) (fun holds => holds)
      (fun unready => unready)
  case storeReady.refl =>
    exact effect_of_store (fun due => due) (fun waits => waits) (fun holds => holds)
      (fun _ => trivial)
  case clearTokens.refl =>
    exact effect_of_quiet rfl rfl (fun _ => rfl) (fun waits => waits.elim) (fun holds => holds)
  case openReceiver.refl =>
    exact
      { value := fun said => said
        ready := fun unready ready => absurd (unready.symm.trans ready) (by decide)
        broadcast := fun due => due.elim
        waiting := fun _ => .inl trivial
        own := fun _ _ => (Sender.mem_receivers_subscribe flag.tx id id).mpr (.inl rfl)
        others := fun other _ member =>
          (Sender.mem_receivers_subscribe flag.tx id other).mpr (.inr member) }
  case dropReceiver.refl =>
    exact
      { value := fun said => said
        ready := fun unready ready => absurd (unready.symm.trans ready) (by decide)
        broadcast := fun due => due.elim
        waiting := fun waits => waits.elim
        own := fun _ held => held.elim
        others := fun other different member =>
          (Sender.mem_receivers_unsubscribe flag.tx id other).mpr ⟨different, member⟩ }

theorem effect_of_timeout (moved : move id flag place .timeout = some (flag', place')) :
    Effect id flag place flag' place' := by
  cases place <;> simp only [move, timeout] at moved <;> cases moved
  all_goals
    exact effect_of_quiet rfl rfl (fun due => due.elim) (fun waits => waits.elim)
      (fun holds => holds.elim)

theorem effect_of_move (moved : move id flag place action = some (flag', place')) :
    Effect id flag place flag' place' := by
  cases action with
  | call request => exact effect_of_call moved
  | proceed => exact effect_of_proceed moved
  | timeout => exact effect_of_timeout moved

end Moves

/-- The flag is ready, every other call has finished, and `wait_ready` waits for a change of a
channel that says false. -/
def Hangs (tasks : Tasks ι (ReadinessFlag ι) Place) (waiter : ι) : Prop :=
  tasks.shared.ready = true ∧ (∀ other, other ≠ waiter → (tasks.place other).IsOver) ∧
    tasks.place waiter = .awaitChange tasks.shared.tx.version ∧ tasks.shared.tx.value = false

instance {count : ℕ} (tasks : Tasks (Fin count) (ReadinessFlag (Fin count)) Place)
    (waiter : Fin count) :
    Decidable (Hangs tasks waiter) := by
  unfold Hangs
  infer_instance

/-- A broadcast that no receiver hears comes while no task has seen the flag unready and has its
receiver still to open. -/
def Heard (tasks : Tasks ι (ReadinessFlag ι) Place) (event : ι × Action) : Prop :=
  (tasks.place event.1).Broadcasts → tasks.shared.tx.receivers = ∅ →
    ∀ waiter, tasks.place waiter ≠ .openReceiver

instance {count : ℕ} (tasks : Tasks (Fin count) (ReadinessFlag (Fin count)) Place)
    (event : Fin count × Action) :
    Decidable (Heard tasks event) := by
  unfold Heard
  infer_instance

/-- Whoever waits is told: the flag is not ready, or the channel says so, or a broadcast is due. -/
structure Told (tasks : Tasks ι (ReadinessFlag ι) Place) : Prop where
  receivers : ∀ id, (tasks.place id).HoldsReceiver → id ∈ tasks.shared.tx.receivers
  waiters : ∀ waiter, (tasks.place waiter).IsWaiting → tasks.shared.ready = false ∨
    tasks.shared.tx.value = true ∨ ∃ sender, (tasks.place sender).WillBroadcast

omit [DecidableEq ι] in
theorem told_start : Told (start : Tasks ι (ReadinessFlag ι) Place) where
  receivers _ holds := holds.elim
  waiters _ waits := waits.elim

section Step

variable {tasks next : Tasks ι (ReadinessFlag ι) Place} {event : ι × Action}

/-- The effect of a step on the task that takes it. -/
theorem effect_of_step (stepped : step move tasks event = some next) :
    Effect event.1 tasks.shared (tasks.place event.1) next.shared (next.place event.1) :=
  effect_of_move (moved_of_step stepped).1

theorem receivers_of_step
    (holds : ∀ id, (tasks.place id).HoldsReceiver → id ∈ tasks.shared.tx.receivers)
    (stepped : step move tasks event = some next) (id : ι) :
    (next.place id).HoldsReceiver → id ∈ next.shared.tx.receivers := by
  refine assertions_of_step (fun _ _ _ _ _ _ owned moved => (effect_of_move moved).own owned)
    (fun _ _ _ _ _ _ other _ different owned moved held => ?_) holds stepped id
  exact (effect_of_move moved).others other different (owned held)

/-- A broadcast is heard, or nobody waits for it. -/
theorem told_of_broadcast (told : Told tasks) (heard : Heard tasks event)
    (broadcasts : (tasks.place event.1).Broadcasts)
    (sent : next.shared.tx = tasks.shared.tx.send true) (waiter : ι)
    (waits : (tasks.place waiter).IsWaiting) : next.shared.tx.value = true := by
  have opened : tasks.shared.tx.receivers = ∅ → tasks.place waiter ≠ .openReceiver :=
    fun unheard => heard broadcasts unheard waiter
  rw [sent]
  refine Sender.value_send_of_receivers (fun unheard => ?_) true
  have held := told.receivers waiter (Place.holdsReceiver_of_isWaiting waits (opened unheard))
  rw [unheard] at held
  exact absurd held (Finset.notMem_empty waiter)

/-- What every step keeps whose broadcast is heard. -/
theorem told_of_step (told : Told tasks) (heard : Heard tasks event)
    (stepped : step move tasks event = some next) : Told next := by
  have effect := effect_of_step stepped
  obtain ⟨-, elsewhere⟩ := moved_of_step stepped
  refine ⟨receivers_of_step told.receivers stepped, fun waiter waits => ?_⟩
  by_cases unready : next.shared.ready = false
  · exact .inl unready
  have waited : (tasks.place waiter).IsWaiting := by
    by_cases same : waiter = event.1
    · subst same
      exact (effect.waiting waits).resolve_right unready
    · rwa [elsewhere waiter same] at waits
  obtain unreadyBefore | said | ⟨sender, due⟩ := told.waiters waiter waited
  · have ready : next.shared.ready = true := by simpa using unready
    exact .inr (.inr ⟨event.1, effect.ready unreadyBefore ready⟩)
  · exact .inr (.inl (effect.value said))
  · by_cases same : sender = event.1
    · subst same
      obtain still | ⟨broadcasts, sent⟩ := effect.broadcast due
      · exact .inr (.inr ⟨event.1, still⟩)
      · exact .inr (.inl (told_of_broadcast told heard broadcasts sent waiter waited))
    · rw [← elsewhere sender same] at due
      exact .inr (.inr ⟨sender, due⟩)

end Step

section Runs

variable {events : List (ι × Action)} {final : Tasks ι (ReadinessFlag ι) Place}

theorem told_of_run (heard : Along (step move) Heard start events)
    (ran : run (step move) start events = some final) : Told final :=
  invariant_of_run (fun _ _ _ told met stepped => told_of_step told met stepped)
    told_start heard ran

/-- In every run whose broadcasts are all heard, or come while no waiting task has its receiver
still to open, nobody waits for ever. -/
theorem not_hangs_of_heard (heard : Along (step move) Heard start events)
    (ran : run (step move) start events = some final) (waiter : ι) : ¬Hangs final waiter := by
  rintro ⟨ready, ended, waits, unsaid⟩
  have waiting : (final.place waiter).IsWaiting := by
    rw [waits]
    exact trivial
  obtain unready | said | ⟨sender, due⟩ := (told_of_run heard ran).waiters waiter waiting
  · exact absurd (ready.symm.trans unready) (by decide)
  · exact absurd (said.symm.trans unsaid) (by decide)
  · by_cases same : sender = waiter
    · rw [same, waits] at due
      exact due
    · exact Place.not_willBroadcast_of_isOver (ended sender same) due

end Runs

/-- A task subscribes and marks the flag ready with its token; between the two, another has seen the
flag unready and waits. -/
def subscribeAndMark (waiting : List (Fin 2 × Action)) : List (Fin 2 × Action) :=
  (0, .call .subscribe) :: List.replicate 5 (0, .proceed) ++
    (1, .call .waitReady) :: waiting ++
    (0, .call (.markReady ⟨1⟩)) :: List.replicate 7 (0, .proceed)

/-- The waiting task has its receiver before the broadcast. -/
theorem not_hangs_of_receiver :
    ∃ final, run (step move) start (subscribeAndMark (List.replicate 7 (1, .proceed))) =
        some final ∧ ¬Hangs final 1 := by
  have heard : Along (step move) Heard start (subscribeAndMark (List.replicate 7 (1, .proceed))) :=
    by decide
  exact ⟨_, rfl, not_hangs_of_heard heard rfl 1⟩

/-- It opens its receiver after the broadcast: no step of its own can follow. -/
theorem hangs_of_late_receiver :
    ∃ final, run (step move) start
        (subscribeAndMark (List.replicate 5 (1, .proceed)) ++ List.replicate 2 (1, .proceed)) =
        some final ∧ Hangs final 1 ∧ ∀ action, move 1 final.shared
          (final.place 1) action = none := by
  refine ⟨_, rfl, by decide, fun action => ?_⟩
  cases action <;> rfl

end CodexPilot.Readiness
