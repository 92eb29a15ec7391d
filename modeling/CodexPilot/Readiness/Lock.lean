import CodexPilot.Readiness.Flag

/-!
# The token lock of the readiness flag

Tokens and readiness change under the lock only, and one task holds it.  So the flag is broadcast by
one task and once, and a waiting task that missed the broadcast waits for ever.
-/

namespace CodexPilot.Readiness

open Interleaving Transitions

/-- The task holds the token lock. -/
def Place.HoldsLock : Place → Prop
  | .checkEmpty _ | .swapReady _ | .dropSwapped _ _ | .dropUnchanged _ | .subscribeRecheck
  | .drawToken | .subscribeUnlock _ | .removeToken _ | .storeReady | .clearTokens
  | .markUnlock _ => True
  | _ => False

/-- What the task knows of the tokens and of the readiness while it holds the lock. -/
def Place.Knows {ι : Type*} (flag : ReadinessFlag ι) : Place → Prop
  | .swapReady _ => flag.tokens = ∅
  | .drawToken | .storeReady => flag.ready = false
  | .dropSwapped _ _ | .clearTokens => flag.ready = true
  | .markUnlock marked => marked = true → flag.ready = true
  | _ => True

theorem Place.knows_of_not_holdsLock {ι : Type*} {flag : ReadinessFlag ι} {place : Place}
    (free : ¬place.HoldsLock) : place.Knows flag := by
  cases place <;> first | exact trivial | exact absurd trivial free

theorem Caller.not_willBroadcast_resume (caller : Caller) (ready : Bool) :
    ¬(caller.resume ready).WillBroadcast := by
  cases caller <;> cases ready <;> exact fun due => due

theorem Caller.not_holdsLock_resume (caller : Caller) (ready : Bool) :
    ¬(caller.resume ready).HoldsLock := by
  cases caller <;> cases ready <;> exact fun holds => holds

variable {ι : Type*} [DecidableEq ι] {id : ι} {flag flag' : ReadinessFlag ι} {place place' : Place}
  {action : Action}

/-- What one step does to the lock and to what it guards. -/
structure LockEffect (flag : ReadinessFlag ι) (place : Place) (flag' : ReadinessFlag ι)
    (place' : Place) : Prop where
  taken : ¬place.HoldsLock → place'.HoldsLock → flag.locked = false ∧ flag'.locked = true
  kept : place.HoldsLock → place'.HoldsLock → flag'.locked = flag.locked
  untouched : ¬place.HoldsLock → ¬place'.HoldsLock → flag'.locked = flag.locked
  guarded : ¬place.HoldsLock → flag'.tokens = flag.tokens ∧ flag'.ready = flag.ready

theorem lockEffect_of_move (moved : move id flag place action = some (flag', place')) :
    LockEffect flag place flag' place' := by
  cases action with
  | call request =>
      simp only [move] at moved
      split at moved <;> cases moved
      cases request
      all_goals exact ⟨fun _ holds => holds.elim, fun _ holds => holds.elim, fun _ _ => rfl,
        fun _ => ⟨rfl, rfl⟩⟩
  | timeout =>
      cases place <;> simp only [move, timeout] at moved <;> cases moved
      all_goals exact ⟨fun _ holds => holds.elim, fun _ holds => holds.elim, fun _ _ => rfl,
        fun _ => ⟨rfl, rfl⟩⟩
  | proceed =>
      cases place <;> simp only [move, proceed] at moved <;>
        (try split at moved) <;> cases moved <;>
        constructor <;> grind [Place.HoldsLock, Caller.not_holdsLock_resume]

/-- What a task that knows what it should does to the tokens and the readiness. -/
structure TokenEffect (flag : ReadinessFlag ι) (place : Place) (flag' : ReadinessFlag ι)
    (place' : Place) : Prop where
  ready : flag.ready = true → flag'.ready = true
  knows : place'.Knows flag'
  empty : flag'.ready = true → flag'.tokens = ∅ ∨ place' = .clearTokens
  broadcast : place'.WillBroadcast → flag'.ready = true ∧ (place.WillBroadcast ∨ flag.ready = false)

theorem ready_of_move (moved : move id flag place action = some (flag', place'))
    (ready : flag.ready = true) : flag'.ready = true := by
  cases action with
  | call request =>
      simp only [move] at moved
      split at moved <;> cases moved
      exact ready
  | timeout =>
      cases place <;> simp only [move, timeout] at moved <;> cases moved
      all_goals exact ready
  | proceed =>
      cases place <;> simp only [move, proceed] at moved <;> (try split at moved) <;> cases moved
      all_goals first | exact ready | rfl

omit [DecidableEq ι] in
/-- A step that changes neither the tokens nor the readiness. -/
theorem tokenEffect_of_same (same : flag'.ready = flag.ready) (tokens : flag'.tokens = flag.tokens)
    (knows : place'.Knows flag') (empty : flag.ready = true → flag.tokens = ∅)
    (due : place'.WillBroadcast → flag.ready = true ∧ place.WillBroadcast) :
    TokenEffect flag place flag' place' where
  ready isReady := same.trans isReady
  knows := knows
  empty isReady := .inl (tokens.trans (empty (same.symm.trans isReady)))
  broadcast will := ⟨same.trans (due will).1, .inl (due will).2⟩

/-- The holder of the lock, where the flag is ready only without tokens. -/
theorem tokenEffect_of_proceed (moved : move id flag place .proceed = some (flag', place'))
    (holds : place.HoldsLock) (knows : place.Knows flag)
    (empty : flag.ready = true → flag.tokens = ∅ ∨ place = .clearTokens) :
    TokenEffect flag place flag' place' := by
  have none (busy : place ≠ .clearTokens) (isReady : flag.ready = true) : flag.tokens = ∅ :=
    (empty isReady).resolve_right busy
  cases place with
  | checkEmpty caller =>
      simp only [move, proceed] at moved
      split at moved
      case isTrue clear =>
        cases moved
        exact tokenEffect_of_same rfl rfl clear (none (by simp)) fun due => due.elim
      case isFalse =>
        cases moved
        exact tokenEffect_of_same rfl rfl trivial (none (by simp)) fun due => due.elim
  | swapReady caller =>
      cases moved
      exact ⟨fun _ => rfl, rfl, fun _ => .inl knows, fun unready => ⟨rfl, .inr unready⟩⟩
  | dropSwapped caller wasReady =>
      simp only [move, proceed] at moved
      split at moved
      case isTrue =>
        cases moved
        refine tokenEffect_of_same rfl rfl ?_ (none (by simp)) fun due => ?_
        · exact Place.knows_of_not_holdsLock (Caller.not_holdsLock_resume caller true)
        · exact absurd due (Caller.not_willBroadcast_resume caller true)
      case isFalse unready =>
        cases moved
        refine tokenEffect_of_same rfl rfl trivial (none (by simp)) fun _ => ⟨knows, ?_⟩
        exact Bool.eq_false_iff.mpr unready
  | dropUnchanged caller =>
      cases moved
      exact tokenEffect_of_same rfl rfl trivial (none (by simp)) fun due => due.elim
  | subscribeRecheck =>
      simp only [move, proceed] at moved
      split at moved
      case isTrue =>
        cases moved
        exact tokenEffect_of_same rfl rfl trivial (none (by simp)) fun due => due.elim
      case isFalse unready =>
        cases moved
        refine tokenEffect_of_same rfl rfl ?_ (none (by simp)) fun due => due.elim
        exact Bool.eq_false_iff.mpr unready
  | drawToken =>
      simp only [move, proceed] at moved
      split at moved
      case isTrue =>
        cases moved
        refine ⟨fun isReady => isReady, trivial, fun isReady => ?_, fun due => due.elim⟩
        exact absurd (isReady.symm.trans knows) Bool.noConfusion
      case isFalse =>
        cases moved
        exact tokenEffect_of_same rfl rfl knows (none (by simp)) fun due => due.elim
  | subscribeUnlock token =>
      cases moved
      exact tokenEffect_of_same rfl rfl trivial (none (by simp)) fun due => due.elim
  | removeToken token =>
      simp only [move, proceed] at moved
      split at moved
      case isTrue member =>
        cases moved
        -- a flag that is ready has no token to remove
        have unready : flag.ready = false := by
          refine Bool.eq_false_iff.mpr fun isReady => ?_
          rw [none (by simp) isReady] at member
          exact Finset.notMem_empty token member
        refine ⟨fun isReady => isReady, unready, fun isReady => ?_, fun due => due.elim⟩
        exact absurd (isReady.symm.trans unready) Bool.noConfusion
      case isFalse =>
        cases moved
        refine tokenEffect_of_same rfl rfl ?_ (none (by simp)) fun due => ?_
        · exact fun marked => absurd marked Bool.false_ne_true
        · exact absurd due Bool.false_ne_true
  | storeReady =>
      cases moved
      exact ⟨fun _ => rfl, rfl, fun _ => .inr rfl, fun _ => ⟨rfl, .inr knows⟩⟩
  | clearTokens =>
      cases moved
      exact ⟨fun isReady => isReady, fun _ => knows, fun _ => .inl rfl,
        fun _ => ⟨knows, .inl trivial⟩⟩
  | markUnlock marked =>
      simp only [move, proceed] at moved
      split at moved
      case isTrue marked =>
        cases moved
        exact tokenEffect_of_same rfl rfl trivial (none (by simp)) fun _ => ⟨knows marked, marked⟩
      case isFalse =>
        cases moved
        exact tokenEffect_of_same rfl rfl trivial (none (by simp)) fun due => due.elim
  | _ => exact holds.elim

/-- A task that does not hold the lock. -/
theorem willBroadcast_of_not_holdsLock
    (moved : move id flag place action = some (flag', place')) (free : ¬place.HoldsLock)
    (due : place'.WillBroadcast) : place.WillBroadcast := by
  cases action with
  | call request =>
      simp only [move] at moved
      split at moved <;> cases moved
      cases request <;> exact due.elim
  | timeout =>
      cases place <;> simp only [move, timeout] at moved <;> cases moved
      all_goals exact due.elim
  | proceed =>
      cases place <;> simp only [move, proceed] at moved <;> (try split at moved) <;> cases moved
      all_goals first
        | exact due.elim
        | exact absurd trivial free
        | exact absurd due (Caller.not_willBroadcast_resume _ _)

theorem knows_of_taken (moved : move id flag place action = some (flag', place'))
    (free : ¬place.HoldsLock) : place'.Knows flag' := by
  by_cases takes : place'.HoldsLock
  case neg => exact Place.knows_of_not_holdsLock takes
  cases action with
  | call request =>
      simp only [move] at moved
      split at moved <;> cases moved
      cases request <;> exact takes.elim
  | timeout =>
      cases place <;> simp only [move, timeout] at moved <;> cases moved
      all_goals exact takes.elim
  | proceed =>
      cases place <;> simp only [move, proceed] at moved <;> (try split at moved) <;> cases moved
      all_goals first
        | exact trivial
        | exact takes.elim
        | exact absurd trivial free
        | exact absurd takes (Caller.not_holdsLock_resume _ _)

theorem tx_of_move (moved : move id flag place action = some (flag', place'))
    (silent : ¬place.Broadcasts) :
    flag'.tx.value = flag.tx.value ∧ flag'.tx.version = flag.tx.version := by
  cases action with
  | call request =>
      simp only [move] at moved
      split at moved <;> cases moved
      exact ⟨rfl, rfl⟩
  | timeout =>
      cases place <;> simp only [move, timeout] at moved <;> cases moved
      all_goals exact ⟨rfl, rfl⟩
  | proceed =>
      cases place <;> simp only [move, proceed] at moved <;> (try split at moved) <;> cases moved
      all_goals first | exact ⟨rfl, rfl⟩ | exact absurd trivial silent

/-- The broadcast is the last thing a call has to do for the readiness. -/
theorem silent_of_broadcasts (moved : move id flag place action = some (flag', place'))
    (broadcasts : place.Broadcasts) : place.WillBroadcast ∧ ¬place'.WillBroadcast := by
  cases place <;> first | exact broadcasts.elim | skip
  all_goals
    refine ⟨trivial, ?_⟩
    cases action <;> cases moved
  · exact Caller.not_willBroadcast_resume _ true
  · exact fun due => due

theorem proceed_of_holdsLock (moved : move id flag place action = some (flag', place'))
    (holds : place.HoldsLock) : action = .proceed := by
  cases action with
  | call request =>
      simp only [move] at moved
      split at moved
      case isTrue ended => cases place <;> first | exact holds.elim | exact ended.elim
      case isFalse => cases moved
  | timeout => cases place <;> first | exact holds.elim | cases moved
  | proceed => rfl

/-- One task holds the lock, what it knows is so, and one task broadcasts. -/
structure Disciplined (tasks : Tasks ι (ReadinessFlag ι) Place) : Prop where
  locked : ∀ id, (tasks.place id).HoldsLock → tasks.shared.locked = true
  alone : ∀ id other, (tasks.place id).HoldsLock → (tasks.place other).HoldsLock → id = other
  knows : ∀ id, (tasks.place id).Knows tasks.shared
  empty : tasks.shared.ready = true →
    tasks.shared.tokens = ∅ ∨ ∃ id, tasks.place id = .clearTokens
  broadcast : ∀ id, (tasks.place id).WillBroadcast → tasks.shared.ready = true
  once : ∀ id other, (tasks.place id).WillBroadcast → (tasks.place other).WillBroadcast → id = other
  said : tasks.shared.tx.value = true →
    tasks.shared.ready = true ∧ ∀ id, ¬(tasks.place id).WillBroadcast

omit [DecidableEq ι] in
theorem disciplined_start : Disciplined (start : Tasks ι (ReadinessFlag ι) Place) where
  locked _ holds := holds.elim
  alone _ _ holds := holds.elim
  knows _ := trivial
  empty ready := absurd ready Bool.false_ne_true
  broadcast _ due := due.elim
  once _ _ due := due.elim
  said said := absurd said Bool.false_ne_true

section Step

variable {tasks next : Tasks ι (ReadinessFlag ι) Place} {event : ι × Action}

theorem locked_of_step (disciplined : Disciplined tasks)
    (stepped : step move tasks event = some next) (holder : ι)
    (holds : (next.place holder).HoldsLock) :
    next.shared.locked = true ∧
      ∀ other, other ≠ holder → ¬(next.place other).HoldsLock := by
  obtain ⟨moved, elsewhere⟩ := moved_of_step stepped
  have effect := lockEffect_of_move moved
  by_cases same : holder = event.1
  · subst same
    by_cases held : (tasks.place event.1).HoldsLock
    · refine ⟨(effect.kept held holds).trans (disciplined.locked _ held), fun other different => ?_⟩
      rw [elsewhere other different]
      exact fun others => different (disciplined.alone other event.1 others held)
    · obtain ⟨free, locked⟩ := effect.taken held holds
      refine ⟨locked, fun other different others => ?_⟩
      rw [elsewhere other different] at others
      exact absurd (free.symm.trans (disciplined.locked other others)) (by decide)
  · rw [elsewhere holder same] at holds
    have unheld : ¬(tasks.place event.1).HoldsLock := fun others =>
      same (disciplined.alone holder event.1 holds others)
    have locked := disciplined.locked holder holds
    have untaken : ¬(next.place event.1).HoldsLock := fun takes =>
      absurd ((effect.taken unheld takes).1.symm.trans locked) (by decide)
    refine ⟨(effect.untouched unheld untaken).trans locked, fun other different others => ?_⟩
    by_cases acts : other = event.1
    · rw [acts] at others
      exact untaken others
    · rw [elsewhere other acts] at others
      exact different (disciplined.alone other holder others holds)

/-- The step of a task that holds the lock. -/
theorem tokenEffect_of_step (disciplined : Disciplined tasks)
    (stepped : step move tasks event = some next) (holds : (tasks.place event.1).HoldsLock) :
    TokenEffect tasks.shared (tasks.place event.1) next.shared (next.place event.1) := by
  obtain ⟨moved, -⟩ := moved_of_step stepped
  rw [proceed_of_holdsLock moved holds] at moved
  refine tokenEffect_of_proceed moved holds (disciplined.knows event.1) (fun ready => ?_)
  obtain empty | ⟨id, clears⟩ := disciplined.empty ready
  · exact .inl empty
  · have same : id = event.1 := by
      refine disciplined.alone id event.1 ?_ holds
      rw [clears]
      exact trivial
    exact .inr (same ▸ clears)

omit [DecidableEq ι] in
theorem knows_of_eq {other : ReadinessFlag ι} (tokens : other.tokens = flag.tokens)
    (ready : other.ready = flag.ready) (knows : place.Knows flag) : place.Knows other := by
  cases place <;> simp_all [Place.Knows]

theorem knows_of_step (disciplined : Disciplined tasks)
    (stepped : step move tasks event = some next) (id : ι) : (next.place id).Knows next.shared := by
  obtain ⟨moved, elsewhere⟩ := moved_of_step stepped
  by_cases holds : (tasks.place event.1).HoldsLock
  · by_cases same : id = event.1
    · exact same ▸ (tokenEffect_of_step disciplined stepped holds).knows
    · rw [elsewhere id same]
      exact Place.knows_of_not_holdsLock fun held => same (disciplined.alone id event.1 held holds)
  · by_cases same : id = event.1
    · exact same ▸ knows_of_taken moved holds
    · obtain ⟨tokens, ready⟩ := (lockEffect_of_move moved).guarded holds
      rw [elsewhere id same]
      exact knows_of_eq tokens ready (disciplined.knows id)

theorem empty_of_step (disciplined : Disciplined tasks)
    (stepped : step move tasks event = some next) (ready : next.shared.ready = true) :
    next.shared.tokens = ∅ ∨ ∃ id, next.place id = .clearTokens := by
  obtain ⟨moved, elsewhere⟩ := moved_of_step stepped
  by_cases holds : (tasks.place event.1).HoldsLock
  · obtain empty | clears := (tokenEffect_of_step disciplined stepped holds).empty ready
    · exact .inl empty
    · exact .inr ⟨event.1, clears⟩
  · obtain ⟨tokens, kept⟩ := (lockEffect_of_move moved).guarded holds
    obtain empty | ⟨id, clears⟩ := disciplined.empty (kept ▸ ready)
    · exact .inl (tokens.trans empty)
    · have different : id ≠ event.1 := by
        rintro rfl
        rw [clears] at holds
        exact holds trivial
      exact .inr ⟨id, (elsewhere id different).trans clears⟩

/-- A task that is to broadcast was to do so before, or has just made the flag ready. -/
theorem willBroadcast_of_step (disciplined : Disciplined tasks)
    (stepped : step move tasks event = some next) (due : (next.place event.1).WillBroadcast) :
    next.shared.ready = true ∧
      ((tasks.place event.1).WillBroadcast ∨ tasks.shared.ready = false) := by
  obtain ⟨moved, -⟩ := moved_of_step stepped
  by_cases holds : (tasks.place event.1).HoldsLock
  · exact (tokenEffect_of_step disciplined stepped holds).broadcast due
  · have before := willBroadcast_of_not_holdsLock moved holds due
    exact ⟨ready_of_move moved (disciplined.broadcast event.1 before), .inl before⟩

theorem broadcast_of_step (disciplined : Disciplined tasks)
    (stepped : step move tasks event = some next) (id : ι)
    (due : (next.place id).WillBroadcast) : next.shared.ready = true := by
  obtain ⟨moved, elsewhere⟩ := moved_of_step stepped
  by_cases same : id = event.1
  · subst same
    exact (willBroadcast_of_step disciplined stepped due).1
  · rw [elsewhere id same] at due
    exact ready_of_move moved (disciplined.broadcast id due)

/-- No second task gets to broadcast. -/
theorem eq_of_willBroadcast (disciplined : Disciplined tasks)
    (stepped : step move tasks event = some next) (other : ι)
    (due : (next.place event.1).WillBroadcast) (others : (next.place other).WillBroadcast) :
    other = event.1 := by
  obtain ⟨-, elsewhere⟩ := moved_of_step stepped
  by_contra different
  rw [elsewhere other different] at others
  obtain ⟨-, before | unready⟩ := willBroadcast_of_step disciplined stepped due
  · exact different (disciplined.once other event.1 others before)
  · exact absurd (unready.symm.trans (disciplined.broadcast other others)) (by decide)

/-- Once the flag is ready and no broadcast is due, none will be. -/
theorem silent_of_step (disciplined : Disciplined tasks)
    (stepped : step move tasks event = some next) (ready : tasks.shared.ready = true)
    (silent : ∀ id, ¬(tasks.place id).WillBroadcast) (id : ι) : ¬(next.place id).WillBroadcast := by
  obtain ⟨-, elsewhere⟩ := moved_of_step stepped
  intro due
  by_cases same : id = event.1
  · subst same
    obtain ⟨-, before | unready⟩ := willBroadcast_of_step disciplined stepped due
    · exact silent event.1 before
    · exact absurd (unready.symm.trans ready) (by decide)
  · rw [elsewhere id same] at due
    exact silent id due

/-- After a broadcast none is due. -/
theorem silent_of_broadcast (disciplined : Disciplined tasks)
    (stepped : step move tasks event = some next) (broadcasts : (tasks.place event.1).Broadcasts) :
    next.shared.ready = true ∧ ∀ id, ¬(next.place id).WillBroadcast := by
  obtain ⟨moved, elsewhere⟩ := moved_of_step stepped
  obtain ⟨due, done⟩ := silent_of_broadcasts moved broadcasts
  refine ⟨ready_of_move moved (disciplined.broadcast event.1 due), fun id others => ?_⟩
  by_cases same : id = event.1
  · exact done (same ▸ others)
  · rw [elsewhere id same] at others
    exact same (disciplined.once id event.1 others due)

theorem disciplined_of_step (disciplined : Disciplined tasks)
    (stepped : step move tasks event = some next) : Disciplined next where
  locked id holds := (locked_of_step disciplined stepped id holds).1
  alone id other holds held := by
    by_contra different
    exact (locked_of_step disciplined stepped id holds).2 other (Ne.symm different) held
  knows := knows_of_step disciplined stepped
  empty := empty_of_step disciplined stepped
  broadcast := broadcast_of_step disciplined stepped
  once id other due due' := by
    obtain ⟨-, elsewhere⟩ := moved_of_step stepped
    by_cases same : id = event.1
    · subst same
      exact (eq_of_willBroadcast disciplined stepped other due due').symm
    by_cases same' : other = event.1
    · subst same'
      exact eq_of_willBroadcast disciplined stepped id due' due
    · rw [elsewhere id same] at due
      rw [elsewhere other same'] at due'
      exact disciplined.once id other due due'
  said said := by
    obtain ⟨moved, -⟩ := moved_of_step stepped
    by_cases broadcasts : (tasks.place event.1).Broadcasts
    · exact silent_of_broadcast disciplined stepped broadcasts
    · rw [(tx_of_move moved broadcasts).1] at said
      obtain ⟨ready, silent⟩ := disciplined.said said
      exact ⟨ready_of_move moved ready, silent_of_step disciplined stepped ready silent⟩

end Step

/-- Everything is said and done, the channel still says false, and a task waits for it. -/
structure Lost (tasks : Tasks ι (ReadinessFlag ι) Place) (waiter : ι) : Prop where
  ready : tasks.shared.ready = true
  unsaid : tasks.shared.tx.value = false
  silent : ∀ id, ¬(tasks.place id).WillBroadcast
  waits : tasks.place waiter = .openReceiver ∨
    tasks.place waiter = .fastBorrow tasks.shared.tx.version ∨
      tasks.place waiter = .awaitChange tasks.shared.tx.version

/-- The waiting task itself gets no further than the channel. -/
theorem waits_of_move (unsaid : flag.tx.value = false)
    (waits : place = .openReceiver ∨ place = .fastBorrow flag.tx.version ∨
      place = .awaitChange flag.tx.version)
    (moved : move id flag place action = some (flag', place')) :
    place' = .openReceiver ∨ place' = .fastBorrow flag.tx.version ∨
      place' = .awaitChange flag.tx.version := by
  obtain rfl | rfl | rfl := waits
  · cases action <;> cases moved
    exact .inr (.inl rfl)
  · cases action <;> cases moved
    exact .inr (.inr (by rw [unsaid]; rfl))
  · cases action with
    | call request | timeout => cases moved
    | proceed => simp [move, proceed] at moved

section Lost

variable {tasks next final : Tasks ι (ReadinessFlag ι) Place} {event : ι × Action} {waiter : ι}

theorem lost_of_step (disciplined : Disciplined tasks) (lost : Lost tasks waiter)
    (stepped : step move tasks event = some next) : Lost next waiter := by
  obtain ⟨moved, elsewhere⟩ := moved_of_step stepped
  have quiet : ¬(tasks.place event.1).Broadcasts := fun broadcasts =>
    lost.silent event.1 (silent_of_broadcasts moved broadcasts).1
  obtain ⟨value, version⟩ := tx_of_move moved quiet
  refine ⟨ready_of_move moved lost.ready, value.trans lost.unsaid,
    silent_of_step disciplined stepped lost.ready lost.silent, ?_⟩
  rw [version]
  by_cases same : waiter = event.1
  · subst same
    exact waits_of_move lost.unsaid lost.waits moved
  · rw [elsewhere waiter same]
    exact lost.waits

end Lost

end CodexPilot.Readiness
