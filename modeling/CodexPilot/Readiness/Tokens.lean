import CodexPilot.Readiness.Lock

/-!
# The tokens of the readiness flag

A token is handed out under the lock, while the flag is not ready, and never while another
subscriber has it.  The first mark that finds its token among them makes the flag ready and takes
all of them away, so no second one finds its own.
-/

namespace CodexPilot.Readiness

open Interleaving Transitions

/-! ## The record of a run -/

/-- The tokens that were handed out and not taken away since, the marks that found their token, and
the tasks whose `mark_ready` has returned true. -/
structure Record (ι : Type*) where
  live : List Token
  accepted : List (ι × Token)
  answered : List ι

/-- Nothing has happened yet. -/
def Record.empty {ι : Type*} : Record ι := ⟨[], [], []⟩

/-- Note the step of a task, by where it stood before and where it stands now. -/
def Record.note {ι : Type*} (record : Record ι) (id : ι) : Place → Place → Record ι
  | .drawToken, .subscribeUnlock (some token) => { record with live := record.live ++ [token] }
  | .removeToken token, .storeReady =>
      { record with live := record.live.erase token, accepted := record.accepted ++ [(id, token)] }
  | .clearTokens, _ => { record with live := [] }
  | _, .returned (.marked (.ok true)) =>
      { record with answered := record.answered ++ [id] }
  | _, _ => record

variable {ι : Type*} [DecidableEq ι]

/-- A step, and the record of it. -/
def recordedStep (state : Tasks ι (ReadinessFlag ι) Place × Record ι) (event : ι × Action) :
    Option (Tasks ι (ReadinessFlag ι) Place × Record ι) :=
  (step move state.1 event).map fun next =>
    (next, state.2.note event.1 (state.1.place event.1) (next.place event.1))

theorem recordedStep_map_fst (tasks : Tasks ι (ReadinessFlag ι) Place) (record : Record ι)
    (event : ι × Action) :
    (recordedStep (tasks, record) event).map Prod.fst = step move tasks event := by
  rw [recordedStep, Option.map_map]
  exact Option.map_id_apply

/-! ## What a step does to the tokens -/

/-- The call has been promised that its mark succeeds. -/
def Place.OwesTrue : Place → Prop
  | .storeReady | .clearTokens | .broadcastMarked => True
  | .markUnlock marked => marked = true
  | _ => False

/-- A step that changes the tokens or the readiness, or that a mark takes on its way to its
answer. -/
inductive Change (flag : ReadinessFlag ι) (flag' : ReadinessFlag ι) : Place → Place → Prop
  | granted {token : Token} (nonzero : token.value ≠ 0) (fresh : token ∉ flag.tokens)
      (tokens : flag'.tokens = insert token flag.tokens) (ready : flag'.ready = flag.ready) :
      Change flag flag' .drawToken (.subscribeUnlock (some token))
  | accepted {token : Token} (member : token ∈ flag.tokens)
      (tokens : flag'.tokens = flag.tokens.erase token) (ready : flag'.ready = flag.ready) :
      Change flag flag' (.removeToken token) .storeReady
  | stored (tokens : flag'.tokens = flag.tokens) (ready : flag'.ready = true) :
      Change flag flag' .storeReady .clearTokens
  | cleared (tokens : flag'.tokens = ∅) (ready : flag'.ready = flag.ready) :
      Change flag flag' .clearTokens (.markUnlock true)
  | unlocked (tokens : flag'.tokens = flag.tokens) (ready : flag'.ready = flag.ready) :
      Change flag flag' (.markUnlock true) .broadcastMarked
  | answered (tokens : flag'.tokens = flag.tokens) (ready : flag'.ready = flag.ready) :
      Change flag flag' .broadcastMarked (.returned (.marked (.ok true)))
  | swapped {caller : Caller} {wasReady : Bool} (tokens : flag'.tokens = flag.tokens)
      (ready : flag'.ready = true) :
      Change flag flag' (.swapReady caller) (.dropSwapped caller wasReady)

/-- Any other step. -/
structure Quiet (flag : ReadinessFlag ι) (place : Place) (flag' : ReadinessFlag ι)
    (place' : Place) : Prop where
  tokens : flag'.tokens = flag.tokens
  ready : flag'.ready = flag.ready
  owes : ¬place.OwesTrue ∧ ¬place'.OwesTrue
  granted : ∀ token, place' ≠ .subscribeUnlock (some token)
  record : ∀ (record : Record ι) id, record.note id place place' = record

/-- A step to the place is none that the record notes, and promises nothing. -/
def Place.Silent : Place → Prop
  | .subscribeUnlock granted => granted = none
  | .returned answer => answer ≠ .marked (.ok true)
  | place => ¬place.OwesTrue

theorem Caller.silent_resume (caller : Caller) (ready : Bool) : (caller.resume ready).Silent := by
  cases caller <;> cases ready <;> simp [resume, Place.Silent, Place.OwesTrue]

/-- The record notes the steps to and from certain places only. -/
theorem Record.note_eq {ι : Type*} (record : Record ι) (id : ι) {place place' : Place}
    (owes : ¬place.OwesTrue) (silent : place'.Silent) : record.note id place place' = record := by
  unfold note
  split
  case h_1 => exact absurd silent (Option.some_ne_none _)
  case h_2 => exact absurd trivial silent
  case h_3 => exact absurd trivial owes
  case h_4 => exact absurd rfl silent
  case h_5 => rfl

variable {id : ι} {flag flag' : ReadinessFlag ι} {place place' : Place} {action : Action}

omit [DecidableEq ι] in
theorem quiet_of_silent (tokens : flag'.tokens = flag.tokens) (ready : flag'.ready = flag.ready)
    (owes : ¬place.OwesTrue) (silent : place'.Silent) : Quiet flag place flag' place' where
  tokens := tokens
  ready := ready
  owes := by
    refine ⟨owes, ?_⟩
    cases place' with
    | subscribeUnlock granted | returned answer => exact fun due => due
    | _ => exact silent
  granted token unlocks := by
    rw [unlocks] at silent
    exact Option.some_ne_none token silent
  record record id := record.note_eq id owes silent

/-- What a step does: it is one of the changes, or it leaves everything as it is. -/
theorem change_or_quiet_of_move (moved : move id flag place action = some (flag', place')) :
    Change flag flag' place place' ∨ Quiet flag place flag' place' := by
  cases action with
  | call request =>
      simp only [move] at moved
      split at moved
      case isFalse => cases moved
      case isTrue ended =>
        cases moved
        right
        refine quiet_of_silent rfl rfl ?_ ?_
        · cases place <;> first | exact ended.elim | exact not_false
        · cases request <;> exact not_false
  | timeout =>
      right
      cases place <;> simp only [move, timeout] at moved <;> cases moved
      all_goals
        refine quiet_of_silent rfl rfl ?_ ?_ <;> simp [Place.OwesTrue, Place.Silent]
  | proceed =>
      cases place with
      | drawToken =>
          simp only [move, proceed] at moved
          split at moved
          case isTrue drawn =>
            cases moved
            exact .inl (.granted drawn.1 drawn.2 rfl rfl)
          case isFalse =>
            cases moved
            exact .inr (quiet_of_silent rfl rfl not_false not_false)
      | removeToken token =>
          simp only [move, proceed] at moved
          split at moved
          case isTrue member =>
            cases moved
            exact .inl (.accepted member rfl rfl)
          case isFalse =>
            cases moved
            exact .inr (quiet_of_silent rfl rfl not_false Bool.false_ne_true)
      | storeReady =>
          cases moved
          exact .inl (.stored rfl rfl)
      | clearTokens =>
          cases moved
          exact .inl (.cleared rfl rfl)
      | markUnlock marked =>
          cases marked with
          | false =>
              cases moved
              right
              refine quiet_of_silent rfl rfl Bool.false_ne_true ?_
              simp [Place.Silent]
          | true =>
              cases moved
              exact .inl (.unlocked rfl rfl)
      | broadcastMarked =>
          cases moved
          exact .inl (.answered rfl rfl)
      | swapReady caller =>
          cases moved
          exact .inl (.swapped rfl rfl)
      | _ =>
          right
          simp only [move, proceed] at moved
          (try split at moved) <;> cases moved
          all_goals
            refine quiet_of_silent rfl rfl ?_ ?_
            · exact not_false
            · first
                | exact Caller.silent_resume _ _
                | simp [Place.Silent, Place.OwesTrue]

/-! ## Tokens in use -/

/-- The recorded tokens are those of the flag, each of them once, and none is zero. -/
structure Record.Tracks (record : Record ι) (flag : ReadinessFlag ι) : Prop where
  nodup : record.live.Nodup
  mem : ∀ token, token ∈ record.live ↔ token ∈ flag.tokens
  nonzero : ∀ token ∈ record.live, token.value ≠ 0

theorem tracks_of_move {record : Record ι} (tracks : record.Tracks flag)
    (moved : move id flag place action = some (flag', place')) :
    (record.note id place place').Tracks flag' := by
  obtain change | quiet := change_or_quiet_of_move moved
  · cases change with
    | @granted token nonzero fresh tokens =>
        have unused : token ∉ record.live := fun used => fresh ((tracks.mem token).mp used)
        have nodup : (record.live ++ [token]).Nodup := by
          rw [← List.concat_eq_append]
          exact tracks.nodup.concat unused
        refine ⟨nodup, fun other => ?_, fun other used => ?_⟩
        · rw [tokens, Finset.mem_insert, ← tracks.mem other]
          simp [Record.note, or_comm]
        · obtain used | rfl : other ∈ record.live ∨ other = token := by
            simpa [Record.note] using used
          · exact tracks.nonzero other used
          · exact nonzero
    | @accepted token member tokens =>
        refine ⟨tracks.nodup.erase token, fun other => ?_, fun other used => ?_⟩
        · rw [tokens, Finset.mem_erase, ← tracks.mem other]
          exact tracks.nodup.mem_erase_iff
        · exact tracks.nonzero other (List.mem_of_mem_erase used)
    | cleared tokens =>
        refine ⟨List.nodup_nil, fun other => ?_, fun other used => absurd used List.not_mem_nil⟩
        rw [tokens]
        simp [Record.note]
    | stored tokens | unlocked tokens | answered tokens | swapped tokens =>
        exact ⟨tracks.nodup, fun other => by rw [tokens]; exact tracks.mem other, tracks.nonzero⟩
  · rw [quiet.record]
    exact ⟨tracks.nodup, fun other => by rw [quiet.tokens]; exact tracks.mem other, tracks.nonzero⟩

/-- `subscribe` returns a token from under the lock. -/
theorem unlocks_of_subscribed {token : Token}
    (moved : move id flag place action = some (flag', place'))
    (returned : place' = .returned (.subscribed (.ok token))) :
    place = .subscribeUnlock (some token) := by
  have resumed (caller : Caller) (ready : Bool) :
      caller.resume ready ≠ .returned (.subscribed (.ok token)) := by
    cases caller <;> cases ready <;> nofun
  cases action with
  | call request =>
      simp only [move] at moved
      split at moved <;> cases moved
      cases request <;> cases returned
  | timeout => cases place <;> simp only [move, timeout] at moved <;> cases moved <;> cases returned
  | proceed =>
      cases place with
      | subscribeUnlock granted =>
          cases moved
          cases granted <;> cases returned
          rfl
      | _ =>
          simp only [move, proceed] at moved
          (try split at moved) <;> cases moved
          all_goals first
            | cases returned
            | exact absurd returned (resumed _ _)

/-- Who changes the readiness holds the lock. -/
theorem holdsLock_of_ready (moved : move id flag place action = some (flag', place'))
    (turned : flag'.ready ≠ flag.ready) :
    flag'.ready = true ∧ (place = .storeReady ∨ ∃ caller, place = .swapReady caller) := by
  obtain change | quiet := change_or_quiet_of_move moved
  · cases change with
    | stored _ ready => exact ⟨ready, .inl rfl⟩
    | @swapped caller _ _ ready => exact ⟨ready, .inr ⟨caller, rfl⟩⟩
    | granted _ _ _ ready | accepted _ _ ready | cleared _ ready | unlocked _ ready
    | answered _ ready => exact absurd ready turned
  · exact absurd quiet.ready turned

section Step

variable {tasks next : Tasks ι (ReadinessFlag ι) Place} {event : ι × Action} {record : Record ι}

/-- The flag is not ready while a call of `subscribe` holds the lock with its token. -/
def Promised (tasks : Tasks ι (ReadinessFlag ι) Place) : Prop :=
  ∀ id token, tasks.place id = .subscribeUnlock (some token) → tasks.shared.ready = false

theorem promised_of_step (disciplined : Disciplined tasks) (promised : Promised tasks)
    (stepped : step move tasks event = some next) : Promised next := by
  obtain ⟨moved, elsewhere⟩ := moved_of_step stepped
  intro id token holds
  by_cases same : id = event.1
  · subst same
    have knows := disciplined.knows event.1
    rw [holds] at moved
    obtain change | quiet := change_or_quiet_of_move moved
    · generalize tasks.place event.1 = place at change knows
      cases change with
      | granted _ _ _ ready => exact ready.trans knows
    · exact absurd rfl (quiet.granted token)
  · rw [elsewhere id same] at holds
    have unready := promised id token holds
    by_contra turned
    obtain ⟨-, stands⟩ := holdsLock_of_ready moved fun kept => turned (kept.trans unready)
    refine same (disciplined.alone id event.1 (by rw [holds]; exact trivial) ?_)
    obtain stands | ⟨caller, stands⟩ := stands <;> rw [stands] <;> exact trivial

/-! ## Marks -/

/-- One mark at most has found its token; it has made the flag ready or is about to, and its call is
the only one that returns true. -/
structure Settled (tasks : Tasks ι (ReadinessFlag ι) Place) (record : Record ι) : Prop where
  once : record.accepted.length ≤ 1
  answered : record.answered <+: record.accepted.map Prod.fst
  spent : record.accepted ≠ [] →
    tasks.shared.ready = true ∨ ∃ id, tasks.place id = .storeReady
  owes : ∀ id, (tasks.place id).OwesTrue →
    record.answered = [] ∧ ∃ token, record.accepted = [(id, token)]

omit [DecidableEq ι] in
/-- No mark has found a token when another one does. -/
theorem accepted_eq_nil (disciplined : Disciplined tasks) (settled : Settled tasks record) {id : ι}
    {token : Token} (stands : tasks.place id = .removeToken token)
    (member : token ∈ tasks.shared.tokens) : record.accepted = [] := by
  have holds : (tasks.place id).HoldsLock := by
    rw [stands]
    exact trivial
  have alone {other : ι} {place : Place} (elsewhere : tasks.place other = place)
      (locks : place.HoldsLock) (apart : place ≠ .removeToken token) : False := by
    subst elsewhere
    rw [disciplined.alone other id locks holds] at apart
    exact apart stands
  by_contra some
  obtain ready | ⟨other, stores⟩ := settled.spent some
  · obtain none | ⟨other, clears⟩ := disciplined.empty ready
    · rw [none] at member
      exact Finset.notMem_empty token member
    · exact alone clears trivial nofun
  · exact alone stores trivial nofun

/-- A step at which no mark finds its token or returns. -/
theorem settled_of_kept (settled : Settled tasks record)
    (stepped : step move tasks event = some next)
    (ready : tasks.shared.ready = true → next.shared.ready = true)
    (stores : tasks.place event.1 = .storeReady → next.shared.ready = true)
    (owes : (next.place event.1).OwesTrue → (tasks.place event.1).OwesTrue) {record' : Record ι}
    (accepted : record'.accepted = record.accepted)
    (answered : record'.answered = record.answered) : Settled next record' := by
  obtain ⟨-, elsewhere⟩ := moved_of_step stepped
  refine ⟨accepted ▸ settled.once, ?_, fun some => ?_, fun id due => ?_⟩
  · rw [accepted, answered]
    exact settled.answered
  · rw [accepted] at some
    obtain isReady | ⟨id, stands⟩ := settled.spent some
    · exact .inl (ready isReady)
    · by_cases same : id = event.1
      · exact .inl (stores (same ▸ stands))
      · exact .inr ⟨id, (elsewhere id same).trans stands⟩
  · rw [accepted, answered]
    by_cases same : id = event.1
    · subst same
      exact settled.owes event.1 (owes due)
    · rw [elsewhere id same] at due
      exact settled.owes id due

theorem settled_of_step (disciplined : Disciplined tasks) (settled : Settled tasks record)
    (stepped : step move tasks event = some next) :
    Settled next (record.note event.1 (tasks.place event.1) (next.place event.1)) := by
  obtain ⟨moved, elsewhere⟩ := moved_of_step stepped
  have ready := ready_of_move moved
  have kept := @settled_of_kept ι _ tasks next event record settled stepped ready
  have turn := change_or_quiet_of_move moved
  generalize before : tasks.place event.1 = place at turn kept ⊢
  generalize after : next.place event.1 = place' at turn kept ⊢
  obtain change | quiet := turn
  · cases change with
    | granted => exact kept nofun (fun due => due.elim) rfl rfl
    | @accepted token member =>
        have first := accepted_eq_nil disciplined settled before member
        have unanswered : record.answered = [] := by
          have front := settled.answered
          rwa [first, List.map_nil, List.prefix_nil] at front
        refine ⟨?_, ?_, fun _ => .inr ⟨event.1, after⟩, fun id due => ?_⟩
        · simp [Record.note, first]
        · simp [Record.note, unanswered]
        · by_cases same : id = event.1
          · subst same
            exact ⟨unanswered, token, by simp [Record.note, first]⟩
          · rw [elsewhere id same] at due
            obtain ⟨-, token, found⟩ := settled.owes id due
            exact absurd (first.symm.trans found) (List.cons_ne_nil _ _).symm
    | stored _ isReady => exact kept (fun _ => isReady) (fun _ => trivial) rfl rfl
    | cleared => exact kept nofun (fun _ => trivial) rfl rfl
    | unlocked => exact kept nofun (fun _ => rfl) rfl rfl
    | answered =>
        obtain ⟨unanswered, token, found⟩ := settled.owes event.1 (before ▸ trivial)
        have others := (kept nofun (fun due => due.elim) rfl rfl : Settled next record)
        refine ⟨settled.once, ?_, others.spent, fun id due => ?_⟩
        · simp [Record.note, unanswered, found]
        · by_cases same : id = event.1
          · subst same
            rw [after] at due
            exact due.elim
          · rw [elsewhere id same] at due
            obtain ⟨-, token', found'⟩ := settled.owes id due
            have pair := List.singleton_inj.mp (found.symm.trans found')
            exact absurd (congrArg Prod.fst pair).symm same
    | swapped => exact kept nofun (fun due => due.elim) rfl rfl
  · rw [quiet.record]
    refine kept (fun stores => ?_) (fun due => absurd due quiet.owes.2) rfl rfl
    exact absurd (stores ▸ trivial) quiet.owes.1

end Step

/-! ## Runs -/

/-- What every step of a recorded run keeps. -/
structure Kept (state : Tasks ι (ReadinessFlag ι) Place × Record ι) : Prop where
  disciplined : Disciplined state.1
  tracks : state.2.Tracks state.1.shared
  promised : Promised state.1
  settled : Settled state.1 state.2

omit [DecidableEq ι] in
theorem kept_start : Kept (start, (Record.empty : Record ι)) where
  disciplined := disciplined_start
  tracks := ⟨List.nodup_nil, fun _ => by simp [Record.empty, start, ReadinessFlag.new], nofun⟩
  promised := nofun
  settled := ⟨Nat.zero_le 1, List.prefix_rfl, fun some => absurd rfl some, fun _ due => due.elim⟩

theorem kept_of_step {state next : Tasks ι (ReadinessFlag ι) Place × Record ι} {event : ι × Action}
    (kept : Kept state) (recorded : recordedStep state event = some next) : Kept next := by
  obtain ⟨tasks, stepped, rfl⟩ := Option.map_eq_some_iff.mp recorded
  obtain ⟨moved, -⟩ := moved_of_step stepped
  exact ⟨disciplined_of_step kept.disciplined stepped, tracks_of_move kept.tracks moved,
    promised_of_step kept.disciplined kept.promised stepped,
    settled_of_step kept.disciplined kept.settled stepped⟩

/-- In every state that calls lead to, in whatever order they take their steps, the tokens in use
are distinct and not zero, and `mark_ready` has returned true once at most, to a call whose token
was in use. A step from there leaves a ready flag ready and gives no token to a call of `subscribe`;
a mark only finds a token that is in use; and `is_ready` makes the flag ready only where no token
is. -/
theorem singleUse_of_run {events : List (ι × Action)}
    {final : Tasks ι (ReadinessFlag ι) Place} (ran : run (step move) start events = some final) :
    ∃ record, run recordedStep (start, Record.empty) events = some (final, record) ∧
      record.Tracks final.shared ∧
      record.accepted.length ≤ 1 ∧ record.answered <+: record.accepted.map Prod.fst ∧
      ∀ event next, step move final event = some next →
        (final.shared.ready = true → next.shared.ready = true ∧
          ∀ token, next.place event.1 ≠ .returned (.subscribed (.ok token))) ∧
        (∀ token, final.place event.1 = .removeToken token → next.place event.1 = .storeReady →
          token ∈ record.live) ∧
        (final.shared.ready = false → next.shared.ready = true →
          final.place event.1 = .storeReady ∨
            (∃ caller, final.place event.1 = .swapReady caller) ∧ record.live = []) := by
  obtain ⟨record, recorded⟩ := exists_recorded recordedStep_map_fst ran Record.empty
  have kept : Kept (final, record) :=
    preserved_of_run (fun _ _ _ kept stepped => kept_of_step kept stepped) kept_start recorded
  refine ⟨record, recorded, kept.tracks, kept.settled.once, kept.settled.answered,
    fun event next stepped => ⟨fun ready => ⟨?_, fun token returned => ?_⟩,
      fun token stands stores => ?_, fun unready ready => ?_⟩⟩
  · exact ready_of_move (moved_of_step stepped).1 ready
  · have unready := kept.promised event.1 token
      (unlocks_of_subscribed (moved_of_step stepped).1 returned)
    exact absurd (ready.symm.trans unready) (by decide)
  · obtain ⟨moved, -⟩ := moved_of_step stepped
    rw [stands, stores] at moved
    obtain change | quiet := change_or_quiet_of_move moved
    · cases change with
      | accepted member => exact (kept.tracks.mem token).mpr member
    · exact absurd trivial quiet.owes.2
  · have turned : next.shared.ready ≠ final.shared.ready := by
      rw [unready, ready]
      decide
    obtain ⟨-, stores | ⟨caller, swaps⟩⟩ := holdsLock_of_ready (moved_of_step stepped).1 turned
    · exact .inl stores
    · refine .inr ⟨⟨caller, swaps⟩, List.eq_nil_iff_forall_not_mem.mpr fun token used => ?_⟩
      have none : final.shared.tokens = ∅ := by
        have knows := kept.disciplined.knows event.1
        rwa [swaps] at knows
      have member := (kept.tracks.mem token).mp used
      rw [none] at member
      exact Finset.notMem_empty token member

/-- Two tasks subscribe, and both mark the flag ready with their tokens. -/
def markTwice : List (Bool × Action) :=
  (false, .call .subscribe) :: List.replicate 5 (false, .proceed) ++
    (true, .call .subscribe) :: List.replicate 5 (true, .proceed) ++
    (false, .call (.markReady ⟨1⟩)) :: (true, .call (.markReady ⟨2⟩)) :: (true, .proceed) ::
      List.replicate 7 (false, .proceed) ++ List.replicate 3 (true, .proceed)

/-- The second one finds no token any more. -/
theorem singleUse_of_run_markTwice :
    ∃ final, run (step move) start markTwice = some final ∧
      final.place false = .returned (.marked (.ok true)) ∧
      final.place true = .returned (.marked (.ok false)) ∧
      ∃ record, run recordedStep (start, Record.empty) markTwice = some (final, record) ∧
        record.Tracks final.shared ∧ record.accepted.length ≤ 1 := by
  obtain ⟨record, recorded, tracks, once, -⟩ :=
    @singleUse_of_run Bool _ markTwice _ rfl
  exact ⟨_, rfl, rfl, rfl, record, recorded, tracks, once⟩

end CodexPilot.Readiness
