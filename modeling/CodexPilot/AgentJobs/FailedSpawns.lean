import CodexPilot.AgentJobs.Cancellation
import CodexPilot.AgentJobs.Items
import CodexPilot.AgentJobs.Reports

/-!
# Workers that cannot be spawned

An item is failed by an update that finds it running.  The item of a worker that could not be
spawned is still pending, so the update changes nothing, and the runner lists the item again.
-/

namespace CodexPilot.AgentJobs

open Tables Transitions

/-! ## The update that changes nothing -/

section Refused

variable {db : Database} {id : ItemId}

/-- An update that wants the item to be running leaves a pending one as it is. -/
theorem updateItem_of_isPending {condition : AgentJobItem → Bool}
    {change : AgentJobItem → AgentJobItem}
    (wants : ∀ row, condition row = true → row.status = .running)
    (pending : IsPending db.items id) : updateItem db id condition change = (false, db) := by
  obtain ⟨row, found, waits⟩ := pending
  obtain ⟨other, found', met, -⟩ | ⟨-, same⟩ := updateItem_cases db id condition change
  · cases found.symm.trans found'
    cases waits.symm.trans (wants row met)
  · exact same

theorem markAgentJobItemFailed_of_isPending (now : ℤ) (message : String)
    (pending : IsPending db.items id) : markAgentJobItemFailed db now id message = (false, db) :=
  updateItem_of_isPending (fun _ => of_decide_eq_true) pending

theorem markAgentJobItemPending_of_isPending (now : ℤ) (message : Option String)
    (pending : IsPending db.items id) : markAgentJobItemPending db now id message = (false, db) :=
  updateItem_of_isPending (fun _ => of_decide_eq_true) pending

end Refused

/-! ## Jobs without workers -/

/-- The job can go on, no item of it runs, and one of them waits. -/
structure Waiting (settings : Settings) (db : Database) : Prop where
  job : ∃ row, db.jobs.lookup settings.jobId = some row ∧ row.status ≠ .cancelled
  stopped : ∀ id row, id.jobId = settings.jobId → db.items.lookup id = some row →
    row.status ≠ .running
  waits : ∃ id row, id.jobId = settings.jobId ∧ db.items.lookup id = some row ∧
    row.status = .pending

/-- The places where the runner can be while it has no workers. -/
def Phase.idle : Phase → Bool
  | .building | .starting | .loading | .listingRunning | .checkingFirst | .checking
  | .listingPending | .spawning _ | .requeueing _ | .failingSpawn _ _ _ | .findingStale
  | .findingFinished | .deciding => true
  | .recovering rest => rest.isEmpty
  | .reaping rest => rest.isEmpty
  | _ => false

/-- The runner has no workers, and nobody has cancelled its job. -/
structure Idle (settings : Settings) (state : State) : Prop where
  waiting : Waiting settings state.db
  active : state.activeItems = ∅
  stopping : state.stopping = []
  uncancelled : state.cancelRequested = false
  listed : ∀ id ∈ state.phase.listed, IsPending state.db.items id
  phase : state.phase.idle = true

/-- No worker is spawned, and no call to the database fails. -/
def Spawnless : Event → Prop
  | .runner _ (.spawned _) | .runner _ (.error _) => False
  | _ => True

namespace Waiting

variable {settings : Settings} {db : Database}

theorem pendingItems_ne_zero (waiting : Waiting settings db) :
    (getAgentJobProgress db settings.jobId).pendingItems ≠ 0 := by
  obtain ⟨id, row, ofJob, found, waits⟩ := waiting.waits
  have counted : 0 < countItems db settings.jobId .pending :=
    List.countP_pos_iff.mpr ⟨⟨id, row⟩, AList.mem_lookup_iff.mp found, by simp [ofJob, waits]⟩
  exact Nat.ne_of_gt counted

theorem isAgentJobCancelled (waiting : Waiting settings db) :
    isAgentJobCancelled db settings.jobId = false := by
  obtain ⟨row, found, uncancelled⟩ := waiting.job
  simp [AgentJobs.isAgentJobCancelled, found, uncancelled]

/-- No item of the job is listed as running. -/
theorem listAgentJobItems_running (waiting : Waiting settings db) :
    listAgentJobItems db settings.jobId (some .running) none = [] := by
  refine List.eq_nil_iff_forall_not_mem.mpr fun item listed => ?_
  obtain ⟨found, ofJob, running⟩ := of_mem_listAgentJobItems listed
  exact waiting.stopped item.1 item.2 ofJob found (of_decide_eq_true running)

/-- An item is listed for a worker where there is room for one. -/
theorem listAgentJobItems_pending {slots : ℕ} (waiting : Waiting settings db) (room : 0 < slots) :
    listAgentJobItems db settings.jobId (some .pending) (some slots) ≠ [] := by
  obtain ⟨id, row, ofJob, found, waits⟩ := waiting.waits
  have ordered : (id, row) ∈ orderedItems db settings.jobId (some .pending) := by
    refine (List.perm_insertionSort _ _).mem_iff.mpr (List.mem_filter.mpr ⟨?_, ?_⟩)
    · exact List.mem_map.mpr ⟨⟨id, row⟩, AList.mem_lookup_iff.mp found, rfl⟩
    · simp [ofJob, waits]
  intro none
  rw [listAgentJobItems, Option.elim_some, List.take_eq_nil_iff] at none
  obtain zero | empty := none
  · exact absurd zero (Nat.ne_of_gt room)
  · exact List.ne_nil_of_mem ordered empty

/-- The runner goes on while an item waits. -/
theorem not_finished {state : State} (waiting : Waiting settings state.db)
    (uncancelled : state.cancelRequested = false) : finished settings state = false := by
  simp [finished, uncancelled, waiting.pendingItems_ne_zero]

theorem markAgentJobRunning (waiting : Waiting settings db) (now : ℤ) :
    Waiting settings (markAgentJobRunning db now settings.jobId) := by
  obtain ⟨row, found, -⟩ := waiting.job
  have same : (AgentJobs.markAgentJobRunning db now settings.jobId).items = db.items :=
    items_updateJob db settings.jobId _
  refine ⟨?_, same ▸ waiting.stopped, same ▸ waiting.waits⟩
  exact ⟨_, lookup_updateJob found _, AgentJobStatus.noConfusion⟩

end Waiting

/-- A job that has just been created with items waits for workers. -/
theorem waiting_of_createAgentJob {settings : Settings} {before db : Database} {now : ℤ}
    {maxRuntimeSeconds : Option ℕ} {item : AgentJobItemCreateParams}
    {items : List AgentJobItemCreateParams}
    (fresh : ∀ id, id.jobId = settings.jobId → before.items.lookup id = none)
    (created : createAgentJob before now settings.jobId maxRuntimeSeconds
      (item :: items) = some db) : Waiting settings db := by
  unfold createAgentJob at created
  split_ifs at created
  obtain ⟨inserted, insertion, rfl⟩ := Option.map_eq_some_iff.mp created
  refine ⟨⟨_, AList.lookup_insert _, AgentJobStatus.noConfusion⟩, ?_, ?_⟩
  · intro id row ofJob found
    obtain same | ⟨-, rowIndex, written⟩ :
        inserted.lookup id = before.items.lookup id ∨ _ ∧ ∃ rowIndex, _ = some _ :=
      lookup_insertItems insertion
    · cases (fresh id ofJob).symm.trans (same.symm.trans found)
    · cases written.symm.trans found
      exact AgentJobItemStatus.noConfusion
  · rw [insertItems] at insertion
    split_ifs at insertion
    have first : (before.items.insert ⟨settings.jobId, item.itemId⟩
        (createdItem now item.rowIndex)).lookup ⟨settings.jobId, item.itemId⟩ =
        some (createdItem now item.rowIndex) := AList.lookup_insert _
    obtain same | ⟨absent, -⟩ :
        inserted.lookup ⟨settings.jobId, item.itemId⟩ = _ ∨ _ = none ∧ ∃ rowIndex, _ = some _ :=
      lookup_insertItems insertion
    · exact ⟨_, _, rfl, same.trans first, rfl⟩
    · cases absent.symm.trans first

section Idle

variable {settings : Settings} {state next : State} {now : ℤ}

/-- The runner goes to another place and leaves everything else as it is. -/
theorem Idle.goto (idle : Idle settings state) {phase : Phase}
    (listed : ∀ id ∈ phase.listed, IsPending state.db.items id) (stays : phase.idle = true) :
    Idle settings (state.goto phase) :=
  ⟨idle.waiting, idle.active, idle.stopping, idle.uncancelled, listed, stays⟩

/-- The runner goes to a place without items for workers. -/
theorem Idle.goto_unlisted (idle : Idle settings state) {phase : Phase}
    (unlisted : phase.listed = [])
    (stays : phase.idle = true) : Idle settings (state.goto phase) := by
  refine idle.goto (fun id listed => ?_) stays
  rw [unlisted] at listed
  cases listed

/-- The runner looks for a cancellation and finds none. -/
theorem Idle.check (idle : Idle settings state) {phase : Phase} (unlisted : phase.listed = [])
    (stays : phase.idle = true) :
    Idle settings { state with
      cancelRequested := state.cancelRequested || isAgentJobCancelled state.db settings.jobId
      phase } := by
  have again := idle.goto_unlisted unlisted stays
  refine ⟨again.waiting, again.active, again.stopping, ?_, again.listed, again.phase⟩
  rw [idle.uncancelled, idle.waiting.isAgentJobCancelled]
  rfl

theorem Idle.pending (idle : Idle settings state) {item : ItemId} {rest : List ItemId}
    (listed : state.phase.listed = item :: rest) : IsPending state.db.items item :=
  idle.listed item (listed ▸ List.mem_cons_self)

theorem allActive_iff_of_empty (active : state.activeItems = ∅) (threads : List (String × ItemId)) :
    state.allActive threads = true ↔ threads = [] := by
  constructor
  · intro all
    rw [State.allActive, active] at all
    obtain ⟨-, each⟩ := Bool.and_eq_true_iff.mp all
    refine List.eq_nil_iff_forall_not_mem.mpr fun thread member => ?_
    have found := of_decide_eq_true (List.all_eq_true.mp each thread member)
    simp at found
  · rintro rfl
    rfl

/-- What the runner lists for workers is pending. -/
theorem isPending_of_mem_listed {db : Database} {limit : Option ℕ} {id : ItemId}
    (listed : id ∈ (listAgentJobItems db settings.jobId (some .pending) limit).map Prod.fst) :
    IsPending db.items id := by
  obtain ⟨item, member, rfl⟩ := List.mem_map.mp listed
  obtain ⟨found, -, pending⟩ := of_mem_listAgentJobItems member
  exact ⟨item.2, found, of_decide_eq_true pending⟩

/-- A step of a runner without workers that goes as it should. -/
theorem Idle.ok (idle : Idle settings state)
    (stepped : runnerStep settings state now .ok = some next) : Idle settings next := by
  have here := idle.phase
  have pending := idle.listed
  cases phase : state.phase with
  | building =>
      simp only [runnerStep, phase] at stepped
      cases stepped
      exact idle.goto_unlisted rfl rfl
  | starting =>
      simp only [runnerStep, phase] at stepped
      cases stepped
      exact ⟨idle.waiting.markAgentJobRunning now, idle.active, idle.stopping,
        idle.uncancelled, fun _ listed => (nomatch listed), rfl⟩
  | loading =>
      obtain ⟨row, found, -⟩ := idle.waiting.job
      simp only [runnerStep, phase, found] at stepped
      cases stepped
      exact idle.goto_unlisted rfl rfl
  | listingRunning =>
      simp only [runnerStep, phase, idle.waiting.listAgentJobItems_running] at stepped
      cases stepped
      exact idle.goto_unlisted rfl rfl
  | recovering rest =>
      rw [phase] at here
      obtain rfl := List.isEmpty_iff.mp here
      simp only [runnerStep, phase] at stepped
      cases stepped
      exact idle.goto_unlisted rfl rfl
  | checkingFirst | checking =>
      simp only [runnerStep, phase] at stepped
      cases stepped
      exact idle.check rfl rfl
  | listingPending =>
      simp only [runnerStep, phase] at stepped
      split at stepped
      case isTrue =>
        cases stepped
        exact idle.goto (fun id listed => isPending_of_mem_listed listed) rfl
      case isFalse =>
        cases stepped
        exact idle.goto_unlisted rfl rfl
  | spawning rest =>
      simp only [runnerStep, phase] at stepped
      cases rest with
      | nil =>
          cases stepped
          exact idle.goto_unlisted rfl rfl
      | cons item rest => cases stepped
  | requeueing item =>
      have refused := markAgentJobItemPending_of_isPending now none
        (idle.pending (congrArg Phase.listed phase))
      simp only [runnerStep, phase, refused] at stepped
      cases stepped
      exact idle.goto_unlisted rfl rfl
  | failingSpawn item message rest =>
      have refused := markAgentJobItemFailed_of_isPending now message
        (idle.pending (congrArg Phase.listed phase))
      rw [phase] at pending
      simp only [runnerStep, phase, refused] at stepped
      cases stepped
      exact idle.goto (fun id listed => pending id (List.mem_cons_of_mem item listed)) rfl
  | reaping rest =>
      rw [phase] at here
      obtain rfl := List.isEmpty_iff.mp here
      simp only [runnerStep, phase] at stepped
      cases stepped
      exact idle.goto_unlisted rfl rfl
  | deciding =>
      have unfinished := idle.waiting.not_finished idle.uncancelled
      simp only [runnerStep, phase, unfinished] at stepped
      cases stepped
      exact idle.goto_unlisted rfl rfl
  | findingStale | findingFinished =>
      simp only [runnerStep, phase] at stepped
      cases stepped
  | _ =>
      rw [phase] at here
      cases here

/-- The runner asks which workers are stale or have finished, and there are none. -/
theorem Idle.found {threads : List (String × ItemId)} (idle : Idle settings state)
    (stepped : runnerStep settings state now (.found threads) = some next) :
    Idle settings next := by
  cases phase : state.phase with
  | findingStale =>
      simp only [runnerStep, phase] at stepped
      split at stepped
      case isTrue all =>
        cases stepped
        obtain rfl := (allActive_iff_of_empty idle.active threads).mp all
        exact idle.goto_unlisted rfl rfl
      case isFalse => cases stepped
  | findingFinished =>
      simp only [runnerStep, phase] at stepped
      split_ifs at stepped with none all
      · cases stepped
        exact idle.goto_unlisted rfl rfl
      · exact absurd ((allActive_iff_of_empty idle.active threads).mp all) none
  | recovering rest | spawning rest | reaping rest | finishing rest =>
      cases rest <;> simp only [runnerStep, phase] at stepped <;> cases stepped
  | _ =>
      simp only [runnerStep, phase] at stepped
      cases stepped

/-- The worker of an item is not spawned. -/
theorem Idle.unspawned {item : ItemId} {rest : List ItemId} {outcome : Outcome}
    (idle : Idle settings state) (phase : state.phase = .spawning (item :: rest))
    (spawnless : Spawnless (.runner now outcome))
    (stepped : runnerStep settings state now outcome = some next) : Idle settings next := by
  have pending := idle.listed
  rw [phase] at pending
  cases outcome with
  | limitReached =>
      simp only [runnerStep, phase] at stepped
      cases stepped
      refine idle.goto (fun id listed => pending id ?_) rfl
      obtain rfl := List.mem_singleton.mp listed
      exact List.mem_cons_self
  | spawnFailed message =>
      simp only [runnerStep, phase] at stepped
      cases stepped
      exact idle.goto pending rfl
  | spawned | error => exact spawnless.elim
  | ok | recovered | found | exportFailed =>
      simp only [runnerStep, phase] at stepped
      cases stepped

/-- Without a worker the runner stays without one. -/
theorem Idle.runner {outcome : Outcome} (idle : Idle settings state)
    (spawnless : Spawnless (.runner now outcome))
    (stepped : runnerStep settings state now outcome = some next) : Idle settings next := by
  have here := idle.phase
  cases outcome with
  | ok => exact idle.ok stepped
  | found threads => exact idle.found stepped
  | spawned | error => exact spawnless.elim
  | limitReached | spawnFailed | recovered | exportFailed =>
      cases phase : state.phase with
      | spawning rest =>
          cases rest with
          | nil =>
              simp only [runnerStep, phase] at stepped
              cases stepped
          | cons item rest => exact idle.unspawned phase spawnless stepped
      | recovering rest | reaping rest =>
          rw [phase] at here
          obtain rfl := List.isEmpty_iff.mp here
          simp only [runnerStep, phase] at stepped
          cases stepped
      | exporting | finishing =>
          rw [phase] at here
          cases here
      | _ =>
          simp only [runnerStep, phase] at stepped
          cases stepped

/-- No item of the job runs, so no report counts. -/
theorem Idle.report (idle : Idle settings state) (threadId itemId resultJson : String)
    (stop : Bool) :
    Idle settings (reportStep settings state now threadId itemId resultJson stop) := by
  have refused :
      reportAgentJobItemResult state.db now ⟨settings.jobId, itemId⟩ threadId resultJson =
        (false, state.db) := by
    obtain ⟨row, found, met, -⟩ | ⟨-, same⟩ := updateItem_cases state.db ⟨settings.jobId, itemId⟩
      (fun row => row.status = .running && row.assignedThreadId = some threadId) _
    · have running := of_decide_eq_true (Bool.and_eq_true_iff.mp met).1
      exact absurd running (idle.waiting.stopped _ row rfl found)
    · exact same
  have db : (reportStep settings state now threadId itemId resultJson stop).db = state.db :=
    congrArg Prod.snd refused
  have stopping :
      (reportStep settings state now threadId itemId resultJson stop).stopping = [] := by
    simp only [reportStep, refused, Bool.false_and]
    exact idle.stopping
  exact ⟨db ▸ idle.waiting, idle.active, stopping, idle.uncancelled, db ▸ idle.listed, idle.phase⟩

theorem Idle.step {event : Event} (idle : Idle settings state) (spawnless : Spawnless event)
    (stepped : step settings state event = some next) : Idle settings next := by
  cases event with
  | runner now outcome => exact idle.runner spawnless stepped
  | report now threadId itemId resultJson stop =>
      cases stepped
      exact idle.report threadId itemId resultJson stop
  | cancel now threadId =>
      simp [AgentJobs.step, cancelStep, idle.stopping] at stepped

/-- The runner never leaves its loop while no worker is spawned. -/
theorem idle_of_run {db : Database} {events : List Event} (waiting : Waiting settings db)
    (spawnless : ∀ event ∈ events, Spawnless event)
    (ran : run (AgentJobs.step settings) (State.start db) events = some state) :
    Idle settings state := by
  have start : Idle settings (State.start db) := ⟨waiting, rfl, rfl, rfl, nofun, rfl⟩
  exact invariant_of_run (fun _ _ _ idle met stepped => idle.step met stepped) start
    (along_of_forall_mem spawnless _) ran

end Idle

/-! ## A round of the loop -/

/-- The spawn of every item fails. -/
def failSpawns (now : ℤ) (message : String) (items : List ItemId) : List Event :=
  items.flatMap fun _ => [.runner now (.spawnFailed message), .runner now .ok]

/-- One round of the loop, in which the spawn of every listed item fails. -/
def failedRound (now : ℤ) (message : String) (items : List ItemId) : List Event :=
  [.runner now .ok, .runner now .ok] ++ failSpawns now message items ++
    [.runner now .ok, .runner now (.found []), .runner now .ok, .runner now (.found []),
      .runner now .ok]

/-- The failed attempts to spawn a worker. -/
def failedSpawns (events : List Event) : ℕ :=
  events.countP fun
    | .runner _ (.spawnFailed _) => true
    | _ => false

section Round

variable {settings : Settings} {state : State} {now : ℤ} {message : String}

theorem failedSpawns_failSpawns (items : List ItemId) :
    failedSpawns (failSpawns now message items) = items.length := by
  induction items with
  | nil => rfl
  | cons item items ih =>
      rw [failedSpawns, failSpawns] at ih
      simp [failedSpawns, failSpawns, ih]

theorem spawnless_failedRound (items : List ItemId) :
    ∀ event ∈ failedRound now message items, Spawnless event := by
  intro event member
  simp only [failedRound, failSpawns, List.mem_append, List.mem_flatMap, List.mem_cons,
    List.not_mem_nil, or_false] at member
  obtain ((rfl | rfl) | ⟨_, _, rfl | rfl⟩) | rfl | rfl | rfl | rfl | rfl := member <;> trivial

/-- One attempt after the other fails, and nothing changes. -/
theorem run_failSpawns (items : List ItemId) (pending : ∀ id ∈ items, IsPending state.db.items id) :
    run (step settings) (state.goto (.spawning items)) (failSpawns now message items) =
      some (state.goto (.spawning [])) := by
  induction items with
  | nil => rfl
  | cons item items ih =>
      have later := ih fun id member => pending id (List.mem_cons_of_mem item member)
      have failed :
          markAgentJobItemFailed state.db now item ("failed to spawn worker: " ++ message) =
            (false, state.db) :=
        markAgentJobItemFailed_of_isPending now _ (pending item List.mem_cons_self)
      have spawned : step settings (state.goto (.spawning (item :: items)))
          (.runner now (.spawnFailed message)) =
            some (state.goto (.failingSpawn item ("failed to spawn worker: " ++ message) items)) :=
        rfl
      have marked : step settings
          (state.goto (.failingSpawn item ("failed to spawn worker: " ++ message) items))
          (.runner now .ok) = some (state.goto (.spawning items)) := by
        simp only [step, runnerStep, State.goto, failed, State.write]
      change run (step settings) _ (.runner now (.spawnFailed message) :: .runner now .ok ::
        failSpawns now message items) = _
      rw [run_cons, spawned, Option.bind_some, run_cons, marked, Option.bind_some]
      exact later

theorem goto_of_phase {phase : Phase} (here : state.phase = phase) : state.goto phase = state := by
  cases state
  cases here
  rfl

/-- A round of the loop ends where it began. -/
theorem run_failedRound (idle : Idle settings state) (checking : state.phase = .checking)
    (room : 0 < settings.maxConcurrency) :
    run (step settings) state (failedRound now message
        ((listAgentJobItems state.db settings.jobId (some .pending)
          (some settings.maxConcurrency)).map Prod.fst)) = some state := by
  generalize ids : (listAgentJobItems state.db settings.jobId (some .pending)
    (some settings.maxConcurrency)).map Prod.fst = listed
  have pending : ∀ id ∈ listed, IsPending state.db.items id :=
    fun id member => isPending_of_mem_listed (ids ▸ member)
  have checked : step settings state (.runner now .ok) = some (state.goto .listingPending) := by
    simp [step, runnerStep, checking, State.goto, idle.uncancelled,
      idle.waiting.isAgentJobCancelled]
  have picked : step settings (state.goto .listingPending) (.runner now .ok) =
      some (state.goto (.spawning listed)) := by
    simp [step, runnerStep, State.goto, idle.uncancelled, idle.active, room, ← ids]
  have front : run (step settings) state [.runner now .ok, .runner now .ok] =
      some (state.goto (.spawning listed)) := by
    rw [run_cons, checked, Option.bind_some, run_cons, picked, Option.bind_some, run_nil]
  have decided : step settings (state.goto .deciding) (.runner now .ok) = some state := by
    have goes : finished settings (state.goto .deciding) = false :=
      idle.waiting.not_finished idle.uncancelled
    have moves : step settings (state.goto .deciding) (.runner now .ok) =
        some (state.goto (if finished settings (state.goto .deciding) then .exporting
          else .checking)) := rfl
    rw [moves, goes, if_neg Bool.false_ne_true, goto_of_phase checking]
  have reaps : run (step settings) (state.goto (.spawning []))
      [.runner now .ok, .runner now (.found []), .runner now .ok, .runner now (.found [])] =
      some (state.goto .deciding) := rfl
  have back : run (step settings) (state.goto (.spawning []))
      ([.runner now .ok, .runner now (.found []), .runner now .ok, .runner now (.found [])] ++
        [.runner now .ok]) = some state := by
    rw [run_append, reaps, Option.bind_some, run_cons, decided, Option.bind_some, run_nil]
  rw [failedRound, run_append, run_append, front, Option.bind_some, run_failSpawns listed pending,
    Option.bind_some]
  exact back

theorem failedSpawns_append (before after : List Event) :
    failedSpawns (before ++ after) = failedSpawns before + failedSpawns after :=
  List.countP_append

/-- The runner of a job without workers tries to spawn one as often as one likes. -/
theorem exists_run_failedSpawns (idle : Idle settings state) (checking : state.phase = .checking)
    (room : 0 < settings.maxConcurrency) (attempts : ℕ) :
    ∃ events, (∀ event ∈ events, Spawnless event) ∧
      run (step settings) state events = some state ∧ attempts ≤ failedSpawns events := by
  induction attempts with
  | zero => exact ⟨[], nofun, rfl, le_rfl⟩
  | succ attempts ih =>
      obtain ⟨events, spawnless, ran, enough⟩ := ih
      have round := @run_failedRound _ _ 0 "" idle checking room
      generalize ids : (listAgentJobItems state.db settings.jobId (some .pending)
        (some settings.maxConcurrency)).map Prod.fst = listed at round
      have some : 0 < listed.length := by
        rw [← ids, List.length_map]
        exact List.length_pos_of_ne_nil (idle.waiting.listAgentJobItems_pending room)
      refine ⟨events ++ failedRound 0 "" listed, ?_, ?_, ?_⟩
      · intro event member
        obtain earlier | later := List.mem_append.mp member
        · exact spawnless event earlier
        · exact spawnless_failedRound listed event later
      · rw [run_append, ran]
        exact round
      · rw [failedSpawns_append, failedRound, failedSpawns_append, failedSpawns_append,
          failedSpawns_failSpawns]
        omega

end Round

/-! ## What becomes of a failed spawn -/

/-- The runner reaches its loop. -/
theorem run_start {settings : Settings} {db : Database} (waiting : Waiting settings db) (now : ℤ) :
    ∃ state, run (step settings) (State.start db)
      (List.replicate 6 (.runner now .ok)) = some state ∧
      state.phase = .checking := by
  let running := (State.start db).write (markAgentJobRunning db now settings.jobId) .loading
  have waits : Waiting settings running.db := waiting.markAgentJobRunning now
  have loaded : step settings running (.runner now .ok) = some (running.goto .listingRunning) := by
    obtain ⟨row, found, -⟩ := waits.job
    have moves : step settings running (.runner now .ok) =
        if (running.db.jobs.lookup settings.jobId).isSome then some (running.goto .listingRunning)
        else some (running.goto (.failing ("agent job " ++ settings.jobId ++ " was not found"))) :=
          rfl
    rw [moves, found, Option.isSome_some, if_pos rfl]
  have listed : step settings (running.goto .listingRunning) (.runner now .ok) =
      some (running.goto (.recovering [])) := by
    have moves : step settings (running.goto .listingRunning) (.runner now .ok) =
        some (running.goto (.recovering
          (listAgentJobItems running.db settings.jobId (some .running) none))) := rfl
    rw [moves, waits.listAgentJobItems_running]
  have ran : run (step settings) (State.start db) [.runner now .ok, .runner now .ok] =
      some running := rfl
  let checked : State := { running with
    cancelRequested := false || isAgentJobCancelled running.db settings.jobId
    phase := .checking }
  have reached : run (step settings) (running.goto (.recovering []))
      [.runner now .ok, .runner now .ok] = some checked := rfl
  refine ⟨checked, ?_, rfl⟩
  change run (step settings) (State.start db) ([.runner now .ok, .runner now .ok] ++
    [.runner now .ok, .runner now .ok, .runner now .ok, .runner now .ok]) = _
  rw [run_append, ran, Option.bind_some, run_cons, loaded, Option.bind_some, run_cons, listed,
    Option.bind_some]
  exact reached

/-- A failed spawn is never recorded: the item stays pending, the job does not end, and the number
of attempts has no bound. -/
theorem failedSpawns_unrecorded (settings : Settings) (db : Database) :
    (∀ events state item message rest now,
      run (step settings) (State.start db) events = some state →
      state.phase = .failingSpawn item message rest →
      ∃ next, step settings state (.runner now .ok) = some next ∧ next.db = state.db ∧
        IsPending next.db.items item) ∧
    (Waiting settings db → 0 < settings.maxConcurrency →
      (∀ events state, (∀ event ∈ events, Spawnless event) →
        run (step settings) (State.start db) events = some state → state.phase.idle = true) ∧
      ∀ attempts, ∃ events state, (∀ event ∈ events, Spawnless event) ∧
        run (step settings) (State.start db) events = some state ∧
        attempts ≤ failedSpawns events) := by
  refine ⟨?_, fun waiting room => ⟨?_, fun attempts => ?_⟩⟩
  · intro events state item message rest now ran phase
    have tracked : Tracked state :=
      preserved_of_run (fun _ _ _ tracked stepped => tracked.step stepped) (tracked_start db) ran
    have pending : IsPending state.db.items item :=
      tracked.listed item (phase ▸ List.mem_cons_self)
    refine ⟨state.goto (.spawning rest), ?_, rfl, pending⟩
    simp only [step, runnerStep, phase, markAgentJobItemFailed_of_isPending now message pending]
    rfl
  · intro events state spawnless ran
    exact (idle_of_run waiting spawnless ran).phase
  · obtain ⟨state, started, checking⟩ := run_start waiting 0
    have spawnless : ∀ event ∈ List.replicate 6 (Event.runner 0 .ok), Spawnless event := by
      intro event member
      rw [List.eq_of_mem_replicate member]
      trivial
    have idle := idle_of_run waiting spawnless started
    obtain ⟨events, later, ran, enough⟩ := exists_run_failedSpawns idle checking room attempts
    refine ⟨List.replicate 6 (.runner 0 .ok) ++ events, state, ?_, ?_, ?_⟩
    · intro event member
      obtain first | second := List.mem_append.mp member
      · exact spawnless event first
      · exact later event second
    · rw [run_append, started]
      exact ran
    · rw [failedSpawns_append]
      exact enough.trans (Nat.le_add_left _ _)

/-- The runner starts its job, and the spawn of the first worker fails. -/
def failFirst : List Event :=
  List.replicate 8 (.runner 1 .ok) ++ [.runner 1 (.spawnFailed "no model")]

theorem waiting_oneItem : Waiting ⟨"job", 1, "timeout"⟩ oneItem := by
  have created : createAgentJob ⟨∅, ∅⟩ 0 "job" none [⟨"item", 0⟩] = some oneItem := rfl
  exact waiting_of_createAgentJob (fun _ _ => rfl) created

theorem failedSpawns_unrecorded_failFirst :
    (∃ state next, run (step ⟨"job", 1, "timeout"⟩) (State.start oneItem) failFirst = some state ∧
      step ⟨"job", 1, "timeout"⟩ state (.runner 1 .ok) = some next ∧
      IsPending next.db.items ⟨"job", "item"⟩) ∧
    ∃ events state, run (step ⟨"job", 1, "timeout"⟩) (State.start oneItem) events = some state ∧
      state.phase.idle = true ∧ 2 ≤ failedSpawns events := by
  obtain ⟨pending, spins⟩ := failedSpawns_unrecorded ⟨"job", 1, "timeout"⟩ oneItem
  obtain ⟨stays, unbounded⟩ := spins waiting_oneItem Nat.one_pos
  constructor
  · have reaches :
      (run (step ⟨"job", 1, "timeout"⟩) (State.start oneItem) failFirst).map State.phase =
        some (.failingSpawn ⟨"job", "item"⟩ "failed to spawn worker: no model" []) := by
      decide
    obtain ⟨state, ran, phase⟩ := Option.map_eq_some_iff.mp reaches
    obtain ⟨next, stepped, -, waits⟩ := pending failFirst state _ _ _ 1 ran phase
    exact ⟨state, next, ran, stepped, waits⟩
  · obtain ⟨events, state, spawnless, ran, enough⟩ := unbounded 2
    exact ⟨events, state, ran, stays events state spawnless ran, enough⟩

/-- The item of the failed spawn is pending afterwards, without an error. -/
theorem spawn_failure_lost :
    ((run (step ⟨"job", 1, "timeout"⟩) (State.start oneItem)
      (failFirst ++ [.runner 2 .ok])).bind fun state =>
        (state.db.items.lookup ⟨"job", "item"⟩).map fun row => (row.status, row.lastError)) =
      some (.pending, none) := by
  decide

end CodexPilot.AgentJobs
