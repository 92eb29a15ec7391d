import CodexPilot.AgentJobs.Runner

/-!
# Reports of workers

A worker is spawned before its thread is written to its item.  Its report is accepted, unless the
item has ended, exactly when it comes after that.
-/

namespace CodexPilot.AgentJobs

open Tables Transitions

/-! ## What a step does to items and workers -/

/-- The rows that change were running and have ended. -/
def OnlyEnds (before after : Table ItemId AgentJobItem) : Prop :=
  ∀ id, after.lookup id = before.lookup id ∨
    ∃ row ended, before.lookup id = some row ∧ row.status = .running ∧
      after.lookup id = some ended ∧ ended.status.isFinal = true

namespace OnlyEnds

variable {items : Table ItemId AgentJobItem} {db : Database} {now : ℤ} {id : ItemId}

theorem refl : OnlyEnds items items := fun _ => .inl rfl

theorem updateItem {condition : AgentJobItem → Bool} {change : AgentJobItem → AgentJobItem}
    (running : ∀ row, condition row = true → row.status = .running)
    (final : ∀ row, (change row).status.isFinal = true) :
    OnlyEnds db.items (updateItem db id condition change).2.items := by
  intro other
  obtain ⟨row, found, met, updated⟩ | ⟨_, refused⟩ := updateItem_cases db id condition change
  · rw [updated]
    obtain rfl | apart := eq_or_ne other id
    · exact .inr ⟨row, change row, found, running row met, AList.lookup_insert _, final row⟩
    · exact .inl (AList.lookup_insert_ne apart)
  · rw [refused]
    exact .inl rfl

theorem markAgentJobItemFailed (message : String) :
    OnlyEnds db.items (markAgentJobItemFailed db now id message).2.items :=
  updateItem (fun _ => of_decide_eq_true) fun _ => rfl

theorem markAgentJobItemCompleted :
    OnlyEnds db.items (markAgentJobItemCompleted db now id).2.items :=
  updateItem (fun _ met => of_decide_eq_true (Bool.and_eq_true_iff.mp met).1) fun _ => rfl

theorem reportAgentJobItemResult (threadId resultJson : String) :
    OnlyEnds db.items (reportAgentJobItemResult db now id threadId resultJson).2.items :=
  updateItem (fun _ met => of_decide_eq_true (Bool.and_eq_true_iff.mp met).1) fun _ => rfl

end OnlyEnds

@[simp]
theorem items_updateJob (db : Database) (jobId : String) (change : AgentJob → AgentJob) :
    (updateJob db jobId change).items = db.items := by
  unfold updateJob
  split <;> rfl

@[simp]
theorem items_markAgentJobCancelled (db : Database) (now : ℤ) (jobId reason : String) :
    (markAgentJobCancelled db now jobId reason).2.items = db.items := by
  unfold markAgentJobCancelled
  split <;> rfl

/-- The pending items that the runner is about to give to workers. -/
def Phase.listed : Phase → List ItemId
  | .spawning rest => rest
  | .assigning _ item rest | .failingSpawn item _ rest => item :: rest
  | .requeueing item => [item]
  | _ => []

@[simp]
theorem Continuation.listed_phase (continuation : Continuation) :
    continuation.phase.listed = [] := by
  cases continuation <;> rfl

/-- The runner has left its loop by an error. -/
def Phase.stopped : Phase → Bool
  | .failing _ | .done => true
  | _ => false

/-- The runner is between spawning a worker and writing its thread to the item. -/
def Phase.assigns : Phase → Bool
  | .assigning _ _ _ => true
  | _ => false

/-- A step that neither spawns a worker nor assigns an item. -/
structure Quiet (state next : State) : Prop where
  items : OnlyEnds state.db.items next.db.items
  workers : next.workers = state.workers
  reports : next.reports = state.reports
  listed : next.phase.listed.Sublist state.phase.listed ∨
    (next.phase.listed.Nodup ∧ ∀ id ∈ next.phase.listed,
      ∃ row, next.db.items.lookup id = some row ∧ row.status = .pending)
  stopped : state.phase.assigns || state.phase.stopped → next.phase.stopped

section RunnerStep

variable {settings : Settings} {state next : State} {now : ℤ} {outcome : Outcome}

/-- A step that leaves the items alone and has no items listed. -/
theorem quiet_of_unlisted (items : next.db.items = state.db.items)
    (workers : next.workers = state.workers) (reports : next.reports = state.reports)
    (listed : next.phase.listed = [])
    (stopped : state.phase.assigns || state.phase.stopped → next.phase.stopped) :
    Quiet state next :=
  ⟨items ▸ .refl, workers, reports, .inl (listed ▸ List.nil_sublist _), stopped⟩

/-- A step that ends an item at most, and goes on with items that were listed. -/
theorem quiet_of_onlyEnds (items : OnlyEnds state.db.items next.db.items)
    (workers : next.workers = state.workers) (reports : next.reports = state.reports)
    (listed : next.phase.listed.Sublist state.phase.listed)
    (moves : (state.phase.assigns || state.phase.stopped) = false) : Quiet state next :=
  ⟨items, workers, reports, .inl listed, fun stays => by simp [moves] at stays⟩

theorem quiet_recoverItem {id : ItemId} {item : AgentJobItem} {rest : List (ItemId × AgentJobItem)}
    (phase : state.phase = .recovering ((id, item) :: rest)) (recovery : Recovery) :
    Quiet state (recoverItem settings state now id item recovery rest) := by
  have moves : (state.phase.assigns || state.phase.stopped) = false := by rw [phase]; rfl
  have failed : ∀ message, Quiet state
      (state.write (markAgentJobItemFailed state.db now id message).2 (.recovering rest)) :=
    fun message => quiet_of_onlyEnds (.markAgentJobItemFailed message) rfl rfl
      (List.nil_sublist _) moves
  unfold recoverItem
  split
  · exact failed _
  · exact failed _
  · exact failed _
  all_goals exact quiet_of_onlyEnds .refl rfl rfl (List.nil_sublist _) moves

/-- The items that are listed for workers are pending, and none is listed twice. -/
theorem quiet_listing {slots : ℕ} (phase : state.phase = .listingPending) :
    let pending := listAgentJobItems state.db settings.jobId (some .pending) (some slots)
    Quiet state (state.goto (.spawning (pending.map Prod.fst))) := by
  refine ⟨.refl, rfl, rfl, .inr ⟨nodup_listAgentJobItems, fun id listed => ?_⟩, ?_⟩
  · obtain ⟨⟨id, row⟩, member, rfl⟩ := List.mem_map.mp listed
    obtain ⟨found, _, pending⟩ := of_mem_listAgentJobItems member
    exact ⟨row, found, of_decide_eq_true pending⟩
  · simp [phase, Phase.assigns, Phase.stopped]

/-- What the step after `spawn_agent` does. -/
structure Assigns (state : State) (now : ℤ) (threadId : String) (item : ItemId) (rest : List ItemId)
    (next : State) : Prop where
  db : next.db = (markAgentJobItemRunningWithThread state.db now item threadId).2
  workers : next.workers = state.workers.map fun worker =>
    if worker.threadId = threadId ∧ worker.item = item then { worker with assigned := true }
    else worker
  reports : next.reports = state.reports
  phase : next.phase = .spawning rest

/-- A step of the runner spawns a worker, assigns its item, puts an item back, or is quiet. -/
theorem runnerStep_cases (stepped : runnerStep settings state now outcome = some next) :
    (∃ threadId item rest, state.phase = .spawning (item :: rest) ∧
      next = { state with
        workers := ⟨threadId, item, false⟩ :: state.workers
        phase := .assigning threadId item rest }) ∨
    (∃ threadId item rest, state.phase = .assigning threadId item rest ∧
      Assigns state now threadId item rest next) ∨
    (∃ item, state.phase = .requeueing item ∧
      next = state.write (markAgentJobItemPending state.db now item none).2 .findingStale) ∨
    Quiet state next := by
  unfold runnerStep at stepped
  dsimp only at stepped
  split at stepped
  -- Most steps leave the items alone.
  all_goals try
    ((try split_ifs at stepped) <;> cases stepped <;> refine .inr (.inr (.inr ?_)) <;>
      refine quiet_of_unlisted ?_ rfl rfl ?_ ?_ <;>
      simp [State.goto, State.write, State.deactivate, markAgentJobFailed, markAgentJobCompleted,
        markAgentJobRunning, Phase.listed, Phase.assigns, Phase.stopped, *]
     done)
  next phase => exact .inr (.inr (.inr (Option.some.inj stepped ▸ quiet_recoverItem phase _)))
  next phase =>
    split_ifs at stepped <;> cases stepped <;> refine .inr (.inr (.inr ?_))
    · exact quiet_listing phase
    · refine quiet_of_unlisted rfl rfl rfl rfl ?_
      simp [phase, Phase.assigns, Phase.stopped]
  next item rest threadId phase =>
    split_ifs at stepped
    cases stepped
    exact .inl ⟨threadId, item, rest, phase, rfl⟩
  next item rest phase =>
    cases stepped
    refine .inr (.inr (.inr (quiet_of_onlyEnds .refl rfl rfl ?_ (by rw [phase]; rfl))))
    rw [phase]
    exact (List.nil_sublist rest).cons_cons item
  next item rest message phase =>
    cases stepped
    refine .inr (.inr (.inr (quiet_of_onlyEnds .refl rfl rfl ?_ (by rw [phase]; rfl))))
    rw [phase]
    exact .refl _
  next threadId item rest phase =>
    refine .inr (.inl ⟨threadId, item, rest, phase, ?_⟩)
    split_ifs at stepped <;> cases stepped <;> exact ⟨rfl, rfl, rfl, rfl⟩
  next item phase =>
    cases stepped
    exact .inr (.inr (.inl ⟨item, phase, rfl⟩))
  next item message rest phase =>
    cases stepped
    refine .inr (.inr (.inr (quiet_of_onlyEnds (.markAgentJobItemFailed message) rfl rfl ?_
      (by rw [phase]; rfl))))
    rw [phase]
    exact List.sublist_cons_self item rest
  next threadId item rest phase =>
    cases stepped
    exact .inr (.inr (.inr (quiet_of_onlyEnds (.markAgentJobItemFailed _) rfl rfl
      (List.nil_sublist _) (by rw [phase]; rfl))))
  next item continuation phase =>
    have moves : (state.phase.assigns || state.phase.stopped) = false := by rw [phase]; rfl
    refine .inr (.inr (.inr ?_))
    split at stepped
    · cases stepped
      exact quiet_of_onlyEnds .refl rfl rfl (List.nil_sublist _) moves
    · split_ifs at stepped <;> cases stepped
      · exact quiet_of_onlyEnds .refl rfl rfl (List.nil_sublist _) moves
      · exact quiet_of_onlyEnds .refl rfl rfl (by simp [State.goto]) moves
  next item hasResult continuation phase =>
    have moves : (state.phase.assigns || state.phase.stopped) = false := by rw [phase]; rfl
    cases stepped
    refine .inr (.inr (.inr (quiet_of_onlyEnds ?_ rfl rfl (by simp [State.write]) moves)))
    cases hasResult
    · exact .markAgentJobItemFailed _
    · exact .markAgentJobItemCompleted

end RunnerStep

/-! ## Rows of items with workers -/

/-- The item waits. -/
def IsPending (items : Table ItemId AgentJobItem) (id : ItemId) : Prop :=
  ∃ row, items.lookup id = some row ∧ row.status = .pending

/-- The item is done. -/
def IsCompleted (items : Table ItemId AgentJobItem) (id : ItemId) : Prop :=
  ∃ row, items.lookup id = some row ∧ row.status = .completed

/-- The item runs in a thread, or it has ended. -/
def RunsInOrEnded (items : Table ItemId AgentJobItem) (id : ItemId) (threadId : String) : Prop :=
  ∃ row, items.lookup id = some row ∧
    (row.status.isFinal = true ∨ (row.status = .running ∧ row.assignedThreadId = some threadId))

/-- The rows of the items that workers were spawned for, and of those that are about to get one. -/
structure Tracked (state : State) : Prop where
  assigned : ∀ worker ∈ state.workers, worker.assigned = true →
    RunsInOrEnded state.db.items worker.item worker.threadId
  unassigned : ∀ worker ∈ state.workers, worker.assigned = false →
    IsPending state.db.items worker.item
  assigning : ∀ worker ∈ state.workers, worker.assigned = false →
    (∃ rest, state.phase = .assigning worker.threadId worker.item rest) ∨
      state.phase.stopped = true
  listed : ∀ id ∈ state.phase.listed, IsPending state.db.items id
  nodup : state.phase.listed.Nodup
  accepted : ∀ report ∈ state.reports, report.accepted = true →
    IsCompleted state.db.items report.item

section Rows

variable {before after : Table ItemId AgentJobItem} {id other : ItemId} {threadId : String}

theorem IsPending.of_onlyEnds (ends : OnlyEnds before after) (pending : IsPending before id) :
    IsPending after id := by
  obtain ⟨row, found, waits⟩ := pending
  obtain same | ⟨_, _, found', running, _⟩ := ends id
  · exact ⟨row, same.trans found, waits⟩
  · cases found.symm.trans found'
    cases waits.symm.trans running

theorem IsCompleted.of_onlyEnds (ends : OnlyEnds before after) (completed : IsCompleted before id) :
    IsCompleted after id := by
  obtain ⟨row, found, done⟩ := completed
  obtain same | ⟨_, _, found', running, _⟩ := ends id
  · exact ⟨row, same.trans found, done⟩
  · cases found.symm.trans found'
    cases done.symm.trans running

theorem RunsInOrEnded.of_onlyEnds (ends : OnlyEnds before after)
    (runs : RunsInOrEnded before id threadId) : RunsInOrEnded after id threadId := by
  obtain ⟨row, found, state⟩ := runs
  obtain same | ⟨_, ended, _, _, written, final⟩ := ends id
  · exact ⟨row, same.trans found, state⟩
  · exact ⟨ended, written, .inl final⟩

theorem RunsInOrEnded.not_isPending (runs : RunsInOrEnded before id threadId) :
    ¬ IsPending before id := by
  rintro ⟨row, found, pending⟩
  obtain ⟨_, found', ended | ⟨running, _⟩⟩ := runs <;> cases found.symm.trans found'
  · rw [pending] at ended
    cases ended
  · cases pending.symm.trans running

theorem IsCompleted.not_isPending (completed : IsCompleted before id) : ¬ IsPending before id := by
  rintro ⟨row, found, pending⟩
  obtain ⟨_, found', done⟩ := completed
  cases found.symm.trans found'
  cases pending.symm.trans done

end Rows

section Tracked

variable {settings : Settings} {state next : State} {now : ℤ}

theorem tracked_start (db : Database) : Tracked (State.start db) where
  assigned := nofun
  unassigned := nofun
  assigning := nofun
  listed := nofun
  nodup := List.nodup_nil
  accepted := nofun

/-- A step that ends items at most keeps what is tracked. -/
theorem Tracked.advance (tracked : Tracked state)
    (items : OnlyEnds state.db.items next.db.items) (workers : next.workers = state.workers)
    (listed : next.phase.listed.Sublist state.phase.listed ∨
      (next.phase.listed.Nodup ∧ ∀ id ∈ next.phase.listed, IsPending next.db.items id))
    (assigning : next.phase = state.phase ∨
      (state.phase.assigns || state.phase.stopped → next.phase.stopped))
    (accepted : ∀ report ∈ next.reports, report.accepted = true →
      report ∈ state.reports ∨ IsCompleted next.db.items report.item) : Tracked next := by
  refine ⟨?_, ?_, ?_, ?_, ?_, ?_⟩
  · intro worker member assigned
    exact (tracked.assigned worker (workers ▸ member) assigned).of_onlyEnds items
  · intro worker member unassigned
    exact (tracked.unassigned worker (workers ▸ member) unassigned).of_onlyEnds items
  · intro worker member unassigned
    have here := tracked.assigning worker (workers ▸ member) unassigned
    obtain same | stops := assigning
    · exact same ▸ here
    · refine .inr (stops ?_)
      obtain ⟨rest, phase⟩ | stopped := here
      · simp [phase, Phase.assigns]
      · simp [stopped]
  · obtain fewer | ⟨_, pending⟩ := listed
    · exact fun id member => (tracked.listed id (fewer.subset member)).of_onlyEnds items
    · exact pending
  · obtain fewer | ⟨nodup, _⟩ := listed
    · exact tracked.nodup.sublist fewer
    · exact nodup
  · intro report member done
    obtain earlier | completed := accepted report member done
    · exact (tracked.accepted report earlier done).of_onlyEnds items
    · exact completed

theorem Tracked.quiet (tracked : Tracked state) (quiet : Quiet state next) : Tracked next :=
  tracked.advance quiet.items quiet.workers quiet.listed (.inr quiet.stopped)
    fun _ member _ => .inl (quiet.reports ▸ member)

theorem Tracked.spawn (tracked : Tracked state) {threadId : String} {item : ItemId}
    {rest : List ItemId} (phase : state.phase = .spawning (item :: rest)) :
    Tracked { state with
      workers := ⟨threadId, item, false⟩ :: state.workers
      phase := .assigning threadId item rest } := by
  have listed : state.phase.listed = item :: rest := by rw [phase]; rfl
  have settled : ∀ worker ∈ state.workers, worker.assigned = false → False := by
    intro worker member unassigned
    obtain ⟨_, spawns⟩ | stopped := tracked.assigning worker member unassigned
    · cases phase.symm.trans spawns
    · rw [phase] at stopped
      cases stopped
  refine ⟨?_, ?_, ?_, ?_, ?_, tracked.accepted⟩
  · intro worker member assigned
    obtain rfl | earlier := List.mem_cons.mp member
    · cases assigned
    · exact tracked.assigned worker earlier assigned
  · intro worker member unassigned
    obtain rfl | earlier := List.mem_cons.mp member
    · exact tracked.listed item (listed ▸ List.mem_cons_self)
    · exact (settled worker earlier unassigned).elim
  · intro worker member unassigned
    obtain rfl | earlier := List.mem_cons.mp member
    · exact .inl ⟨rest, rfl⟩
    · exact (settled worker earlier unassigned).elim
  · exact fun id member => tracked.listed id (listed ▸ member)
  · have nodup := tracked.nodup
    rw [listed] at nodup
    exact nodup

theorem items_markAgentJobItemRunningWithThread {db : Database} {id : ItemId} (now : ℤ)
    (threadId : String) (pending : IsPending db.items id) :
    ∃ row : AgentJobItem, row.status = .running ∧ row.assignedThreadId = some threadId ∧
      (markAgentJobItemRunningWithThread db now id threadId).2.items = db.items.insert id row := by
  obtain ⟨row, found, waits⟩ := pending
  unfold markAgentJobItemRunningWithThread
  obtain ⟨_, _, _, updated⟩ | ⟨refused, _⟩ := updateItem_cases db id (·.status = .pending) _
  · exact ⟨_, rfl, rfl, congrArg (·.2.items) updated⟩
  · cases (refused row found).symm.trans (decide_eq_true waits)

theorem Tracked.assign (tracked : Tracked state) {threadId : String} {item : ItemId}
    {rest : List ItemId} (phase : state.phase = .assigning threadId item rest)
    (assigns : Assigns state now threadId item rest next) : Tracked next := by
  have listed : state.phase.listed = item :: rest := by rw [phase]; rfl
  have nodup := listed ▸ tracked.nodup
  have pending : IsPending state.db.items item := tracked.listed item (listed ▸ List.mem_cons_self)
  obtain ⟨row, running, thread, written⟩ :=
    items_markAgentJobItemRunningWithThread now threadId pending
  have elsewhere : ∀ id, id ≠ item → next.db.items.lookup id = state.db.items.lookup id := by
    intro id apart
    rw [assigns.db, written, AList.lookup_insert_ne apart]
  -- The worker whose thread is written was the last one without an item.
  have settled : ∀ worker ∈ next.workers, worker.assigned = false → False := by
    intro worker member unassigned
    rw [assigns.workers] at member
    obtain ⟨worker, earlier, rfl⟩ := List.mem_map.mp member
    split_ifs at unassigned with current
    obtain ⟨_, here⟩ | stopped := tracked.assigning worker earlier unassigned
    · cases phase.symm.trans here
      exact current ⟨rfl, rfl⟩
    · rw [phase] at stopped
      cases stopped
  refine ⟨?_, ?_, ?_, ?_, ?_, ?_⟩
  · intro worker member assigned
    rw [assigns.workers] at member
    obtain ⟨worker, earlier, rfl⟩ := List.mem_map.mp member
    split_ifs at assigned ⊢ with current
    · obtain ⟨rfl, rfl⟩ := current
      refine ⟨row, ?_, .inr ⟨running, thread⟩⟩
      rw [assigns.db, written, AList.lookup_insert]
    · have runs := tracked.assigned worker earlier assigned
      have apart : worker.item ≠ item := fun same => runs.not_isPending (same ▸ pending)
      obtain ⟨row, found, status⟩ := runs
      exact ⟨row, (elsewhere worker.item apart).trans found, status⟩
  · intro worker member unassigned
    exact (settled worker member unassigned).elim
  · intro worker member unassigned
    exact (settled worker member unassigned).elim
  · intro id member
    rw [assigns.phase] at member
    have apart : id ≠ item := fun same => (List.nodup_cons.mp nodup).1 (same ▸ member)
    obtain ⟨row, found, waits⟩ := tracked.listed id (listed ▸ List.mem_cons_of_mem item member)
    exact ⟨row, (elsewhere id apart).trans found, waits⟩
  · rw [assigns.phase]
    exact (List.nodup_cons.mp nodup).2
  · intro report member accepted
    have completed := tracked.accepted report (assigns.reports ▸ member) accepted
    have apart : report.item ≠ item := fun same => completed.not_isPending (same ▸ pending)
    obtain ⟨row, found, done⟩ := completed
    exact ⟨row, (elsewhere report.item apart).trans found, done⟩

theorem Tracked.requeue (tracked : Tracked state) {item : ItemId}
    (phase : state.phase = .requeueing item) :
    Tracked (state.write (markAgentJobItemPending state.db now item none).2 .findingStale) := by
  -- The item still waits, so there is nothing to put back.
  obtain ⟨row, found, waits⟩ := tracked.listed item (by simp [phase, Phase.listed])
  have unchanged : (markAgentJobItemPending state.db now item none).2 = state.db := by
    unfold markAgentJobItemPending
    obtain ⟨_, found', running, _⟩ | ⟨_, refused⟩ :=
      updateItem_cases state.db item (·.status = .running) _
    · cases found.symm.trans found'
      cases waits.symm.trans (of_decide_eq_true running)
    · rw [refused]
  rw [unchanged]
  refine tracked.quiet (quiet_of_unlisted rfl rfl rfl rfl ?_)
  simp [phase, Phase.assigns, Phase.stopped]

theorem Tracked.runner {outcome : Outcome} (tracked : Tracked state)
    (stepped : runnerStep settings state now outcome = some next) : Tracked next := by
  obtain ⟨threadId, item, rest, phase, rfl⟩ | ⟨threadId, item, rest, phase, assigns⟩ |
    ⟨item, phase, rfl⟩ | quiet := runnerStep_cases stepped
  · exact tracked.spawn phase
  · exact tracked.assign phase assigns
  · exact tracked.requeue phase
  · exact tracked.quiet quiet

theorem isCompleted_of_accepted {db : Database} {id : ItemId} {threadId resultJson : String}
    (accepted : (reportAgentJobItemResult db now id threadId resultJson).1 = true) :
    IsCompleted (reportAgentJobItemResult db now id threadId resultJson).2.items id := by
  unfold reportAgentJobItemResult at accepted ⊢
  obtain ⟨_, _, _, updated⟩ | ⟨_, refused⟩ := updateItem_cases db id
    (fun row => row.status = .running && row.assignedThreadId = some threadId) _
  · rw [updated]
    exact ⟨_, AList.lookup_insert _, rfl⟩
  · rw [refused] at accepted
    cases accepted

theorem Tracked.report (tracked : Tracked state) (threadId itemId resultJson : String)
    (stop : Bool) : Tracked (reportStep settings state now threadId itemId resultJson stop) := by
  refine tracked.advance (.reportAgentJobItemResult threadId resultJson) rfl (.inl (.refl _))
    (.inl rfl) ?_
  intro report member accepted
  simp only [reportStep] at member
  split_ifs at member
  · obtain rfl | earlier := List.mem_cons.mp member
    · exact .inr (isCompleted_of_accepted accepted)
    · exact .inl earlier
  · exact .inl member

theorem Tracked.cancel {threadId : String} (tracked : Tracked state)
    (stepped : cancelStep settings state now threadId = some next) : Tracked next := by
  unfold cancelStep at stepped
  split_ifs at stepped
  cases stepped
  refine tracked.advance ?_ rfl (.inl (.refl _)) (.inl rfl) fun _ member _ => .inl member
  dsimp only
  rw [items_markAgentJobCancelled]
  exact .refl

theorem Tracked.step {event : Event} (tracked : Tracked state)
    (stepped : step settings state event = some next) : Tracked next := by
  cases event with
  | runner now outcome => exact tracked.runner stepped
  | report now threadId itemId resultJson stop =>
      cases stepped
      exact tracked.report threadId itemId resultJson stop
  | cancel now threadId => exact tracked.cancel stepped

end Tracked

/-! ## Reports that are lost -/

/-- Every report of a worker for its item was accepted, unless the item had ended before, and the
runner has not blamed an item for a report that was made in time. -/
structure ReportsKept (state : State) : Prop where
  accepted : ∀ report ∈ state.reports, report.accepted = true ∨ report.ended = true
  notBlamed : ∀ report ∈ state.reports, report.ended = false → ∀ row,
    state.db.items.lookup report.item = some row →
      ¬ (row.status = .failed ∧ row.lastError = some missingReport)

/-- A report comes after the runner has written the worker's thread to its item. -/
def AfterAssignment (settings : Settings) (state : State) : Event → Prop
  | .report _ threadId itemId _ _ => ∀ worker ∈ state.workers,
      worker.threadId = threadId → worker.item = ⟨settings.jobId, itemId⟩ → worker.assigned = true
  | _ => True

section Reports

variable {settings : Settings} {state next : State} {event : Event}

/-- The thread that an item runs in is heard. -/
theorem accepted_or_ended_of_runs {db : Database} {now : ℤ} {id : ItemId}
    {threadId resultJson : String} (runs : RunsInOrEnded db.items id threadId) :
    (reportAgentJobItemResult db now id threadId resultJson).1 = true ∨
      (db.items.lookup id).any (·.status.isFinal) = true := by
  obtain ⟨row, found, final | ⟨running, thread⟩⟩ := runs
  · exact .inr (by simp [found, final])
  · refine .inl ?_
    unfold reportAgentJobItemResult
    obtain ⟨_, _, _, updated⟩ | ⟨refused, _⟩ := updateItem_cases db id
      (fun row => row.status = .running && row.assignedThreadId = some threadId) _
    · rw [updated]
    · have ignored := refused row found
      simp [running, thread] at ignored

/-- A report for an item that has no thread yet is ignored. -/
theorem ignored_of_isPending {db : Database} {id : ItemId} (now : ℤ) (threadId resultJson : String)
    (pending : IsPending db.items id) :
    (reportAgentJobItemResult db now id threadId resultJson).1 = false ∧
      (db.items.lookup id).any (·.status.isFinal) = false := by
  obtain ⟨row, found, waits⟩ := pending
  refine ⟨?_, by simp [found, waits, AgentJobItemStatus.isFinal]⟩
  unfold reportAgentJobItemResult
  obtain ⟨_, found', met, _⟩ | ⟨_, refused⟩ := updateItem_cases db id
    (fun row => row.status = .running && row.assignedThreadId = some threadId) _
  · cases found.symm.trans found'
    simp [waits] at met
  · rw [refused]

/-- What was accepted is completed, and so it is not blamed. -/
theorem Tracked.reportsKept (tracked : Tracked state)
    (accepted : ∀ report ∈ state.reports, report.accepted = true ∨ report.ended = true) :
    ReportsKept state := by
  refine ⟨accepted, fun report member timely row found blamed => ?_⟩
  obtain done | late := accepted report member
  · obtain ⟨_, found', completed⟩ := tracked.accepted report member done
    cases found.symm.trans found'
    cases completed.symm.trans blamed.1
  · cases timely.symm.trans late

theorem reports_of_not_report (stepped : step settings state event = some next)
    (other : ∀ now threadId itemId resultJson stop,
      event ≠ .report now threadId itemId resultJson stop) : next.reports = state.reports := by
  cases event with
  | runner now outcome =>
      obtain ⟨_, _, _, _, rfl⟩ | ⟨_, _, _, _, assigns⟩ | ⟨_, _, rfl⟩ | quiet :=
        runnerStep_cases stepped
      · rfl
      · exact assigns.reports
      · rfl
      · exact quiet.reports
  | report now threadId itemId resultJson stop =>
    exact (other now threadId itemId resultJson stop rfl).elim
  | cancel now threadId =>
      simp only [step, cancelStep] at stepped
      split_ifs at stepped
      cases stepped
      rfl

/-- In a state where no report is lost, the next one is not lost either exactly when it comes after
the assignment. -/
theorem reportsKept_step_iff (tracked : Tracked state) (kept : ReportsKept state)
    (stepped : step settings state event = some next) :
    ReportsKept next ↔ AfterAssignment settings state event := by
  have trackedNext := tracked.step stepped
  cases event with
  | runner now outcome | cancel now threadId =>
      have same := reports_of_not_report stepped nofun
      exact ⟨fun _ => trivial, fun _ => trackedNext.reportsKept (same ▸ kept.accepted)⟩
  | report now threadId itemId resultJson stop =>
      cases stepped
      constructor
      · intro keptNext worker member sameThread sameItem
        by_contra unassigned
        have pending := tracked.unassigned worker member (Bool.not_eq_true _ ▸ unassigned)
        rw [sameItem] at pending
        obtain ⟨refused, open_⟩ := ignored_of_isPending now threadId resultJson pending
        have own : (state.workers.any fun worker => worker.threadId = threadId ∧
            worker.item = ⟨settings.jobId, itemId⟩) = true :=
          List.any_eq_true.mpr ⟨worker, member, decide_eq_true ⟨sameThread, sameItem⟩⟩
        have lost := keptNext.accepted
          ⟨threadId, ⟨settings.jobId, itemId⟩, false, false⟩
          (by
            simp only [reportStep, own, refused, open_, if_true]
            exact List.mem_cons_self)
        simp at lost
      · intro assigned
        refine trackedNext.reportsKept fun report member => ?_
        simp only [reportStep] at member
        split_ifs at member with own
        · obtain rfl | earlier := List.mem_cons.mp member
          · obtain ⟨worker, spawned, same⟩ := List.any_eq_true.mp own
            obtain ⟨rfl, sameItem⟩ := of_decide_eq_true same
            have runs := tracked.assigned worker spawned (assigned worker spawned rfl sameItem)
            exact accepted_or_ended_of_runs (sameItem ▸ runs)
          · exact kept.accepted report earlier
        · exact kept.accepted report member

/-- No report is lost in a run exactly when every report comes after the assignment of its
worker. -/
theorem reportsKept_iff (settings : Settings) (db : Database) (events : List Event) :
    (∀ before, before <+: events → ∀ reached,
      run (step settings) (State.start db) before = some reached → ReportsKept reached) ↔
      Along (step settings) (AfterAssignment settings) (State.start db) events := by
  have exactly : ∀ state event next, Tracked state ∧ ReportsKept state →
      step settings state event = some next →
        (Tracked next ∧ ReportsKept next ↔ AfterAssignment settings state event) := by
    rintro state event next ⟨tracked, kept⟩ stepped
    rw [← reportsKept_step_iff tracked kept stepped]
    exact and_iff_right (tracked.step stepped)
  have start : Tracked (State.start db) ∧ ReportsKept (State.start db) :=
    ⟨tracked_start db, (tracked_start db).reportsKept nofun⟩
  rw [along_iff_invariant exactly start]
  refine forall₄_congr fun before _ reached ran => (and_iff_right ?_).symm
  exact preserved_of_run (fun _ _ _ tracked stepped => tracked.step stepped) start.1 ran

end Reports

/-- The worker finishes before the runner has written its thread to the item. -/
def reportBeforeAssignment : List Event :=
  spawnFirst "thread" ++
    [.report 2 "thread" "item" "{}" false, .runner 3 .ok, .runner 3 .ok, .runner 3 (.found []),
      .runner 3 .ok, .runner 3 (.found [("thread", ⟨"job", "item"⟩)]), .runner 3 .ok, .runner 3 .ok,
      .runner 3 .ok]

theorem report_lost_before_assignment :
    ∃ reached, run (step ⟨"job", 1, "timeout"⟩) (State.start oneItem) reportBeforeAssignment =
        some reached ∧
      reached.reports = [⟨"thread", ⟨"job", "item"⟩, false, false⟩] ∧
      (reached.db.items.lookup ⟨"job", "item"⟩).any
        (fun row => row.status = .failed ∧ row.lastError = some missingReport) = true ∧
      ¬ ReportsKept reached := by
  have ends : ((run (step ⟨"job", 1, "timeout"⟩) (State.start oneItem)
      reportBeforeAssignment).map fun state =>
        (state.reports, (state.db.items.lookup ⟨"job", "item"⟩).any fun row =>
          row.status = .failed ∧ row.lastError = some missingReport)) =
      some ([⟨"thread", ⟨"job", "item"⟩, false, false⟩], true) := by
    decide
  obtain ⟨reached, ran, observed⟩ := Option.map_eq_some_iff.mp ends
  obtain ⟨reports, blamed⟩ := Prod.mk.inj observed
  refine ⟨reached, ran, reports, blamed, fun kept => ?_⟩
  have lost := kept.accepted ⟨"thread", ⟨"job", "item"⟩, false, false⟩ (by simp [reports])
  simp at lost

end CodexPilot.AgentJobs
