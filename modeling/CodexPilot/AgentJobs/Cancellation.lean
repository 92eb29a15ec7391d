import CodexPilot.AgentJobs.Runner

/-!
# Cancelled jobs

A worker may cancel its job while it runs.  The job stays cancelled as long as that does not happen
after the runner has looked for cancellations for the last time, and nothing fails afterwards.
-/

namespace CodexPilot.AgentJobs

open Tables Transitions

/-- The runner has not yet marked its job as running. -/
def Phase.early : Phase → Bool
  | .building | .optionsFailed _ | .starting => true
  | _ => false

/-- The runner writes the final status of its job next, without another look at it. -/
def Phase.closing : Phase → Bool
  | .exportFailed _ | .completing | .failing _ => true
  | _ => false

/-- The runner fails: a call fails, the export fails, or a row is missing. -/
def fails (settings : Settings) (state : State) : Outcome → Bool
  | .error _ | .exportFailed _ => true
  | .ok =>
      match state.phase with
      | .loading => (state.db.jobs.lookup settings.jobId).isNone
      | .finalizing item _ => (state.db.items.lookup item).isNone
      | _ => false
  | _ => false

/-! ## What a step does to the job -/

/-- What a step of the runner does to the status of its job. -/
structure JobStep (settings : Settings) (state next : State) (outcome : Outcome) : Prop where
  granted : next.cancelGranted = state.cancelGranted
  jobs : next.db.jobs = state.db.jobs ∨ state.phase.early = true ∨ state.phase.closing = true
  early : next.phase.early = true → state.phase.early = true ∧ next.db.jobs = state.db.jobs
  closing : next.phase.closing = true → fails settings state outcome = true ∨
    (state.phase = .checkingLast ∧ isAgentJobCancelled state.db settings.jobId = false)

@[simp]
theorem jobs_updateItem (db : Database) (id : ItemId) (condition : AgentJobItem → Bool)
    (change : AgentJobItem → AgentJobItem) :
    (updateItem db id condition change).2.jobs = db.jobs := by
  unfold updateItem
  split <;> rfl

section RunnerStep

variable {settings : Settings} {state next : State} {now : ℤ} {outcome : Outcome}

/-- A step that leaves the jobs alone and goes on in the loop. -/
theorem jobStep_of_moved (granted : next.cancelGranted = state.cancelGranted)
    (jobs : next.db.jobs = state.db.jobs) (early : next.phase.early = false)
    (closing : next.phase.closing = false) : JobStep settings state next outcome :=
  ⟨granted, .inl jobs, fun here => by simp [early] at here, fun here => by simp [closing] at here⟩

theorem jobStep_of_fails (granted : next.cancelGranted = state.cancelGranted)
    (jobs : next.db.jobs = state.db.jobs) (early : next.phase.early = false)
    (failed : fails settings state outcome = true) : JobStep settings state next outcome :=
  ⟨granted, .inl jobs, fun here => by simp [early] at here, fun _ => .inl failed⟩

/-- A step that writes the job and is neither before nor at the end of the loop afterwards. -/
theorem jobStep_of_write (granted : next.cancelGranted = state.cancelGranted)
    (writes : state.phase.early = true ∨ state.phase.closing = true)
    (early : next.phase.early = false) (closing : next.phase.closing = false) :
    JobStep settings state next outcome :=
  ⟨granted, .inr writes, fun here => by simp [early] at here, fun here => by simp [closing] at here⟩

theorem jobStep_building (phase : state.phase = .building) {after : Phase}
    (open_ : after.closing = false) : JobStep settings state (state.goto after) outcome :=
  ⟨rfl, .inl rfl, fun _ => ⟨by rw [phase]; rfl, rfl⟩,
    fun here => by simp [State.goto, open_] at here⟩

@[simp]
theorem Continuation.early_phase (continuation : Continuation) :
    continuation.phase.early = false := by
  cases continuation <;> rfl

@[simp]
theorem Continuation.closing_phase (continuation : Continuation) :
    continuation.phase.closing = false := by
  cases continuation <;> rfl

theorem jobStep_recoverItem (id : ItemId) (item : AgentJobItem) (recovery : Recovery)
    (rest : List (ItemId × AgentJobItem)) :
    JobStep settings state (recoverItem settings state now id item recovery rest) outcome := by
  unfold recoverItem
  split <;> exact jobStep_of_moved rfl
    (by simp [State.write, State.goto, State.activate, markAgentJobItemFailed]) rfl rfl

theorem jobStep_runnerStep (stepped : runnerStep settings state now outcome = some next) :
    JobStep settings state next outcome := by
  unfold runnerStep at stepped
  dsimp only at stepped
  split at stepped
  -- Most steps leave the jobs alone.
  all_goals try
    ((try split_ifs at stepped) <;> cases stepped <;> refine jobStep_of_moved rfl ?_ ?_ ?_ <;>
      simp [State.goto, State.write, State.deactivate, State.activate, markAgentJobItemFailed,
        markAgentJobItemRunningWithThread, markAgentJobItemPending, Phase.early, Phase.closing]
     done)
  next phase =>
    cases stepped
    exact jobStep_building phase rfl
  next phase =>
    cases stepped
    exact jobStep_building phase rfl
  next phase =>
    cases stepped
    exact jobStep_of_write rfl (.inl (by rw [phase]; rfl)) rfl rfl
  next phase =>
    cases stepped
    exact jobStep_of_write rfl (.inl (by rw [phase]; rfl)) rfl rfl
  next phase =>
    split_ifs at stepped with loaded <;> cases stepped
    · exact jobStep_of_moved rfl rfl rfl rfl
    · refine jobStep_of_fails rfl rfl rfl ?_
      simpa [fails, phase] using loaded
  next id item rest recovery phase =>
    cases stepped
    exact jobStep_recoverItem id item recovery rest
  next item continuation phase =>
    split at stepped
    next missing =>
      cases stepped
      exact jobStep_of_fails rfl rfl rfl (by simp [fails, phase, missing])
    next row found =>
      split_ifs at stepped <;> cases stepped
      · exact jobStep_of_moved rfl rfl rfl rfl
      · exact jobStep_of_moved rfl rfl (by simp [State.goto]) (by simp [State.goto])
  next item hasResult continuation phase =>
    cases stepped
    refine jobStep_of_moved rfl ?_ (by simp [State.write]) (by simp [State.write])
    cases hasResult <;>
      simp [State.write, markAgentJobItemCompleted, markAgentJobItemFailed]
  next message phase =>
    cases stepped
    exact jobStep_of_fails rfl rfl rfl rfl
  next message phase =>
    cases stepped
    exact jobStep_of_write rfl (.inr (by rw [phase]; rfl)) rfl rfl
  next phase =>
    split_ifs at stepped with cancelled <;> cases stepped
    · exact jobStep_of_moved rfl rfl rfl rfl
    · refine ⟨rfl, .inl rfl, nofun, fun _ => .inr ⟨phase, ?_⟩⟩
      exact (Bool.or_eq_false_iff.mp (Bool.not_eq_true _ ▸ cancelled)).2
  next phase =>
    cases stepped
    exact jobStep_of_write rfl (.inr (by rw [phase]; rfl)) rfl rfl
  next message phase =>
    cases stepped
    exact jobStep_of_write rfl (.inr (by rw [phase]; rfl)) rfl rfl
  next =>
    cases stepped
    exact jobStep_of_fails rfl rfl rfl rfl

end RunnerStep

/-! ## What keeps a job cancelled -/

/-- The status of the job. -/
def jobStatus (settings : Settings) (state : State) : Option AgentJobStatus :=
  (state.db.jobs.lookup settings.jobId).map (·.status)

/-- Once a cancellation of the running job was granted, the job is cancelled. -/
def StaysCancelled (settings : Settings) (state : State) : Prop :=
  state.cancelGranted = true → jobStatus settings state = some .cancelled

/-- A cancellation comes before the runner is about to write the final status of its job, and the
runner does not fail once the job is cancelled. -/
def InTime (settings : Settings) (state : State) : Event → Prop
  | .cancel _ _ => state.phase.closing = true → isRunning state.db settings.jobId = false
  | .runner _ outcome => fails settings state outcome = true → state.cancelGranted = false
  | .report _ _ _ _ _ => True

instance (settings : Settings) (state : State) :
    (event : Event) → Decidable (InTime settings state event)
  | .cancel _ _ => inferInstanceAs (Decidable (_ = true → _ = false))
  | .runner _ _ => inferInstanceAs (Decidable (_ = true → _ = false))
  | .report _ _ _ _ _ => inferInstanceAs (Decidable True)

/-- The job is cancelled where a cancellation was granted, and there is none before the job runs and
while its final status is about to be written. -/
structure Guarded (settings : Settings) (state : State) : Prop where
  stays : StaysCancelled settings state
  unstarted : state.phase.early = true → isRunning state.db settings.jobId = false
  ungranted : state.phase.early = true ∨ state.phase.closing = true → state.cancelGranted = false

section Guarded

variable {settings : Settings} {state next : State} {event : Event}

theorem isAgentJobCancelled_of_jobStatus (cancelled : jobStatus settings state = some .cancelled) :
    isAgentJobCancelled state.db settings.jobId = true := by
  obtain ⟨row, found, status⟩ := Option.map_eq_some_iff.mp cancelled
  simp [isAgentJobCancelled, found, status]

theorem Guarded.runner {now : ℤ} {outcome : Outcome} (guarded : Guarded settings state)
    (inTime : InTime settings state (.runner now outcome))
    (stepped : runnerStep settings state now outcome = some next) : Guarded settings next := by
  have job := jobStep_runnerStep stepped
  refine ⟨fun granted => ?_, fun early => ?_, ?_⟩
  · have before : state.cancelGranted = true := job.granted ▸ granted
    obtain same | writes := job.jobs
    · rw [jobStatus, same]
      exact guarded.stays before
    · cases before.symm.trans (guarded.ungranted writes)
  · obtain ⟨before, same⟩ := job.early early
    rw [isRunning, same]
    exact guarded.unstarted before
  · rintro (early | closing) <;> rw [job.granted]
    · exact guarded.ungranted (.inl (job.early early).1)
    · obtain failed | ⟨_, uncancelled⟩ := job.closing closing
      · exact inTime failed
      · -- The runner has just seen that the job is not cancelled.
        by_contra granted
        have cancelled := guarded.stays (Bool.not_eq_false _ ▸ granted)
        cases uncancelled.symm.trans (isAgentJobCancelled_of_jobStatus cancelled)

theorem Guarded.report {now : ℤ} (guarded : Guarded settings state)
    (threadId itemId resultJson : String) (stop : Bool) :
    Guarded settings (reportStep settings state now threadId itemId resultJson stop) := by
  have same : (reportStep settings state now threadId itemId resultJson stop).db.jobs =
      state.db.jobs := by
    simp [reportStep, reportAgentJobItemResult]
  refine ⟨fun granted => ?_, fun early => ?_, guarded.ungranted⟩
  · rw [jobStatus, same]
    exact guarded.stays granted
  · rw [isRunning, same]
    exact guarded.unstarted early

/-- A cancellation is granted to a job that is pending or running, and refused otherwise. -/
theorem markAgentJobCancelled_cases (db : Database) (now : ℤ) (jobId reason : String) :
    (∃ row, (markAgentJobCancelled db now jobId reason).1 = true ∧
      (markAgentJobCancelled db now jobId reason).2.jobs.lookup jobId = some row ∧
        row.status = .cancelled) ∨
    ((markAgentJobCancelled db now jobId reason).1 = false ∧
      (markAgentJobCancelled db now jobId reason).2 = db) := by
  unfold markAgentJobCancelled
  split
  next => exact .inr ⟨rfl, rfl⟩
  next jobs updated =>
    obtain ⟨row, _, _, rfl⟩ := updateWhere_eq_some_iff.mp updated
    exact .inl ⟨_, rfl, AList.lookup_insert _, rfl⟩

theorem Guarded.cancel {now : ℤ} {threadId : String} (guarded : Guarded settings state)
    (inTime : InTime settings state (.cancel now threadId))
    (stepped : cancelStep settings state now threadId = some next) : Guarded settings next := by
  unfold cancelStep at stepped
  split_ifs at stepped
  cases stepped
  obtain ⟨row, granted, found, cancelled⟩ | ⟨refused, same⟩ :=
    markAgentJobCancelled_cases state.db now settings.jobId "cancelled by worker request"
  · refine ⟨fun _ => ?_, fun _ => ?_, fun ends => ?_⟩
    · simp [jobStatus, found, cancelled]
    · simp [isRunning, found, cancelled]
    · have still := guarded.ungranted ends
      have notRunning : isRunning state.db settings.jobId = false := by
        obtain early | closing := ends
        · exact guarded.unstarted early
        · exact inTime closing
      simp [still, notRunning]
  · simp only [refused, same, Bool.false_and, Bool.or_false]
    exact ⟨guarded.stays, guarded.unstarted, guarded.ungranted⟩

theorem Guarded.step (guarded : Guarded settings state) (inTime : InTime settings state event)
    (stepped : step settings state event = some next) : Guarded settings next := by
  cases event with
  | runner now outcome => exact guarded.runner inTime stepped
  | report now threadId itemId resultJson stop =>
      cases stepped
      exact guarded.report threadId itemId resultJson stop
  | cancel now threadId => exact guarded.cancel inTime stepped

theorem guarded_start {empty db : Database} {now : ℤ} {maxRuntimeSeconds : Option ℕ}
    {items : List AgentJobItemCreateParams}
    (created : createAgentJob empty now settings.jobId maxRuntimeSeconds items = some db) :
    Guarded settings (State.start db) := by
  refine ⟨nofun, fun _ => ?_, fun _ => rfl⟩
  unfold createAgentJob at created
  split_ifs at created
  obtain ⟨inserted, _, rfl⟩ := Option.map_eq_some_iff.mp created
  simp [isRunning, State.start]

/-- A job stays cancelled in every run whose cancellations are in time, from its creation on. -/
theorem staysCancelled_of_run {empty db : Database} {now : ℤ} {maxRuntimeSeconds : Option ℕ}
    {items : List AgentJobItemCreateParams} {events : List Event} {reached : State}
    (created : createAgentJob empty now settings.jobId maxRuntimeSeconds items = some db)
    (inTime : Along (step settings) (InTime settings) (State.start db) events)
    (ran : run (step settings) (State.start db) events = some reached) :
    StaysCancelled settings reached :=
  (invariant_of_run (fun _ _ _ guarded met stepped => guarded.step met stepped)
    (guarded_start created) inTime ran).stays

end Guarded

/-- The worker asks to stop the job, and the runner sees that its item has ended. -/
def stopFirst : List Event :=
  spawnFirst "thread" ++
    [.runner 1 .ok, .report 2 "thread" "item" "{}" true, .runner 3 .ok, .runner 3 (.found []),
      .runner 3 .ok, .runner 3 (.found [("thread", ⟨"job", "item"⟩)]), .runner 3 .ok, .runner 3 .ok,
      .runner 3 .ok, .runner 3 .ok]

/-- The runner finds nothing left to do. -/
def finishLoop : List Event :=
  [.runner 4 .ok, .runner 4 .ok, .runner 4 (.found []), .runner 4 .ok, .runner 4 (.found []),
    .runner 4 .ok]

/-- The job is cancelled in time, and it stays so when the runner is done. -/
def cancelInTime : List Event :=
  stopFirst ++ [.cancel 4 "thread"] ++ finishLoop ++ [.runner 5 .ok, .runner 5 .ok, .runner 5 .ok]

theorem staysCancelled_of_run_cancelInTime :
    ∃ reached, run (step ⟨"job", 1, "timeout"⟩) (State.start oneItem) cancelInTime = some reached ∧
      reached.phase = .done ∧ reached.cancelGranted = true ∧
        StaysCancelled ⟨"job", 1, "timeout"⟩ reached := by
  have ends : ((run (step ⟨"job", 1, "timeout"⟩) (State.start oneItem) cancelInTime).map
      fun state => (state.phase, state.cancelGranted)) = some (.done, true) := by
    decide
  obtain ⟨reached, ran, observed⟩ := Option.map_eq_some_iff.mp ends
  obtain ⟨done, granted⟩ := Prod.mk.inj observed
  refine ⟨reached, ran, done, granted, ?_⟩
  have created : createAgentJob ⟨∅, ∅⟩ 0 "job" none [⟨"item", 0⟩] = some oneItem := rfl
  exact staysCancelled_of_run created (by decide) ran

/-! ## Cancellations that are lost -/

theorem lookup_updateJob {db : Database} {jobId : String} {row : AgentJob}
    (found : db.jobs.lookup jobId = some row) (change : AgentJob → AgentJob) :
    (updateJob db jobId change).jobs.lookup jobId = some (change row) := by
  unfold updateJob
  have updated : updateWhere db.jobs jobId (fun _ => true) change =
      some (db.jobs.insert jobId (change row)) :=
    updateWhere_eq_some_iff.mpr ⟨row, found, rfl, rfl⟩
  rw [updated]
  exact AList.lookup_insert _

/-- The job is cancelled in time, but its export fails. -/
def exportFails : List Event :=
  stopFirst ++ [.cancel 4 "thread"] ++ finishLoop ++
    [.runner 5 (.exportFailed "disk full"), .runner 5 .ok]

/-- The job is cancelled between the last look at it and its final status. -/
def cancelBeforeCompletion : List Event :=
  stopFirst ++ [.runner 4 .ok] ++ finishLoop ++
    [.runner 5 .ok, .runner 5 .ok, .cancel 5 "thread", .runner 5 .ok]

theorem cancellation_lost :
    (∃ reached, run (step ⟨"job", 1, "timeout"⟩) (State.start oneItem) exportFails = some reached ∧
      reached.cancelGranted = true ∧ jobStatus ⟨"job", 1, "timeout"⟩ reached = some .failed) ∧
    ∃ reached, run (step ⟨"job", 1, "timeout"⟩) (State.start oneItem) cancelBeforeCompletion =
        some reached ∧
      reached.cancelGranted = true ∧ jobStatus ⟨"job", 1, "timeout"⟩ reached = some .completed := by
  have failed : ((run (step ⟨"job", 1, "timeout"⟩) (State.start oneItem) exportFails).map
      fun state => (state.cancelGranted, jobStatus ⟨"job", 1, "timeout"⟩ state)) =
      some (true, some .failed) := by
    decide
  have completed : ((run (step ⟨"job", 1, "timeout"⟩) (State.start oneItem)
      cancelBeforeCompletion).map
        fun state => (state.cancelGranted, jobStatus ⟨"job", 1, "timeout"⟩ state)) =
      some (true, some .completed) := by
    decide
  obtain ⟨reached, ran, observed⟩ := Option.map_eq_some_iff.mp failed
  obtain ⟨other, ran', observed'⟩ := Option.map_eq_some_iff.mp completed
  exact ⟨⟨reached, ran, Prod.mk.inj observed⟩, other, ran', Prod.mk.inj observed'⟩

end CodexPilot.AgentJobs
