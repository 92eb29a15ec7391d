import CodexPilot.Memories.Leases
import Mathlib.Data.Int.ConditionallyCompleteOrder
import Mathlib.Order.ConditionallyCompleteLattice.Basic

/-!
# Watermarks of the global consolidation job

An enqueue raises the input watermark of the global job, and a phase-2 run that succeeds raises its
success watermark to what it has read.  What is enqueued after the read stays above it.
-/

namespace CodexPilot.Memories

open RustStd Tables Transitions

/-! ## The queue of the global job -/

/-- The input watermark of a row, and the least value where there is none. -/
def rowInput (row : Option Job) : WithBot ℤ :=
  (row.bind (·.inputWatermark)).elim ⊥ fun watermark => (watermark : WithBot ℤ)

/-- The input watermark of the global job; there is none before the first enqueue. -/
def inputWatermark (db : Database) : WithBot ℤ := rowInput (db.jobs.lookup globalJob)

def lastSuccessWatermark (db : Database) : ℤ :=
  ((db.jobs.lookup globalJob).bind (·.lastSuccessWatermark)).getD 0

/-- There is work that no successful run has covered. -/
def Dirty (db : Database) : Prop := (lastSuccessWatermark db : WithBot ℤ) < inputWatermark db

/-- A call enqueues work for phase 2. -/
def Transaction.enqueues (db : Database) (now : ℤ) (call : Transaction) : Bool :=
  match call with
  | .enqueueGlobalConsolidation _ => true
  | .markStage1JobSucceeded .. => (perform db now call).1
  | .markStage1JobSucceededNoOutput threadId _ =>
      (perform db now call).1 && (db.stage1Outputs.lookup threadId).isSome
  | .markThreadMemoryModePolluted threadId =>
      (perform db now call).1 &&
        ((db.stage1Outputs.lookup threadId).map (·.selectedForPhase2)).getD 0 ≠ 0
  | _ => false

/-! ## Runs of phase 2 -/

/-- How far a phase-2 run has come. -/
inductive Phase2Run where
  | idle
  | claimed (token : String) (watermark : ℤ)
  | read (token : String) (watermark : ℤ) (selected : List (String × Stage1Output))
  | finished (succeeded : Bool)
  deriving DecidableEq

/-- The token and the watermark of the claim that a run works under. -/
def Phase2Run.claim : Phase2Run → Option (String × ℤ)
  | .claimed token watermark | .read token watermark _ => some (token, watermark)
  | .idle | .finished _ => none

/-- The database, the runs and the tokens that they have brought along. -/
structure Pipeline where
  db : Database
  runs : ℕ → Phase2Run
  tokens : List String

namespace Pipeline

def initial (threads : Table String MemoryMode) : Pipeline := ⟨⟨∅, ∅, threads⟩, fun _ => .idle, []⟩

/-- A transaction, or a step of a consolidation. -/
inductive Event where
  | transaction (now : ℤ) (call : Transaction)
  | claim (run : ℕ) (now : ℤ) (ownershipToken workerId : String) (leaseSeconds : ℤ)
  | read (run : ℕ) (now : ℤ) (n : ℕ) (maxUnusedDays : ℤ)
  | succeed (run : ℕ) (now : ℤ)

/-- The global job is claimed and completed by phase-2 runs only. -/
def isPhase2 : Transaction → Bool
  | .tryClaimGlobalPhase2Job .. | .markGlobalPhase2JobSucceeded .. => true
  | _ => false

/-- One step of the pipeline. -/
def step (pipeline : Pipeline) : Event → Option Pipeline
  | .transaction now call =>
      if isPhase2 call then none
      else some { pipeline with db := (perform pipeline.db now call).2 }
  | .claim run now ownershipToken workerId leaseSeconds =>
      if pipeline.runs run = .idle ∧ ownershipToken ∉ pipeline.tokens then
        let (outcome, db) :=
          tryClaimGlobalPhase2Job pipeline.db now ownershipToken workerId leaseSeconds
        let after := match outcome with
          | .claimed token watermark => .claimed token watermark
          | _ => .finished false
        some ⟨db, Function.update pipeline.runs run after, ownershipToken :: pipeline.tokens⟩
      else none
  | .read run now n maxUnusedDays =>
      match pipeline.runs run with
      | .claimed token watermark =>
          let selected := getPhase2InputSelection pipeline.db now n maxUnusedDays
          some { pipeline with
            runs := Function.update pipeline.runs run (.read token watermark selected) }
      | _ => none
  | .succeed run now =>
      match pipeline.runs run with
      | .read token watermark selected =>
          let (succeeded, db) := markGlobalPhase2JobSucceeded pipeline.db now token
            (getWatermark watermark selected)
            (selected.map fun (threadId, output) => (threadId, output.sourceUpdatedAt))
          some { pipeline with db, runs := Function.update pipeline.runs run (.finished succeeded) }
      | _ => none

end Pipeline

/-! ## What a call does to the queue -/

/-- The watermarks and the owner of the global row stay as they are. -/
inductive RowKept : Option Job → Option Job → Prop
  | same {row : Option Job} : RowKept row row
  | changed {row after : Job} (input : after.inputWatermark = row.inputWatermark)
      (last : after.lastSuccessWatermark = row.lastSuccessWatermark)
      (owner : ∀ token, after.ownedBy token = true → row.ownedBy token = true) :
      RowKept (some row) (some after)

/-- A call enqueues a watermark that covers every output it writes, or leaves the queue and the
outputs as they are. -/
inductive QueueEffect (db after : Database) : Bool → Prop
  | quiet (row : RowKept (db.jobs.lookup globalJob) (after.jobs.lookup globalJob))
      (outputs : after.stage1Outputs = db.stage1Outputs) : QueueEffect db after false
  | enqueue (watermark : ℤ)
      (row : after.jobs.lookup globalJob =
        some (enqueued watermark (db.jobs.lookup globalJob)))
      (outputs : ∀ threadId output, after.stage1Outputs.lookup threadId = some output →
        output.sourceUpdatedAt = watermark ∨ db.stage1Outputs.lookup threadId = some output) :
      QueueEffect db after true

section Queue

variable {db after : Database} {now : ℤ}

theorem globalJob_ne_stage1Job (threadId : String) : globalJob ≠ stage1Job threadId := by
  simp [globalJob, stage1Job]

theorem lookup_globalJob_insert (jobs : Table JobId Job) (threadId : String) (row : Job) :
    (jobs.insert (stage1Job threadId) row).lookup globalJob = jobs.lookup globalJob :=
  AList.lookup_insert_ne (globalJob_ne_stage1Job threadId)

theorem queueEffect_refl (db : Database) : QueueEffect db db false := .quiet .same rfl

/-- A statement on a stage-1 job leaves the queue as it is. -/
theorem quiet_stage1 (threadId : String) (row : Job) :
    QueueEffect db { db with jobs := db.jobs.insert (stage1Job threadId) row } false := by
  refine .quiet ?_ rfl
  rw [lookup_globalJob_insert]
  exact .same

theorem quiet_failStage1 (threadId token reason : String) (delay : ℤ) :
    QueueEffect db (markStage1JobFailed db now threadId token reason delay).2 false := by
  unfold markStage1JobFailed failJob
  split
  next => exact queueEffect_refl db
  next jobs updated =>
    obtain ⟨row, _, _, rfl⟩ := updateWhere_eq_some_iff.mp updated
    exact quiet_stage1 threadId _

/-- A statement on the global job that keeps its watermarks and adds no owner is quiet. -/
theorem quiet_updateGlobal {condition : Job → Bool} {change : Job → Job} {jobs : Table JobId Job}
    (updated : updateWhere db.jobs globalJob condition change = some jobs)
    (input : ∀ row, (change row).inputWatermark = row.inputWatermark)
    (last : ∀ row, (change row).lastSuccessWatermark = row.lastSuccessWatermark)
    (owner : ∀ row token, (change row).ownedBy token = true → row.ownedBy token = true) :
    QueueEffect db { db with jobs } false := by
  obtain ⟨row, found, _, rfl⟩ := updateWhere_eq_some_iff.mp updated
  refine .quiet ?_ rfl
  rw [AList.lookup_insert, found]
  exact .changed (input row) (last row) (owner row)

theorem quiet_failGlobal (condition : Job → Bool) (reason : String) (delay : ℤ) :
    QueueEffect db (failJob db now globalJob condition reason delay).2 false := by
  unfold failJob
  split
  next => exact queueEffect_refl db
  next jobs updated =>
    refine quiet_updateGlobal updated (fun _ => rfl) (fun _ => rfl) fun row token owned => ?_
    simp [Job.ownedBy, Job.fail] at owned

theorem quiet_heartbeat (token : String) (leaseSeconds : ℤ) :
    QueueEffect db (heartbeatGlobalPhase2Job db now token leaseSeconds).2 false := by
  unfold heartbeatGlobalPhase2Job
  split
  next => exact queueEffect_refl db
  next jobs updated =>
    exact quiet_updateGlobal updated (fun _ => rfl) (fun _ => rfl) fun _ _ owned => owned

theorem quiet_claimStage1 (token threadId workerId : String) (sourceUpdatedAt leaseSeconds : ℤ)
    (maxRunningJobs : ℕ) :
    QueueEffect db (tryClaimStage1Job db now token threadId workerId sourceUpdatedAt leaseSeconds
      maxRunningJobs).2 false := by
  obtain ⟨row, _, claimed⟩ | ⟨outcome, _, skipped⟩ :=
    tryClaimStage1Job_cases db now token threadId workerId sourceUpdatedAt leaseSeconds
      maxRunningJobs
  · rw [claimed]
    exact quiet_stage1 threadId row
  · rw [skipped]
    exact queueEffect_refl db

/-- An output that is written has the time of its source. -/
theorem lookup_upsertStage1Output {threadId : String} {sourceUpdatedAt : ℤ}
    {rawMemory rolloutSummary : String} {rolloutSlug : Option String}
    {outputs : Table String Stage1Output}
    (written : upsertStage1Output db now threadId sourceUpdatedAt rawMemory rolloutSummary
      rolloutSlug = .ok outputs) {other : String} {output : Stage1Output}
    (found : outputs.lookup other = some output) :
    output.sourceUpdatedAt = sourceUpdatedAt ∨ db.stage1Outputs.lookup other = some output := by
  have ofInsert : ∀ row : Stage1Output, row.sourceUpdatedAt = sourceUpdatedAt →
      (db.stage1Outputs.insert threadId row).lookup other = some output →
        output.sourceUpdatedAt = sourceUpdatedAt ∨ db.stage1Outputs.lookup other = some output := by
    intro row time found
    obtain rfl | apart := eq_or_ne other threadId
    · rw [AList.lookup_insert] at found
      cases found
      exact .inl time
    · rw [AList.lookup_insert_ne apart] at found
      exact .inr found
  unfold upsertStage1Output at written
  split at written
  · split_ifs at written
    cases written
    exact ofInsert _ rfl found
  · split_ifs at written
    · cases written
      exact ofInsert _ rfl found
    · cases written
      exact .inr found

theorem enqueue_of_stage1 {threadId : String} {row : Job} {watermark : ℤ}
    {outputs : Table String Stage1Output}
    (covered : ∀ threadId output, outputs.lookup threadId = some output →
      output.sourceUpdatedAt = watermark ∨ db.stage1Outputs.lookup threadId = some output) :
    QueueEffect db (enqueueGlobalConsolidation { db with
      jobs := db.jobs.insert (stage1Job threadId) row, stage1Outputs := outputs } watermark)
        true := by
  refine .enqueue watermark ?_ covered
  simp only [enqueueGlobalConsolidation, AList.lookup_insert, lookup_globalJob_insert]

theorem queueEffect_markStage1JobSucceeded (threadId token : String) (sourceUpdatedAt : ℤ)
    (rawMemory rolloutSummary : String) (rolloutSlug : Option String) :
    let result := orRollback db (markStage1JobSucceeded db now threadId token sourceUpdatedAt
      rawMemory rolloutSummary rolloutSlug)
    QueueEffect db result.2 result.1 := by
  unfold markStage1JobSucceeded
  cases finished : finishStage1Job db now threadId token with
  | none => exact queueEffect_refl db
  | some jobs =>
      obtain ⟨row, _, _, rfl⟩ := updateWhere_eq_some_iff.mp finished
      cases written : upsertStage1Output db now threadId sourceUpdatedAt rawMemory rolloutSummary
          rolloutSlug with
      | error error => exact queueEffect_refl db
      | ok outputs => exact enqueue_of_stage1 fun _ _ found =>
        lookup_upsertStage1Output written found

theorem queueEffect_markStage1JobSucceededNoOutput (threadId token : String) :
    let result := orRollback db (markStage1JobSucceededNoOutput db now threadId token)
    QueueEffect db result.2 (result.1 && (db.stage1Outputs.lookup threadId).isSome) := by
  unfold markStage1JobSucceededNoOutput
  cases finished : finishStage1Job db now threadId token with
  | none => exact queueEffect_refl db
  | some jobs =>
      obtain ⟨row, _, _, rfl⟩ := updateWhere_eq_some_iff.mp finished
      dsimp only
      split
      next => exact queueEffect_refl db
      next watermark _ =>
        cases present : (db.stage1Outputs.lookup threadId).isSome with
        | false => exact quiet_stage1 threadId _
        | true =>
            refine enqueue_of_stage1 fun other output found => .inr ?_
            obtain rfl | apart := eq_or_ne other threadId
            · rw [AList.lookup_erase] at found
              cases found
            · rwa [AList.lookup_erase_ne apart] at found

theorem queueEffect_markThreadMemoryModePolluted (threadId : String) :
    let result := markThreadMemoryModePolluted db now threadId
    QueueEffect db result.2 (result.1 &&
      ((db.stage1Outputs.lookup threadId).map (·.selectedForPhase2)).getD 0 ≠ 0) := by
  unfold markThreadMemoryModePolluted
  cases polluted : updateWhere db.threads threadId (· ≠ .polluted) fun _ => .polluted with
  | none => exact queueEffect_refl db
  | some threads =>
      by_cases selected : ((db.stage1Outputs.lookup threadId).map (·.selectedForPhase2)).getD 0 = 0
      · simp only [ne_eq, selected, not_true_eq_false, if_false, decide_false, Bool.and_false]
        exact .quiet .same rfl
      · simp only [ne_eq, selected, not_false_eq_true, if_true, decide_true, Bool.and_true]
        exact .enqueue now (AList.lookup_insert _) fun _ _ found => .inr found

/-- Every call but those of phase-2 runs enqueues or is quiet. -/
theorem queueEffect_perform {call : Transaction} (plain : Pipeline.isPhase2 call = false) :
    QueueEffect db (perform db now call).2 (call.enqueues db now) := by
  cases call with
  | tryClaimStage1Job => exact quiet_claimStage1 ..
  | markStage1JobSucceeded => exact queueEffect_markStage1JobSucceeded ..
  | markStage1JobSucceededNoOutput => exact queueEffect_markStage1JobSucceededNoOutput ..
  | markStage1JobFailed => exact quiet_failStage1 ..
  | enqueueGlobalConsolidation watermark =>
      exact .enqueue watermark (AList.lookup_insert _) fun _ _ found => .inr found
  | heartbeatGlobalPhase2Job => exact quiet_heartbeat ..
  | markGlobalPhase2JobFailed | markGlobalPhase2JobFailedIfUnowned => exact quiet_failGlobal ..
  | markThreadMemoryModePolluted => exact queueEffect_markThreadMemoryModePolluted ..
  | tryClaimGlobalPhase2Job | markGlobalPhase2JobSucceeded => cases plain

theorem RowKept.rowInput_eq {row after : Option Job} (kept : RowKept row after) :
    rowInput after = rowInput row := by
  cases kept with
  | same => rfl
  | changed input _ _ => simp [rowInput, input]

/-- An enqueue raises the input watermark. -/
theorem rowInput_lt_enqueued (row : Option Job) (watermark : ℤ) :
    rowInput row < rowInput (some (enqueued watermark row)) := by
  cases row with
  | none => exact WithBot.bot_lt_coe watermark
  | some row =>
      cases input : row.inputWatermark with
      | none =>
          simp only [rowInput, enqueued, Option.bind_some, input]
          split_ifs <;> exact WithBot.bot_lt_coe _
      | some before =>
          simp only [rowInput, enqueued, Option.bind_some, input, Option.getD_some,
            Option.elim_some]
          split_ifs with above
          · exact WithBot.coe_lt_coe.mpr above
          · exact WithBot.coe_lt_coe.mpr (Int.lt_succ before)

/-- The input watermark covers what was enqueued. -/
theorem le_rowInput_enqueued (row : Option Job) (watermark : ℤ) :
    (watermark : WithBot ℤ) ≤ rowInput (some (enqueued watermark row)) := by
  cases row with
  | none => exact le_rfl
  | some row =>
      simp only [rowInput, enqueued, Option.bind_some]
      split_ifs with above
      · exact le_rfl
      · exact WithBot.coe_le_coe.mpr (by omega)

end Queue

/-! ## Watermarks over runs -/

/-- The input watermark is above every output and every claim, and above the last success while the
job is owned by a claim. -/
structure Covered (pipeline : Pipeline) : Prop where
  outputs : ∀ threadId output, pipeline.db.stage1Outputs.lookup threadId = some output →
    (output.sourceUpdatedAt : WithBot ℤ) ≤ inputWatermark pipeline.db
  claims : ∀ run token watermark, (pipeline.runs run).claim = some (token, watermark) →
    (watermark : WithBot ℤ) ≤ inputWatermark pipeline.db
  tokens : ∀ run token watermark, (pipeline.runs run).claim = some (token, watermark) →
    token ∈ pipeline.tokens
  unfinished : ∀ run token watermark, (pipeline.runs run).claim = some (token, watermark) →
    ∀ row, pipeline.db.jobs.lookup globalJob = some row → row.ownedBy token = true →
      row.lastSuccessWatermark.getD 0 < watermark

theorem covered_initial (threads : Table String MemoryMode) :
    Covered (Pipeline.initial threads) where
  outputs threadId output found := by simp [Pipeline.initial] at found
  claims := nofun
  tokens := nofun
  unfinished := nofun

section Step

variable {pipeline next : Pipeline} {event : Pipeline.Event}

/-- The tables may change as long as the input watermark does not fall below anything. -/
theorem Covered.setDb (covered : Covered pipeline) {after : Database}
    (grows : inputWatermark pipeline.db ≤ inputWatermark after)
    (outputs : ∀ threadId output, after.stage1Outputs.lookup threadId = some output →
      (output.sourceUpdatedAt : WithBot ℤ) ≤ inputWatermark after)
    (owners : ∀ row token, after.jobs.lookup globalJob = some row → row.ownedBy token = true →
      ∃ before, pipeline.db.jobs.lookup globalJob = some before ∧ before.ownedBy token = true ∧
        row.lastSuccessWatermark = before.lastSuccessWatermark) :
    Covered { pipeline with db := after } where
  outputs := outputs
  claims run token watermark claim := (covered.claims run token watermark claim).trans grows
  tokens := covered.tokens
  unfinished run token watermark claim row found owned := by
    obtain ⟨before, found', owned', same⟩ := owners row token found owned
    rw [same]
    exact covered.unfinished run token watermark claim before found' owned'

theorem ownedBy_enqueued {row : Option Job} {watermark : ℤ} {token : String}
    (owned : (enqueued watermark row).ownedBy token = true) :
    ∃ before, row = some before ∧ before.ownedBy token = true ∧
      (enqueued watermark row).lastSuccessWatermark = before.lastSuccessWatermark := by
  cases row with
  | none => simp [enqueued, Job.ownedBy] at owned
  | some before =>
      refine ⟨before, rfl, ?_, rfl⟩
      obtain ⟨running, owner⟩ := ownedBy_iff.mp owned
      refine ownedBy_iff.mpr ⟨?_, owner⟩
      by_contra stopped
      simp [enqueued, stopped] at running

theorem QueueEffect.grows {db after : Database} {enqueues : Bool}
    (effect : QueueEffect db after enqueues) : inputWatermark db ≤ inputWatermark after := by
  cases effect with
  | quiet row _ => exact row.rowInput_eq.symm.le
  | enqueue watermark row _ =>
      unfold inputWatermark
      rw [row]
      exact (rowInput_lt_enqueued _ watermark).le

theorem QueueEffect.advances {db after : Database} (effect : QueueEffect db after true) :
    inputWatermark db < inputWatermark after := by
  cases effect with
  | enqueue watermark row _ =>
      unfold inputWatermark
      rw [row]
      exact rowInput_lt_enqueued _ watermark

/-- A call keeps what the watermarks cover. -/
theorem Covered.queue (covered : Covered pipeline) {after : Database} {enqueues : Bool}
    (effect : QueueEffect pipeline.db after enqueues) : Covered { pipeline with db := after } := by
  have grows := effect.grows
  cases effect with
  | quiet row outputs =>
      refine covered.setDb grows (fun threadId output found => ?_) fun row' token found owned => ?_
      · rw [outputs] at found
        exact (covered.outputs threadId output found).trans grows
      · generalize pipeline.db.jobs.lookup globalJob = old at row
        generalize after.jobs.lookup globalJob = new at row found
        subst found
        cases row with
        | same => exact ⟨row', rfl, owned, rfl⟩
        | changed _ last owner => exact ⟨_, rfl, owner token owned, last⟩
  | enqueue watermark row outputs =>
      refine covered.setDb grows (fun threadId output found => ?_) fun row' token found owned => ?_
      · obtain written | kept := outputs threadId output found
        · rw [written, inputWatermark, row]
          exact le_rowInput_enqueued _ watermark
        · exact (covered.outputs threadId output kept).trans grows
      · cases row.symm.trans found
        exact ownedBy_enqueued owned

/-- A run may go on under its claim, or give it up. -/
theorem Covered.setRun (covered : Covered pipeline) {run : ℕ} {state : Phase2Run}
    (same : ∀ claim, state.claim = some claim → (pipeline.runs run).claim = some claim) :
    Covered { pipeline with runs := Function.update pipeline.runs run state } := by
  have before : ∀ other claim, (Function.update pipeline.runs run state other).claim = some claim →
      (pipeline.runs other).claim = some claim := by
    intro other claim holds
    obtain rfl | apart := eq_or_ne other run
    · rw [Function.update_self] at holds
      exact same claim holds
    · rwa [Function.update_of_ne apart] at holds
  exact ⟨covered.outputs, fun other _ _ holds => covered.claims other _ _ (before other _ holds),
    fun other _ _ holds => covered.tokens other _ _ (before other _ holds),
    fun other _ _ holds => covered.unfinished other _ _ (before other _ holds)⟩

/-- A new claim starts above the last success, and takes the row from every other run. -/
theorem Covered.claimed (covered : Covered pipeline) {run : ℕ} {now : ℤ} {token workerId : String}
    {leaseUntil : ℤ} {row : Job} (found : pipeline.db.jobs.lookup globalJob = some row)
    (claimable : row.claimable now = true) (fresh : token ∉ pipeline.tokens) :
    Covered ⟨{ pipeline.db with
        jobs := pipeline.db.jobs.insert globalJob (row.claim now workerId token leaseUntil) },
      Function.update pipeline.runs run (.claimed token (row.inputWatermark.getD 0)),
      token :: pipeline.tokens⟩ := by
  obtain ⟨input, dirty⟩ : ∃ input, row.inputWatermark = some input ∧
      row.lastSuccessWatermark.getD 0 < input := by
    simp only [Job.claimable, Bool.and_eq_true, Option.any_eq_true, decide_eq_true_eq] at claimable
    exact claimable.1.1.1
  have sameInput : rowInput (some (row.claim now workerId token leaseUntil)) =
      inputWatermark pipeline.db := by
    simp [inputWatermark, found, rowInput, Job.claim]
  have current : inputWatermark pipeline.db = (input : WithBot ℤ) := by
    simp [inputWatermark, found, rowInput, dirty.1]
  have claims : ∀ other used watermark,
      (Function.update pipeline.runs run (.claimed token (row.inputWatermark.getD 0)) other).claim =
        some (used, watermark) →
      (used = token ∧ watermark = input) ∨ (pipeline.runs other).claim =
        some (used, watermark) := by
    intro other used watermark holds
    obtain rfl | apart := eq_or_ne other run
    · rw [Function.update_self, dirty.1] at holds
      cases holds
      exact .inl ⟨rfl, rfl⟩
    · rw [Function.update_of_ne apart] at holds
      exact .inr holds
  refine ⟨?_, ?_, ?_, ?_⟩
  · intro threadId output written
    rw [inputWatermark, AList.lookup_insert, sameInput]
    exact covered.outputs threadId output written
  · intro other used watermark holds
    rw [inputWatermark, AList.lookup_insert, sameInput]
    obtain ⟨_, rfl⟩ | before := claims other used watermark holds
    · exact current.ge
    · exact covered.claims other used watermark before
  · intro other used watermark holds
    obtain ⟨rfl, _⟩ | before := claims other used watermark holds
    · exact List.mem_cons_self
    · exact List.mem_cons_of_mem _ (covered.tokens other used watermark before)
  · intro other used watermark holds after lookup owned
    rw [AList.lookup_insert] at lookup
    cases lookup
    obtain ⟨_, rfl⟩ | before := claims other used watermark holds
    · exact dirty.2
    · have owner : some token = some used := (ownedBy_iff.mp owned).2
      cases owner
      exact absurd (covered.tokens other token watermark before) fresh

theorem Covered.addToken (covered : Covered pipeline) (token : String) :
    Covered { pipeline with tokens := token :: pipeline.tokens } :=
  ⟨covered.outputs, covered.claims, fun run token watermark claim =>
    List.mem_cons_of_mem _ (covered.tokens run token watermark claim), covered.unfinished⟩

/-- Every output of the second table is one of the first, with the same time. -/
def SameTimes (outputs after : Table String Stage1Output) : Prop :=
  ∀ threadId output, after.lookup threadId = some output →
    ∃ before, outputs.lookup threadId = some before ∧
      before.sourceUpdatedAt = output.sourceUpdatedAt

theorem SameTimes.trans {outputs middle after : Table String Stage1Output}
    (first : SameTimes outputs middle) (second : SameTimes middle after) :
    SameTimes outputs after := by
  intro threadId output found
  obtain ⟨between, found, same⟩ := second threadId output found
  obtain ⟨before, found, same'⟩ := first threadId between found
  exact ⟨before, found, same'.trans same⟩

theorem sameTimes_updateWhere (outputs : Table String Stage1Output) (key : String)
    (condition : Stage1Output → Bool) {change : Stage1Output → Stage1Output}
    (keeps : ∀ output, (change output).sourceUpdatedAt = output.sourceUpdatedAt) :
    SameTimes outputs ((updateWhere outputs key condition change).getD outputs) := by
  intro threadId output found
  cases updated : updateWhere outputs key condition change with
  | none =>
      rw [updated] at found
      exact ⟨output, found, rfl⟩
  | some after =>
      rw [updated] at found
      obtain ⟨row, present, _, rfl⟩ := updateWhere_eq_some_iff.mp updated
      obtain rfl | apart := eq_or_ne threadId key
      · rw [Option.getD_some, AList.lookup_insert] at found
        cases found
        exact ⟨row, present, (keeps row).symm⟩
      · rw [Option.getD_some, AList.lookup_insert_ne apart] at found
        exact ⟨output, found, rfl⟩

theorem sameTimes_foldl {mark : Table String Stage1Output → String × ℤ → Table String Stage1Output}
    (keeps : ∀ outputs entry, SameTimes outputs (mark outputs entry)) (selected : List (String × ℤ))
    (outputs : Table String Stage1Output) : SameTimes outputs (selected.foldl mark outputs) := by
  induction selected generalizing outputs with
  | nil => exact fun _ output found => ⟨output, found, rfl⟩
  | cons entry selected ih =>
      exact (keeps outputs entry).trans (ih (mark outputs entry))

theorem sameTimes_selectOutputs (outputs : Table String Stage1Output)
    (selected : List (String × ℤ)) : SameTimes outputs (selectOutputs outputs selected) := by
  unfold selectOutputs
  refine SameTimes.trans (fun threadId output found => ?_) (sameTimes_foldl ?_ selected _)
  · rw [lookup_mapRows] at found
    obtain ⟨before, present, rfl⟩ := Option.map_eq_some_iff.mp found
    exact ⟨before, present, rfl⟩
  · exact fun marked entry => sameTimes_updateWhere marked entry.1 _ fun _ => rfl

theorem markGlobalPhase2JobSucceeded_cases (db : Database) (now : ℤ) (token : String)
    (completed : ℤ) (selected : List (String × ℤ)) :
    (∃ row, db.jobs.lookup globalJob = some row ∧ row.ownedBy token = true ∧
      markGlobalPhase2JobSucceeded db now token completed selected = (true, { db with
        jobs := db.jobs.insert globalJob
          (row.succeed now (some (max (row.lastSuccessWatermark.getD 0) completed)))
        stage1Outputs := selectOutputs db.stage1Outputs selected })) ∨
      markGlobalPhase2JobSucceeded db now token completed selected = (false, db) := by
  unfold markGlobalPhase2JobSucceeded
  split
  next => exact .inr rfl
  next jobs updated =>
    obtain ⟨row, found, owned, rfl⟩ := updateWhere_eq_some_iff.mp updated
    exact .inl ⟨row, found, owned, rfl⟩

theorem Covered.succeeded (covered : Covered pipeline) {now : ℤ} {row : Job} {watermark : Option ℤ}
    {selected : List (String × ℤ)} (found : pipeline.db.jobs.lookup globalJob = some row) :
    Covered { pipeline with db := { pipeline.db with
      jobs := pipeline.db.jobs.insert globalJob (row.succeed now watermark)
      stage1Outputs := selectOutputs pipeline.db.stage1Outputs selected } } := by
  have sameInput : rowInput (some (row.succeed now watermark)) = inputWatermark pipeline.db := by
    simp [inputWatermark, found, rowInput, Job.succeed]
  refine covered.setDb ?_ ?_ ?_
  · rw [inputWatermark, inputWatermark, AList.lookup_insert, sameInput]
    exact le_rfl
  · intro threadId output written
    rw [inputWatermark, AList.lookup_insert, sameInput]
    obtain ⟨before, present, same⟩ :=
      sameTimes_selectOutputs pipeline.db.stage1Outputs selected threadId output written
    rw [← same]
    exact covered.outputs threadId before present
  · intro after token lookup owned
    rw [AList.lookup_insert] at lookup
    cases lookup
    simp [Job.ownedBy, Job.succeed] at owned

/-- What each step does to the database and to the run that takes it. -/
inductive PipelineStep (pipeline : Pipeline) : Pipeline.Event → Pipeline → Prop
  | transaction {now : ℤ} {call : Transaction} (plain : Pipeline.isPhase2 call = false) :
      PipelineStep pipeline (.transaction now call)
        { pipeline with db := (perform pipeline.db now call).2 }
  | claimed {run : ℕ} {now : ℤ} {token workerId : String} {leaseSeconds : ℤ} {row : Job}
      (idle : pipeline.runs run = .idle) (fresh : token ∉ pipeline.tokens)
      (found : pipeline.db.jobs.lookup globalJob = some row)
      (claimable : row.claimable now = true) :
      PipelineStep pipeline (.claim run now token workerId leaseSeconds)
        ⟨{ pipeline.db with
            jobs := pipeline.db.jobs.insert globalJob
              (row.claim now workerId token (deadline now leaseSeconds)) },
          Function.update pipeline.runs run (.claimed token (row.inputWatermark.getD 0)),
          token :: pipeline.tokens⟩
  | skipped {run : ℕ} {now : ℤ} {token workerId : String} {leaseSeconds : ℤ}
      (idle : pipeline.runs run = .idle) :
      PipelineStep pipeline (.claim run now token workerId leaseSeconds)
        ⟨pipeline.db, Function.update pipeline.runs run (.finished false),
          token :: pipeline.tokens⟩
  | read {run : ℕ} {now : ℤ} {n : ℕ} {maxUnusedDays : ℤ} {token : String} {watermark : ℤ}
      (claimed : pipeline.runs run = .claimed token watermark) :
      PipelineStep pipeline (.read run now n maxUnusedDays)
        { pipeline with
          runs := Function.update pipeline.runs run
            (.read token watermark (getPhase2InputSelection pipeline.db now n maxUnusedDays)) }
  | succeeded {run : ℕ} {now : ℤ} {token : String} {watermark : ℤ}
      {selected : List (String × Stage1Output)} {marked : List (String × ℤ)} {row : Job}
      (read : pipeline.runs run = .read token watermark selected)
      (found : pipeline.db.jobs.lookup globalJob = some row) (owned : row.ownedBy token = true) :
      PipelineStep pipeline (.succeed run now)
        { pipeline with
          db := { pipeline.db with
            jobs := pipeline.db.jobs.insert globalJob (row.succeed now
              (some (max (row.lastSuccessWatermark.getD 0) (getWatermark watermark selected))))
            stage1Outputs := selectOutputs pipeline.db.stage1Outputs marked }
          runs := Function.update pipeline.runs run (.finished true) }
  | lost {run : ℕ} {now : ℤ} {token : String} {watermark : ℤ}
      {selected : List (String × Stage1Output)}
      (read : pipeline.runs run = .read token watermark selected) :
      PipelineStep pipeline (.succeed run now)
        { pipeline with runs := Function.update pipeline.runs run (.finished false) }

theorem pipelineStep_of_step (stepped : pipeline.step event = some next) :
    PipelineStep pipeline event next := by
  cases event with
  | transaction now call =>
      simp only [Pipeline.step] at stepped
      split_ifs at stepped with phase2
      cases stepped
      exact .transaction (Bool.eq_false_of_not_eq_true phase2)
  | claim run now token workerId leaseSeconds =>
      simp only [Pipeline.step] at stepped
      split_ifs at stepped with enabled
      obtain ⟨idle, fresh⟩ := enabled
      obtain ⟨row, found, claimable, claimed⟩ | ⟨outcome, unclaimed, skipped⟩ :=
        tryClaimGlobalPhase2Job_cases pipeline.db now token workerId leaseSeconds
      · rw [claimed] at stepped
        cases stepped
        exact .claimed idle fresh found claimable
      · rw [skipped] at stepped
        cases outcome with
        | claimed token watermark => exact absurd rfl (unclaimed token watermark)
        | skippedNotDirty | skippedRunning =>
            cases stepped
            exact .skipped idle
  | read run now n maxUnusedDays =>
      simp only [Pipeline.step] at stepped
      split at stepped <;> cases stepped
      exact .read ‹_›
  | succeed run now =>
      simp only [Pipeline.step] at stepped
      split at stepped
      next token watermark selected read =>
        obtain ⟨row, found, owned, succeeded⟩ | lost :=
          markGlobalPhase2JobSucceeded_cases pipeline.db now token (getWatermark watermark selected)
            (selected.map fun (threadId, output) => (threadId, output.sourceUpdatedAt))
        · rw [succeeded] at stepped
          cases stepped
          exact .succeeded read found owned
        · rw [lost] at stepped
          cases stepped
          exact .lost read
      next => cases stepped

theorem covered_step (covered : Covered pipeline) (stepped : PipelineStep pipeline event next) :
    Covered next := by
  cases stepped with
  | transaction plain => exact covered.queue (queueEffect_perform plain)
  | claimed _ fresh found claimable => exact covered.claimed found claimable fresh
  | skipped _ => exact (covered.addToken _).setRun nofun
  | read claimed =>
      refine covered.setRun fun claim holds => ?_
      rw [claimed]
      exact holds
  | succeeded read found _ => exact (covered.succeeded found).setRun nofun
  | lost read => exact covered.setRun nofun

/-- No step lowers the input watermark. -/
theorem inputWatermark_le_of_step (stepped : PipelineStep pipeline event next) :
    inputWatermark pipeline.db ≤ inputWatermark next.db := by
  cases stepped with
  | transaction plain => exact (queueEffect_perform plain).grows
  | claimed _ _ found _ => simp [inputWatermark, found, rowInput, Job.claim]
  | succeeded _ found _ => simp [inputWatermark, found, rowInput, Job.succeed]
  | skipped _ | read _ | lost _ => exact le_rfl

/-- A run works with this input, or has ended. -/
def ReadOrFinished (run : ℕ) (token : String) (watermark : ℤ)
    (selected : List (String × Stage1Output)) (pipeline : Pipeline) : Prop :=
  pipeline.runs run = .read token watermark selected ∨
    ∃ succeeded, pipeline.runs run = .finished succeeded

theorem readOrFinished_of_step {run : ℕ} {token : String} {watermark : ℤ}
    {selected : List (String × Stage1Output)}
    (reading : ReadOrFinished run token watermark selected pipeline)
    (stepped : PipelineStep pipeline event next) :
    ReadOrFinished run token watermark selected next := by
  unfold ReadOrFinished at reading ⊢
  have unchanged : ∀ other state, other ≠ run →
      Function.update pipeline.runs other state run = pipeline.runs run :=
    fun other state apart => Function.update_of_ne apart.symm ..
  cases stepped with
  | transaction _ => exact reading
  | claimed idle _ _ _ | skipped idle =>
      dsimp only
      rw [unchanged]
      · exact reading
      · rintro rfl
        simp [idle] at reading
  | read claimed =>
      dsimp only
      rw [unchanged]
      · exact reading
      · rintro rfl
        simp [claimed] at reading
  | @succeeded other _ _ _ _ _ _ _ _ _ | @lost other _ _ _ _ _ =>
      obtain rfl | apart := eq_or_ne other run
      · exact .inr ⟨_, Function.update_self ..⟩
      · dsimp only
        rw [unchanged other _ apart]
        exact reading

end Step

/-! ## No work is lost -/

theorem mem_getPhase2InputSelection {db : Database} {now : ℤ} {n : ℕ} {maxUnusedDays : ℤ}
    {memory : String × Stage1Output}
    (selected : memory ∈ getPhase2InputSelection db now n maxUnusedDays) :
    db.stage1Outputs.lookup memory.1 = some memory.2 := by
  have sorted := List.mem_of_mem_take selected
  have listed := (List.mem_filter.mp (mem_sortByKey.mp sorted)).1
  obtain ⟨entry, present, rfl⟩ := List.mem_map.mp listed
  exact AList.mem_lookup_iff.mpr present

theorem getWatermark_le {claimed bound : ℤ} {memories : List (String × Stage1Output)}
    (below : claimed ≤ bound) (covered : ∀ memory ∈ memories, memory.2.sourceUpdatedAt ≤ bound) :
    getWatermark claimed memories ≤ bound := by
  refine max_le ?_ below
  cases latest : (memories.map (·.2.sourceUpdatedAt)).max? with
  | none => exact below
  | some time =>
      obtain ⟨memory, member, rfl⟩ := List.mem_map.mp (List.max?_mem latest)
      exact covered memory member

/-- The input watermark covers every output, rises with every enqueue, and stays above the success
of every run that has read its input before an enqueue. -/
structure NoWorkLost (pipeline : Pipeline) : Prop where
  covers : ∀ threadId output, pipeline.db.stage1Outputs.lookup threadId = some output →
    (output.sourceUpdatedAt : WithBot ℤ) ≤ inputWatermark pipeline.db
  advances : ∀ now call next, call.enqueues pipeline.db now = true →
    pipeline.step (.transaction now call) = some next →
      inputWatermark pipeline.db < inputWatermark next.db
  dirty : ∀ id readAt n maxUnusedDays read,
    pipeline.step (.read id readAt n maxUnusedDays) = some read →
    ∀ between queued, run Pipeline.step read between = some queued →
    ∀ enqueuedAt call enqueued, call.enqueues queued.db enqueuedAt = true →
      queued.step (.transaction enqueuedAt call) = some enqueued →
    ∀ later finishing, run Pipeline.step enqueued later = some finishing →
    ∀ finishedAt final, finishing.step (.succeed id finishedAt) = some final →
      final.runs id = .finished true → Dirty final.db

section Runs

variable {pipeline next : Pipeline} {events : List Pipeline.Event}

theorem covered_of_run (covered : Covered pipeline)
    (ran : run Pipeline.step pipeline events = some next) : Covered next :=
  preserved_of_run (fun _ _ _ covered stepped => covered_step covered
    (pipelineStep_of_step stepped))
    covered ran

theorem inputWatermark_le_of_run (ran : run Pipeline.step pipeline events = some next) :
    inputWatermark pipeline.db ≤ inputWatermark next.db :=
  le_of_run (fun pipeline => inputWatermark pipeline.db)
    (fun _ _ _ stepped => inputWatermark_le_of_step (pipelineStep_of_step stepped)) ran

/-- Once a run has read its input, it keeps that input until it ends. -/
theorem readOrFinished_of_run {id : ℕ} {token : String} {watermark : ℤ}
    {selected : List (String × Stage1Output)}
    (reading : ReadOrFinished id token watermark selected pipeline)
    (ran : run Pipeline.step pipeline events = some next) :
    ReadOrFinished id token watermark selected next := by
  refine preserved_of_run (fun _ _ _ reading stepped => ?_) reading ran
  exact readOrFinished_of_step reading (pipelineStep_of_step stepped)

theorem inputWatermark_lt_of_enqueues {now : ℤ} {call : Transaction}
    (enqueues : call.enqueues pipeline.db now = true)
    (stepped : pipeline.step (.transaction now call) = some next) :
    inputWatermark pipeline.db < inputWatermark next.db := by
  cases pipelineStep_of_step stepped with
  | transaction plain =>
      have effect : QueueEffect pipeline.db (perform pipeline.db now call).2 true :=
        enqueues ▸ queueEffect_perform plain
      exact effect.advances

/-- A run that reads its input and succeeds reports no more than the input watermark at its read. -/
theorem lastSuccessWatermark_le {id : ℕ} {readAt finishedAt : ℤ} {n : ℕ} {maxUnusedDays : ℤ}
    {read finishing final : Pipeline} (covered : Covered pipeline)
    (reads : pipeline.step (.read id readAt n maxUnusedDays) = some read)
    (ran : run Pipeline.step read events = some finishing)
    (finishes : finishing.step (.succeed id finishedAt) = some final)
    (succeeded : final.runs id = .finished true) :
    (lastSuccessWatermark final.db : WithBot ℤ) ≤ inputWatermark pipeline.db ∧
      inputWatermark final.db = inputWatermark finishing.db := by
  have coveredAtEnd : Covered finishing :=
    covered_of_run (covered_step covered (pipelineStep_of_step reads)) ran
  cases pipelineStep_of_step reads with
  | @read _ _ _ _ token watermark claimed =>
      have claim : (pipeline.runs id).claim = some (token, watermark) := by rw [claimed]; rfl
      obtain ⟨bound, current, below⟩ := WithBot.coe_le_iff.mp (covered.claims id _ _ claim)
      have reading := readOrFinished_of_run (.inl (Function.update_self ..)) ran
      cases pipelineStep_of_step finishes with
      | lost _ => simp at succeeded
      | @succeeded _ _ _ _ _ _ row input found owned =>
          have same : finishing.runs id = .read token watermark
              (getPhase2InputSelection pipeline.db readAt n maxUnusedDays) := by
            obtain same | ⟨_, ended⟩ := reading
            · exact same
            · cases input.symm.trans ended
          cases input.symm.trans same
          have earlier := coveredAtEnd.unfinished id token watermark
            (by rw [input]; rfl) row found owned
          have reported : getWatermark watermark
              (getPhase2InputSelection pipeline.db readAt n maxUnusedDays) ≤ bound := by
            refine getWatermark_le below fun memory member => ?_
            have stored := covered.outputs _ _ (mem_getPhase2InputSelection member)
            rw [current] at stored
            exact WithBot.coe_le_coe.mp stored
          constructor
          · rw [current]
            refine WithBot.coe_le_coe.mpr ?_
            simp only [lastSuccessWatermark, AList.lookup_insert, Option.bind_some, Job.succeed,
              Option.getD_some]
            omega
          · simp [inputWatermark, found, rowInput, Job.succeed]

/-- No work is lost in any run. -/
theorem noWorkLost_of_run {threads : Table String MemoryMode}
    (ran : run Pipeline.step (Pipeline.initial threads) events = some pipeline) :
    NoWorkLost pipeline := by
  have covered := covered_of_run (covered_initial threads) ran
  refine ⟨covered.outputs, fun _ _ _ => inputWatermark_lt_of_enqueues, ?_⟩
  intro id readAt n maxUnusedDays read reads between queued first enqueuedAt call enqueued enqueues
    stepped later finishing second finishedAt final finishes succeeded
  have through : run Pipeline.step read (between ++ .transaction enqueuedAt call :: later) =
      some finishing := by
    simp [run_append, first, stepped, second]
  obtain ⟨reported, sameInput⟩ := lastSuccessWatermark_le covered reads through finishes succeeded
  calc (lastSuccessWatermark final.db : WithBot ℤ)
      ≤ inputWatermark pipeline.db := reported
    _ ≤ inputWatermark read.db := inputWatermark_le_of_step (pipelineStep_of_step reads)
    _ ≤ inputWatermark queued.db := inputWatermark_le_of_run first
    _ < inputWatermark enqueued.db := inputWatermark_lt_of_enqueues enqueues stepped
    _ ≤ inputWatermark finishing.db := inputWatermark_le_of_run second
    _ = inputWatermark final.db := sameInput.symm

end Runs

/-- A memory is extracted and a phase-2 run claims the job that this enqueues. -/
def untilClaim : List Pipeline.Event :=
  [.transaction 0 (.tryClaimStage1Job "a" "thread" "worker" 5 10 1),
    .transaction 1 (.markStage1JobSucceeded "thread" "a" 5 "memory" "summary" none),
    .claim 0 2 "b" "worker" 10]

/-- An older watermark that is enqueued after the read still leaves the job dirty. -/
theorem noWorkLost_of_run_lateEnqueue :
    ∃ final, run Pipeline.step (Pipeline.initial (AList.singleton "thread" .enabled))
        (untilClaim ++ [.read 0 3 10 30, .transaction 4 (.enqueueGlobalConsolidation 1),
          .succeed 0 5]) = some final ∧
      final.runs 0 = .finished true ∧ Dirty final.db := by
  refine ⟨_, rfl, rfl, ?_⟩
  have claimed : run Pipeline.step (Pipeline.initial (AList.singleton "thread" .enabled))
      untilClaim = some _ := rfl
  have kept := noWorkLost_of_run claimed
  exact kept.dirty 0 3 10 30 _ rfl [] _ rfl 4 (.enqueueGlobalConsolidation 1) _ rfl rfl [] _ rfl 5 _
    rfl rfl

end CodexPilot.Memories
