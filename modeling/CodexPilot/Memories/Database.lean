import CodexPilot.Library.Tables
import CodexPilot.RustStd.Iter
import Mathlib.Algebra.Group.Int.Defs
import Mathlib.Data.Prod.Lex
import Mathlib.Data.String.Basic

/-!
# The memory pipeline's tables and transactions

Stage-1 jobs extract memories from threads, and one global phase-2 job consolidates them.  Workers
claim a job under a fresh ownership token and a lease; a claim can be taken over once the lease has
expired.  Each function here is one transaction.
-/

namespace CodexPilot.Memories

open RustStd Tables

/-! ## Tables -/

/-- The kind of a job. -/
inductive JobKind where
  | memoryStage1
  | memoryConsolidateGlobal
  deriving DecidableEq

/-- The primary key of `jobs`. -/
structure JobId where
  kind : JobKind
  jobKey : String
  deriving DecidableEq

/-- The status of a job. -/
inductive JobStatus where
  | pending
  | running
  | done
  | error
  deriving DecidableEq

/-- A row of `jobs`. -/
structure Job where
  status : JobStatus
  workerId : Option String
  ownershipToken : Option String
  startedAt : Option ℤ
  finishedAt : Option ℤ
  leaseUntil : Option ℤ
  retryAt : Option ℤ
  retryRemaining : ℤ
  lastError : Option String
  inputWatermark : Option ℤ
  lastSuccessWatermark : Option ℤ

/-- A row of `stage1_outputs`. -/
structure Stage1Output where
  sourceUpdatedAt : ℤ
  rawMemory : String
  rolloutSummary : String
  rolloutSlug : Option String
  generatedAt : ℤ
  usageCount : Option ℤ
  lastUsage : Option ℤ
  selectedForPhase2 : ℤ
  selectedForPhase2SourceUpdatedAt : Option ℤ
  deriving DecidableEq

/-- The memory mode of a thread. -/
inductive MemoryMode where
  | enabled
  | disabled
  | polluted
  deriving DecidableEq

/-- The rows that the memory pipeline reads and writes; of `threads` it uses the memory mode. -/
structure Database where
  jobs : Table JobId Job
  stage1Outputs : Table String Stage1Output
  threads : Table String MemoryMode

/-- A statement that fails; its transaction is rolled back. -/
inductive DbError where
  | foreignKey
  | unexpectedNull
  deriving DecidableEq

def defaultRetryRemaining : ℤ := 3

def stage1Job (threadId : String) : JobId := ⟨.memoryStage1, threadId⟩

def globalJob : JobId := ⟨.memoryConsolidateGlobal, "global"⟩

/-- `i64::saturating_add`. -/
def saturatingAdd (left right : ℤ) : ℤ := max (-2 ^ 63) (min (left + right) (2 ^ 63 - 1))

/-- The cast of a `usize` to `i64`. -/
def asI64 (value : ℕ) : ℤ := if value < 2 ^ 63 then value else value - 2 ^ 64

/-- A lease from now on; also the time of a retry. -/
def deadline (now seconds : ℤ) : ℤ := saturatingAdd now (max seconds 0)

namespace Job

/-- The row is running under a lease that has not expired. -/
def leased (now : ℤ) (row : Job) : Bool :=
  row.status = .running && row.leaseUntil.any (now < ·)

/-- The row is running under this token. -/
def ownedBy (token : String) (row : Job) : Bool :=
  row.status = .running && row.ownershipToken = some token

/-- The row of a job that has just been claimed. -/
def claim (row : Job) (now : ℤ) (workerId token : String) (leaseUntil : ℤ) : Job :=
  { row with
    status := .running
    workerId := some workerId
    ownershipToken := some token
    startedAt := some now
    finishedAt := none
    leaseUntil := some leaseUntil
    retryAt := none
    lastError := none }

/-- The row behind a success. -/
def succeed (row : Job) (now : ℤ) (watermark : Option ℤ) : Job :=
  { row with
    status := .done
    finishedAt := some now
    leaseUntil := none
    lastError := none
    lastSuccessWatermark := watermark }

/-- The row behind a failure. -/
def fail (row : Job) (now retryAt : ℤ) (reason : String) : Job :=
  { row with
    status := .error
    finishedAt := some now
    leaseUntil := none
    retryAt := some retryAt
    retryRemaining := row.retryRemaining - 1
    lastError := some reason }

end Job

/-! ## The global job's queue -/

/-- The row after an enqueue. -/
def enqueued (watermark : ℤ) : Option Job → Job
  | none =>
      { status := .pending, workerId := none, ownershipToken := none, startedAt := none,
        finishedAt := none, leaseUntil := none, retryAt := none,
        retryRemaining := defaultRetryRemaining, lastError := none,
        inputWatermark := some watermark, lastSuccessWatermark := some 0 }
  | some row =>
      { row with
        status := if row.status = .running then .running else .pending
        retryAt := if row.status = .running then row.retryAt else none
        retryRemaining := max row.retryRemaining defaultRetryRemaining
        inputWatermark :=
          if row.inputWatermark.getD 0 < watermark then some watermark
          else some (row.inputWatermark.getD 0 + 1) }

/-- `enqueue_global_consolidation_with_executor`. -/
def enqueueGlobalConsolidation (db : Database) (watermark : ℤ) : Database :=
  { db with jobs := db.jobs.insert globalJob (enqueued watermark (db.jobs.lookup globalJob)) }

/-! ## Stage 1 -/

/-- The answer to a claim in stage 1. -/
inductive Stage1JobClaimOutcome where
  | claimed (ownershipToken : String)
  | skippedUpToDate
  | skippedRunning
  | skippedRetryBackoff
  | skippedRetryExhausted
  deriving DecidableEq

/-- The stage-1 jobs that run under a lease. -/
def runningStage1Jobs (jobs : Table JobId Job) (now : ℤ) : ℕ :=
  count jobs fun id row => id.kind = .memoryStage1 && row.leased now

def otherRunningStage1Jobs (jobs : Table JobId Job) (now : ℤ) (job : JobId) : ℕ :=
  count jobs fun id row => (id.kind = .memoryStage1 && row.leased now) && id ≠ job

/-- The row that a claim inserts or updates, when its conditions are met. -/
def upsertStage1Claim (jobs : Table JobId Job) (now : ℤ) (ownershipToken threadId workerId : String)
    (sourceUpdatedAt leaseUntil : ℤ) (maxRunningJobs : ℤ) : Option Job :=
  if runningStage1Jobs jobs now < maxRunningJobs then
    match jobs.lookup (stage1Job threadId) with
    | none => some
        { status := .running, workerId := some workerId, ownershipToken := some ownershipToken,
          startedAt := some now, finishedAt := none, leaseUntil := some leaseUntil,
          retryAt := none, retryRemaining := defaultRetryRemaining, lastError := none,
          inputWatermark := some sourceUpdatedAt, lastSuccessWatermark := none }
    | some row =>
        let advanced : Bool := row.inputWatermark.getD (-1) < sourceUpdatedAt
        if !row.leased now && (row.retryAt.all (· ≤ now) || advanced) &&
            (0 < row.retryRemaining || advanced) &&
            otherRunningStage1Jobs jobs now (stage1Job threadId) < maxRunningJobs then
          some { row.claim now workerId ownershipToken leaseUntil with
            retryRemaining := if advanced then defaultRetryRemaining else row.retryRemaining
            inputWatermark := some sourceUpdatedAt }
        else none
  else none

/-- `try_claim_stage1_job`. -/
def tryClaimStage1Job (db : Database) (now : ℤ) (ownershipToken threadId workerId : String)
    (sourceUpdatedAt leaseSeconds : ℤ) (maxRunningJobs : ℕ) : Stage1JobClaimOutcome × Database :=
  if (db.stage1Outputs.lookup threadId).any (sourceUpdatedAt ≤ ·.sourceUpdatedAt) then
    (.skippedUpToDate, db)
  else if ((db.jobs.lookup (stage1Job threadId)).bind (·.lastSuccessWatermark)).any
      (sourceUpdatedAt ≤ ·) then
    (.skippedUpToDate, db)
  else
    match upsertStage1Claim db.jobs now ownershipToken threadId workerId sourceUpdatedAt
        (deadline now leaseSeconds) (asI64 maxRunningJobs) with
    | some row =>
        (.claimed ownershipToken, { db with jobs := db.jobs.insert (stage1Job threadId) row })
    | none =>
        match db.jobs.lookup (stage1Job threadId) with
        | some row =>
            if row.retryRemaining ≤ 0 then (.skippedRetryExhausted, db)
            else if row.retryAt.any (now < ·) then (.skippedRetryBackoff, db)
            else (.skippedRunning, db)
        | none => (.skippedRunning, db)

/-- The statement that finishes an owned stage-1 job. -/
def finishStage1Job (db : Database) (now : ℤ) (threadId ownershipToken : String) :
    Option (Table JobId Job) :=
  updateWhere db.jobs (stage1Job threadId) (·.ownedBy ownershipToken) fun row =>
    row.succeed now row.inputWatermark

/-- Insert an output, or replace it by one that is not older. -/
def upsertStage1Output (db : Database) (now : ℤ) (threadId : String) (sourceUpdatedAt : ℤ)
    (rawMemory rolloutSummary : String) (rolloutSlug : Option String) :
    Except DbError (Table String Stage1Output) :=
  match db.stage1Outputs.lookup threadId with
  | none =>
      if (db.threads.lookup threadId).isSome then
        .ok (db.stage1Outputs.insert threadId
          { sourceUpdatedAt, rawMemory, rolloutSummary, rolloutSlug, generatedAt := now,
            usageCount := none, lastUsage := none, selectedForPhase2 := 0,
            selectedForPhase2SourceUpdatedAt := none })
      else .error .foreignKey
  | some row =>
      if row.sourceUpdatedAt ≤ sourceUpdatedAt then
        .ok (db.stage1Outputs.insert threadId
          { row with sourceUpdatedAt, rawMemory, rolloutSummary, rolloutSlug, generatedAt := now })
      else .ok db.stage1Outputs

/-- `mark_stage1_job_succeeded`. -/
def markStage1JobSucceeded (db : Database) (now : ℤ) (threadId ownershipToken : String)
    (sourceUpdatedAt : ℤ) (rawMemory rolloutSummary : String) (rolloutSlug : Option String) :
    Except DbError (Bool × Database) :=
  match finishStage1Job db now threadId ownershipToken with
  | none => .ok (false, db)
  | some jobs =>
      match upsertStage1Output db now threadId sourceUpdatedAt rawMemory rolloutSummary
          rolloutSlug with
      | .error error => .error error
      | .ok outputs =>
          .ok (true, enqueueGlobalConsolidation { db with jobs, stage1Outputs := outputs }
            sourceUpdatedAt)

def markStage1JobSucceededNoOutput (db : Database) (now : ℤ) (threadId ownershipToken : String) :
    Except DbError (Bool × Database) :=
  match finishStage1Job db now threadId ownershipToken with
  | none => .ok (false, db)
  | some jobs =>
      match (jobs.lookup (stage1Job threadId)).bind (·.inputWatermark) with
      | none => .error .unexpectedNull
      | some sourceUpdatedAt =>
          if (db.stage1Outputs.lookup threadId).isSome then
            .ok (true, enqueueGlobalConsolidation
              { db with jobs, stage1Outputs := db.stage1Outputs.erase threadId } sourceUpdatedAt)
          else .ok (true, { db with jobs })

/-- The statement that a job has failed, for rows that meet a condition. -/
def failJob (db : Database) (now : ℤ) (job : JobId) (condition : Job → Bool) (reason : String)
    (retryDelaySeconds : ℤ) : Bool × Database :=
  match updateWhere db.jobs job condition fun row =>
      row.fail now (deadline now retryDelaySeconds) reason with
  | none => (false, db)
  | some jobs => (true, { db with jobs })

/-- `mark_stage1_job_failed`. -/
def markStage1JobFailed (db : Database) (now : ℤ) (threadId ownershipToken reason : String)
    (retryDelaySeconds : ℤ) : Bool × Database :=
  failJob db now (stage1Job threadId) (·.ownedBy ownershipToken) reason retryDelaySeconds

/-! ## Phase 2 -/

/-- The answer to a claim in phase 2. -/
inductive Phase2JobClaimOutcome where
  | claimed (ownershipToken : String) (inputWatermark : ℤ)
  | skippedNotDirty
  | skippedRunning

/-- The conditions of the statement that claims the global job. -/
def Job.claimable (now : ℤ) (row : Job) : Bool :=
  row.inputWatermark.any (row.lastSuccessWatermark.getD 0 < ·) && !row.leased now &&
    row.retryAt.all (· ≤ now) && 0 < row.retryRemaining

/-- `try_claim_global_phase2_job`. -/
def tryClaimGlobalPhase2Job (db : Database) (now : ℤ) (ownershipToken workerId : String)
    (leaseSeconds : ℤ) : Phase2JobClaimOutcome × Database :=
  match db.jobs.lookup globalJob with
  | none => (.skippedNotDirty, db)
  | some row =>
      if row.inputWatermark.getD 0 ≤ row.lastSuccessWatermark.getD 0 then (.skippedNotDirty, db)
      else if row.retryRemaining ≤ 0 then (.skippedNotDirty, db)
      else if row.retryAt.any (now < ·) then (.skippedNotDirty, db)
      else if row.leased now then (.skippedRunning, db)
      else
        match updateWhere db.jobs globalJob (·.claimable now) fun row =>
            row.claim now workerId ownershipToken (deadline now leaseSeconds) with
        | none => (.skippedRunning, db)
        | some jobs =>
            (.claimed ownershipToken (row.inputWatermark.getD 0), { db with jobs })

def heartbeatGlobalPhase2Job (db : Database) (now : ℤ) (ownershipToken : String)
    (leaseSeconds : ℤ) : Bool × Database :=
  match updateWhere db.jobs globalJob (·.ownedBy ownershipToken) fun row =>
      { row with leaseUntil := some (deadline now leaseSeconds) } with
  | none => (false, db)
  | some jobs => (true, { db with jobs })

/-- Mark exactly the snapshots of a selection, by thread and time. -/
def selectOutputs (outputs : Table String Stage1Output) (selected : List (String × ℤ)) :
    Table String Stage1Output :=
  let cleared := mapRows outputs fun row =>
    { row with selectedForPhase2 := 0, selectedForPhase2SourceUpdatedAt := none }
  selected.foldl (fun outputs (threadId, sourceUpdatedAt) =>
    (updateWhere outputs threadId (·.sourceUpdatedAt = sourceUpdatedAt) fun row =>
      { row with selectedForPhase2 := 1,
                 selectedForPhase2SourceUpdatedAt := some sourceUpdatedAt }).getD outputs) cleared

def markGlobalPhase2JobSucceeded (db : Database) (now : ℤ) (ownershipToken : String)
    (completedWatermark : ℤ) (selected : List (String × ℤ)) : Bool × Database :=
  match updateWhere db.jobs globalJob (·.ownedBy ownershipToken) fun row =>
      row.succeed now (some (max (row.lastSuccessWatermark.getD 0) completedWatermark)) with
  | none => (false, db)
  | some jobs => (true, { db with jobs, stage1Outputs := selectOutputs db.stage1Outputs selected })

def markGlobalPhase2JobFailed (db : Database) (now : ℤ) (ownershipToken reason : String)
    (retryDelaySeconds : ℤ) : Bool × Database :=
  failJob db now globalJob (·.ownedBy ownershipToken) reason retryDelaySeconds

/-- Unlike the others this takes a running row without a token too. -/
def markGlobalPhase2JobFailedIfUnowned (db : Database) (now : ℤ) (ownershipToken reason : String)
    (retryDelaySeconds : ℤ) : Bool × Database :=
  failJob db now globalJob
    (fun row => row.status = .running &&
      (row.ownershipToken = some ownershipToken || row.ownershipToken = none))
    reason retryDelaySeconds

def markThreadMemoryModePolluted (db : Database) (now : ℤ) (threadId : String) : Bool × Database :=
  match updateWhere db.threads threadId (· ≠ .polluted) fun _ => .polluted with
  | none => (false, db)
  | some threads =>
      if ((db.stage1Outputs.lookup threadId).map (·.selectedForPhase2)).getD 0 ≠ 0 then
        (true, enqueueGlobalConsolidation { db with threads } now)
      else (true, { db with threads })

/-! ## The input of phase 2 -/

/-- `length(trim(text)) > 0` in SQLite: spaces are trimmed and the length ends at a zero. -/
def nonBlank (text : String) : Bool :=
  ((text.toList.dropWhile (· = ' ')).reverse.dropWhile (· = ' ')).reverse.head?.any
  (· ≠ Char.ofNat 0)

/-- The outputs that phase 2 reads: the most used ones of the threads that are enabled. -/
def getPhase2InputSelection (db : Database) (now : ℤ) (n : ℕ) (maxUnusedDays : ℤ) :
    List (String × Stage1Output) :=
  let cutoff := now - 86400 * max maxUnusedDays 0
  let rows := (db.stage1Outputs.entries.map fun entry => (entry.1, entry.2)).filter
    fun (threadId, row) =>
      db.threads.lookup threadId = some .enabled &&
        (nonBlank row.rawMemory || nonBlank row.rolloutSummary) &&
        cutoff ≤ row.lastUsage.getD row.sourceUpdatedAt
  (sortByKey (fun (threadId, row) =>
    OrderDual.toDual (toLex (row.usageCount.getD 0, toLex (row.lastUsage.getD row.sourceUpdatedAt,
      toLex (row.sourceUpdatedAt, threadId))))) rows).take n

/-- The watermark that a run reports when it has consolidated its selection. -/
def getWatermark (claimedWatermark : ℤ) (latestMemories : List (String × Stage1Output)) : ℤ :=
  max (((latestMemories.map (·.2.sourceUpdatedAt)).max?).getD claimedWatermark) claimedWatermark

/-! ## Calls -/

/-- The calls that change the tables. -/
inductive Transaction where
  | tryClaimStage1Job (ownershipToken threadId workerId : String)
      (sourceUpdatedAt leaseSeconds : ℤ) (maxRunningJobs : ℕ)
  | markStage1JobSucceeded (threadId ownershipToken : String) (sourceUpdatedAt : ℤ)
      (rawMemory rolloutSummary : String) (rolloutSlug : Option String)
  | markStage1JobSucceededNoOutput (threadId ownershipToken : String)
  | markStage1JobFailed (threadId ownershipToken reason : String) (retryDelaySeconds : ℤ)
  | enqueueGlobalConsolidation (inputWatermark : ℤ)
  | tryClaimGlobalPhase2Job (ownershipToken workerId : String) (leaseSeconds : ℤ)
  | heartbeatGlobalPhase2Job (ownershipToken : String) (leaseSeconds : ℤ)
  | markGlobalPhase2JobSucceeded (ownershipToken : String) (completedWatermark : ℤ)
      (selected : List (String × ℤ))
  | markGlobalPhase2JobFailed (ownershipToken reason : String) (retryDelaySeconds : ℤ)
  | markGlobalPhase2JobFailedIfUnowned (ownershipToken reason : String) (retryDelaySeconds : ℤ)
  | markThreadMemoryModePolluted (threadId : String)

/-- A transaction that fails is rolled back. -/
def orRollback (db : Database) : Except DbError (Bool × Database) → Bool × Database
  | .ok result => result
  | .error _ => (false, db)

/-- Whether a call succeeds (for a claim: whether the job is claimed), and the tables after it. -/
def perform (db : Database) (now : ℤ) : Transaction → Bool × Database
  | .tryClaimStage1Job token threadId workerId sourceUpdatedAt leaseSeconds maxRunningJobs =>
      let (outcome, after) := tryClaimStage1Job db now token threadId workerId sourceUpdatedAt
        leaseSeconds maxRunningJobs
      (outcome = .claimed token, after)
  | .markStage1JobSucceeded threadId token sourceUpdatedAt rawMemory rolloutSummary rolloutSlug =>
      orRollback db (markStage1JobSucceeded db now threadId token sourceUpdatedAt rawMemory
        rolloutSummary rolloutSlug)
  | .markStage1JobSucceededNoOutput threadId token =>
      orRollback db (markStage1JobSucceededNoOutput db now threadId token)
  | .markStage1JobFailed threadId token reason delay =>
      markStage1JobFailed db now threadId token reason delay
  | .enqueueGlobalConsolidation watermark => (true, enqueueGlobalConsolidation db watermark)
  | .tryClaimGlobalPhase2Job token workerId leaseSeconds =>
      let (outcome, after) := tryClaimGlobalPhase2Job db now token workerId leaseSeconds
      (outcome matches .claimed _ _, after)
  | .heartbeatGlobalPhase2Job token leaseSeconds =>
      heartbeatGlobalPhase2Job db now token leaseSeconds
  | .markGlobalPhase2JobSucceeded token completedWatermark selected =>
      markGlobalPhase2JobSucceeded db now token completedWatermark selected
  | .markGlobalPhase2JobFailed token reason delay =>
      markGlobalPhase2JobFailed db now token reason delay
  | .markGlobalPhase2JobFailedIfUnowned token reason delay =>
      markGlobalPhase2JobFailedIfUnowned db now token reason delay
  | .markThreadMemoryModePolluted threadId => markThreadMemoryModePolluted db now threadId

end CodexPilot.Memories
