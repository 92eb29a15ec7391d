import CodexPilot.Library.Tables
import Mathlib.Data.List.Sort

/-!
# The tables of agent jobs

A job has an item for every row of its input.  Workers run items and report their results; each
function here is one statement, and creating a job is one transaction.
-/

namespace CodexPilot.AgentJobs

open Tables

/-! ## Tables -/

/-- The status of a job. -/
inductive AgentJobStatus where
  | pending
  | running
  | completed
  | failed
  | cancelled
  deriving DecidableEq

/-- The status of an item. -/
inductive AgentJobItemStatus where
  | pending
  | running
  | completed
  | failed
  deriving DecidableEq

namespace AgentJobItemStatus

/-- The item has ended. -/
def isFinal (status : AgentJobItemStatus) : Bool := status = .completed || status = .failed

end AgentJobItemStatus

/-- A row of `agent_jobs`. -/
structure AgentJob where
  status : AgentJobStatus
  maxRuntimeSeconds : Option ℕ
  createdAt : ℤ
  updatedAt : ℤ
  startedAt : Option ℤ
  completedAt : Option ℤ
  lastError : Option String

/-- The primary key of `agent_job_items`. -/
structure ItemId where
  jobId : String
  itemId : String
  deriving DecidableEq

/-- A row of `agent_job_items`. -/
structure AgentJobItem where
  rowIndex : ℤ
  status : AgentJobItemStatus
  assignedThreadId : Option String
  attemptCount : ℕ
  resultJson : Option String
  lastError : Option String
  createdAt : ℤ
  updatedAt : ℤ
  completedAt : Option ℤ
  reportedAt : Option ℤ
  deriving DecidableEq

/-- The tables `agent_jobs` and `agent_job_items`. -/
structure Database where
  jobs : Table String AgentJob
  items : Table ItemId AgentJobItem

/-! ## Creating a job -/

/-- An item that a job is created with. -/
structure AgentJobItemCreateParams where
  itemId : String
  rowIndex : ℤ

/-- The row of an item that has just been created. -/
def createdItem (now rowIndex : ℤ) : AgentJobItem :=
  { rowIndex, status := .pending, assignedThreadId := none, attemptCount := 0, resultJson := none,
    lastError := none, createdAt := now, updatedAt := now, completedAt := none, reportedAt := none }

/-- Insert the items of a job; `none` when a key is taken. -/
def insertItems (now : ℤ) (jobId : String) (items : Table ItemId AgentJobItem) :
    List AgentJobItemCreateParams → Option (Table ItemId AgentJobItem)
  | [] => some items
  | item :: rest =>
      let id : ItemId := ⟨jobId, item.itemId⟩
      if (items.lookup id).isSome then none
      else insertItems now jobId (items.insert id (createdItem now item.rowIndex)) rest

def i64Max : ℕ := 9223372036854775807

/-- The job and its items are inserted together, or neither is. -/
def createAgentJob (db : Database) (now : ℤ) (jobId : String) (maxRuntimeSeconds : Option ℕ)
    (items : List AgentJobItemCreateParams) : Option Database :=
  if maxRuntimeSeconds.any (i64Max < ·) then none
  else if (db.jobs.lookup jobId).isSome then none
  else (insertItems now jobId db.items items).map fun items =>
    { jobs := db.jobs.insert jobId
        { status := .pending, maxRuntimeSeconds, createdAt := now, updatedAt := now,
          startedAt := none, completedAt := none, lastError := none }
      items }

/-! ## Jobs -/

/-- Change the row of a job, whatever it is. -/
def updateJob (db : Database) (jobId : String) (change : AgentJob → AgentJob) : Database :=
  match updateWhere db.jobs jobId (fun _ => true) change with
  | none => db
  | some jobs => { db with jobs }

def markAgentJobRunning (db : Database) (now : ℤ) (jobId : String) : Database :=
  updateJob db jobId fun row =>
    { row with
      status := .running
      updatedAt := now
      startedAt := some (row.startedAt.getD now)
      completedAt := none
      lastError := none }

def markAgentJobCompleted (db : Database) (now : ℤ) (jobId : String) : Database :=
  updateJob db jobId fun row =>
    { row with status := .completed, updatedAt := now, completedAt := some now, lastError := none }

def markAgentJobFailed (db : Database) (now : ℤ) (jobId errorMessage : String) : Database :=
  updateJob db jobId fun row =>
    { row with
      status := .failed
      updatedAt := now
      completedAt := some now
      lastError := some errorMessage }

/-- Only a job that is pending or running can be cancelled. -/
def markAgentJobCancelled (db : Database) (now : ℤ) (jobId reason : String) : Bool × Database :=
  match updateWhere db.jobs jobId (fun row => row.status = .pending || row.status = .running)
      fun row =>
        { row with
          status := .cancelled
          updatedAt := now
          completedAt := some now
          lastError := some reason } with
  | none => (false, db)
  | some jobs => (true, { db with jobs })

def isAgentJobCancelled (db : Database) (jobId : String) : Bool :=
  (db.jobs.lookup jobId).any (·.status = .cancelled)

/-! ## Items -/

/-- Change the row of an item where it meets a condition; whether a row was affected. -/
def updateItem (db : Database) (id : ItemId) (condition : AgentJobItem → Bool)
    (change : AgentJobItem → AgentJobItem) : Bool × Database :=
  match updateWhere db.items id condition change with
  | none => (false, db)
  | some items => (true, { db with items })

def markAgentJobItemRunning (db : Database) (now : ℤ) (id : ItemId) : Bool × Database :=
  updateItem db id (·.status = .pending) fun row =>
    { row with
      status := .running
      assignedThreadId := none
      attemptCount := row.attemptCount + 1
      updatedAt := now
      lastError := none }

/-- `mark_agent_job_item_running_with_thread`. -/
def markAgentJobItemRunningWithThread (db : Database) (now : ℤ) (id : ItemId) (threadId : String) :
    Bool × Database :=
  updateItem db id (·.status = .pending) fun row =>
    { row with
      status := .running
      assignedThreadId := some threadId
      attemptCount := row.attemptCount + 1
      updatedAt := now
      lastError := none }

def markAgentJobItemPending (db : Database) (now : ℤ) (id : ItemId) (errorMessage : Option String) :
    Bool × Database :=
  updateItem db id (·.status = .running) fun row =>
    { row with
      status := .pending
      assignedThreadId := none
      updatedAt := now
      lastError := errorMessage }

def setAgentJobItemThread (db : Database) (now : ℤ) (id : ItemId) (threadId : String) :
    Bool × Database :=
  updateItem db id (·.status = .running) fun row =>
    { row with assignedThreadId := some threadId, updatedAt := now }

/-- A result counts only while the item runs in the thread that reports it. -/
def reportAgentJobItemResult (db : Database) (now : ℤ) (id : ItemId)
    (reportingThreadId resultJson : String) : Bool × Database :=
  updateItem db id
    (fun row => row.status = .running && row.assignedThreadId = some reportingThreadId) fun row =>
    { row with
      status := .completed
      resultJson := some resultJson
      reportedAt := some now
      completedAt := some now
      updatedAt := now
      lastError := none
      assignedThreadId := none }

def markAgentJobItemCompleted (db : Database) (now : ℤ) (id : ItemId) : Bool × Database :=
  updateItem db id (fun row => row.status = .running && row.resultJson.isSome) fun row =>
    { row with
      status := .completed
      completedAt := some now
      updatedAt := now
      assignedThreadId := none }

def markAgentJobItemFailed (db : Database) (now : ℤ) (id : ItemId) (errorMessage : String) :
    Bool × Database :=
  updateItem db id (·.status = .running) fun row =>
    { row with
      status := .failed
      completedAt := some now
      updatedAt := now
      lastError := some errorMessage
      assignedThreadId := none }

/-- An update either changes the row of its item or affects nothing. -/
theorem updateItem_cases (db : Database) (id : ItemId) (condition : AgentJobItem → Bool)
    (change : AgentJobItem → AgentJobItem) :
    (∃ row, db.items.lookup id = some row ∧ condition row = true ∧
      updateItem db id condition change =
        (true, { db with items := db.items.insert id (change row) })) ∨
    ((∀ row, db.items.lookup id = some row → condition row = false) ∧
      updateItem db id condition change = (false, db)) := by
  unfold updateItem
  cases updated : updateWhere db.items id condition change with
  | none => exact .inr ⟨updateWhere_eq_none_iff.mp updated, rfl⟩
  | some items =>
      obtain ⟨row, found, met, rfl⟩ := updateWhere_eq_some_iff.mp updated
      exact .inl ⟨row, found, met, rfl⟩

/-! ## Reading -/

/-- The items of a job with a status, in the order of their rows. -/
def orderedItems (db : Database) (jobId : String) (status : Option AgentJobItemStatus) :
    List (ItemId × AgentJobItem) :=
  let rows := (db.items.entries.map fun entry => (entry.1, entry.2)).filter fun item =>
    item.1.jobId = jobId && status.all (item.2.status = ·)
  rows.insertionSort fun left right => left.2.rowIndex ≤ right.2.rowIndex

def listAgentJobItems (db : Database) (jobId : String) (status : Option AgentJobItemStatus)
    (limit : Option ℕ) : List (ItemId × AgentJobItem) :=
  let items := orderedItems db jobId status
  limit.elim items fun limit => items.take limit

section Listing

variable {db : Database} {jobId : String} {status : Option AgentJobItemStatus} {limit : Option ℕ}

theorem listAgentJobItems_sublist :
    (listAgentJobItems db jobId status limit).Sublist (orderedItems db jobId status) := by
  cases limit with
  | none => exact .refl _
  | some limit => exact List.take_sublist limit _

theorem of_mem_listAgentJobItems {item : ItemId × AgentJobItem}
    (listed : item ∈ listAgentJobItems db jobId status limit) :
    db.items.lookup item.1 = some item.2 ∧ item.1.jobId = jobId ∧
      status.all (item.2.status = ·) = true := by
  have ordered := listAgentJobItems_sublist.subset listed
  obtain ⟨stored, met⟩ := List.mem_filter.mp ((List.perm_insertionSort _ _).subset ordered)
  obtain ⟨entry, member, rfl⟩ := List.mem_map.mp stored
  obtain ⟨ofJob, withStatus⟩ := Bool.and_eq_true_iff.mp met
  exact ⟨AList.mem_lookup_iff.mpr member, of_decide_eq_true ofJob, withStatus⟩

/-- No item is listed twice. -/
theorem nodup_listAgentJobItems :
    ((listAgentJobItems db jobId status limit).map Prod.fst).Nodup := by
  have keys : ((db.items.entries.map fun entry => (entry.1, entry.2)).map Prod.fst).Nodup := by
    rw [List.map_map]
    exact db.items.nodupKeys
  refine List.Nodup.sublist (listAgentJobItems_sublist.map Prod.fst) ?_
  refine ((List.perm_insertionSort _ _).map Prod.fst).nodup_iff.mpr ?_
  exact keys.sublist (List.filter_sublist.map Prod.fst)

end Listing

/-- What `get_agent_job_progress` counts. -/
structure AgentJobProgress where
  totalItems : ℕ
  pendingItems : ℕ
  runningItems : ℕ
  completedItems : ℕ
  failedItems : ℕ

/-- The items of a job with a status. -/
def countItems (db : Database) (jobId : String) (status : AgentJobItemStatus) : ℕ :=
  count db.items fun id row => id.jobId = jobId && row.status = status

/-- `get_agent_job_progress`. -/
def getAgentJobProgress (db : Database) (jobId : String) : AgentJobProgress :=
  { totalItems := count db.items fun id _ => id.jobId = jobId
    pendingItems := countItems db jobId .pending
    runningItems := countItems db jobId .running
    completedItems := countItems db jobId .completed
    failedItems := countItems db jobId .failed }

/-- Every item of a job is counted once. -/
theorem totalItems_eq (db : Database) (jobId : String) :
    let progress := getAgentJobProgress db jobId
    progress.pendingItems + progress.runningItems + progress.completedItems + progress.failedItems =
      progress.totalItems := by
  simp only [getAgentJobProgress, countItems, count]
  induction db.items.entries with
  | nil => rfl
  | cons entry entries ih =>
      simp only [List.countP_cons]
      cases entry.2.status <;> by_cases ofJob : entry.1.jobId = jobId <;> simp [ofJob] <;> omega

/-- Each count is that of the job's rows with the status. -/
theorem getAgentJobProgress_counts (db : Database) (jobId : String) :
    let rows := db.items.entries.filter fun row => row.1.jobId = jobId
    let progress := getAgentJobProgress db jobId
    progress.totalItems = rows.length ∧
      progress.pendingItems = rows.countP (·.2.status = .pending) ∧
      progress.runningItems = rows.countP (·.2.status = .running) ∧
      progress.completedItems = rows.countP (·.2.status = .completed) ∧
      progress.failedItems = rows.countP (·.2.status = .failed) ∧
      progress.pendingItems + progress.runningItems + progress.completedItems +
          progress.failedItems = progress.totalItems := by
  have counted (status : AgentJobItemStatus) : countItems db jobId status =
      (db.items.entries.filter fun row => row.1.jobId = jobId).countP (·.2.status = status) := by
    rw [countItems, count, List.countP_filter]
    exact List.countP_congr fun row _ => by simp [and_comm]
  exact ⟨List.countP_eq_length_filter, counted _, counted _, counted _, counted _,
    totalItems_eq db jobId⟩

end CodexPilot.AgentJobs
