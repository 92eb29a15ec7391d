import CodexPilot.AgentJobs.Database
import CodexPilot.Library.Transitions

/-!
# The runner of an agent job

One runner creates workers for the pending items of its job, waits for them and finalizes their
items, and the workers report their results on their own.  Every statement on the tables is one step
of the runner or of a worker, and the steps interleave in any order.
-/

namespace CodexPilot.AgentJobs

open Tables

/-! ## Where the runner is -/

/-- Where the runner goes on once an item is finalized. -/
inductive Continuation where
  | recovering (rest : List (ItemId × AgentJobItem))
  | removing (threadId : String) (rest : List (String × ItemId))
  deriving DecidableEq

/-- What the runner does next.  The phases follow `spawn_agents_on_csv`, once the job is created,
and `run_agent_job_loop`. -/
inductive Phase where
  | building
  | optionsFailed (message : String)
  | starting
  | loading
  | listingRunning
  | recovering (rest : List (ItemId × AgentJobItem))
  | checkingFirst
  | checking
  | listingPending
  | spawning (rest : List ItemId)
  | assigning (threadId : String) (item : ItemId) (rest : List ItemId)
  | requeueing (item : ItemId)
  | failingSpawn (item : ItemId) (message : String) (rest : List ItemId)
  | findingStale
  | reaping (rest : List (String × ItemId))
  | findingFinished
  | finishing (rest : List (String × ItemId))
  | finalizing (item : ItemId) (continuation : Continuation)
  | marking (item : ItemId) (hasResult : Bool) (continuation : Continuation)
  | removing (threadId : String) (rest : List (String × ItemId))
  | deciding
  | exporting
  | exportFailed (message : String)
  | checkingLast
  | completing
  | reporting
  | failing (message : String)
  | done
  deriving DecidableEq

def Continuation.phase : Continuation → Phase
  | .recovering rest => .recovering rest
  | .removing threadId rest => .removing threadId rest

/-- What becomes of an item that was running when the runner started. -/
inductive Recovery where
  | stale
  | invalidThread (message : String)
  | final
  | live
  deriving DecidableEq

/-- How a step of the runner ends, as far as the tables do not decide it. -/
inductive Outcome where
  | ok
  | error (message : String)
  | recovered (recovery : Recovery)
  | spawned (threadId : String)
  | limitReached
  | spawnFailed (message : String)
  | found (threads : List (String × ItemId))
  | exportFailed (message : String)
  deriving DecidableEq

/-! ## States -/

/-- A worker that was spawned for an item, and whether the runner has written its thread to the item
since. -/
structure Worker where
  threadId : String
  item : ItemId
  assigned : Bool

/-- A report that a worker made for its own item. -/
structure Report where
  threadId : String
  item : ItemId
  /-- The item was completed or failed before the report. -/
  ended : Bool
  accepted : Bool
  deriving DecidableEq

/-- What does not change while a job runs. -/
structure Settings where
  jobId : String
  maxConcurrency : ℕ
  timeoutMessage : String

/-- The tables, the local state of the runner, the workers that want the job to stop, and what has
happened so far. -/
structure State where
  db : Database
  phase : Phase
  cancelRequested : Bool
  activeItems : Table String ItemId
  stopping : List String
  workers : List Worker
  reports : List Report
  /-- A cancellation of the running job has been granted. -/
  cancelGranted : Bool

/-- The runner is about to start on a job. -/
def State.start (db : Database) : State :=
  { db, phase := .building, cancelRequested := false, activeItems := ∅, stopping := [],
    workers := [], reports := [], cancelGranted := false }

def State.goto (state : State) (phase : Phase) : State := { state with phase }

def State.write (state : State) (db : Database) (phase : Phase) : State := { state with db, phase }

def isRunning (db : Database) (jobId : String) : Bool :=
  (db.jobs.lookup jobId).any (·.status = .running)

/-! ## Steps of the runner -/

def missingReport : String := "worker finished without calling report_agent_job_result"

/-- The threads are active, each with its item. -/
def State.allActive (state : State) (threads : List (String × ItemId)) : Bool :=
  (threads.map Prod.fst).Nodup && threads.all fun thread =>
    state.activeItems.lookup thread.1 = some thread.2

def State.activate (state : State) (threadId : String) (item : ItemId) (phase : Phase) : State :=
  { state with activeItems := state.activeItems.insert threadId item, phase }

def State.deactivate (state : State) (threadId : String) (phase : Phase) : State :=
  { state with activeItems := state.activeItems.erase threadId, phase }

/-- One item of `recover_running_items`. -/
def recoverItem (settings : Settings) (state : State) (now : ℤ) (id : ItemId) (item : AgentJobItem)
    (recovery : Recovery) (rest : List (ItemId × AgentJobItem)) : State :=
  let fail message :=
    state.write (markAgentJobItemFailed state.db now id message).2 (.recovering rest)
  match recovery, item.assignedThreadId with
  | .stale, _ => fail settings.timeoutMessage
  | _, none => fail "running item is missing assigned_thread_id"
  | .invalidThread message, some _ => fail ("invalid assigned_thread_id: " ++ message)
  | .final, some _ => state.goto (.finalizing id (.recovering rest))
  | .live, some threadId => state.activate threadId id (.recovering rest)

/-- The runner has nothing left to do in its loop. -/
def finished (settings : Settings) (state : State) : Bool :=
  let progress := getAgentJobProgress state.db settings.jobId
  (state.cancelRequested || progress.pendingItems = 0) && progress.runningItems = 0 &&
    state.activeItems.keys.isEmpty

/-- One step of the runner. -/
def runnerStep (settings : Settings) (state : State) (now : ℤ) (outcome : Outcome) : Option State :=
  let jobId := settings.jobId
  match state.phase, outcome with
  | .building, .ok => some (state.goto .starting)
  | .building, .error message => some (state.goto (.optionsFailed message))
  | .optionsFailed message, .ok =>
      some (state.write (markAgentJobFailed state.db now jobId message) .done)
  | .starting, .ok => some (state.write (markAgentJobRunning state.db now jobId) .loading)
  | .optionsFailed _, .error _ | .starting, .error _ => some (state.goto .done)
  | .loading, .ok =>
      if (state.db.jobs.lookup jobId).isSome then some (state.goto .listingRunning)
      else some (state.goto (.failing ("agent job " ++ jobId ++ " was not found")))
  | .listingRunning, .ok =>
      some (state.goto (.recovering (listAgentJobItems state.db jobId (some .running) none)))
  | .recovering ((id, item) :: rest), .recovered recovery =>
      some (recoverItem settings state now id item recovery rest)
  | .recovering [], .ok => some (state.goto .checkingFirst)
  | .checkingFirst, .ok | .checking, .ok =>
      let cancelRequested := state.cancelRequested || isAgentJobCancelled state.db jobId
      let phase := if state.phase = .checkingFirst then .checking else .listingPending
      some { state with cancelRequested, phase }
  | .listingPending, .ok =>
      let active := state.activeItems.keys.length
      if !state.cancelRequested && active < settings.maxConcurrency then
        let slots := settings.maxConcurrency - active
        let pending := listAgentJobItems state.db jobId (some .pending) (some slots)
        some (state.goto (.spawning (pending.map Prod.fst)))
      else some (state.goto .findingStale)
  | .spawning (item :: rest), .spawned threadId =>
      if state.workers.any (·.threadId = threadId) then none
      else some { state with
        workers := ⟨threadId, item, false⟩ :: state.workers
        phase := .assigning threadId item rest }
  | .spawning (item :: _), .limitReached => some (state.goto (.requeueing item))
  | .spawning (item :: rest), .spawnFailed message =>
      some (state.goto (.failingSpawn item ("failed to spawn worker: " ++ message) rest))
  | .spawning [], .ok => some (state.goto .findingStale)
  | .assigning threadId item rest, .ok =>
      let assigned := markAgentJobItemRunningWithThread state.db now item threadId
      let workers := state.workers.map fun worker =>
        if worker.threadId = threadId ∧ worker.item = item then { worker with assigned := true }
        else worker
      let after := { state with db := assigned.2, workers }
      -- A worker whose item cannot be assigned is shut down.
      if assigned.1 then some (after.activate threadId item (.spawning rest))
      else some (after.goto (.spawning rest))
  | .requeueing item, .ok =>
      some (state.write (markAgentJobItemPending state.db now item none).2 .findingStale)
  | .failingSpawn item message rest, .ok =>
      some (state.write (markAgentJobItemFailed state.db now item message).2 (.spawning rest))
  | .findingStale, .found threads =>
      if state.allActive threads then some (state.goto (.reaping threads)) else none
  | .reaping ((threadId, item) :: rest), .ok =>
      let db := (markAgentJobItemFailed state.db now item settings.timeoutMessage).2
      some ({ state with db }.deactivate threadId (.reaping rest))
  | .reaping [], .ok => some (state.goto .findingFinished)
  | .findingFinished, .found threads =>
      if threads = [] then some (state.goto .deciding)
      else if state.allActive threads then some (state.goto (.finishing threads)) else none
  | .finishing ((threadId, item) :: rest), .ok =>
      some (state.goto (.finalizing item (.removing threadId rest)))
  | .finishing [], .ok => some (state.goto .checking)
  | .finalizing item continuation, .ok =>
      match state.db.items.lookup item with
      | none =>
          let missing := "job item not found for finalization: " ++ jobId ++ "/" ++ item.itemId
          some (state.goto (.failing missing))
      | some row =>
          if row.status = .running then
            some (state.goto (.marking item row.resultJson.isSome continuation))
          else some (state.goto continuation.phase)
  | .marking item hasResult continuation, .ok =>
      let db := if hasResult then (markAgentJobItemCompleted state.db now item).2
        else (markAgentJobItemFailed state.db now item missingReport).2
      some (state.write db continuation.phase)
  | .removing threadId rest, .ok => some (state.deactivate threadId (.finishing rest))
  | .deciding, .ok =>
      some (state.goto (if finished settings state then .exporting else .checking))
  | .exporting, .ok => some (state.goto .checkingLast)
  | .exporting, .exportFailed message =>
      some (state.goto (.exportFailed ("auto-export failed: " ++ message)))
  | .exportFailed message, .ok =>
      some (state.write (markAgentJobFailed state.db now jobId message) .done)
  | .checkingLast, .ok =>
      if state.cancelRequested || isAgentJobCancelled state.db jobId then
        some (state.goto .reporting)
      else some (state.goto .completing)
  | .completing, .ok => some (state.write (markAgentJobCompleted state.db now jobId) .reporting)
  | .reporting, .ok => some (state.goto .done)
  | .failing message, .ok =>
      let message := "job runner failed: " ++ message
      some (state.write (markAgentJobFailed state.db now jobId message) .done)
  | .failing _, .error _ => some (state.goto .done)
  | .findingStale, .error _ | .findingFinished, .error _ | .done, _ => none
  -- Every other error ends the loop.
  | _, .error message => some (state.goto (.failing message))
  | _, _ => none

/-! ## Steps of the workers -/

/-- A thread reports a result for an item; a report that is accepted may ask to stop the job. -/
def reportStep (settings : Settings) (state : State) (now : ℤ) (threadId itemId resultJson : String)
    (stop : Bool) : State :=
  let id : ItemId := ⟨settings.jobId, itemId⟩
  let result := reportAgentJobItemResult state.db now id threadId resultJson
  let ended := (state.db.items.lookup id).any (·.status.isFinal)
  let own := state.workers.any fun worker => worker.threadId = threadId ∧ worker.item = id
  { state with
    db := result.2
    stopping := if result.1 && stop then threadId :: state.stopping else state.stopping
    reports := if own then ⟨threadId, id, ended, result.1⟩ :: state.reports else state.reports }

/-- A thread whose report asked to stop the job cancels it. -/
def cancelStep (settings : Settings) (state : State) (now : ℤ) (threadId : String) : Option State :=
  if threadId ∈ state.stopping then
    let result :=
      markAgentJobCancelled state.db now settings.jobId "cancelled by worker request"
    some { state with
      db := result.2
      stopping := state.stopping.erase threadId
      cancelGranted := state.cancelGranted || result.1 && isRunning state.db settings.jobId }
  else none

/-! ## Runs -/

/-- A step of the runner, or a call of a worker. -/
inductive Event where
  | runner (now : ℤ) (outcome : Outcome)
  | report (now : ℤ) (threadId itemId resultJson : String) (stop : Bool)
  | cancel (now : ℤ) (threadId : String)

/-- One step of the job. -/
def step (settings : Settings) (state : State) : Event → Option State
  | .runner now outcome => runnerStep settings state now outcome
  | .report now threadId itemId resultJson stop =>
      some (reportStep settings state now threadId itemId resultJson stop)
  | .cancel now threadId => cancelStep settings state now threadId

/-- The tables with one job of one item. -/
def oneItem : Database := (createAgentJob ⟨∅, ∅⟩ 0 "job" none [⟨"item", 0⟩]).getD ⟨∅, ∅⟩

/-- The runner starts its job, lists its items and spawns a worker for the first one. -/
def spawnFirst (threadId : String) : List Event :=
  List.replicate 8 (.runner 1 .ok) ++ [.runner 1 (.spawned threadId)]

end CodexPilot.AgentJobs
