import CodexPilot.AgentJobs.Database
import CodexPilot.Library.Replay

/-!
# The states of an item

An item waits, runs and ends.  It can be put back while it runs, but a result or a failure is final,
and only the thread that the item is assigned to can report its result.
-/

namespace CodexPilot.AgentJobs

open Tables

/-! ## Operations -/

/-- The calls that change the tables. -/
inductive Operation where
  | createAgentJob (jobId : String) (maxRuntimeSeconds : Option ℕ)
      (items : List AgentJobItemCreateParams)
  | markAgentJobItemRunning (id : ItemId)
  | markAgentJobItemRunningWithThread (id : ItemId) (threadId : String)
  | markAgentJobItemPending (id : ItemId) (errorMessage : Option String)
  | setAgentJobItemThread (id : ItemId) (threadId : String)
  | reportAgentJobItemResult (id : ItemId) (reportingThreadId resultJson : String)
  | markAgentJobItemCompleted (id : ItemId)
  | markAgentJobItemFailed (id : ItemId) (errorMessage : String)

/-- Carry out an operation; whether it succeeded, and the tables afterwards. -/
def perform (db : Database) (now : ℤ) : Operation → Bool × Database
  | .createAgentJob jobId maxRuntimeSeconds items =>
      match createAgentJob db now jobId maxRuntimeSeconds items with
      | none => (false, db)
      | some after => (true, after)
  | .markAgentJobItemRunning id => markAgentJobItemRunning db now id
  | .markAgentJobItemRunningWithThread id threadId =>
      markAgentJobItemRunningWithThread db now id threadId
  | .markAgentJobItemPending id errorMessage => markAgentJobItemPending db now id errorMessage
  | .setAgentJobItemThread id threadId => setAgentJobItemThread db now id threadId
  | .reportAgentJobItemResult id reportingThreadId resultJson =>
      reportAgentJobItemResult db now id reportingThreadId resultJson
  | .markAgentJobItemCompleted id => markAgentJobItemCompleted db now id
  | .markAgentJobItemFailed id errorMessage => markAgentJobItemFailed db now id errorMessage

/-- The thread that reports a result for an item. -/
def Operation.reporter (id : ItemId) : Operation → Option String
  | .reportAgentJobItemResult reported reportingThreadId _ =>
      if reported = id then some reportingThreadId else none
  | _ => none

/-! ## What an operation does to the row of an item -/

/-- What an operation does to the row of an item, by its success. -/
inductive RowStep (id : ItemId) (operation : Operation) :
    Bool → Option AgentJobItem → Option AgentJobItem → Prop
  | kept {success : Bool} {row : Option AgentJobItem}
      (noReport : ∀ thread, operation.reporter id = some thread → success = false) :
      RowStep id operation success row row
  | created {now rowIndex : ℤ} (noReport : operation.reporter id = none) :
      RowStep id operation true none (some (createdItem now rowIndex))
  | started {row after : AgentJobItem} (noReport : operation.reporter id = none)
      (pending : row.status = .pending) (running : after.status = .running)
      (attempts : after.attemptCount = row.attemptCount + 1) :
      RowStep id operation true (some row) (some after)
  | reassigned {row after : AgentJobItem} (noReport : operation.reporter id = none)
      (running : row.status = .running) (stays : after.status = .running)
      (attempts : after.attemptCount = row.attemptCount) :
      RowStep id operation true (some row) (some after)
  | requeued {row after : AgentJobItem} (noReport : operation.reporter id = none)
      (running : row.status = .running) (pending : after.status = .pending)
      (unassigned : after.assignedThreadId = none)
      (attempts : after.attemptCount = row.attemptCount) :
      RowStep id operation true (some row) (some after)
  | reported {thread : String} {row after : AgentJobItem}
      (report : operation.reporter id = some thread) (running : row.status = .running)
      (assigned : row.assignedThreadId = some thread) (completed : after.status = .completed)
      (unassigned : after.assignedThreadId = none) (result : after.resultJson ≠ none)
      (attempts : after.attemptCount = row.attemptCount) :
      RowStep id operation true (some row) (some after)
  | ended {row after : AgentJobItem} (noReport : operation.reporter id = none)
      (running : row.status = .running) (final : after.status.isFinal = true)
      (unassigned : after.assignedThreadId = none)
      (result : after.status = .completed → after.resultJson ≠ none)
      (attempts : after.attemptCount = row.attemptCount) :
      RowStep id operation true (some row) (some after)

section Steps

variable {db : Database} {now : ℤ} {id : ItemId} {operation : Operation}

/-- An update does to the row of its item what it does where its condition is met, and nothing to
any other row. -/
theorem rowStep_updateItem {target : ItemId} {condition : AgentJobItem → Bool}
    {change : AgentJobItem → AgentJobItem} (other : target ≠ id → operation.reporter id = none)
    (met : ∀ row, target = id → condition row = true →
      RowStep id operation true (some row) (some (change row))) :
    RowStep id operation (updateItem db target condition change).1 (db.items.lookup id)
      ((updateItem db target condition change).2.items.lookup id) := by
  obtain ⟨row, found, holds, updated⟩ | ⟨_, refused⟩ := updateItem_cases db target condition change
  · rw [updated]
    obtain rfl | apart := eq_or_ne target id
    · rw [AList.lookup_insert, found]
      exact met row rfl holds
    · rw [AList.lookup_insert_ne apart.symm]
      refine .kept ?_
      simp [other apart]
  · rw [refused]
    exact .kept fun _ _ => rfl

theorem lookup_insertItems {jobId : String} {params : List AgentJobItemCreateParams}
    {items after : Table ItemId AgentJobItem}
    (inserted : insertItems now jobId items params = some after) :
    after.lookup id = items.lookup id ∨
      items.lookup id = none ∧ ∃ rowIndex, after.lookup id = some (createdItem now rowIndex) := by
  induction params generalizing items with
  | nil =>
      cases inserted
      exact .inl rfl
  | cons item params ih =>
      simp only [insertItems] at inserted
      split_ifs at inserted with taken
      obtain same | ⟨absent, created⟩ := ih inserted
      · rw [same]
        obtain rfl | apart := eq_or_ne id ⟨jobId, item.itemId⟩
        · refine .inr ⟨by simpa using taken, item.rowIndex, AList.lookup_insert _⟩
        · exact .inl (AList.lookup_insert_ne apart)
      · refine .inr ⟨?_, created⟩
        by_contra found
        obtain rfl | apart := eq_or_ne id ⟨jobId, item.itemId⟩
        · simp at absent
        · exact found ((AList.lookup_insert_ne apart).symm.trans absent)

theorem rowStep_createAgentJob (jobId : String) (maxRuntimeSeconds : Option ℕ)
    (items : List AgentJobItemCreateParams) :
    let operation := Operation.createAgentJob jobId maxRuntimeSeconds items
    RowStep id operation (perform db now operation).1 (db.items.lookup id)
      ((perform db now operation).2.items.lookup id) := by
  simp only [perform]
  cases created : createAgentJob db now jobId maxRuntimeSeconds items with
  | none => exact .kept nofun
  | some after =>
      unfold createAgentJob at created
      split_ifs at created
      obtain ⟨inserted, insertion, rfl⟩ := Option.map_eq_some_iff.mp created
      obtain same | ⟨absent, rowIndex, written⟩ := lookup_insertItems insertion
      · exact same ▸ .kept nofun
      · rw [absent, written]
        exact .created rfl

/-- What every operation does to the row of an item. -/
theorem rowStep_perform (db : Database) (now : ℤ) (id : ItemId) (operation : Operation) :
    RowStep id operation (perform db now operation).1 (db.items.lookup id)
      ((perform db now operation).2.items.lookup id) := by
  cases operation with
  | createAgentJob => exact rowStep_createAgentJob ..
  | markAgentJobItemRunning | markAgentJobItemRunningWithThread =>
      refine rowStep_updateItem (fun _ => rfl) fun row _ pending => ?_
      exact .started rfl (of_decide_eq_true pending) rfl rfl
  | markAgentJobItemPending =>
      refine rowStep_updateItem (fun _ => rfl) fun row _ running => ?_
      exact .requeued rfl (of_decide_eq_true running) rfl rfl rfl
  | setAgentJobItemThread =>
      refine rowStep_updateItem (fun _ => rfl) fun row _ running => ?_
      have stays := of_decide_eq_true running
      exact .reassigned rfl stays stays rfl
  | reportAgentJobItemResult target thread =>
      refine rowStep_updateItem (fun apart => if_neg apart) fun row same met => ?_
      obtain ⟨running, assigned⟩ := Bool.and_eq_true_iff.mp met
      exact .reported (if_pos same) (of_decide_eq_true running) (of_decide_eq_true assigned) rfl rfl
        (by simp) rfl
  | markAgentJobItemCompleted =>
      refine rowStep_updateItem (fun _ => rfl) fun row _ met => ?_
      obtain ⟨running, result⟩ := Bool.and_eq_true_iff.mp met
      exact .ended rfl (of_decide_eq_true running) rfl rfl
        (fun _ => Option.isSome_iff_ne_none.mp result)
        rfl
  | markAgentJobItemFailed =>
      refine rowStep_updateItem (fun _ => rfl) fun row _ running => ?_
      exact .ended rfl (of_decide_eq_true running) rfl rfl nofun rfl

end Steps

/-! ## Runs of operations -/

/-- An operation at a time. -/
structure Call where
  now : ℤ
  operation : Operation

/-- The tables after an operation. -/
def afterOperation (db : Database) (event : Call) : Database :=
  (perform db event.now event.operation).2

/-- The tables after operations, one after the other, on tables that were empty. -/
def replay (events : List Call) : Database := Replay.replay afterOperation ⟨∅, ∅⟩ events

/-- The operation reports a result for an item, and the report is accepted. -/
def acceptsReport (id : ItemId) (db : Database) (event : Call) : Bool :=
  (event.operation.reporter id).isSome && (perform db event.now event.operation).1

/-- The item is pending before the operation and running after it. -/
def startsRunning (id : ItemId) (db : Database) (event : Call) : Bool :=
  (db.items.lookup id).any (·.status = .pending) &&
    ((afterOperation db event).items.lookup id).any (·.status = .running)

/-- Only a running item is assigned to a thread, and a completed one has a result. -/
structure WellFormed (row : AgentJobItem) : Prop where
  unassigned : row.status ≠ .running → row.assignedThreadId = none
  result : row.status = .completed → row.resultJson ≠ none

/-- One more report can be accepted for an item that has not ended. -/
def reportsLeft (row : Option AgentJobItem) : ℕ := if row.any (·.status.isFinal) then 0 else 1

def attempts (row : Option AgentJobItem) : ℤ := row.elim 0 (·.attemptCount)

section Row

variable {id : ItemId} {operation : Operation} {success : Bool} {row after : Option AgentJobItem}

theorem wellFormed_of_rowStep (stepped : RowStep id operation success row after)
    (wellFormed : ∀ item ∈ row, WellFormed item) : ∀ item ∈ after, WellFormed item := by
  cases stepped with
  | kept _ => exact wellFormed
  | created _ =>
      rintro _ ⟨⟩
      exact ⟨fun _ => rfl, nofun⟩
  | started _ _ running _ | reassigned _ _ running _ =>
      rintro _ ⟨⟩
      exact ⟨fun stopped => absurd running stopped, fun completed => by simp [running] at completed⟩
  | requeued _ _ pending unassigned _ =>
      rintro _ ⟨⟩
      exact ⟨fun _ => unassigned, fun completed => by simp [pending] at completed⟩
  | reported _ _ _ _ unassigned result _ =>
      rintro _ ⟨⟩
      exact ⟨fun _ => unassigned, fun _ => result⟩
  | ended _ _ _ unassigned result _ =>
      rintro _ ⟨⟩
      exact ⟨fun _ => unassigned, result⟩

/-- No operation touches an item that has ended. -/
theorem eq_of_rowStep_of_isFinal {item : AgentJobItem}
    (stepped : RowStep id operation success (some item) after)
    (final : item.status.isFinal = true) : after = some item := by
  have notFinal : item.status = .pending ∨ item.status = .running → after = some item := by
    rintro (status | status) <;> rw [status] at final <;> cases final
  cases stepped with
  | kept _ => rfl
  | started _ pending _ _ => exact notFinal (.inl pending)
  | reassigned _ running _ _ | requeued _ running _ _ _ | reported _ running _ _ _ _ _
  | ended _ running _ _ _ _ => exact notFinal (.inr running)

/-- An accepted report comes from the thread that the item runs in. -/
theorem assigned_of_rowStep {thread : String} (stepped : RowStep id operation true row after)
    (report : operation.reporter id = some thread) :
    ∃ item, row = some item ∧ item.status = .running ∧ item.assignedThreadId = some thread := by
  cases stepped with
  | kept noReport => cases noReport thread report
  | @reported reporter item _ report' running assigned _ _ _ _ =>
      cases report.symm.trans report'
      exact ⟨item, rfl, running, assigned⟩
  | created noReport | started noReport _ _ _ | reassigned noReport _ _ _
  | requeued noReport _ _ _ _ | ended noReport _ _ _ _ _ => cases noReport.symm.trans report

/-- An accepted report ends the item, and an item that has ended accepts none. -/
theorem reportsLeft_le_of_rowStep (stepped : RowStep id operation success row after) :
    (if (operation.reporter id).isSome && success then 1 else 0) + reportsLeft after ≤
      reportsLeft row := by
  cases stepped with
  | kept noReport =>
      cases report : operation.reporter id with
      | none => simp
      | some thread => simp [noReport thread report]
  | created noReport => simp [noReport, reportsLeft, createdItem, AgentJobItemStatus.isFinal]
  | started noReport before stays _ | reassigned noReport before stays _
  | requeued noReport before stays _ _ =>
      simp [noReport, reportsLeft, before, stays, AgentJobItemStatus.isFinal]
  | reported report running _ completed _ _ _ =>
      simp [report, reportsLeft, running, completed, AgentJobItemStatus.isFinal]
  | @ended item _ noReport running final _ _ _ =>
      have notFinal : item.status.isFinal = false := by rw [running]; rfl
      simp [noReport, reportsLeft, notFinal, final]

/-- An attempt is counted exactly when the item starts to run. -/
theorem attempts_of_rowStep (stepped : RowStep id operation success row after) :
    attempts after = attempts row +
      if row.any (·.status = .pending) && after.any (·.status = .running) then 1 else 0 := by
  cases stepped with
  | kept _ =>
      cases row with
      | none => simp
      | some row => cases status : row.status <;> simp [status]
  | created _ => simp [attempts, createdItem]
  | started _ pending running counted => simp [attempts, pending, running, counted]
  | reassigned _ running _ same | requeued _ running _ _ same | reported _ running _ _ _ _ same
  | ended _ running _ _ _ same => simp [attempts, running, same]

end Row

section Runs

variable {events before between : List Call} {id : ItemId}

theorem replay_append :
    replay (before ++ between) = Replay.replay afterOperation (replay before) between :=
  Replay.replay_append before between

/-- What holds of the items of a run of operations, in every state and over every stretch of it. -/
structure FollowsStateMachine (events : List Call) : Prop where
  /-- Every item of a job has one of the four statuses: the counts are those of the job's rows with
  each status, and add up to the number of its rows. -/
  counted : ∀ before, before <+: events → ∀ jobId,
    let rows := (replay before).items.entries.filter fun row => row.1.jobId = jobId
    let progress := getAgentJobProgress (replay before) jobId
    progress.totalItems = rows.length ∧
      progress.pendingItems = rows.countP (·.2.status = .pending) ∧
      progress.runningItems = rows.countP (·.2.status = .running) ∧
      progress.completedItems = rows.countP (·.2.status = .completed) ∧
      progress.failedItems = rows.countP (·.2.status = .failed) ∧
      progress.pendingItems + progress.runningItems + progress.completedItems +
          progress.failedItems = progress.totalItems
  /-- A completed or failed item stays as it is. -/
  final : ∀ before between, before ++ between <+: events → ∀ id row,
    (replay before).items.lookup id = some row → row.status.isFinal = true →
      (replay (before ++ between)).items.lookup id = some row
  wellFormed : ∀ before, before <+: events → ∀ id row,
    (replay before).items.lookup id = some row → WellFormed row
  reportedOnce : ∀ id, Replay.occurrences afterOperation (acceptsReport id) ⟨∅, ∅⟩ events ≤ 1
  reportedByAssigned : ∀ before event, before ++ [event] <+: events → ∀ id thread,
    event.operation.reporter id = some thread →
      (perform (replay before) event.now event.operation).1 = true →
        ∃ row, (replay before).items.lookup id = some row ∧ row.status = .running ∧
          row.assignedThreadId = some thread
  attemptsCounted : ∀ before, before <+: events → ∀ id row,
    (replay before).items.lookup id = some row →
      row.attemptCount = Replay.occurrences afterOperation (startsRunning id) ⟨∅, ∅⟩ before

theorem followsStateMachine (events : List Call) : FollowsStateMachine events := by
  constructor
  · exact fun before _ jobId => getAgentJobProgress_counts (replay before) jobId
  · intro before between _ id row found final
    rw [replay_append]
    have kept : ∀ db event, db.items.lookup id = some row →
        (afterOperation db event).items.lookup id = some row := by
      intro db event found
      have stepped := rowStep_perform db event.now id event.operation
      rw [found] at stepped
      exact eq_of_rowStep_of_isFinal stepped final
    exact Replay.invariant_of_replay kept found between
  · intro before _ id
    have kept : ∀ db event, (∀ item ∈ db.items.lookup id, WellFormed item) →
        ∀ item ∈ (afterOperation db event).items.lookup id, WellFormed item :=
      fun db event => wellFormed_of_rowStep (rowStep_perform db event.now id event.operation)
    exact Replay.invariant_of_replay kept (by simp) before
  · intro id
    have spends : ∀ db event, (if acceptsReport id db event then 1 else 0) +
        reportsLeft ((afterOperation db event).items.lookup id) ≤
          reportsLeft (db.items.lookup id) :=
      fun db event => reportsLeft_le_of_rowStep (rowStep_perform db event.now id event.operation)
    have counted := Replay.occurrences_add_le
      (fun db : Database => reportsLeft (db.items.lookup id)) spends ⟨∅, ∅⟩ events
    exact (Nat.le_of_add_right_le counted).trans (by simp [reportsLeft])
  · intro before event _ id thread report accepted
    have stepped := rowStep_perform (replay before) event.now id event.operation
    rw [accepted] at stepped
    exact assigned_of_rowStep stepped report
  · intro before _ id row found
    have counts : ∀ db event, attempts ((afterOperation db event).items.lookup id) =
        attempts (db.items.lookup id) + if startsRunning id db event then 1 else 0 :=
      fun db event => attempts_of_rowStep (rowStep_perform db event.now id event.operation)
    have counted := Replay.eq_add_occurrences
      (fun db : Database => attempts (db.items.lookup id)) counts ⟨∅, ∅⟩ before
    have start : attempts ((⟨∅, ∅⟩ : Database).items.lookup id) = 0 := by simp [attempts]
    have reached : attempts ((replay before).items.lookup id) = row.attemptCount := by
      simp [attempts, found]
    rw [start, zero_add] at counted
    exact Int.ofNat_inj.mp (reached.symm.trans counted)

end Runs

end CodexPilot.AgentJobs
