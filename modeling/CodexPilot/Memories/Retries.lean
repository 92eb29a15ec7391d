import CodexPilot.Library.Replay
import CodexPilot.Memories.Consolidation

/-!
# Retries of stage-1 jobs

While the times that are offered for a thread never decrease, neither do the watermarks of its job.
A claim at a new watermark refills the retries and a failure takes one, so that no more than these
many failures fall between two rises of the input watermark.
-/

namespace CodexPilot.Memories

open Tables

/-! ## What a call does to the row of a thread -/

/-- The time of the source that a claim offers for a thread. -/
def Transaction.offered (threadId : String) : Transaction → Option ℤ
  | .tryClaimStage1Job _ claimed _ sourceUpdatedAt _ _ =>
      if claimed = threadId then some sourceUpdatedAt else none
  | _ => none

/-- The call reports a failure for a thread. -/
def Transaction.reportsFailure (threadId : String) : Transaction → Bool
  | .markStage1JobFailed failed _ _ _ => failed = threadId
  | _ => false

/-- What a call does to the row of a thread's stage-1 job, by its success. -/
inductive RowStep (threadId : String) (call : Transaction) : Bool → Option Job → Option Job → Prop
  | kept {success : Bool} {row : Option Job}
      (refused : ∀ source, call.offered threadId = some source → success = false)
      (noFailure : call.reportsFailure threadId = true → success = false) :
      RowStep threadId call success row row
  | inserted {source : ℤ} {after : Job} (offered : call.offered threadId = some source)
      (input : after.inputWatermark = some source) (noSuccess : after.lastSuccessWatermark = none)
      (retries : after.retryRemaining = defaultRetryRemaining) :
      RowStep threadId call true none (some after)
  | claimed {source : ℤ} {row after : Job} (offered : call.offered threadId = some source)
      (newer : ∀ done, row.lastSuccessWatermark = some done → done < source)
      (input : after.inputWatermark = some source)
      (last : after.lastSuccessWatermark = row.lastSuccessWatermark)
      (retries : (row.inputWatermark.getD (-1) < source ∧
          after.retryRemaining = defaultRetryRemaining) ∨
        (0 < row.retryRemaining ∧ after.retryRemaining = row.retryRemaining)) :
      RowStep threadId call true (some row) (some after)
  | succeeded {row after : Job} (noOffer : call.offered threadId = none)
      (noFailure : call.reportsFailure threadId = false) (stopped : after.status ≠ .running)
      (input : after.inputWatermark = row.inputWatermark)
      (last : after.lastSuccessWatermark = row.inputWatermark)
      (retries : after.retryRemaining = row.retryRemaining) :
      RowStep threadId call true (some row) (some after)
  | failed {row after : Job} (noOffer : call.offered threadId = none)
      (running : row.status = .running) (stopped : after.status ≠ .running)
      (input : after.inputWatermark = row.inputWatermark)
      (last : after.lastSuccessWatermark = row.lastSuccessWatermark)
      (retries : after.retryRemaining = row.retryRemaining - 1) :
      RowStep threadId call true (some row) (some after)

section Steps

variable {db : Database} {now : ℤ} {threadId : String} {call : Transaction}

theorem lookup_insert_stage1Job {jobs : Table JobId Job} {other : String} {row : Job}
    (apart : other ≠ threadId) :
    (jobs.insert (stage1Job other) row).lookup (stage1Job threadId) =
      jobs.lookup (stage1Job threadId) :=
  AList.lookup_insert_ne fun same => apart (congrArg JobId.jobKey same).symm

theorem offered_of_ne {token other workerId : String} {source leaseSeconds : ℤ} {limit : ℕ}
    (apart : other ≠ threadId) :
    (Transaction.tryClaimStage1Job token other workerId source leaseSeconds limit).offered
      threadId =
      none := by
  simp [Transaction.offered, apart]

/-- A granted claim is newer than the last success. -/
theorem lt_of_claimed {token workerId : String} {source leaseSeconds : ℤ} {limit : ℕ}
    {after : Database}
    (claimed : tryClaimStage1Job db now token threadId workerId source leaseSeconds limit =
      (.claimed token, after)) {row : Job}
    (found : db.jobs.lookup (stage1Job threadId) = some row) {done : ℤ}
    (last : row.lastSuccessWatermark = some done) : done < source := by
  by_contra covered
  have upToDate : ((db.jobs.lookup (stage1Job threadId)).bind (·.lastSuccessWatermark)).any
      (source ≤ ·) = true := by
    simpa [found, last] using covered
  simp only [tryClaimStage1Job, upToDate, if_true, ite_self] at claimed
  cases claimed

/-- The row that a claim writes. -/
theorem rowStep_of_upsert {token workerId : String} {source leaseSeconds leaseUntil maxRunning : ℤ}
    {limit : ℕ} {after : Job} (newer : ∀ row, db.jobs.lookup (stage1Job threadId) = some row →
      ∀ done, row.lastSuccessWatermark = some done → done < source)
    (upserted : upsertStage1Claim db.jobs now token threadId workerId source leaseUntil maxRunning =
      some after) :
    RowStep threadId (.tryClaimStage1Job token threadId workerId source leaseSeconds limit) true
      (db.jobs.lookup (stage1Job threadId)) (some after) := by
  have offered : (Transaction.tryClaimStage1Job token threadId workerId source leaseSeconds
      limit).offered threadId = some source := by
    simp [Transaction.offered]
  unfold upsertStage1Claim at upserted
  split at upserted
  case isFalse => cases upserted
  case isTrue below =>
  cases found : db.jobs.lookup (stage1Job threadId) with
  | none =>
      simp only [found] at upserted
      cases upserted
      exact .inserted offered rfl rfl rfl
  | some row =>
      simp only [found] at upserted
      obtain ⟨met, ⟨⟩⟩ := Option.ite_none_right_eq_some.mp upserted
      simp only [Bool.and_eq_true, Bool.or_eq_true, decide_eq_true_eq] at met
      refine .claimed offered (newer row found) rfl rfl ?_
      dsimp only
      split_ifs with advanced
      · exact .inl ⟨of_decide_eq_true advanced, rfl⟩
      · obtain retries | advances := met.1.2
        · exact .inr ⟨retries, rfl⟩
        · exact absurd (decide_eq_true advances) advanced

theorem rowStep_tryClaimStage1Job (token claimed workerId : String) (source leaseSeconds : ℤ)
    (limit : ℕ) :
    let call := Transaction.tryClaimStage1Job token claimed workerId source leaseSeconds limit
    RowStep threadId call (perform db now call).1 (db.jobs.lookup (stage1Job threadId))
      ((perform db now call).2.jobs.lookup (stage1Job threadId)) := by
  obtain ⟨row, upserted, granted⟩ | ⟨outcome, unclaimed, skipped⟩ :=
    tryClaimStage1Job_cases db now token claimed workerId source leaseSeconds limit
  · simp only [perform, granted, decide_true]
    obtain rfl | apart := eq_or_ne claimed threadId
    · rw [AList.lookup_insert]
      refine rowStep_of_upsert (fun row found done last => ?_) upserted
      exact lt_of_claimed granted found last
    · rw [lookup_insert_stage1Job apart]
      refine .kept ?_ ?_
      · simp [offered_of_ne apart]
      · simp [Transaction.reportsFailure]
  · simp only [perform, skipped, unclaimed, decide_false]
    exact .kept (fun _ _ => rfl) fun _ => rfl

/-- A statement that finishes the job of a thread. -/
theorem lookup_finishStage1Job {finished token : String} {jobs : Table JobId Job}
    (updated : finishStage1Job db now finished token = some jobs) :
    (finished = threadId ∧ ∃ row, db.jobs.lookup (stage1Job threadId) = some row ∧
      jobs.lookup (stage1Job threadId) = some (row.succeed now row.inputWatermark)) ∨
      jobs.lookup (stage1Job threadId) = db.jobs.lookup (stage1Job threadId) := by
  obtain ⟨row, found, _, rfl⟩ := updateWhere_eq_some_iff.mp updated
  obtain rfl | apart := eq_or_ne finished threadId
  · exact .inl ⟨rfl, row, found, AList.lookup_insert _⟩
  · exact .inr (lookup_insert_stage1Job apart)

theorem rowStep_of_finished {finished token : String} {jobs : Table JobId Job} {after : Database}
    (updated : finishStage1Job db now finished token = some jobs)
    (same : after.jobs.lookup (stage1Job threadId) = jobs.lookup (stage1Job threadId))
    (noOffer : call.offered threadId = none) (noFailure : call.reportsFailure threadId = false) :
    RowStep threadId call true (db.jobs.lookup (stage1Job threadId))
      (after.jobs.lookup (stage1Job threadId)) := by
  rw [same]
  obtain ⟨_, row, found, written⟩ | unchanged := lookup_finishStage1Job updated
  · rw [found, written]
    exact .succeeded noOffer noFailure (by simp [Job.succeed]) rfl rfl rfl
  · rw [unchanged]
    refine .kept ?_ ?_
    · simp [noOffer]
    · simp [noFailure]

theorem lookup_enqueueGlobalConsolidation (after : Database) (watermark : ℤ) :
    (enqueueGlobalConsolidation after watermark).jobs.lookup (stage1Job threadId) =
      after.jobs.lookup (stage1Job threadId) :=
  AList.lookup_insert_ne (globalJob_ne_stage1Job threadId).symm

theorem rowStep_refused (db : Database) :
    RowStep threadId call false (db.jobs.lookup (stage1Job threadId))
      (db.jobs.lookup (stage1Job threadId)) :=
  .kept (fun _ _ => rfl) fun _ => rfl

theorem rowStep_markStage1JobSucceeded (finished token : String) (source : ℤ)
    (rawMemory rolloutSummary : String) (rolloutSlug : Option String) :
    let call := Transaction.markStage1JobSucceeded finished token source rawMemory rolloutSummary
      rolloutSlug
    RowStep threadId call (perform db now call).1 (db.jobs.lookup (stage1Job threadId))
      ((perform db now call).2.jobs.lookup (stage1Job threadId)) := by
  simp only [perform, markStage1JobSucceeded]
  cases updated : finishStage1Job db now finished token with
  | none => exact rowStep_refused db
  | some jobs =>
      cases upsertStage1Output db now finished source rawMemory rolloutSummary rolloutSlug with
      | error _ => exact rowStep_refused db
      | ok outputs =>
          refine rowStep_of_finished updated ?_ rfl rfl
          exact lookup_enqueueGlobalConsolidation _ source

theorem rowStep_markStage1JobSucceededNoOutput (finished token : String) :
    let call := Transaction.markStage1JobSucceededNoOutput finished token
    RowStep threadId call (perform db now call).1 (db.jobs.lookup (stage1Job threadId))
      ((perform db now call).2.jobs.lookup (stage1Job threadId)) := by
  simp only [perform, markStage1JobSucceededNoOutput]
  cases updated : finishStage1Job db now finished token with
  | none => exact rowStep_refused db
  | some jobs =>
      dsimp only
      cases (jobs.lookup (stage1Job finished)).bind (·.inputWatermark) with
      | none => exact rowStep_refused db
      | some source =>
          dsimp only
          split_ifs
          · refine rowStep_of_finished updated ?_ rfl rfl
            exact lookup_enqueueGlobalConsolidation _ source
          · exact rowStep_of_finished updated rfl rfl rfl

theorem rowStep_markStage1JobFailed (failed token reason : String) (delay : ℤ) :
    let call := Transaction.markStage1JobFailed failed token reason delay
    RowStep threadId call (perform db now call).1 (db.jobs.lookup (stage1Job threadId))
      ((perform db now call).2.jobs.lookup (stage1Job threadId)) := by
  simp only [perform, markStage1JobFailed, failJob]
  split
  next => exact rowStep_refused db
  next jobs updated =>
    obtain ⟨row, found, running, _, rfl⟩ := exists_of_updateOwned updated
    obtain rfl | apart := eq_or_ne failed threadId
    · rw [found, AList.lookup_insert]
      exact .failed rfl running (by simp [Job.fail]) rfl rfl rfl
    · rw [lookup_insert_stage1Job apart]
      refine .kept ?_ ?_
      · simp [Transaction.offered]
      · simp [Transaction.reportsFailure, apart]

/-- A call that offers nothing and reports no failure for the thread may leave the row. -/
theorem rowStep_quiet {success : Bool} {row : Option Job} (noOffer : call.offered threadId = none)
    (noFailure : call.reportsFailure threadId = false) : RowStep threadId call success row row := by
  refine .kept ?_ ?_
  · simp [noOffer]
  · simp [noFailure]

/-- A statement on the global job. -/
theorem rowStep_updateGlobal {condition : Job → Bool} {change : Job → Job} {jobs : Table JobId Job}
    {after : Database} (updated : updateWhere db.jobs globalJob condition change = some jobs)
    (same : after.jobs = jobs) (noOffer : call.offered threadId = none)
    (noFailure : call.reportsFailure threadId = false) {success : Bool} :
    RowStep threadId call success (db.jobs.lookup (stage1Job threadId))
      (after.jobs.lookup (stage1Job threadId)) := by
  obtain ⟨row, _, _, rfl⟩ := updateWhere_eq_some_iff.mp updated
  rw [same, AList.lookup_insert_ne (globalJob_ne_stage1Job threadId).symm]
  exact rowStep_quiet noOffer noFailure

/-- What every call does to the row of a stage-1 job. -/
theorem rowStep_perform (db : Database) (now : ℤ) (threadId : String) (call : Transaction) :
    RowStep threadId call (perform db now call).1 (db.jobs.lookup (stage1Job threadId))
      ((perform db now call).2.jobs.lookup (stage1Job threadId)) := by
  cases call with
  | tryClaimStage1Job => exact rowStep_tryClaimStage1Job ..
  | markStage1JobSucceeded => exact rowStep_markStage1JobSucceeded ..
  | markStage1JobSucceededNoOutput => exact rowStep_markStage1JobSucceededNoOutput ..
  | markStage1JobFailed => exact rowStep_markStage1JobFailed ..
  | enqueueGlobalConsolidation watermark =>
      rw [perform, lookup_enqueueGlobalConsolidation]
      exact rowStep_quiet rfl rfl
  | tryClaimGlobalPhase2Job token workerId leaseSeconds =>
      obtain ⟨row, found, _, claimed⟩ | ⟨outcome, _, skipped⟩ :=
        tryClaimGlobalPhase2Job_cases db now token workerId leaseSeconds
      · simp only [perform, claimed]
        rw [AList.lookup_insert_ne (globalJob_ne_stage1Job threadId).symm]
        exact rowStep_quiet rfl rfl
      · simp only [perform, skipped]
        exact rowStep_quiet rfl rfl
  | heartbeatGlobalPhase2Job token leaseSeconds =>
      simp only [perform, heartbeatGlobalPhase2Job]
      split
      next => exact rowStep_refused db
      next jobs updated => exact rowStep_updateGlobal updated rfl rfl rfl
  | markGlobalPhase2JobSucceeded token completedWatermark selected =>
      simp only [perform, markGlobalPhase2JobSucceeded]
      split
      next => exact rowStep_refused db
      next jobs updated => exact rowStep_updateGlobal updated rfl rfl rfl
  | markGlobalPhase2JobFailed | markGlobalPhase2JobFailedIfUnowned =>
      simp only [perform, markGlobalPhase2JobFailed, markGlobalPhase2JobFailedIfUnowned, failJob]
      split
      next => exact rowStep_refused db
      next jobs updated => exact rowStep_updateGlobal updated rfl rfl rfl
  | markThreadMemoryModePolluted polluted =>
      simp only [perform, markThreadMemoryModePolluted]
      split
      next => exact rowStep_refused db
      next threads _ =>
        split_ifs
        · rw [lookup_enqueueGlobalConsolidation]
          exact rowStep_quiet rfl rfl
        · exact rowStep_quiet rfl rfl

end Steps

/-! ## Watermarks and retries over runs -/

/-- The tables after a call. -/
def afterCall (db : Database) (event : Event) : Database := (perform db event.now event.call).2

/-- The tables after calls, one after the other. -/
def replay (db : Database) (events : List Event) : Database := Replay.replay afterCall db events

/-- The times that are offered for a thread, in order. -/
def offers (threadId : String) (events : List Event) : List ℤ :=
  events.filterMap (·.call.offered threadId)

/-- How many calls report a failure for a thread and succeed. -/
def failures (threadId : String) (db : Database) (events : List Event) : ℕ :=
  Replay.occurrences afterCall
    (fun db event => event.call.reportsFailure threadId && (perform db event.now event.call).1)
    db events

/-- The input watermark of a thread's job; there is none before its first claim. -/
def stage1Input (threadId : String) (db : Database) : WithBot ℤ :=
  rowInput (db.jobs.lookup (stage1Job threadId))

/-- The watermark of the last success. -/
def rowSuccess (row : Option Job) : WithBot ℤ :=
  (row.bind (·.lastSuccessWatermark)).elim ⊥ fun watermark => (watermark : WithBot ℤ)

/-- The success watermark of a thread's job; there is none before its first success. -/
def stage1Success (threadId : String) (db : Database) : WithBot ℤ :=
  rowSuccess (db.jobs.lookup (stage1Job threadId))

/-- A row with an input watermark that is not below its success, and with some of its retries; a
claim keeps one. -/
structure Budgeted (row : Job) (watermark : ℤ) : Prop where
  input : row.inputWatermark = some watermark
  success : ∀ done, row.lastSuccessWatermark = some done → done ≤ watermark
  nonnegative : 0 ≤ row.retryRemaining
  atMost : row.retryRemaining ≤ defaultRetryRemaining
  claimed : row.status = .running → 0 < row.retryRemaining

/-- The row of a thread is within its budget and not beyond what is offered later. -/
def Within (offers : List ℤ) (row : Option Job) : Prop :=
  ∀ job, row = some job → ∃ watermark, Budgeted job watermark ∧ ∀ offer ∈ offers, watermark ≤ offer

/-- The retries that are left; without a row there is nothing to fail. -/
def retriesLeft (row : Option Job) : ℤ := row.elim 0 (·.retryRemaining)

section Row

variable {threadId : String} {call : Transaction} {success : Bool} {row after : Option Job}
  {later : List ℤ}

/-- One call keeps the row within its budget. -/
theorem within_of_rowStep (stepped : RowStep threadId call success row after)
    (ordered : ((call.offered threadId).toList ++ later).Pairwise (· ≤ ·))
    (within : Within ((call.offered threadId).toList ++ later) row) : Within later after := by
  cases stepped with
  | kept _ _ =>
      intro job found
      obtain ⟨watermark, budgeted, below⟩ := within job found
      exact ⟨watermark, budgeted, fun offer member => below offer (List.mem_append_right _ member)⟩
  | @inserted source job offered input noSuccess retries =>
      rintro _ ⟨⟩
      rw [offered, Option.toList_some, List.singleton_append, List.pairwise_cons] at ordered
      have full : (0 : ℤ) < defaultRetryRemaining := by decide
      refine ⟨source, ⟨input, ?_, ?_, retries.le, fun _ => retries ▸ full⟩, ordered.1⟩
      · simp [noSuccess]
      · rw [retries]
        exact full.le
  | @claimed source row job offered newer input last retries =>
      rintro _ ⟨⟩
      rw [offered, Option.toList_some, List.singleton_append, List.pairwise_cons] at ordered
      obtain ⟨watermark, budgeted, below⟩ := within row rfl
      have full : (0 : ℤ) < defaultRetryRemaining := by decide
      have left : 0 < job.retryRemaining ∧ job.retryRemaining ≤ defaultRetryRemaining := by
        obtain ⟨_, refilled⟩ | ⟨some, same⟩ := retries
        · rw [refilled]
          exact ⟨full, le_rfl⟩
        · rw [same]
          exact ⟨some, budgeted.atMost⟩
      refine ⟨source, ⟨input, fun done found => ?_, left.1.le, left.2, fun _ => left.1⟩, ordered.1⟩
      exact (newer done (last ▸ found)).le
  | @succeeded row job noOffer noFailure stopped input last retries =>
      rintro _ ⟨⟩
      obtain ⟨watermark, budgeted, below⟩ := within row rfl
      refine ⟨watermark, ⟨input.trans budgeted.input, fun done found => ?_, ?_, ?_, ?_⟩,
        fun offer member => below offer (List.mem_append_right _ member)⟩
      · rw [last, budgeted.input] at found
        cases found
        exact le_rfl
      · exact retries ▸ budgeted.nonnegative
      · exact retries ▸ budgeted.atMost
      · exact fun running => absurd running stopped
  | @failed row job noOffer running stopped input last retries =>
      rintro _ ⟨⟩
      obtain ⟨watermark, budgeted, below⟩ := within row rfl
      have some := budgeted.claimed running
      have most := budgeted.atMost
      refine ⟨watermark, ⟨input.trans budgeted.input, fun done found => ?_, by omega, by omega, ?_⟩,
        fun offer member => below offer (List.mem_append_right _ member)⟩
      · exact budgeted.success done (last ▸ found)
      · exact fun running => absurd running stopped

theorem rowInput_of_some {job : Job} {watermark : ℤ} (input : job.inputWatermark = some watermark) :
    rowInput (some job) = watermark := by
  simp [rowInput, input]

/-- No call lowers the input watermark. -/
theorem rowInput_le_of_rowStep (stepped : RowStep threadId call success row after)
    (within : Within ((call.offered threadId).toList ++ later) row) :
    rowInput row ≤ rowInput after := by
  cases stepped with
  | kept _ _ => exact le_rfl
  | inserted _ _ _ _ => exact bot_le
  | @claimed source row job offered _ input _ _ =>
      obtain ⟨watermark, budgeted, below⟩ := within row rfl
      rw [rowInput_of_some budgeted.input, rowInput_of_some input]
      exact WithBot.coe_le_coe.mpr (below source (by simp [offered]))
  | succeeded _ _ _ input _ _ | failed _ _ _ input _ _ => simp [rowInput, input]

/-- No call lowers the success watermark. -/
theorem rowSuccess_le_of_rowStep (stepped : RowStep threadId call success row after)
    (within : Within ((call.offered threadId).toList ++ later) row) :
    rowSuccess row ≤ rowSuccess after := by
  cases stepped with
  | kept _ _ => exact le_rfl
  | inserted _ _ _ _ => exact bot_le
  | claimed _ _ _ last _ | failed _ _ _ _ last _ => simp [rowSuccess, last]
  | @succeeded row job _ _ _ _ last _ =>
      obtain ⟨watermark, budgeted, _⟩ := within row rfl
      cases done : row.lastSuccessWatermark with
      | none => simp [rowSuccess, done]
      | some before =>
          simp only [rowSuccess, Option.bind_some, done, last, budgeted.input, Option.elim_some]
          exact WithBot.coe_le_coe.mpr (budgeted.success before done)

/-- While the input watermark stays, a failure takes a retry and nothing gives one back. -/
theorem failure_le_of_rowStep (stepped : RowStep threadId call success row after)
    (within : Within ((call.offered threadId).toList ++ later) row)
    (same : rowInput after = rowInput row) :
    (if call.reportsFailure threadId ∧ success then 1 else 0 : ℤ) + retriesLeft after ≤
      retriesLeft row := by
  cases stepped with
  | kept _ noFailure =>
      rw [if_neg]
      · exact (zero_add _).le
      · rintro ⟨reports, succeeded⟩
        cases (noFailure reports).symm.trans succeeded
  | inserted _ input _ _ =>
      rw [rowInput_of_some input] at same
      exact absurd same WithBot.coe_ne_bot
  | @claimed source row job offered _ input _ retries =>
      obtain ⟨watermark, budgeted, below⟩ := within row rfl
      rw [rowInput_of_some input, rowInput_of_some budgeted.input] at same
      have unchanged : source = watermark := WithBot.coe_injective same
      have noFailure : call.reportsFailure threadId = false := by
        cases call <;> first | rfl | cases offered
      obtain ⟨advanced, _⟩ | ⟨_, kept⟩ := retries
      · rw [budgeted.input, Option.getD_some, unchanged] at advanced
        exact absurd advanced (lt_irrefl _)
      · simp [noFailure, retriesLeft, kept]
  | succeeded _ noFailure _ _ _ retries => simp [noFailure, retriesLeft, retries]
  | failed _ _ _ _ _ retries =>
      simp only [retriesLeft, Option.elim_some, retries]
      split_ifs <;> omega

end Row

section Runs

variable {threadId : String} {start : Database} {event : Event} {events before between : List Event}

theorem replay_append (db : Database) (before after : List Event) :
    replay db (before ++ after) = replay (replay db before) after :=
  Replay.replay_append before after

theorem offers_cons :
    offers threadId (event :: events) =
      (event.call.offered threadId).toList ++ offers threadId events := by
  cases offered : event.call.offered threadId <;> simp [offers, offered]

theorem offers_append (before after : List Event) :
    offers threadId (before ++ after) = offers threadId before ++ offers threadId after :=
  List.filterMap_append ..

/-- A run keeps the row within its budget. -/
theorem within_replay (before after : List Event)
    (ordered : (offers threadId (before ++ after)).Pairwise (· ≤ ·))
    (within : Within (offers threadId (before ++ after)) (start.jobs.lookup (stage1Job threadId))) :
    Within (offers threadId after) ((replay start before).jobs.lookup (stage1Job threadId)) := by
  induction before generalizing start with
  | nil => exact within
  | cons event before ih =>
      rw [List.cons_append, offers_cons] at ordered within
      have stepped := rowStep_perform start event.now threadId event.call
      exact ih (List.pairwise_append.mp ordered).2.1
        (within_of_rowStep stepped ordered within)

/-- What no call lowers while the row is within its budget, no run lowers. -/
theorem le_replay {measure : Option Job → WithBot ℤ}
    (grows : ∀ {call success row after later}, RowStep threadId call success row after →
      Within ((call.offered threadId).toList ++ later) row → measure row ≤ measure after)
    (ordered : (offers threadId events).Pairwise (· ≤ ·))
    (within : Within (offers threadId events) (start.jobs.lookup (stage1Job threadId))) :
    measure (start.jobs.lookup (stage1Job threadId)) ≤
      measure ((replay start events).jobs.lookup (stage1Job threadId)) := by
  induction events generalizing start with
  | nil => exact le_rfl
  | cons event events ih =>
      rw [offers_cons] at ordered within
      have stepped := rowStep_perform start event.now threadId event.call
      exact (grows stepped within).trans (ih (List.pairwise_append.mp ordered).2.1
        (within_of_rowStep stepped ordered within))

/-- While the input watermark stays, every failure takes a retry. -/
theorem failures_le_retriesLeft (ordered : (offers threadId events).Pairwise (· ≤ ·))
    (within : Within (offers threadId events) (start.jobs.lookup (stage1Job threadId)))
    (same : stage1Input threadId (replay start events) = stage1Input threadId start) :
    failures threadId start events + retriesLeft
        ((replay start events).jobs.lookup (stage1Job threadId)) ≤
      retriesLeft (start.jobs.lookup (stage1Job threadId)) := by
  induction events generalizing start with
  | nil => simp [failures, replay]
  | cons event events ih =>
      rw [offers_cons] at ordered within
      have stepped := rowStep_perform start event.now threadId event.call
      have ordered' := (List.pairwise_append.mp ordered).2.1
      have within' := within_of_rowStep stepped ordered within
      -- The watermark cannot have risen in between, since nothing lowers it again.
      have first := rowInput_le_of_rowStep stepped within
      have rest := le_replay rowInput_le_of_rowStep ordered' within'
      have stays := le_antisymm (rest.trans same.le) first
      have counted := failure_le_of_rowStep stepped within stays
      have later := ih ordered' within' (same.trans stays.symm)
      simp only [failures, replay, Replay.replay_cons, Replay.occurrences_cons, afterCall,
        Bool.and_eq_true] at later ⊢
      push_cast
      omega

theorem retriesLeft_le {later : List ℤ} {row : Option Job} (within : Within later row) :
    0 ≤ retriesLeft row ∧ retriesLeft row ≤ defaultRetryRemaining := by
  cases row with
  | none => exact ⟨le_rfl, by decide⟩
  | some row =>
      obtain ⟨watermark, budgeted, _⟩ := within row rfl
      exact ⟨budgeted.nonnegative, budgeted.atMost⟩

/-- The watermarks of a thread's job only rise, a claim is newer than the last success, and while
the input watermark stays only so many failures succeed. -/
structure RetriesBounded (threadId : String) (start : Database) (events : List Event) : Prop where
  success : ∀ before between, before ++ between <+: events →
    stage1Success threadId (replay start before) ≤
      stage1Success threadId (replay start (before ++ between))
  claims : ∀ before event, before ++ [event] <+: events →
    ∀ source : ℤ, event.call.offered threadId = some source →
      (perform (replay start before) event.now event.call).1 = true →
        stage1Success threadId (replay start before) < source
  input : ∀ before between, before ++ between <+: events →
    stage1Input threadId (replay start before) ≤
      stage1Input threadId (replay start (before ++ between))
  retries : ∀ before between, before ++ between <+: events →
    stage1Input threadId (replay start (before ++ between)) =
      stage1Input threadId (replay start before) →
      failures threadId (replay start before) between ≤ defaultRetryRemaining

/-- A granted claim is newer than the last success of the row. -/
theorem rowSuccess_lt_of_rowStep {call : Transaction} {row after : Option Job} {source : ℤ}
    (stepped : RowStep threadId call true row after)
    (offered : call.offered threadId = some source) : rowSuccess row < source := by
  cases stepped with
  | kept refused _ => cases refused source offered
  | inserted _ _ _ _ => exact WithBot.bot_lt_coe source
  | @claimed _ row _ offered' newer _ _ _ =>
      cases offered.symm.trans offered'
      cases done : row.lastSuccessWatermark with
      | none => simp [rowSuccess, done]
      | some before => simpa [rowSuccess, done] using newer before done
  | succeeded noOffer _ _ _ _ _ | failed noOffer _ _ _ _ _ => cases noOffer.symm.trans offered

/-- The watermarks rise and the retries are bounded in every run in which the times that are offered
for the thread never decrease. -/
theorem retriesBounded_of_ordered (threadId : String)
    (unclaimed : start.jobs.lookup (stage1Job threadId) = none)
    (ordered : (offers threadId events).Pairwise (· ≤ ·)) :
    RetriesBounded threadId start events := by
  have within : ∀ later, Within later (start.jobs.lookup (stage1Job threadId)) := by
    intro later row found
    cases unclaimed.symm.trans found
  -- In the middle of the run, the row is within its budget for what is still offered.
  have midway : ∀ before between, before ++ between <+: events →
      (offers threadId between).Pairwise (· ≤ ·) ∧
        Within (offers threadId between)
          ((replay start before).jobs.lookup (stage1Job threadId)) := by
    rintro before between ⟨after, rfl⟩
    rw [offers_append] at ordered
    have upTo := (List.pairwise_append.mp ordered).1
    refine ⟨?_, within_replay before between upTo (within _)⟩
    rw [offers_append] at upTo
    exact (List.pairwise_append.mp upTo).2.1
  constructor
  · intro before between isPrefix
    obtain ⟨ordered', within'⟩ := midway before between isPrefix
    rw [replay_append]
    exact le_replay rowSuccess_le_of_rowStep ordered' within'
  · intro before event _ source offered granted
    have stepped := rowStep_perform (replay start before) event.now threadId event.call
    rw [granted] at stepped
    exact rowSuccess_lt_of_rowStep stepped offered
  · intro before between isPrefix
    obtain ⟨ordered', within'⟩ := midway before between isPrefix
    rw [replay_append]
    exact le_replay rowInput_le_of_rowStep ordered' within'
  · intro before between isPrefix same
    obtain ⟨ordered', within'⟩ := midway before between isPrefix
    rw [replay_append] at same
    have counted := failures_le_retriesLeft ordered' within' same
    have left := retriesLeft_le (within_replay between [] (by simpa using ordered')
      (by simpa using within'))
    have atMost := retriesLeft_le within'
    omega

/-- A worker fails three times and a fourth claim is refused until the thread has changed. -/
def exhausted : List Event :=
  [⟨0, .tryClaimStage1Job "a" "thread" "worker" 5 10 1⟩,
    ⟨1, .markStage1JobFailed "thread" "a" "reason" 0⟩,
    ⟨2, .tryClaimStage1Job "b" "thread" "worker" 5 10 1⟩,
    ⟨12, .tryClaimStage1Job "c" "thread" "worker" 5 10 1⟩,
    ⟨13, .markStage1JobFailed "thread" "c" "reason" 0⟩,
    ⟨14, .tryClaimStage1Job "d" "thread" "worker" 5 10 1⟩,
    ⟨15, .markStage1JobFailed "thread" "d" "reason" 0⟩,
    ⟨16, .tryClaimStage1Job "e" "thread" "worker" 5 10 1⟩,
    ⟨17, .tryClaimStage1Job "f" "thread" "worker" 6 10 1⟩]

theorem retriesBounded_of_exhausted :
    failures "thread" ⟨∅, ∅, ∅⟩ exhausted = 3 ∧
      stage1Input "thread" (replay ⟨∅, ∅, ∅⟩ exhausted) = ((6 : ℤ) : WithBot ℤ) ∧
      RetriesBounded "thread" ⟨∅, ∅, ∅⟩ exhausted :=
  ⟨by decide, rfl, retriesBounded_of_ordered "thread" rfl (by decide)⟩

end Runs

end CodexPilot.Memories
