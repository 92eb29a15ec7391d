import CodexPilot.Library.Transitions
import CodexPilot.Memories.Database

/-!
# Leases of memory jobs

Over any order of claims, expiries, take-overs and late calls, a job row changes hands only through
a claim: a token that is not the one of the latest claim has no effect.
-/

namespace CodexPilot.Memories

open Tables Transitions

/-! ## Roles of calls -/

/-- What a call does with a job: claim it under a new token, or use a token to renew the lease or to
finish the job. -/
inductive Role where
  | claim (job : JobId) (token : String)
  | renew (job : JobId) (token : String)
  | finish (job : JobId) (token : String)
  | other
  deriving DecidableEq

namespace Transaction

def role : Transaction → Role
  | .tryClaimStage1Job token threadId _ _ _ _ => .claim (stage1Job threadId) token
  | .tryClaimGlobalPhase2Job token _ _ => .claim globalJob token
  | .heartbeatGlobalPhase2Job token _ => .renew globalJob token
  | .markStage1JobSucceeded threadId token _ _ _ _
  | .markStage1JobSucceededNoOutput threadId token
  | .markStage1JobFailed threadId token _ _ => .finish (stage1Job threadId) token
  | .markGlobalPhase2JobSucceeded token _ _
  | .markGlobalPhase2JobFailed token _ _
  | .markGlobalPhase2JobFailedIfUnowned token _ _ => .finish globalJob token
  | .enqueueGlobalConsolidation _ | .markThreadMemoryModePolluted _ => .other

/-- The call depends on a token of a job. -/
def Uses (call : Transaction) (job : JobId) (token : String) : Prop :=
  call.role = .renew job token ∨ call.role = .finish job token

section Uses

variable {call : Transaction} {job used : JobId} {token given : String}

theorem not_uses_of_claim (role : call.role = .claim job token) : ¬ call.Uses used given := by
  simp [Uses, role]

theorem not_uses_of_other (role : call.role = .other) : ¬ call.Uses used given := by
  simp [Uses, role]

theorem uses_of_renew (role : call.role = .renew job token) :
    call.Uses used given ↔ job = used ∧ token = given := by
  simp [Uses, role]

theorem uses_of_finish (role : call.role = .finish job token) :
    call.Uses used given ↔ job = used ∧ token = given := by
  simp [Uses, role]

end Uses

/-- The number of running jobs that a stage-1 claim allows. -/
def limit : Transaction → Option ℕ
  | .tryClaimStage1Job _ _ _ _ _ maxRunningJobs => some maxRunningJobs
  | _ => none

end Transaction

/-! ## What a call does to the job rows -/

/-- The rows after an enqueue, or the same rows. -/
inductive Enqueued (jobs : Table JobId Job) : Table JobId Job → Prop
  | unchanged : Enqueued jobs jobs
  | enqueue (watermark : ℤ) :
      Enqueued jobs (jobs.insert globalJob (enqueued watermark (jobs.lookup globalJob)))

/-- What a call can do: its success and the tables after it. -/
inductive Effect (db : Database) (now : ℤ) (call : Transaction) : Bool × Database → Prop
  | refused : Effect db now call (false, db)
  | claimed {job : JobId} {token : String} {row : Job} (role : call.role = .claim job token)
      (free : ∀ old, db.jobs.lookup job = some old → old.leased now = false)
      (running : row.status = .running) (owner : row.ownershipToken = some token)
      (within : job.kind = .memoryStage1 → ∃ limit, call.limit = some limit ∧
        (otherRunningStage1Jobs db.jobs now job : ℤ) < asI64 limit) :
      Effect db now call (true, { db with jobs := db.jobs.insert job row })
  | renewed {job : JobId} {token : String} {row : Job} (lease : ℤ)
      (role : call.role = .renew job token) (kind : job.kind ≠ .memoryStage1)
      (found : db.jobs.lookup job = some row) (owned : row.ownedBy token = true) :
      Effect db now call
        (true, { db with jobs := db.jobs.insert job { row with leaseUntil := some lease } })
  | finished {job : JobId} {token : String} {row result : Job} {after : Database}
      (role : call.role = .finish job token) (found : db.jobs.lookup job = some row)
      (running : row.status = .running)
      (owner : row.ownershipToken = some token ∨ row.ownershipToken = none)
      (stopped : result.status ≠ .running) (unleased : result.leaseUntil = none)
      (enqueued : Enqueued (db.jobs.insert job result) after.jobs) :
      Effect db now call (true, after)
  | other {success : Bool} {after : Database} (role : call.role = .other)
      (enqueued : Enqueued db.jobs after.jobs) : Effect db now call (success, after)

section Effects

variable {db : Database} {now : ℤ} {call : Transaction}

theorem ownedBy_iff {token : String} {row : Job} :
    row.ownedBy token = true ↔ row.status = .running ∧ row.ownershipToken = some token := by
  simp [Job.ownedBy]

/-- A statement that is guarded by a token finds the row running under it. -/
theorem exists_of_updateOwned {jobs after : Table JobId Job} {job : JobId} {token : String}
    {change : Job → Job} (updated : updateWhere jobs job (·.ownedBy token) change = some after) :
    ∃ row, jobs.lookup job = some row ∧ row.status = .running ∧ row.ownershipToken = some token ∧
      after = jobs.insert job (change row) := by
  obtain ⟨row, found, owned, inserted⟩ := updateWhere_eq_some_iff.mp updated
  obtain ⟨running, owner⟩ := ownedBy_iff.mp owned
  exact ⟨row, found, running, owner, inserted⟩

theorem otherRunningStage1Jobs_le (jobs : Table JobId Job) (job : JobId) :
    otherRunningStage1Jobs jobs now job ≤ runningStage1Jobs jobs now :=
  count_mono fun _ _ counted => (Bool.and_eq_true_iff.mp counted).1

theorem upsertStage1Claim_spec {jobs : Table JobId Job} {token threadId workerId : String}
    {sourceUpdatedAt leaseUntil limit : ℤ} {row : Job}
    (claimed : upsertStage1Claim jobs now token threadId workerId sourceUpdatedAt leaseUntil limit =
      some row) :
    (∀ old, jobs.lookup (stage1Job threadId) = some old → old.leased now = false) ∧
      row.status = .running ∧ row.ownershipToken = some token ∧
      (otherRunningStage1Jobs jobs now (stage1Job threadId) : ℤ) < limit := by
  unfold upsertStage1Claim at claimed
  split at claimed
  case isFalse => cases claimed
  case isTrue below =>
  cases found : jobs.lookup (stage1Job threadId) with
  | none =>
      simp only [found] at claimed
      cases claimed
      have fewer : otherRunningStage1Jobs jobs now (stage1Job threadId) ≤
        runningStage1Jobs jobs now :=
        otherRunningStage1Jobs_le jobs (stage1Job threadId)
      refine ⟨?_, rfl, rfl, by omega⟩
      intro old impossible
      cases impossible
  | some old =>
      simp only [found] at claimed
      obtain ⟨met, ⟨⟩⟩ := Option.ite_none_right_eq_some.mp claimed
      simp only [Bool.and_eq_true, Bool.not_eq_true', decide_eq_true_eq] at met
      refine ⟨?_, rfl, rfl, met.2⟩
      intro same found
      cases found
      exact met.1.1.1

theorem tryClaimStage1Job_cases (db : Database) (now : ℤ) (token threadId workerId : String)
    (sourceUpdatedAt leaseSeconds : ℤ) (maxRunningJobs : ℕ) :
    (∃ row, upsertStage1Claim db.jobs now token threadId workerId sourceUpdatedAt
        (deadline now leaseSeconds) (asI64 maxRunningJobs) = some row ∧
      tryClaimStage1Job db now token threadId workerId sourceUpdatedAt leaseSeconds maxRunningJobs =
        (.claimed token, { db with jobs := db.jobs.insert (stage1Job threadId) row })) ∨
      ∃ outcome, outcome ≠ .claimed token ∧
        tryClaimStage1Job db now token threadId workerId sourceUpdatedAt leaseSeconds
          maxRunningJobs = (outcome, db) := by
  unfold tryClaimStage1Job
  split_ifs
  · exact .inr ⟨_, by simp, rfl⟩
  · exact .inr ⟨_, by simp, rfl⟩
  · cases claimed : upsertStage1Claim db.jobs now token threadId workerId sourceUpdatedAt
        (deadline now leaseSeconds) (asI64 maxRunningJobs) with
    | some row => exact .inl ⟨row, rfl, rfl⟩
    | none =>
        refine .inr ?_
        cases db.jobs.lookup (stage1Job threadId) with
        | none => exact ⟨_, by simp, rfl⟩
        | some row =>
            dsimp only
            split_ifs <;> exact ⟨_, by simp, rfl⟩

theorem tryClaimGlobalPhase2Job_cases (db : Database) (now : ℤ) (token workerId : String)
    (leaseSeconds : ℤ) :
    (∃ row, db.jobs.lookup globalJob = some row ∧ row.claimable now = true ∧
      tryClaimGlobalPhase2Job db now token workerId leaseSeconds =
        (.claimed token (row.inputWatermark.getD 0), { db with
          jobs := db.jobs.insert globalJob
            (row.claim now workerId token (deadline now leaseSeconds)) })) ∨
      ∃ outcome, (∀ token watermark, outcome ≠ .claimed token watermark) ∧
        tryClaimGlobalPhase2Job db now token workerId leaseSeconds = (outcome, db) := by
  unfold tryClaimGlobalPhase2Job
  cases found : db.jobs.lookup globalJob with
  | none => exact .inr ⟨_, by simp, rfl⟩
  | some row =>
      dsimp only
      split_ifs
      · exact .inr ⟨_, by simp, rfl⟩
      · exact .inr ⟨_, by simp, rfl⟩
      · exact .inr ⟨_, by simp, rfl⟩
      · exact .inr ⟨_, by simp, rfl⟩
      · split
        next => exact .inr ⟨_, by simp, rfl⟩
        next jobs updated =>
          obtain ⟨same, found', claimable, rfl⟩ := updateWhere_eq_some_iff.mp updated
          cases found.symm.trans found'
          exact .inl ⟨row, rfl, claimable, rfl⟩

theorem effect_failJob {job : JobId} {token : String} {condition : Job → Bool} {reason : String}
    {delay : ℤ} (role : call.role = .finish job token)
    (running : ∀ row, condition row = true → row.status = .running ∧
      (row.ownershipToken = some token ∨ row.ownershipToken = none)) :
    Effect db now call (failJob db now job condition reason delay) := by
  unfold failJob
  split
  next => exact .refused
  next jobs updated =>
    obtain ⟨row, found, met, rfl⟩ := updateWhere_eq_some_iff.mp updated
    obtain ⟨running, owner⟩ := running row met
    exact .finished role found running owner (by simp [Job.fail]) rfl .unchanged

theorem effect_markStage1JobSucceeded {threadId token : String} {sourceUpdatedAt : ℤ}
    {rawMemory rolloutSummary : String} {rolloutSlug : Option String}
    (role : call.role = .finish (stage1Job threadId) token) :
    Effect db now call (orRollback db (markStage1JobSucceeded db now threadId token sourceUpdatedAt
      rawMemory rolloutSummary rolloutSlug)) := by
  unfold markStage1JobSucceeded
  split
  next => exact .refused
  next jobs updated =>
    obtain ⟨row, found, running, owner, rfl⟩ := exists_of_updateOwned updated
    split
    next => exact .refused
    next outputs _ =>
      exact .finished role found running (.inl owner) (by simp [Job.succeed]) rfl (.enqueue _)

theorem effect_markStage1JobSucceededNoOutput {threadId token : String}
    (role : call.role = .finish (stage1Job threadId) token) :
    Effect db now call (orRollback db (markStage1JobSucceededNoOutput db now threadId token)) := by
  unfold markStage1JobSucceededNoOutput
  split
  next => exact .refused
  next jobs updated =>
    obtain ⟨row, found, running, owner, rfl⟩ := exists_of_updateOwned updated
    split
    next => exact .refused
    next watermark _ =>
      split_ifs
      · exact .finished role found running (.inl owner) (by simp [Job.succeed]) rfl (.enqueue _)
      · exact .finished role found running (.inl owner) (by simp [Job.succeed]) rfl .unchanged

theorem effect_perform (db : Database) (now : ℤ) (call : Transaction) :
    Effect db now call (perform db now call) := by
  cases call with
  | tryClaimStage1Job token threadId workerId sourceUpdatedAt leaseSeconds maxRunningJobs =>
      obtain ⟨row, upserted, claimed⟩ | ⟨outcome, unclaimed, skipped⟩ :=
        tryClaimStage1Job_cases db now token threadId workerId sourceUpdatedAt leaseSeconds
          maxRunningJobs
      · obtain ⟨free, running, owner, below⟩ := upsertStage1Claim_spec upserted
        simp only [perform, claimed, decide_true]
        exact .claimed rfl free running owner fun _ => ⟨maxRunningJobs, rfl, below⟩
      · simp only [perform, skipped, unclaimed, decide_false]
        exact .refused
  | markStage1JobSucceeded => exact effect_markStage1JobSucceeded rfl
  | markStage1JobSucceededNoOutput => exact effect_markStage1JobSucceededNoOutput rfl
  | markStage1JobFailed =>
      exact effect_failJob rfl fun row owned => (ownedBy_iff.mp owned).imp_right .inl
  | enqueueGlobalConsolidation watermark => exact .other rfl (.enqueue watermark)
  | tryClaimGlobalPhase2Job token workerId leaseSeconds =>
      obtain ⟨row, found, claimable, claimed⟩ | ⟨outcome, unclaimed, skipped⟩ :=
        tryClaimGlobalPhase2Job_cases db now token workerId leaseSeconds
      · simp only [perform, claimed]
        refine .claimed rfl ?_ rfl rfl nofun
        intro old found'
        cases found.symm.trans found'
        simp only [Job.claimable, Bool.and_eq_true, Bool.not_eq_true'] at claimable
        exact claimable.1.1.2
      · simp only [perform, skipped]
        cases outcome with
        | claimed token watermark => exact absurd rfl (unclaimed token watermark)
        | skippedNotDirty | skippedRunning => exact .refused
  | heartbeatGlobalPhase2Job token leaseSeconds =>
      simp only [perform, heartbeatGlobalPhase2Job]
      split
      next => exact .refused
      next jobs updated =>
        obtain ⟨row, found, owned, rfl⟩ := updateWhere_eq_some_iff.mp updated
        exact .renewed _ rfl nofun found owned
  | markGlobalPhase2JobSucceeded token completedWatermark selected =>
      simp only [perform, markGlobalPhase2JobSucceeded]
      split
      next => exact .refused
      next jobs updated =>
        obtain ⟨row, found, running, owner, rfl⟩ := exists_of_updateOwned updated
        exact .finished rfl found running (.inl owner) (by simp [Job.succeed]) rfl .unchanged
  | markGlobalPhase2JobFailed =>
      exact effect_failJob rfl fun row owned => (ownedBy_iff.mp owned).imp_right .inl
  | markGlobalPhase2JobFailedIfUnowned =>
      exact effect_failJob rfl fun row met => by simpa using met
  | markThreadMemoryModePolluted threadId =>
      simp only [perform, markThreadMemoryModePolluted]
      split
      next => exact .other rfl .unchanged
      next threads _ =>
        split_ifs
        · exact .other rfl (.enqueue now)
        · exact .other rfl .unchanged

/-- A call on a job that does not succeed leaves all tables as they were. -/
theorem perform_eq_of_refused (onJob : call.role ≠ .other)
    (failed : (perform db now call).1 = false) : (perform db now call).2 = db := by
  have effect := effect_perform db now call
  generalize perform db now call = result at effect failed
  cases effect with
  | refused => rfl
  | claimed _ _ _ _ _ | renewed _ _ _ _ _ | finished _ _ _ _ _ _ _ => cases failed
  | other role _ => exact absurd role onJob

end Effects

/-! ## Histories -/

/-- A call that was made, and whether it succeeded. -/
abbrev Record := Transaction × Bool

/-- A claim of a job, and whether it has been finished. -/
structure Claim where
  token : String
  finished : Bool

/-- The latest claim of a job; a history starts with the last call. -/
def latestClaim (job : JobId) : List Record → Option Claim
  | [] => none
  | (call, success) :: earlier =>
      if success then
        match call.role with
        | .claim claimed token =>
            if claimed = job then some ⟨token, false⟩ else latestClaim job earlier
        | .finish finished _ =>
            if finished = job then (latestClaim job earlier).map ({ · with finished := true })
            else latestClaim job earlier
        | _ => latestClaim job earlier
      else latestClaim job earlier

/-- The token that a call brings along for a claim. -/
def Transaction.newToken (call : Transaction) : Option String :=
  match call.role with
  | .claim _ token => some token
  | _ => none

def newTokens (history : List Record) : List String := history.filterMap (·.1.newToken)

/-- How often a job was finished under a token. -/
def finishes (job : JobId) (token : String) (history : List Record) : ℕ :=
  history.countP fun record => record.1.role = .finish job token && record.2

/-- A claim of the job under this token was followed by another claim of the job. -/
def TakenOver (job : JobId) (token : String) (history : List Record) : Prop :=
  ∃ later earlier call, history = later ++ (call, true) :: earlier ∧ call.role = .claim job token ∧
    ∃ next other, (next, true) ∈ later ∧ next.role = .claim job other

/-- The database, the time of the last call and all calls so far. -/
structure System where
  db : Database
  clock : ℤ
  history : List Record

def System.initial (threads : Table String MemoryMode) (start : ℤ) : System :=
  ⟨⟨∅, ∅, threads⟩, start, []⟩

/-- A call, and when it is made. -/
structure Event where
  now : ℤ
  call : Transaction

/-- A call of any worker, at a time that is not before the last one and with a token that is new
when it claims a job. -/
def step (system : System) (event : Event) : Option System :=
  if system.clock ≤ event.now ∧ ∀ token ∈ event.call.newToken, token ∉ newTokens system.history then
    let result := perform system.db event.now event.call
    some ⟨result.2, event.now, (event.call, result.1) :: system.history⟩
  else none

section Ownership

/-- A running row is owned by the latest claim, and only running rows have a lease. -/
structure RowOwned (latest : Option Claim) (row : Job) : Prop where
  owner : row.status = .running →
    ∃ token, row.ownershipToken = some token ∧ latest = some ⟨token, false⟩
  unleased : row.status ≠ .running → row.leaseUntil = none

/-- Every row fits its last claim. -/
def Owned (latest : JobId → Option Claim) (jobs : Table JobId Job) : Prop :=
  ∀ job row, jobs.lookup job = some row → RowOwned (latest job) row

variable {latest : JobId → Option Claim} {jobs after : Table JobId Job}

/-- Only the row that is written has to be looked at again. -/
theorem Owned.replace {before : JobId → Option Claim} (owned : Owned before jobs) {job : JobId}
    {row : Job} (others : ∀ other, other ≠ job → latest other = before other)
    (sound : RowOwned (latest job) row) : Owned latest (jobs.insert job row) := by
  intro other found lookup
  obtain rfl | apart := eq_or_ne other job
  · rw [AList.lookup_insert] at lookup
    cases lookup
    exact sound
  · rw [AList.lookup_insert_ne apart] at lookup
    rw [others other apart]
    exact owned other found lookup

theorem Owned.insert (owned : Owned latest jobs) {job : JobId} {row : Job}
    (sound : RowOwned (latest job) row) : Owned latest (jobs.insert job row) :=
  owned.replace (fun _ _ => rfl) sound

theorem Owned.enqueued (owned : Owned latest jobs) (enqueued : Enqueued jobs after) :
    Owned latest after := by
  cases enqueued with
  | unchanged => exact owned
  | enqueue watermark =>
      refine owned.insert ?_
      cases found : jobs.lookup globalJob with
      | none => exact ⟨nofun, fun _ => rfl⟩
      | some row =>
          have sound := owned globalJob row found
          refine ⟨fun running => sound.owner ?_, fun stopped => sound.unleased ?_⟩
          · by_contra stopped
            simp [Memories.enqueued, stopped] at running
          · intro running
            simp [Memories.enqueued, running] at stopped

section Latest

variable {call : Transaction} {job claimed : JobId} {token : String} {history : List Record}

theorem latestClaim_claim (role : call.role = .claim claimed token) :
    latestClaim job ((call, true) :: history) =
      if claimed = job then some ⟨token, false⟩ else latestClaim job history := by
  simp [latestClaim, role]

theorem latestClaim_finish (role : call.role = .finish claimed token) :
    latestClaim job ((call, true) :: history) =
      if claimed = job then (latestClaim job history).map ({ · with finished := true })
      else latestClaim job history := by
  simp [latestClaim, role]

theorem latestClaim_renew (role : call.role = .renew claimed token) (success : Bool) :
    latestClaim job ((call, success) :: history) = latestClaim job history := by
  simp [latestClaim, role]

theorem latestClaim_other (role : call.role = .other) (success : Bool) :
    latestClaim job ((call, success) :: history) = latestClaim job history := by
  simp [latestClaim, role]

end Latest

/-- One call keeps every row with its latest claim. -/
theorem owned_perform {db : Database} {history : List Record}
    (owned : Owned (latestClaim · history) db.jobs) (now : ℤ) (call : Transaction) :
    Owned (latestClaim · ((call, (perform db now call).1) :: history))
      (perform db now call).2.jobs := by
  have effect := effect_perform db now call
  generalize perform db now call = result at effect
  cases effect with
  | refused => exact owned
  | claimed role _ running owner _ =>
      refine owned.replace (fun other apart => ?_) ⟨fun _ => ⟨_, owner, ?_⟩, absurd running⟩
      · rw [latestClaim_claim role, if_neg (Ne.symm apart)]
      · rw [latestClaim_claim role, if_pos rfl]
  | renewed lease role _ found renewable =>
      obtain ⟨running, owner⟩ := ownedBy_iff.mp renewable
      have sound := owned _ _ found
      refine owned.replace (fun other _ => latestClaim_renew role true) ⟨fun running => ?_, ?_⟩
      · simpa only [latestClaim_renew role] using sound.owner running
      · exact fun stopped => absurd running stopped
  | finished role found running owner stopped unleased enqueued =>
      refine Owned.enqueued ?_ enqueued
      refine owned.replace (fun other apart => ?_) ⟨fun running => absurd running stopped, ?_⟩
      · rw [latestClaim_finish role, if_neg (Ne.symm apart)]
      · exact fun _ => unleased
  | other role enqueued =>
      simp only [latestClaim_other role]
      exact owned.enqueued enqueued

/-- A call that uses a token succeeds only under the latest claim, while that is not finished. -/
theorem latestClaim_of_uses {db : Database} {history : List Record}
    (owned : Owned (latestClaim · history) db.jobs) {now : ℤ} {call : Transaction} {job : JobId}
    {token : String} (uses : call.Uses job token) (succeeded : (perform db now call).1 = true) :
    latestClaim job history = some ⟨token, false⟩ := by
  have effect := effect_perform db now call
  generalize perform db now call = result at effect succeeded
  have current : ∀ row, db.jobs.lookup job = some row → row.status = .running →
      (row.ownershipToken = some token ∨ row.ownershipToken = none) →
        latestClaim job history = some ⟨token, false⟩ := by
    intro row found running owner
    obtain ⟨owning, owns, latest⟩ := (owned job row found).owner running
    obtain same | unowned := owner
    · cases owns.symm.trans same
      exact latest
    · cases owns.symm.trans unowned
  cases effect with
  | refused => cases succeeded
  | claimed role _ _ _ _ => exact absurd uses (Transaction.not_uses_of_claim role)
  | renewed lease role _ found renewable =>
      obtain ⟨rfl, rfl⟩ := (Transaction.uses_of_renew role).mp uses
      obtain ⟨running, owner⟩ := ownedBy_iff.mp renewable
      exact current _ found running (.inl owner)
  | finished role found running owner _ _ _ =>
      obtain ⟨rfl, rfl⟩ := (Transaction.uses_of_finish role).mp uses
      exact current _ found running owner
  | other role _ => exact absurd uses (Transaction.not_uses_of_other role)

/-- A job whose lease has not expired is not claimed. -/
theorem lease_le_of_claim {db : Database} {latest : JobId → Option Claim}
    (owned : Owned latest db.jobs) {now : ℤ} {call : Transaction} {job : JobId} {token : String}
    (role : call.role = .claim job token) (succeeded : (perform db now call).1 = true) {row : Job}
    (found : db.jobs.lookup job = some row) {lease : ℤ} (leased : row.leaseUntil = some lease) :
    lease ≤ now := by
  have effect := effect_perform db now call
  generalize perform db now call = result at effect succeeded
  cases effect with
  | refused => cases succeeded
  | claimed role' free _ _ _ =>
      cases role.symm.trans role'
      have running : row.status = .running := by
        by_contra stopped
        cases ((owned job row found).unleased stopped).symm.trans leased
      simpa [Job.leased, running, leased] using free row found
  | renewed lease role' _ _ _ | finished role' _ _ _ _ _ _
  | other role' _ => cases role.symm.trans role'

end Ownership

section Tokens

variable {call : Transaction} {success : Bool} {job : JobId} {token : String}
  {history later earlier : List Record}

/-- The latest claim is a new one, an old one that is now finished, or the same as before. -/
theorem latestClaim_cons_cases {claim : Claim}
    (latest : latestClaim job ((call, success) :: history) = some claim) :
    (success = true ∧ call.role = .claim job claim.token) ∨
      (claim.finished = true ∧ ∃ old, latestClaim job history = some old ∧
        claim.token = old.token) ∨
      (latestClaim job history = some claim ∧
        ∀ token, call.role = .finish job token → success = false) := by
  cases success with
  | false => exact .inr (.inr ⟨latest, fun _ _ => rfl⟩)
  | true =>
      cases role : call.role with
      | claim claimed token =>
          rw [latestClaim_claim role] at latest
          split_ifs at latest with same
          · cases latest
            exact .inl ⟨rfl, same ▸ rfl⟩
          · exact .inr (.inr ⟨latest, nofun⟩)
      | renew renewed token =>
          rw [latestClaim_renew role] at latest
          exact .inr (.inr ⟨latest, nofun⟩)
      | finish finished token =>
          rw [latestClaim_finish role] at latest
          split_ifs at latest with same
          · obtain ⟨old, before, rfl⟩ := Option.map_eq_some_iff.mp latest
            exact .inr (.inl ⟨rfl, old, before, rfl⟩)
          · refine .inr (.inr ⟨latest, ?_⟩)
            rintro _ ⟨⟩
            exact absurd rfl same
      | other =>
          rw [latestClaim_other role] at latest
          exact .inr (.inr ⟨latest, nofun⟩)

theorem newToken_of_role (role : call.role = .claim job token) : call.newToken = some token := by
  simp [Transaction.newToken, role]

theorem newTokens_cons :
    newTokens ((call, success) :: history) = call.newToken.toList ++ newTokens history := by
  cases new : call.newToken <;> simp [newTokens, new]

theorem mem_newTokens_of_latestClaim {claim : Claim}
    (latest : latestClaim job history = some claim) : claim.token ∈ newTokens history := by
  induction history generalizing claim with
  | nil => cases latest
  | cons record history ih =>
      rw [newTokens_cons]
      obtain ⟨_, role⟩ | ⟨_, old, before, same⟩ | ⟨before, _⟩ := latestClaim_cons_cases latest
      · simp [newToken_of_role role]
      · exact List.mem_append_right _ (same ▸ ih before)
      · exact List.mem_append_right _ (ih before)

/-- Every claim is finished at most once. -/
structure FinishedOnce (history : List Record) : Prop where
  once : ∀ job token, finishes job token history ≤ 1
  unfinished : ∀ job token, latestClaim job history = some ⟨token, false⟩ →
    finishes job token history = 0
  unclaimed : ∀ job token, token ∉ newTokens history → finishes job token history = 0

theorem finishes_cons :
    finishes job token ((call, success) :: history) = finishes job token history +
      if call.role = .finish job token ∧ success = true then 1 else 0 := by
  simp [finishes, List.countP_cons]

theorem FinishedOnce.cons (finishedOnce : FinishedOnce history)
    (fenced : ∀ job token, call.role = .finish job token → success = true →
      latestClaim job history = some ⟨token, false⟩)
    (fresh : ∀ token ∈ call.newToken, token ∉ newTokens history) :
    FinishedOnce ((call, success) :: history) where
  once job token := by
    rw [finishes_cons]
    split_ifs with counted
    · rw [finishedOnce.unfinished job token (fenced job token counted.1 counted.2)]
    · exact finishedOnce.once job token
  unfinished job token latest := by
    obtain ⟨_, role⟩ | ⟨finished, _⟩ | ⟨before, unfinished⟩ := latestClaim_cons_cases latest
    · have new := finishedOnce.unclaimed job token (fresh token (newToken_of_role role))
      rw [finishes_cons, new, if_neg]
      rintro ⟨role', _⟩
      cases role.symm.trans role'
    · cases finished
    · rw [finishes_cons, finishedOnce.unfinished job token before, if_neg]
      rintro ⟨role, succeeded⟩
      cases succeeded.symm.trans (unfinished token role)
  unclaimed job token absent := by
    rw [newTokens_cons] at absent
    have before : token ∉ newTokens history := fun known => absent (List.mem_append_right _ known)
    rw [finishes_cons, finishedOnce.unclaimed job token before, if_neg]
    rintro ⟨role, succeeded⟩
    exact before (mem_newTokens_of_latestClaim (fenced job token role succeeded))

/-- After a claim of the job, the latest claim is at least as recent. -/
theorem mem_newTokens_of_claim {next : Transaction} {claim : Claim}
    (followed : (next, true) ∈ later) (role : next.role = .claim job token)
    (latest : latestClaim job (later ++ earlier) = some claim) : claim.token ∈ newTokens later := by
  induction later generalizing claim with
  | nil => cases followed
  | cons record later ih =>
      rw [List.cons_append] at latest
      rw [newTokens_cons]
      obtain first | followed := List.mem_cons.mp followed
      · subst first
        rw [latestClaim_claim role, if_pos rfl] at latest
        cases latest
        simp [newToken_of_role role]
      · obtain ⟨_, role'⟩ | ⟨_, old, before, same⟩ | ⟨before, _⟩ := latestClaim_cons_cases latest
        · simp [newToken_of_role role']
        · exact List.mem_append_right _ (same ▸ ih followed before)
        · exact List.mem_append_right _ (ih followed before)

/-- A claim that was taken over is not the latest one. -/
theorem TakenOver.latestClaim_ne (takenOver : TakenOver job token history)
    (nodup : (newTokens history).Nodup) {claim : Claim}
    (latest : latestClaim job history = some claim) : claim.token ≠ token := by
  obtain ⟨later, earlier, call, rfl, role, next, other, followed, nextRole⟩ := takenOver
  have split : newTokens (later ++ (call, true) :: earlier) =
      newTokens later ++ token :: newTokens earlier := by
    simp [newTokens, newToken_of_role role]
  have recent := mem_newTokens_of_claim followed nextRole latest
  rw [split] at nodup
  rintro rfl
  exact List.disjoint_of_nodup_append nodup recent List.mem_cons_self

end Tokens

section Limit

variable {jobs after : Table JobId Job} {now later : ℤ} {limit : ℕ}

theorem asI64_le (value : ℕ) : asI64 value ≤ value := by
  unfold asI64
  split <;> omega

theorem leased_of_le {row : Job} (ordered : now ≤ later) (leased : row.leased later = true) :
    row.leased now = true := by
  simp only [Job.leased, Bool.and_eq_true, Option.any_eq_true_iff_get, decide_eq_true_eq]
    at leased ⊢
  obtain ⟨running, some, unexpired⟩ := leased
  exact ⟨running, some, by omega⟩

theorem otherRunningStage1Jobs_mono (ordered : now ≤ later) (job : JobId) :
    otherRunningStage1Jobs jobs later job ≤ otherRunningStage1Jobs jobs now job := by
  refine count_mono fun id row counted => ?_
  simp only [Bool.and_eq_true] at counted ⊢
  exact ⟨⟨counted.1.1, leased_of_le ordered counted.1.2⟩, counted.2⟩

theorem runningStage1Jobs_insert_le {job : JobId} {row : Job}
    (uncounted : job.kind ≠ .memoryStage1 ∨ row.leased now = false) :
    runningStage1Jobs (jobs.insert job row) now ≤ runningStage1Jobs jobs now := by
  refine count_insert_le ?_
  obtain kind | expired := uncounted
  · simp [kind]
  · simp [expired]

theorem runningStage1Jobs_enqueued_le (enqueued : Enqueued jobs after) :
    runningStage1Jobs after now ≤ runningStage1Jobs jobs now := by
  cases enqueued with
  | unchanged => exact le_rfl
  | enqueue watermark => exact runningStage1Jobs_insert_le (.inl nofun)

/-- A call keeps the number of running jobs within the limit of all claims. -/
theorem runningStage1Jobs_perform_le {db : Database} {call : Transaction}
    (bounded : runningStage1Jobs db.jobs later ≤ limit)
    (uniform : ∀ other, call.limit = some other → other = limit) (ordered : now ≤ later) :
    runningStage1Jobs (perform db now call).2.jobs later ≤ limit := by
  have effect := effect_perform db now call
  generalize perform db now call = result at effect
  cases effect with
  | refused => exact bounded
  | @claimed job token row role _ _ _ within =>
      by_cases kind : job.kind = .memoryStage1
      · obtain ⟨other, same, below⟩ := within kind
        cases uniform other same
        have counted : runningStage1Jobs (db.jobs.insert job row) later ≤
            otherRunningStage1Jobs db.jobs later job + 1 := by
          unfold runningStage1Jobs otherRunningStage1Jobs
          rw [count_insert]
          split <;> omega
        have fewer : otherRunningStage1Jobs db.jobs later job ≤
            otherRunningStage1Jobs db.jobs now job := otherRunningStage1Jobs_mono ordered job
        have cast := asI64_le limit
        dsimp only
        omega
      · exact (runningStage1Jobs_insert_le (.inl kind)).trans bounded
  | renewed lease _ kind _ _ => exact (runningStage1Jobs_insert_le (.inl kind)).trans bounded
  | finished _ _ _ _ stopped _ enqueued =>
      refine (runningStage1Jobs_enqueued_le enqueued).trans (le_trans ?_ bounded)
      exact runningStage1Jobs_insert_le (.inr (by simp [Job.leased, stopped]))
  | other _ enqueued => exact (runningStage1Jobs_enqueued_le enqueued).trans bounded

end Limit

/-! ## Runs -/

/-- What ties the tables to the calls that were made. -/
structure Sound (system : System) : Prop where
  owned : Owned (latestClaim · system.history) system.db.jobs
  finishedOnce : FinishedOnce system.history
  newTokens_nodup : (newTokens system.history).Nodup

theorem sound_initial (threads : Table String MemoryMode) (start : ℤ) :
    Sound (System.initial threads start) where
  owned job row found := by simp [System.initial] at found
  finishedOnce := ⟨fun _ _ => Nat.zero_le 1, fun _ _ _ => rfl, fun _ _ _ => rfl⟩
  newTokens_nodup := List.nodup_nil

theorem step_eq_some_iff {system next : System} {event : Event} :
    step system event = some next ↔
      system.clock ≤ event.now ∧
        (∀ token ∈ event.call.newToken, token ∉ newTokens system.history) ∧
        next = ⟨(perform system.db event.now event.call).2, event.now,
          (event.call, (perform system.db event.now event.call).1) :: system.history⟩ := by
  unfold step
  rw [Option.ite_none_right_eq_some, and_assoc]
  simp only [Option.some.injEq]
  exact and_congr_right fun _ => and_congr_right fun _ => ⟨Eq.symm, Eq.symm⟩

theorem sound_step {system next : System} {event : Event} (sound : Sound system)
    (stepped : step system event = some next) : Sound next := by
  obtain ⟨_, fresh, rfl⟩ := step_eq_some_iff.mp stepped
  refine ⟨owned_perform sound.owned event.now event.call, ?_, ?_⟩
  · refine sound.finishedOnce.cons (fun job token role succeeded => ?_) fresh
    exact latestClaim_of_uses sound.owned (.inr role) succeeded
  · rw [newTokens_cons]
    cases new : event.call.newToken with
    | none => exact sound.newTokens_nodup
    | some token => exact List.nodup_cons.mpr ⟨fresh token new, sound.newTokens_nodup⟩

/-- A token is of use only under the latest claim of its job, which is finished at most once and
taken over only after its lease has expired. -/
structure ExclusiveLeases (system : System) : Prop where
  fenced : ∀ now call job token, call.Uses job token → (perform system.db now call).1 = true →
    latestClaim job system.history = some ⟨token, false⟩
  once : ∀ job token, finishes job token system.history ≤ 1
  lost : ∀ now call job token, call.Uses job token → TakenOver job token system.history →
    perform system.db now call = (false, system.db)
  expired : ∀ now call job token, call.role = .claim job token →
    (perform system.db now call).1 = true → ∀ row, system.db.jobs.lookup job = some row →
      ∀ lease, row.leaseUntil = some lease → lease ≤ now

theorem Sound.exclusiveLeases {system : System} (sound : Sound system) :
    ExclusiveLeases system where
  fenced now call job token := latestClaim_of_uses sound.owned
  once := sound.finishedOnce.once
  lost now call job token uses takenOver := by
    have failed : (perform system.db now call).1 = false := by
      by_contra succeeded
      have latest := latestClaim_of_uses sound.owned uses (Bool.eq_true_of_not_eq_false succeeded)
      exact takenOver.latestClaim_ne sound.newTokens_nodup latest rfl
    have onJob : call.role ≠ .other := fun other => Transaction.not_uses_of_other other uses
    exact Prod.ext failed (perform_eq_of_refused onJob failed)
  expired now call job token role succeeded row found lease leased :=
    lease_le_of_claim sound.owned role succeeded found leased

section Run

variable {threads : Table String MemoryMode} {start : ℤ} {events : List Event} {system : System}

theorem sound_of_run (ran : run step (System.initial threads start) events = some system) :
    Sound system :=
  preserved_of_run (fun _ _ _ => sound_step) (sound_initial threads start) ran

/-- When all claims have the same limit, no more jobs than that run at a time. -/
theorem runningStage1Jobs_le_of_run {limit : ℕ}
    (uniform : ∀ event ∈ events, ∀ other, event.call.limit = some other → other = limit)
    (ran : run step (System.initial threads start) events = some system) {now : ℤ}
    (ordered : system.clock ≤ now) : runningStage1Jobs system.db.jobs now ≤ limit := by
  have kept : ∀ before event next,
      (∀ later, before.clock ≤ later → runningStage1Jobs before.db.jobs later ≤ limit) →
      (∀ other, event.call.limit = some other → other = limit) →
      step before event = some next →
        ∀ later, next.clock ≤ later → runningStage1Jobs next.db.jobs later ≤ limit := by
    intro before event next bounded met stepped later ordered
    obtain ⟨advanced, _, rfl⟩ := step_eq_some_iff.mp stepped
    exact runningStage1Jobs_perform_le (bounded later (advanced.trans ordered)) met ordered
  have initially : ∀ later, (System.initial threads start).clock ≤ later →
      runningStage1Jobs (System.initial threads start).db.jobs later ≤ limit :=
    fun _ _ => Nat.zero_le limit
  exact invariant_of_run kept initially (along_of_forall_mem uniform _) ran now ordered

/-- Leases are exclusive and bounded in every run. -/
theorem exclusiveLeases_of_run
    (ran : run step (System.initial threads start) events = some system) :
    ExclusiveLeases system ∧
      ∀ limit, (∀ event ∈ events, ∀ other, event.call.limit = some other → other = limit) →
        ∀ now, system.clock ≤ now → runningStage1Jobs system.db.jobs now ≤ limit :=
  ⟨(sound_of_run ran).exclusiveLeases, fun _ uniform _ ordered =>
    runningStage1Jobs_le_of_run uniform ran ordered⟩

end Run

/-- A second worker takes a job over when its lease has expired, and the first one comes too
late. -/
def lateWorker : List Event :=
  [⟨0, .tryClaimStage1Job "a" "thread" "first" 5 10 1⟩,
    ⟨10, .tryClaimStage1Job "b" "thread" "second" 5 10 1⟩,
    ⟨11, .markStage1JobSucceeded "thread" "a" 5 "memory" "summary" none⟩,
    ⟨12, .markStage1JobSucceeded "thread" "b" 5 "memory" "summary" none⟩]

theorem exclusiveLeases_of_lateWorker :
    ∃ system, run step (System.initial (AList.singleton "thread" .enabled) 0) lateWorker =
        some system ∧
      system.history.map Prod.snd = [true, false, true, true] ∧ ExclusiveLeases system ∧
      ∀ now, 12 ≤ now → runningStage1Jobs system.db.jobs now ≤ 1 := by
  obtain ⟨system, ran, outcomes, clock⟩ : ∃ system,
      run step (System.initial (AList.singleton "thread" .enabled) 0) lateWorker = some system ∧
        system.history.map Prod.snd = [true, false, true, true] ∧ system.clock = 12 :=
    ⟨_, rfl, rfl, rfl⟩
  obtain ⟨exclusive, bounded⟩ := exclusiveLeases_of_run ran
  refine ⟨system, ran, outcomes, exclusive, fun now later => bounded 1 ?_ now (clock ▸ later)⟩
  simp [lateWorker, Transaction.limit]

end CodexPilot.Memories
