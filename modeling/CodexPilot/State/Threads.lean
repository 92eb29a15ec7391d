import CodexPilot.Library.Interleaving
import CodexPilot.Library.Tables
import CodexPilot.State.ThreadMetadata
import Mathlib.Data.List.Permutation

/-!
# The row of a thread

Rollout syncs and archive marks read the row of their thread, change the metadata and write all of
it back in another statement; a memory mode is written by a third.  Updates of the git fields are
one statement.  A call takes effect at its write of the row: when the thread still reads then as the
call has read it, and memory modes are written in the order of these writes, the row is what the
calls leave one after another.
-/

namespace CodexPilot.State

open RustStd Tables Transitions Linearization

/-- A row of the table of threads. -/
structure Row extends ThreadRow where
  archived : Bool
  memoryMode : Text

/-! ## Statements -/

/-- The outer `none` is a row that is not readable. -/
def getThread (fromTimestamp : ℤ → Option DateTime) (row : Option Row) :
    Option (Option ThreadMetadata) :=
  row.mapM fun row => ThreadMetadata.tryFrom fromTimestamp row.toThreadRow

/-- An existing row keeps its memory mode. -/
def upsertThreadWithCreationMemoryMode (row : Option Row) (metadata : ThreadMetadata)
    (creationMemoryMode : Option Text) : Option Row :=
  some { metadata.toRow with
    archived := metadata.archivedAt.isSome
    memoryMode := row.elim (creationMemoryMode.getD "enabled".toList) Row.memoryMode }

def setThreadMemoryMode (memoryMode : Text) (row : Option Row) : Option Row :=
  row.map fun row => { row with memoryMode }

def updateThreadGitInfo (gitSha gitBranch gitOriginUrl : Option (Option Text)) (row : Option Row) :
    Option Row :=
  row.map fun row => { row with
    gitSha := gitSha.getD row.gitSha
    gitBranch := gitBranch.getD row.gitBranch
    gitOriginUrl := gitOriginUrl.getD row.gitOriginUrl }

/-! ## Calls -/

/-- `modified` is the modification time of the rollout file, where it has one. -/
inductive Call where
  | applyRolloutItems (builder : ThreadMetadataBuilder) (items : List RolloutItem)
      (newThreadMemoryMode : Option Text) (updatedAtOverride modified : Option DateTime)
  | markArchived (rolloutPath : Text) (archivedAt : DateTime) (modified : Option DateTime)
  | markUnarchived (rolloutPath : Text) (modified : Option DateTime)
  | updateThreadGitInfo (gitSha gitBranch gitOriginUrl : Option (Option Text))

/-- `apply_rollout_items`. -/
def applyRolloutItems (defaultProvider : Text) (builder : ThreadMetadataBuilder)
    (items : List RolloutItem) (updatedAtOverride modified : Option DateTime)
    (existingMetadata : Option ThreadMetadata) : ThreadMetadata :=
  let metadata := existingMetadata.getD (builder.build defaultProvider)
  let metadata := { metadata with rolloutPath := builder.rolloutPath }
  let metadata := items.foldl (applyRolloutItem defaultProvider) metadata
  let metadata := existingMetadata.elim metadata metadata.preferExistingGitInfo
  { metadata with updatedAt := (updatedAtOverride.or modified).getD metadata.updatedAt }

/-- The only statement of a call that does not read. -/
def Call.statement : Call → Option (Option Row → Option Row)
  | .updateThreadGitInfo gitSha gitBranch gitOriginUrl =>
      some (State.updateThreadGitInfo gitSha gitBranch gitOriginUrl)
  | .applyRolloutItems .. | .markArchived .. | .markUnarchived .. => none

/-- What a call writes after it has read the row: the metadata, the memory mode of a new row, and a
memory mode for another statement. -/
structure Write where
  metadata : ThreadMetadata
  creationMemoryMode : Option Text
  memoryMode : Option Text

/-- `none` when the call returns without writing. -/
def Call.write (defaultProvider : Text) (existingMetadata : Option ThreadMetadata) :
    Call → Option Write
  | .applyRolloutItems builder items newThreadMemoryMode updatedAtOverride modified =>
      -- Without items the call returns before it reads.
      if items = [] then none
      else some {
        metadata := State.applyRolloutItems defaultProvider builder items updatedAtOverride
          modified existingMetadata
        creationMemoryMode := if existingMetadata.isNone then newThreadMemoryMode else none
        memoryMode := extractMemoryMode items }
  | .markArchived rolloutPath archivedAt modified =>
      existingMetadata.map fun metadata => {
        metadata := { metadata with
          archivedAt := some archivedAt
          rolloutPath
          updatedAt := modified.getD metadata.updatedAt }
        creationMemoryMode := none
        memoryMode := none }
  | .markUnarchived rolloutPath modified =>
      existingMetadata.map fun metadata => {
        metadata := { metadata with
          archivedAt := none
          rolloutPath
          updatedAt := modified.getD metadata.updatedAt }
        creationMemoryMode := none
        memoryMode := none }
  | .updateThreadGitInfo .. => none

/-! ## Concurrent calls -/

/-- The row, the calls that have read it with what they have read, and those that have written it
and still have to write a memory mode, in order. -/
structure System where
  row : Option Row
  reading : Table ℕ (Call × Option ThreadMetadata)
  waiting : List (ℕ × Text)

def System.initial (row : Option Row) : System := { row, reading := ∅, waiting := [] }

/-- Calls are told apart by numbers. -/
inductive Event where
  | begin (number : ℕ) (call : Call)
  | upsert (number : ℕ)
  | setMemoryMode (number : ℕ)

/-- The first statement of a call. -/
def System.start (system : System) (fromTimestamp : ℤ → Option DateTime) (defaultProvider : Text)
    (number : ℕ) (call : Call) : System :=
  match call.statement with
  | some update => { system with row := update system.row }
  | none =>
      match getThread fromTimestamp system.row with
      | none => system
      | some existingMetadata =>
          match call.write defaultProvider existingMetadata with
          | none => system
          | some _ =>
              { system with reading := system.reading.insert number (call, existingMetadata) }

/-- Take a step; `none` when it is not enabled. -/
def step (fromTimestamp : ℤ → Option DateTime) (defaultProvider : Text) (system : System) :
    Event → Option System
  | .begin number call =>
      if (system.reading.lookup number).isSome ∨ (system.waiting.lookup number).isSome then none
      else some (system.start fromTimestamp defaultProvider number call)
  | .upsert number => do
      let (call, existingMetadata) ← system.reading.lookup number
      let write ← call.write defaultProvider existingMetadata
      some {
        row := upsertThreadWithCreationMemoryMode system.row write.metadata write.creationMemoryMode
        reading := system.reading.erase number
        waiting := system.waiting ++ (write.memoryMode.map (number, ·)).toList }
  | .setMemoryMode number => do
      let memoryMode ← system.waiting.lookup number
      some { system with
        row := setThreadMemoryMode memoryMode system.row
        waiting := system.waiting.eraseP (·.1 = number) }

/-! ## Calls on their own -/

/-- A write, in one piece. -/
def Write.perform (write : Write) (row : Option Row) : Option Row :=
  let after := upsertThreadWithCreationMemoryMode row write.metadata write.creationMemoryMode
  write.memoryMode.elim after (setThreadMemoryMode · after)

/-- All statements of a call, with nothing in between. -/
def Call.perform (fromTimestamp : ℤ → Option DateTime) (defaultProvider : Text)
    (row : Option Row) (call : Call) : Option Row :=
  match call.statement with
  | some update => update row
  | none =>
      match getThread fromTimestamp row with
      | none => row
      | some existingMetadata =>
          match call.write defaultProvider existingMetadata with
          | none => row
          | some write => write.perform row

theorem statement_of_write {defaultProvider : Text} {existingMetadata : Option ThreadMetadata}
    {call : Call} {write : Write}
    (writes : call.write defaultProvider existingMetadata = some write) :
    call.statement = none := by
  cases call with
  | updateThreadGitInfo => cases writes
  | applyRolloutItems | markArchived | markUnarchived => rfl

/-! ## What is still to be written -/

/-- The row once the memory modes that wait have been written. -/
def flush (row : Option Row) (waiting : List (ℕ × Text)) : Option Row :=
  waiting.foldl (fun row entry => setThreadMemoryMode entry.2 row) row

section Flush

variable {fromTimestamp : ℤ → Option DateTime} {waiting : List (ℕ × Text)}

theorem getThread_flush (row : Option Row) :
    getThread fromTimestamp (flush row waiting) = getThread fromTimestamp row := by
  induction waiting generalizing row with
  | nil => rfl
  | cons entry waiting ih =>
      refine (ih (setThreadMemoryMode entry.2 row)).trans ?_
      cases row <;> rfl

theorem statement_flush {call : Call} {update : Option Row → Option Row}
    (statement : call.statement = some update) (row : Option Row) :
    flush (update row) waiting = update (flush row waiting) := by
  cases call with
  | updateThreadGitInfo gitSha gitBranch gitOriginUrl =>
      cases statement
      induction waiting generalizing row with
      | nil => rfl
      | cons entry waiting ih =>
          refine Eq.trans ?_ (ih (setThreadMemoryMode entry.2 row))
          cases row <;> rfl
  | applyRolloutItems | markArchived | markUnarchived => cases statement

theorem isSome_of_statement {call : Call} {update : Option Row → Option Row}
    (statement : call.statement = some update) (row : Option Row) :
    (update row).isSome = row.isSome := by
  cases call with
  | updateThreadGitInfo gitSha gitBranch gitOriginUrl =>
      cases statement
      exact Option.isSome_map
  | applyRolloutItems | markArchived | markUnarchived => cases statement

/-- The memory modes of a row that exists are written after it as well as before it. -/
theorem upsert_flush (metadata : ThreadMetadata) (creationMemoryMode : Option Text)
    (row : Option Row) (exists_ : waiting ≠ [] → row.isSome) :
    flush (upsertThreadWithCreationMemoryMode row metadata creationMemoryMode) waiting =
      upsertThreadWithCreationMemoryMode (flush row waiting) metadata creationMemoryMode := by
  induction waiting generalizing row with
  | nil => rfl
  | cons entry waiting ih =>
      obtain ⟨row, rfl⟩ := Option.isSome_iff_exists.mp (exists_ (List.cons_ne_nil _ _))
      exact ih (setThreadMemoryMode entry.2 (some row)) fun _ => rfl

end Flush

/-! ## Concurrent runs -/

/-- A call writes the row that it has read, as far as metadata go, and a memory mode is written once
those before it are. -/
def Current (fromTimestamp : ℤ → Option DateTime) (system : System) : Event → Prop
  | .begin _ _ => True
  | .upsert number => ∀ call existingMetadata,
      system.reading.lookup number = some (call, existingMetadata) →
        getThread fromTimestamp system.row = some existingMetadata
  | .setMemoryMode number => ∃ memoryMode rest, system.waiting = (number, memoryMode) :: rest

namespace System

/-- The row once the memory modes that wait have been written. -/
def flushed (system : System) : Option Row := flush system.row system.waiting

/-- The calls that have read and not yet written. -/
def pending (system : System) : Multiset Call := (rows system.reading).map Prod.fst

end System

/-- The call that an event begins. -/
def Event.invoked : Event → Multiset Call
  | .begin _ call => {call}
  | .upsert _ | .setMemoryMode _ => 0

section Points

variable {fromTimestamp : ℤ → Option DateTime} {defaultProvider : Text} {system next : System}
  {number : ℕ} {call : Call}

/-- A step that leaves the row, or performs one call. -/
abbrev EffectiveStep (fromTimestamp : ℤ → Option DateTime) (defaultProvider : Text) :=
  Linearizes System.flushed (Call.perform fromTimestamp defaultProvider) System.pending
    Event.invoked

/-- Memory modes only wait for a row that exists. -/
def Settled (system : System) : Prop := system.waiting ≠ [] → system.row.isSome

/-- The first statement updates the row, ends the call, or reads. -/
theorem start_cases (fromTimestamp : ℤ → Option DateTime) (defaultProvider : Text)
    (system : System) (number : ℕ) (call : Call) :
    let after := system.start fromTimestamp defaultProvider number call
    (∃ update, call.statement = some update ∧ after = { system with row := update system.row }) ∨
      (after = system ∧ ∀ row, getThread fromTimestamp row = getThread fromTimestamp system.row →
        call.perform fromTimestamp defaultProvider row = row) ∨
      ∃ existingMetadata,
        after =
          { system with reading := system.reading.insert number (call, existingMetadata) } := by
  unfold System.start
  cases statement : call.statement with
  | some update => exact .inl ⟨update, rfl, rfl⟩
  | none =>
      cases found : getThread fromTimestamp system.row with
      | none =>
          refine .inr (.inl ⟨rfl, fun row same => ?_⟩)
          simp only [Call.perform, statement, same]
      | some existingMetadata =>
          cases writes : call.write defaultProvider existingMetadata with
          | none =>
              simp only [writes]
              refine .inr (.inl ⟨trivial, fun row same => ?_⟩)
              simp only [Call.perform, statement, same, writes]
          | some write =>
              simp only [writes]
              exact .inr (.inr ⟨existingMetadata, rfl⟩)

theorem begin_linearizes (fresh : system.reading.lookup number = none) :
    EffectiveStep fromTimestamp defaultProvider system (.begin number call)
      (system.start fromTimestamp defaultProvider number call) := by
  have effective : system.pending + Event.invoked (.begin number call) =
    call ::ₘ system.pending := by
    rw [Event.invoked, add_comm, Multiset.singleton_add]
  obtain ⟨update, statement, started⟩ | ⟨started, silent⟩ | ⟨existingMetadata, started⟩ :=
    start_cases fromTimestamp defaultProvider system number call
  · rw [started]
    refine .inr ⟨call, ?_, effective⟩
    simp only [Call.perform, statement]
    exact statement_flush statement system.row
  · rw [started]
    exact .inr ⟨call, (silent system.flushed (getThread_flush _)).symm, effective⟩
  · rw [started]
    refine .inl ⟨rfl, ?_⟩
    rw [effective, System.pending, rows_insert_of_absent fresh, Multiset.map_cons]
    rfl

theorem settled_start (settled : Settled system) :
    Settled (system.start fromTimestamp defaultProvider number call) := by
  obtain ⟨update, statement, started⟩ | ⟨started, _⟩ | ⟨existingMetadata, started⟩ :=
    start_cases fromTimestamp defaultProvider system number call
  · rw [started]
    intro waits
    rw [isSome_of_statement statement]
    exact settled waits
  · rwa [started]
  · rw [started]
    exact settled

theorem upsert_linearizes {existingMetadata : Option ThreadMetadata} {write : Write}
    (settled : Settled system)
    (found : system.reading.lookup number = some (call, existingMetadata))
    (writes : call.write defaultProvider existingMetadata = some write)
    (current : getThread fromTimestamp system.row = some existingMetadata) :
    EffectiveStep fromTimestamp defaultProvider system (.upsert number) {
      row := upsertThreadWithCreationMemoryMode system.row write.metadata write.creationMemoryMode
      reading := system.reading.erase number
      waiting := system.waiting ++ (write.memoryMode.map (number, ·)).toList } := by
  have performed : call.perform fromTimestamp defaultProvider system.flushed =
      write.perform system.flushed := by
    simp only [Call.perform, statement_of_write writes, System.flushed, getThread_flush, current,
      writes]
  refine .inr ⟨call, ?_, ?_⟩
  · rw [performed, System.flushed, flush, List.foldl_append, Write.perform, System.flushed,
      ← upsert_flush _ _ _ settled]
    cases write.memoryMode <;> rfl
  · rw [Event.invoked, add_zero, System.pending, rows_eq_cons_erase found, Multiset.map_cons]
    rfl

/-- Every step whose write is current is a point at which a call takes effect, or shows nothing. -/
theorem linearizes_of_step {event : Event} (settled : Settled system)
    (current : Current fromTimestamp system event)
    (stepped : step fromTimestamp defaultProvider system event = some next) :
    Settled next ∧ EffectiveStep fromTimestamp defaultProvider system event next := by
  cases event with
  | begin number call =>
      obtain ⟨fresh, ⟨⟩⟩ := Option.ite_none_left_eq_some.mp stepped
      exact ⟨settled_start settled, begin_linearizes (by simpa using (not_or.mp fresh).1)⟩
  | upsert number =>
      obtain ⟨⟨call, existingMetadata⟩, found, stepped⟩ := Option.bind_eq_some_iff.mp stepped
      obtain ⟨write, writes, ⟨⟩⟩ := Option.bind_eq_some_iff.mp stepped
      exact ⟨fun _ => rfl,
        upsert_linearizes settled found writes (current call existingMetadata found)⟩
  | setMemoryMode number =>
      obtain ⟨memoryMode, found, ⟨⟩⟩ := Option.bind_eq_some_iff.mp stepped
      obtain ⟨first, rest, waiting⟩ := current
      have isFirst : memoryMode = first := by simpa [waiting, eq_comm] using found
      have left : system.waiting.eraseP (·.1 = number) = rest := by simp [waiting]
      refine ⟨fun _ => ?_, .inl ⟨?_, (add_zero _).symm⟩⟩
      · exact Option.isSome_map.trans (settled (by simp [waiting]))
      · rw [System.flushed, left, System.flushed, waiting, isFirst]
        rfl

end Points

section Runs

variable {fromTimestamp : ℤ → Option DateTime} {defaultProvider : Text} {row : Option Row}
  {events : List Event} {final : System}

/-- The calls of a run. -/
def calls (events : List Event) : List Call :=
  events.filterMap fun
    | .begin _ call => some call
    | .upsert _ | .setMemoryMode _ => none

theorem sum_invoked (events : List Event) : (events.map Event.invoked).sum = ↑(calls events) := by
  induction events with
  | nil => rfl
  | cons event events ih =>
      rw [List.map_cons, List.sum_cons, ih]
      cases event with
      | begin number call => exact Multiset.singleton_add call _
      | upsert number | setMemoryMode number => exact zero_add _

/-- No call is in between its statements. -/
def System.Finished (system : System) : Prop := system.reading = ∅ ∧ system.waiting = []

/-- The row is what the calls leave when they run one after another in some order. -/
def Serialisable (fromTimestamp : ℤ → Option DateTime) (defaultProvider : Text) (row : Option Row)
    (events : List Event) (final : System) : Prop :=
  ∃ order : List Call, order.Perm (calls events) ∧
    final.row = order.foldl (Call.perform fromTimestamp defaultProvider) row

/-- A run whose writes are all current is serialisable. -/
theorem serialisable_of_current
    (ran : run (step fromTimestamp defaultProvider) (System.initial row) events = some final)
    (current : Along (step fromTimestamp defaultProvider) (Current fromTimestamp)
      (System.initial row) events)
    (finished : final.Finished) : Serialisable fromTimestamp defaultProvider row events final := by
  obtain ⟨order, seen, accounted⟩ :=
    exists_order_of_run (fun _ _ _ => linearizes_of_step)
      (fun waits => absurd rfl waits) current ran
  obtain ⟨noneReads, noneWaits⟩ := finished
  have startsEmpty : (System.initial row).pending = 0 := rfl
  have endsEmpty : final.pending = 0 := by
    rw [System.pending, noneReads]
    rfl
  refine ⟨order, ?_, ?_⟩
  · rw [startsEmpty, endsEmpty, zero_add, add_zero, sum_invoked] at accounted
    exact Multiset.coe_eq_coe.mp accounted.symm
  · rw [System.flushed, noneWaits] at seen
    exact seen

/-! ### A rollout sync and an archive mark -/

def epoch (seconds : ℤ) : DateTime := { seconds, nanoseconds := 0 }

def builder : ThreadMetadataBuilder :=
  { id := "thread".toList, rolloutPath := "rollout".toList, createdAt := epoch 0, updatedAt := none,
    source := "cli".toList, sourceAgentPath := none, agentNickname := none, agentRole := none,
    agentPath := none, modelProvider := none, cwd := "/".toList, cliVersion := none,
    sandboxPolicy := "read-only".toList, approvalMode := "on-request".toList, archivedAt := none,
    gitSha := none, gitBranch := none, gitOriginUrl := none }

/-- A thread that is not archived. -/
def thread : Row :=
  { (builder.build "openai".toList).toRow with archived := false, memoryMode := "enabled".toList }

/-- Whether a text is a hyphenated identifier in lower case, as it is displayed. -/
def isHyphenated (text : Text) : Bool :=
  (List.splitOn '-' text).map List.length == [8, 4, 4, 4, 12] &&
    text.all fun c => c == '-' || c.isDigit || ('a' ≤ c && c ≤ 'f')

/-- Archived metadata with times between two seconds. -/
def archivedThread : ThreadMetadata :=
  { builder.build "openai".toList with
    id := "019598a0-8c00-7abc-8def-000000000001".toList
    reasoningEffort := some .high
    createdAt := { seconds := 1, nanoseconds := 500000000 }
    firstUserMessage := some "hello".toList
    archivedAt := some { seconds := -2, nanoseconds := 250 } }

theorem tryFromRow_toRow_archivedThread :
    ThreadMetadata.tryFromRow (fun text => if isHyphenated text then some text else none)
      (some ∘ epoch) archivedThread.toRow =
        some { archivedThread with createdAt := epoch 1, archivedAt := some (epoch (-2)) } :=
  ThreadMetadata.tryFromRow_toRow archivedThread (by decide) (fun _ _ => rfl) (by decide)

def metaLine : SessionMetaLine :=
  { id := "thread".toList, source := "cli".toList, agentNickname := none, agentRole := none,
    agentPath := none, modelProvider := none, cliVersion := [], cwd := [],
    memoryMode := some "disabled".toList, git := none }

def sync : Call := .applyRolloutItems builder [.sessionMeta metaLine] none (some (epoch 1)) none

def archive : Call := .markArchived "archived".toList (epoch 2) none

/-- The archive mark falls between the writes of the sync. -/
def interleaved : List Event :=
  [.begin 0 sync, .upsert 0, .begin 1 archive, .setMemoryMode 0, .upsert 1]

theorem serialisable_of_interleaved :
    ∃ final, run (step (some ∘ epoch) []) (System.initial (some thread)) interleaved = some final ∧
      Serialisable (some ∘ epoch) [] (some thread) interleaved final := by
  have read : ∀ {system : System} {number : ℕ} {call : Call} {existingMetadata},
      system.reading.lookup number = some (call, existingMetadata) →
      getThread (some ∘ epoch) system.row = some existingMetadata →
        Current (some ∘ epoch) system (.upsert number) := by
    intro system number call existingMetadata found same call' existingMetadata' found'
    cases found.symm.trans found'
    exact same
  refine ⟨_, rfl, serialisable_of_current rfl ?_ ⟨rfl, rfl⟩⟩
  refine along_cons rfl trivial (along_cons rfl (read rfl rfl) ?_)
  refine along_cons rfl trivial (along_cons rfl ⟨_, _, rfl⟩ ?_)
  exact along_cons rfl (read rfl rfl) trivial

/-- The sync has read the thread before it is archived and writes it after. -/
def overwriting : List Event :=
  [.begin 0 sync, .begin 1 archive, .upsert 1, .upsert 0, .setMemoryMode 0]

theorem archive_lost :
    ∃ final, run (step (some ∘ epoch) []) (System.initial (some thread)) overwriting = some final ∧
      final.Finished ∧ ¬ Serialisable (some ∘ epoch) [] (some thread) overwriting final := by
  refine ⟨_, rfl, ⟨rfl, rfl⟩, ?_⟩
  rintro ⟨order, isOrder, left⟩
  obtain rfl | rfl := List.perm_pair.mp isOrder
  all_goals cases congrArg (Option.map Row.archived) left

end Runs

end CodexPilot.State
