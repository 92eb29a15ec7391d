import CodexPilot.Library.Budgets
import CodexPilot.Library.Replay
import CodexPilot.RustStd.Iter
import Mathlib.Data.Finset.Dedup
import Mathlib.Data.Finset.Filter
import Mathlib.Data.Prod.Lex

/-!
# The logs table

A batch of entries is inserted in one transaction, and then the partitions that the batch touches
are pruned: the rows of a thread, the rows without thread of a process, and the rows without both.
Each kind has a query for the partitions over their limits, and a `DELETE` that goes by window sums
from the newest row on.  A partition that a batch touches is left with the longest run of its newest
rows within both limits, and every other one as it was.
-/

namespace CodexPilot.State
namespace Logs

open RustStd Budgets Replay

/-- `LOG_PARTITION_SIZE_LIMIT_BYTES`. -/
def logPartitionSizeLimitBytes : ℕ := 10 * 1024 * 1024

/-- `LOG_PARTITION_ROW_LIMIT`. -/
def logPartitionRowLimit : ℕ := 1000

/-- `String::len`. -/
def len (text : Text) : ℕ := (text.map Char.utf8Size).sum

/-- `LogEntry`. -/
structure LogEntry where
  ts : ℤ
  tsNanos : ℤ
  level : Text
  target : Text
  message : Option Text
  feedbackLogBody : Option Text
  threadId : Option Text
  processUuid : Option Text
  modulePath : Option Text
  file : Option Text
  line : Option ℤ

/-- A row of `logs`. -/
structure LogRow where
  id : ℕ
  ts : ℤ
  tsNanos : ℤ
  level : Text
  target : Text
  feedbackLogBody : Option Text
  threadId : Option Text
  processUuid : Option Text
  modulePath : Option Text
  file : Option Text
  line : Option ℤ
  estimatedBytes : ℕ

/-- The row of an entry: what `insert_logs` binds. -/
def LogEntry.row (id : ℕ) (entry : LogEntry) : LogRow where
  id := id
  ts := entry.ts
  tsNanos := entry.tsNanos
  level := entry.level
  target := entry.target
  feedbackLogBody := entry.feedbackLogBody.or entry.message
  threadId := entry.threadId
  processUuid := entry.processUuid
  modulePath := entry.modulePath
  file := entry.file
  line := entry.line
  estimatedBytes :=
    (entry.feedbackLogBody.or entry.message).elim 0 len + len entry.level + len entry.target +
      entry.modulePath.elim 0 len + entry.file.elim 0 len

/-- `ORDER BY ts DESC, ts_nanos DESC, id DESC`. -/
def newestFirst (row : LogRow) : (ℤ ×ₗ ℤ ×ₗ ℕ)ᵒᵈ :=
  OrderDual.toDual (toLex (row.ts, toLex (row.tsNanos, row.id)))

/-! ## The queries -/

/-- `SUM(estimated_bytes)`. -/
def totalBytes (rows : List LogRow) : ℕ := (rows.map LogRow.estimatedBytes).sum

/-- `SUM(estimated_bytes) > ? OR COUNT(*) > ?`. -/
def overLimit (rows : List LogRow) : Bool :=
  logPartitionSizeLimitBytes < totalBytes rows || logPartitionRowLimit < rows.length

/-- `SUM(estimated_bytes) OVER` the rows of a partition, newest first. -/
def cumulativeBytes (partition : List LogRow) (row : LogRow) : ℕ :=
  totalBytes (Budgets.upTo newestFirst partition row)

/-- `ROW_NUMBER() OVER` the rows of a partition, newest first. -/
def rowNumber (partition : List LogRow) (row : LogRow) : ℕ :=
  (Budgets.upTo newestFirst partition row).length

/-- `DELETE FROM logs WHERE id IN (…)`: of the rows that the inner `WHERE` selects, those whose
cumulative bytes or row number in their partition is past a limit. -/
def deletePastLimits (selected : LogRow → Bool) (partitionBy : LogRow → Option Text)
    (rows : List LogRow) : List LogRow :=
  rows.filter fun row =>
    let partition := rows.filter fun other =>
      selected other && decide (partitionBy other = partitionBy row)
    !(selected row &&
      (logPartitionSizeLimitBytes < cumulativeBytes partition row ||
        logPartitionRowLimit < rowNumber partition row))

/-- The threads of a batch. -/
def pruneThreads (entries : List LogEntry) (rows : List LogRow) : List LogRow :=
  let threadIds := (entries.filterMap LogEntry.threadId).toFinset
  if threadIds = ∅ then rows
  else
    let overLimitThreadIds := threadIds.filter fun threadId =>
      overLimit (rows.filter fun row => row.threadId = some threadId)
    if overLimitThreadIds = ∅ then rows
    else
      deletePastLimits
        (fun row => row.threadId.any fun threadId => decide (threadId ∈ overLimitThreadIds))
        LogRow.threadId rows

/-- The processes of the entries of a batch without thread. -/
def pruneThreadlessProcessLogs (entries : List LogEntry) (rows : List LogRow) : List LogRow :=
  let threadlessProcessUuids :=
    ((entries.filter fun entry => entry.threadId.isNone).filterMap LogEntry.processUuid).toFinset
  if threadlessProcessUuids = ∅ then rows
  else
    let overLimitProcessUuids := threadlessProcessUuids.filter fun processUuid =>
      overLimit (rows.filter fun row =>
        row.threadId.isNone && decide (row.processUuid = some processUuid))
    if overLimitProcessUuids = ∅ then rows
    else
      deletePastLimits
        (fun row => row.threadId.isNone &&
          row.processUuid.any fun processUuid => decide (processUuid ∈ overLimitProcessUuids))
        LogRow.processUuid rows

/-- The entries of a batch without thread and process. -/
def pruneThreadlessNullProcessLogs (entries : List LogEntry) (rows : List LogRow) : List LogRow :=
  let hasThreadlessNullProcessUuid :=
    entries.any fun entry => entry.threadId.isNone && entry.processUuid.isNone
  if hasThreadlessNullProcessUuid then
    if overLimit (rows.filter fun row => row.threadId.isNone && row.processUuid.isNone) then
      deletePastLimits (fun row => row.threadId.isNone && row.processUuid.isNone)
        LogRow.processUuid rows
    else rows
  else rows

/-- `prune_logs_after_insert`. -/
def pruneLogsAfterInsert (entries : List LogEntry) (rows : List LogRow) : List LogRow :=
  pruneThreadlessNullProcessLogs entries
    (pruneThreadlessProcessLogs entries (pruneThreads entries rows))

/-! ## The table -/

/-- The rows of a batch, with the next identifiers. -/
def newRows (nextId : ℕ) : List LogEntry → List LogRow
  | [] => []
  | entry :: entries => entry.row nextId :: newRows (nextId + 1) entries

/-- The table `logs`, in the order of the identifiers, which are never used again. -/
structure Table where
  rows : List LogRow
  nextId : ℕ
  increasing : rows.Pairwise fun earlier later => earlier.id < later.id
  below : ∀ row ∈ rows, row.id < nextId

/-- No row has been inserted. -/
def Table.empty : Table where
  rows := []
  nextId := 1
  increasing := .nil
  below _ member := absurd member List.not_mem_nil

/-- Some rows are deleted. -/
def Table.delete (table : Table) (left : List LogRow) (fewer : left.Sublist table.rows) :
    Table where
  rows := left
  nextId := table.nextId
  increasing := table.increasing.sublist fewer
  below row member := table.below row (fewer.subset member)

theorem mem_newRows {nextId : ℕ} {entries : List LogEntry} {row : LogRow}
    (member : row ∈ newRows nextId entries) :
    nextId ≤ row.id ∧ row.id < nextId + entries.length := by
  induction entries generalizing nextId with
  | nil => exact absurd member List.not_mem_nil
  | cons entry entries ih =>
      rw [List.length_cons]
      obtain rfl | later := List.mem_cons.mp member
      · exact ⟨Nat.le_refl nextId, Nat.lt_add_of_pos_right (Nat.succ_pos _)⟩
      · have bounds := ih later
        omega

theorem increasing_newRows (nextId : ℕ) (entries : List LogEntry) :
    (newRows nextId entries).Pairwise fun earlier later => earlier.id < later.id := by
  induction entries generalizing nextId with
  | nil => exact .nil
  | cons entry entries ih =>
      exact .cons (fun row member => (mem_newRows member).1) (ih (nextId + 1))

/-- `INSERT INTO logs`. -/
def Table.insert (table : Table) (entries : List LogEntry) : Table where
  rows := table.rows ++ newRows table.nextId entries
  nextId := table.nextId + entries.length
  increasing := by
    refine List.pairwise_append.mpr ⟨table.increasing, increasing_newRows _ entries, ?_⟩
    exact fun old before new after => (table.below old before).trans_le (mem_newRows after).1
  below row member := by
    obtain old | new := List.mem_append.mp member
    · exact (table.below row old).trans_le (Nat.le_add_right _ _)
    · exact (mem_newRows new).2

theorem deletePastLimits_sublist (selected : LogRow → Bool) (partitionBy : LogRow → Option Text)
    (rows : List LogRow) : (deletePastLimits selected partitionBy rows).Sublist rows :=
  List.filter_sublist

theorem pruneLogsAfterInsert_sublist (entries : List LogEntry) (rows : List LogRow) :
    (pruneLogsAfterInsert entries rows).Sublist rows := by
  have threads : (pruneThreads entries rows).Sublist rows := by
    unfold pruneThreads
    dsimp only
    split_ifs
    · exact .refl rows
    · exact .refl rows
    · exact deletePastLimits_sublist _ _ rows
  have processes (rows : List LogRow) : (pruneThreadlessProcessLogs entries rows).Sublist rows := by
    unfold pruneThreadlessProcessLogs
    dsimp only
    split_ifs
    · exact .refl rows
    · exact .refl rows
    · exact deletePastLimits_sublist _ _ rows
  have null (rows : List LogRow) :
      (pruneThreadlessNullProcessLogs entries rows).Sublist rows := by
    unfold pruneThreadlessNullProcessLogs
    dsimp only
    split_ifs
    · exact deletePastLimits_sublist _ _ rows
    · exact .refl rows
    · exact .refl rows
  exact (null _).trans ((processes _).trans threads)

/-- `insert_logs`, in a transaction that commits. -/
def insertLogs (table : Table) (entries : List LogEntry) : Table :=
  if entries = [] then table
  else
    (table.insert entries).delete _
      (pruneLogsAfterInsert_sublist entries (table.insert entries).rows)

/-- `delete_logs_before`. -/
def deleteLogsBefore (table : Table) (cutoffTs : ℤ) : Table :=
  table.delete (table.rows.filter fun row => !(row.ts < cutoffTs)) List.filter_sublist

/-- What happens to the table. -/
inductive Event
  | insertLogs (entries : List LogEntry)
  | deleteLogsBefore (cutoffTs : ℤ)

/-- One transaction. -/
def step (table : Table) : Event → Table
  | .insertLogs entries => insertLogs table entries
  | .deleteLogsBefore cutoffTs => deleteLogsBefore table cutoffTs

/-! ## Partitions -/

/-- A partition: of a thread, of a process, or of the rows without both. -/
inductive Partition
  | thread (threadId : Text)
  | process (processUuid : Text)
  | null
  deriving DecidableEq

/-- Where a row with these columns belongs. -/
def partitionOf : Option Text → Option Text → Partition
  | some threadId, _ => .thread threadId
  | none, some processUuid => .process processUuid
  | none, none => .null

/-- The partition of a row. -/
def LogRow.partition (row : LogRow) : Partition := partitionOf row.threadId row.processUuid

/-- The partition that the row of an entry belongs to. -/
def LogEntry.partition (entry : LogEntry) : Partition :=
  partitionOf entry.threadId entry.processUuid

/-- The rows of a partition. -/
def members (rows : List LogRow) (partition : Partition) : List LogRow :=
  rows.filter fun row => row.partition = partition

/-- Both limits of a partition. -/
def WithinLimits (rows : List LogRow) : Prop :=
  Within LogRow.estimatedBytes logPartitionRowLimit logPartitionSizeLimitBytes rows

/-- The rows of a partition that the limits leave. -/
def kept (rows : List LogRow) : List LogRow :=
  taken newestFirst LogRow.estimatedBytes logPartitionRowLimit logPartitionSizeLimitBytes rows

/-- A batch has a row for the partition. -/
def Touches (entries : List LogEntry) (partition : Partition) : Prop :=
  ∃ entry ∈ entries, entry.partition = partition

/-- The partitions touched keep what the limits leave of them, and the others everything. -/
def Prunes (touched : Partition → Prop) (rows left : List LogRow) : Prop :=
  ∀ partition,
    (touched partition → members left partition = kept (members rows partition)) ∧
      (¬ touched partition → members left partition = members rows partition)

section Queries

variable {rows : List LogRow} {entries : List LogEntry} {row other : LogRow}
  {partition : Partition} {threadId processUuid : Text}

theorem partitionOf_eq_thread_iff {thread process : Option Text} :
    partitionOf thread process = .thread threadId ↔ thread = some threadId := by
  cases thread <;> cases process <;> simp [partitionOf]

theorem partitionOf_eq_process_iff {thread process : Option Text} :
    partitionOf thread process = .process processUuid ↔
      thread = none ∧ process = some processUuid := by
  cases thread <;> cases process <;> simp [partitionOf]

theorem partitionOf_eq_null_iff {thread process : Option Text} :
    partitionOf thread process = .null ↔ thread = none ∧ process = none := by
  cases thread <;> cases process <;> simp [partitionOf]

theorem partition_eq_thread_iff :
    row.partition = .thread threadId ↔ row.threadId = some threadId := partitionOf_eq_thread_iff

theorem partition_eq_process_iff :
    row.partition = .process processUuid ↔
      row.threadId = none ∧ row.processUuid = some processUuid := partitionOf_eq_process_iff

theorem partition_eq_null_iff :
    row.partition = .null ↔ row.threadId = none ∧ row.processUuid = none :=
  partitionOf_eq_null_iff

theorem members_thread :
    members rows (.thread threadId) = rows.filter fun row => row.threadId = some threadId := by
  simp only [members, partition_eq_thread_iff]

theorem members_process :
    members rows (.process processUuid) =
      rows.filter fun row =>
        row.threadId.isNone && decide (row.processUuid = some processUuid) := by
  refine List.filter_congr fun row _ => ?_
  rw [Bool.eq_iff_iff]
  simp [partition_eq_process_iff]

theorem members_null :
    members rows .null = rows.filter fun row => row.threadId.isNone && row.processUuid.isNone := by
  refine List.filter_congr fun row _ => ?_
  rw [Bool.eq_iff_iff]
  simp [partition_eq_null_iff]

/-- The precheck of a partition. -/
theorem overLimit_iff : overLimit rows = true ↔ ¬ WithinLimits rows := by
  constructor
  · intro past within
    obtain heavy | many := Bool.or_eq_true_iff.mp past
    · exact absurd within.weight_le (Nat.not_le.mpr (of_decide_eq_true heavy))
    · exact absurd within.length_le (Nat.not_le.mpr (of_decide_eq_true many))
  · intro past
    by_contra under
    obtain ⟨light, few⟩ := not_or.mp (mt Bool.or_eq_true_iff.mpr under)
    rw [decide_eq_true_eq, Nat.not_lt] at light few
    exact past ⟨few, light⟩

/-- The condition of the `DELETE`. -/
theorem pastLimits_iff (window : List LogRow) (row : LogRow) :
    (decide (logPartitionSizeLimitBytes < cumulativeBytes window row) ||
        decide (logPartitionRowLimit < rowNumber window row)) = true ↔
      ¬ WithinLimits (upTo newestFirst window row) := overLimit_iff

theorem kept_of_within (within : WithinLimits rows) : kept rows = rows := taken_of_within within

/-- A query pair prunes the partitions that it selects when they are over a limit. -/
theorem prunes_deletePastLimits {touched : Partition → Prop} {selected : LogRow → Bool}
    {partitionBy : LogRow → Option Text} (selects : ∀ row, selected row = true ↔
      touched row.partition ∧ overLimit (members rows row.partition) = true)
    (alike : ∀ row other, selected row = true → selected other = true →
      (partitionBy other = partitionBy row ↔ other.partition = row.partition)) :
    Prunes touched rows (deletePastLimits selected partitionBy rows) := by
  intro partition
  have unselected (spared : ¬ (touched partition ∧ overLimit (members rows partition) = true)) :
      members (deletePastLimits selected partitionBy rows) partition = members rows partition := by
    unfold members deletePastLimits
    rw [List.filter_filter]
    refine List.filter_congr fun row _ => ?_
    obtain rfl | elsewhere := Decidable.em (row.partition = partition)
    · have out : selected row = false := Bool.eq_false_iff.mpr (mt (selects row).mp spared)
      simp [out]
    · simp [elsewhere]
  refine ⟨fun touches => ?_, fun spared => unselected fun both => spared both.1⟩
  obtain past | under := Decidable.em (overLimit (members rows partition) = true)
  · have chosen (row : LogRow) (here : row.partition = partition) : selected row = true :=
      (selects row).mpr (here ▸ ⟨touches, past⟩)
    have window (row : LogRow) (here : row.partition = partition) :
        (rows.filter fun other =>
          selected other && decide (partitionBy other = partitionBy row)) =
          members rows partition := by
      refine List.filter_congr fun other _ => ?_
      rw [Bool.eq_iff_iff, Bool.and_eq_true, decide_eq_true_eq, decide_eq_true_eq]
      constructor
      · rintro ⟨out, same⟩
        exact ((alike row other (chosen row here) out).mp same).trans here
      · intro there
        refine ⟨chosen other there, ?_⟩
        exact (alike row other (chosen row here) (chosen other there)).mpr (there.trans here.symm)
    unfold kept taken
    rw [members, deletePastLimits, List.filter_filter]
    conv_rhs => rw [members, List.filter_filter]
    refine List.filter_congr fun row _ => ?_
    obtain here | elsewhere := Decidable.em (row.partition = partition)
    · have past := pastLimits_iff (members rows partition) row
      dsimp only
      rw [window row here, chosen row here, Bool.true_and, decide_eq_true here, Bool.true_and,
        Bool.and_true, Bool.eq_iff_iff, Bool.not_eq_true', Bool.eq_false_iff, ne_eq, past, not_not,
        decide_eq_true_eq]
      exact Iff.rfl
    · simp [elsewhere]
  · rw [unselected fun both => under both.2]
    exact (kept_of_within (of_not_not (mt overLimit_iff.mpr under))).symm

theorem deletePastLimits_of_none {selected : LogRow → Bool} (partitionBy : LogRow → Option Text)
    (none : ∀ row, selected row = false) : deletePastLimits selected partitionBy rows = rows :=
  List.filter_eq_self.mpr fun row _ => by simp [none row]

/-- The threads of a batch are pruned. -/
theorem prunes_pruneThreads (entries : List LogEntry) (rows : List LogRow) :
    Prunes (fun partition => (∃ threadId, partition = .thread threadId) ∧ Touches entries partition)
      rows (pruneThreads entries rows) := by
  have all : pruneThreads entries rows = deletePastLimits
      (fun row => row.threadId.any fun threadId =>
        decide (threadId ∈ (entries.filterMap LogEntry.threadId).toFinset.filter fun threadId =>
          overLimit (rows.filter fun row => row.threadId = some threadId)))
      LogRow.threadId rows := by
    unfold pruneThreads
    dsimp only
    split_ifs with untouched within
    · refine (deletePastLimits_of_none _ fun row => ?_).symm
      simp [untouched]
    · refine (deletePastLimits_of_none _ fun row => ?_).symm
      simp only [within]
      simp
    · rfl
  rw [all]
  refine prunes_deletePastLimits (fun row => ?_) fun row other chosen also => ?_
  · cases thread : row.threadId with
    | none =>
        refine ⟨fun chosen => absurd chosen Bool.false_ne_true, ?_⟩
        rintro ⟨⟨⟨threadId, same⟩, -⟩, -⟩
        exact nomatch thread.symm.trans (partition_eq_thread_iff.mp same)
    | some threadId =>
        rw [partition_eq_thread_iff.mpr thread, members_thread]
        simp [Touches, LogEntry.partition, partitionOf_eq_thread_iff]
  · obtain ⟨threadId, thread, -⟩ := (Option.any_eq_true _ _).mp chosen
    rw [thread, partition_eq_thread_iff.mpr thread, partition_eq_thread_iff]

/-- The processes of the entries of a batch without thread are pruned. -/
theorem prunes_pruneThreadlessProcessLogs (entries : List LogEntry) (rows : List LogRow) :
    Prunes (fun partition => (∃ processUuid, partition = .process processUuid) ∧
      Touches entries partition) rows (pruneThreadlessProcessLogs entries rows) := by
  have all : pruneThreadlessProcessLogs entries rows = deletePastLimits
      (fun row => row.threadId.isNone && row.processUuid.any fun processUuid =>
        decide (processUuid ∈ ((entries.filter fun entry => entry.threadId.isNone).filterMap
          LogEntry.processUuid).toFinset.filter fun processUuid => overLimit (rows.filter fun row =>
            row.threadId.isNone && decide (row.processUuid = some processUuid))))
      LogRow.processUuid rows := by
    unfold pruneThreadlessProcessLogs
    dsimp only
    split_ifs with untouched within
    · refine (deletePastLimits_of_none _ fun row => ?_).symm
      simp [untouched]
    · refine (deletePastLimits_of_none _ fun row => ?_).symm
      simp only [within]
      simp
    · rfl
  rw [all]
  refine prunes_deletePastLimits (fun row => ?_) fun row other chosen also => ?_
  · cases place : row.partition with
    | thread threadId =>
        have thread := partition_eq_thread_iff.mp place
        simp [thread]
    | process processUuid =>
        obtain ⟨thread, process⟩ := partition_eq_process_iff.mp place
        rw [thread, process, members_process]
        simp [Touches, LogEntry.partition, partitionOf_eq_process_iff, and_assoc]
    | null =>
        obtain ⟨thread, process⟩ := partition_eq_null_iff.mp place
        simp [thread, process]
  · obtain ⟨thread, named⟩ := Bool.and_eq_true_iff.mp chosen
    obtain ⟨thread', -⟩ := Bool.and_eq_true_iff.mp also
    rw [Option.isNone_iff_eq_none] at thread thread'
    obtain ⟨processUuid, process, -⟩ := (Option.any_eq_true _ _).mp named
    rw [process, partition_eq_process_iff.mpr ⟨thread, process⟩, partition_eq_process_iff]
    exact ⟨fun same => ⟨thread', same⟩, fun both => both.2⟩

/-- The entries of a batch without thread and process are pruned. -/
theorem prunes_pruneThreadlessNullProcessLogs (entries : List LogEntry) (rows : List LogRow) :
    Prunes (fun partition => partition = .null ∧ Touches entries partition)
      rows (pruneThreadlessNullProcessLogs entries rows) := by
  have all : pruneThreadlessNullProcessLogs entries rows = deletePastLimits
      (fun row => (row.threadId.isNone && row.processUuid.isNone) &&
        (entries.any (fun entry => entry.threadId.isNone && entry.processUuid.isNone) &&
          overLimit (rows.filter fun row => row.threadId.isNone && row.processUuid.isNone)))
      LogRow.processUuid rows := by
    unfold pruneThreadlessNullProcessLogs
    dsimp only
    split_ifs with touched past
    · simp only [touched, past, Bool.and_true]
    · refine (deletePastLimits_of_none _ fun row => ?_).symm
      simp [past]
    · refine (deletePastLimits_of_none _ fun row => ?_).symm
      simp only [Bool.eq_false_iff.mpr touched, Bool.false_and, Bool.and_false]
  rw [all, ← members_null]
  refine prunes_deletePastLimits (fun row => ?_) fun row other chosen also => ?_
  · cases place : row.partition with
    | thread threadId =>
        have thread := partition_eq_thread_iff.mp place
        simp [thread]
    | process processUuid =>
        obtain ⟨thread, process⟩ := partition_eq_process_iff.mp place
        simp [process]
    | null =>
        obtain ⟨thread, process⟩ := partition_eq_null_iff.mp place
        simp [thread, process, Touches, LogEntry.partition, partitionOf_eq_null_iff]
  · obtain ⟨here, -⟩ := Bool.and_eq_true_iff.mp chosen
    obtain ⟨there, -⟩ := Bool.and_eq_true_iff.mp also
    rw [Bool.and_eq_true, Option.isNone_iff_eq_none, Option.isNone_iff_eq_none] at here there
    rw [partition_eq_null_iff.mpr here, partition_eq_null_iff.mpr there, here.2, there.2]
    exact ⟨fun _ => rfl, fun _ => rfl⟩

/-- Two prunes of different partitions. -/
theorem Prunes.andThen {first second : Partition → Prop} {middle left : List LogRow}
    (prunes : Prunes first rows middle) (later : Prunes second middle left)
    (apart : ∀ partition, first partition → ¬ second partition) :
    Prunes (fun partition => first partition ∨ second partition) rows left := by
  intro partition
  refine ⟨?_, fun neither => ?_⟩
  · rintro (one | two)
    · rw [(later partition).2 (apart partition one), (prunes partition).1 one]
    · rw [(later partition).1 two, (prunes partition).2 fun one => apart partition one two]
  · obtain ⟨notOne, notTwo⟩ := not_or.mp neither
    rw [(later partition).2 notTwo, (prunes partition).2 notOne]

theorem Prunes.congr {first second : Partition → Prop} {left : List LogRow}
    (prunes : Prunes first rows left) (same : ∀ partition, first partition ↔ second partition) :
    Prunes second rows left := fun partition =>
  ⟨fun touched => (prunes partition).1 ((same partition).mpr touched),
    fun spared => (prunes partition).2 (mt (same partition).mp spared)⟩

/-- A batch prunes the partitions that it touches, and leaves the others alone. -/
theorem prunes_pruneLogsAfterInsert (entries : List LogEntry) (rows : List LogRow) :
    Prunes (Touches entries) rows (pruneLogsAfterInsert entries rows) := by
  have threads := prunes_pruneThreads entries rows
  have processes := prunes_pruneThreadlessProcessLogs entries (pruneThreads entries rows)
  have null := prunes_pruneThreadlessNullProcessLogs entries
    (pruneThreadlessProcessLogs entries (pruneThreads entries rows))
  have both := threads.andThen processes fun partition thread process => by
    obtain ⟨⟨threadId, rfl⟩, -⟩ := thread
    obtain ⟨⟨processUuid, same⟩, -⟩ := process
    cases same
  have every := both.andThen null fun partition named nameless => by
    obtain ⟨rfl, -⟩ := nameless
    obtain ⟨⟨threadId, same⟩, -⟩ | ⟨⟨processUuid, same⟩, -⟩ := named <;> cases same
  refine every.congr fun partition => ?_
  cases partition <;> simp

end Queries

/-! ## Every insert -/

section Inserts

variable {table : Table} {entries : List LogEntry} {partition : Partition}

/-- The rows of a partition, newest first. -/
def newestMembers (rows : List LogRow) (partition : Partition) : List LogRow :=
  sortByKey newestFirst (members rows partition)

/-- The table's rows, and a row with the next identifier for each entry of a batch. -/
def withBatch (table : Table) (entries : List LogEntry) : List LogRow :=
  table.rows ++ entries.mapIdx fun index entry => entry.row (table.nextId + index)

/-- What an insert does: of the old rows and one new row for each entry, the partitions touched keep
the longest run of their newest rows within both limits, and no other partition changes. -/
structure KeepsNewest (table : Table) (entries : List LogEntry) : Prop where
  touched : ∀ partition, Touches entries partition →
    IsLongestRun LogRow.estimatedBytes logPartitionRowLimit logPartitionSizeLimitBytes
      (newestMembers (withBatch table entries) partition)
      (newestMembers (insertLogs table entries).rows partition)
  untouched : ∀ partition, ¬ Touches entries partition →
    members (insertLogs table entries).rows partition = members table.rows partition

/-- `INSERT INTO logs` stores one row for each entry. -/
theorem rows_insert (table : Table) (entries : List LogEntry) :
    (table.insert entries).rows = withBatch table entries := by
  have stored (nextId : ℕ) :
      newRows nextId entries = entries.mapIdx fun index entry => entry.row (nextId + index) := by
    induction entries generalizing nextId with
    | nil => rfl
    | cons entry entries ih =>
        rw [newRows, ih, List.mapIdx_cons]
        simp only [Nat.add_zero, Nat.add_assoc, Nat.add_comm 1]
  exact congrArg (table.rows ++ ·) (stored table.nextId)

/-- Rows of one time are in the order of their identifiers. -/
theorem id_eq_of_newestFirst_eq {row other : LogRow} (same : newestFirst row = newestFirst other) :
    row.id = other.id :=
  congrArg (fun key => (ofLex (ofLex (OrderDual.ofDual key)).2).2) same

theorem eq_of_id_eq {rows : List LogRow}
    (increasing : rows.Pairwise fun earlier later => earlier.id < later.id) {row other : LogRow}
    (member : row ∈ rows) (also : other ∈ rows) (same : row.id = other.id) : row = other := by
  induction rows with
  | nil => exact absurd member List.not_mem_nil
  | cons first rows ih =>
      obtain ⟨before, rest⟩ := List.pairwise_cons.mp increasing
      obtain rfl | later := List.mem_cons.mp member
      · obtain rfl | later := List.mem_cons.mp also
        · rfl
        · exact absurd same (Nat.ne_of_lt (before other later))
      · obtain rfl | later' := List.mem_cons.mp also
        · exact absurd same.symm (Nat.ne_of_lt (before row later))
        · exact ih rest later later'

/-- No two rows share a place in the order. -/
theorem pairwise_newestFirst {rows : List LogRow}
    (increasing : rows.Pairwise fun earlier later => earlier.id < later.id) :
    (sortByKey newestFirst rows).Pairwise fun newer older =>
      newestFirst newer < newestFirst older := by
  have apart : rows.Pairwise fun row other => newestFirst row ≠ newestFirst other :=
    increasing.imp fun before same => Nat.ne_of_lt before (id_eq_of_newestFirst_eq same)
  have sorted := (perm_sortByKey newestFirst rows).symm.pairwise apart fun other => other.symm
  exact (pairwise_sortByKey newestFirst rows).imp₂ (fun _ _ le ne => lt_of_le_of_ne le ne) sorted

/-- The limits can be applied before or after the rows are sorted. -/
theorem sortByKey_kept {rows : List LogRow}
    (increasing : rows.Pairwise fun earlier later => earlier.id < later.id) :
    sortByKey newestFirst (kept rows) = kept (sortByKey newestFirst rows) := by
  have same : (sortByKey newestFirst (kept rows)).Perm (kept (sortByKey newestFirst rows)) :=
    (perm_sortByKey _ _).trans (taken_perm (perm_sortByKey _ _).symm)
  refine List.Perm.eq_of_pairwise ?_ (pairwise_sortByKey _ _)
    ((pairwise_sortByKey _ _).sublist taken_sublist) same
  intro row other member also le ge
  have inside := taken_sublist.subset (mem_sortByKey.mp member)
  have inside' := mem_sortByKey.mp (taken_sublist.subset also)
  exact eq_of_id_eq increasing inside inside' (id_eq_of_newestFirst_eq (le_antisymm le ge))

theorem prunes_insertLogs (table : Table) (entries : List LogEntry) :
    Prunes (Touches entries) (table.insert entries).rows (insertLogs table entries).rows := by
  unfold insertLogs
  split
  case isTrue none =>
    subst none
    intro partition
    refine ⟨fun ⟨entry, member, _⟩ => absurd member List.not_mem_nil, fun _ => ?_⟩
    simp [Table.insert, newRows]
  case isFalse => exact prunes_pruneLogsAfterInsert entries (table.insert entries).rows

theorem exists_of_mem_newRows {nextId : ℕ} {row : LogRow} (member : row ∈ newRows nextId entries) :
    ∃ entry ∈ entries, entry.partition = row.partition := by
  induction entries generalizing nextId with
  | nil => exact absurd member List.not_mem_nil
  | cons entry entries ih =>
      obtain rfl | later := List.mem_cons.mp member
      · exact ⟨entry, List.mem_cons_self, rfl⟩
      · obtain ⟨other, inside, same⟩ := ih later
        exact ⟨other, List.mem_cons_of_mem entry inside, same⟩

theorem keepsNewest (table : Table) (entries : List LogEntry) : KeepsNewest table entries where
  touched partition touches := by
    have increasing : (members (table.insert entries).rows partition).Pairwise
        fun earlier later => earlier.id < later.id :=
      (table.insert entries).increasing.sublist List.filter_sublist
    rw [newestMembers, newestMembers, ← rows_insert,
      (prunes_insertLogs table entries partition).1 touches, sortByKey_kept increasing]
    exact isLongestRun_taken (pairwise_newestFirst increasing)
  untouched partition spared := by
    rw [(prunes_insertLogs table entries partition).2 spared]
    have none : members (newRows table.nextId entries) partition = [] := by
      refine List.filter_eq_nil_iff.mpr fun row member => ?_
      obtain ⟨entry, inside, same⟩ := exists_of_mem_newRows member
      rw [decide_eq_true_eq, ← same]
      exact fun touches => spared ⟨entry, inside, touches⟩
    have split : members (table.insert entries).rows partition =
        members table.rows partition ++ members (newRows table.nextId entries) partition :=
      List.filter_append _ _
    rw [split, none, List.append_nil]

end Inserts

/-! ## Runs -/

section Runs

/-- Every partition is within both limits. -/
def Capped (table : Table) : Prop := ∀ partition, WithinLimits (members table.rows partition)

theorem capped_insertLogs {table : Table} (capped : Capped table) (entries : List LogEntry) :
    Capped (insertLogs table entries) := by
  intro partition
  have keeps := keepsNewest table entries
  obtain touches | spared := Classical.em (Touches entries partition)
  · exact (keeps.touched partition touches).within.perm (perm_sortByKey _ _).symm
  · rw [keeps.untouched partition spared]
    exact capped partition

theorem capped_step {table : Table} (capped : Capped table) (event : Event) :
    Capped (step table event) := by
  cases event with
  | insertLogs entries => exact capped_insertLogs capped entries
  | deleteLogsBefore cutoffTs =>
      exact fun partition => (capped partition).sublist (List.filter_sublist.filter _)

/-- After any batches, in any order and with retention in between, every partition is within its
limits, and any further batch keeps the newest rows of the partitions it touches and every row of
the others. -/
theorem partitions_capped (events : List Event) :
    Capped (replay step Table.empty events) ∧
      ∀ entries, KeepsNewest (replay step Table.empty events) entries := by
  have kept : ∀ table event, Capped table → Capped (step table event) :=
    fun table event capped => capped_step capped event
  have initial : Capped Table.empty := fun partition => ⟨Nat.zero_le _, Nat.zero_le _⟩
  exact ⟨invariant_of_replay kept initial events, fun entries => keepsNewest _ entries⟩

end Runs

end Logs
end CodexPilot.State
