import CodexPilot.Library.Checkpoints
import CodexPilot.Rollout.ForkTurns

/-!
# Resuming from the newest compaction

The backward reading finds the newest compaction with a history of its own, and a place to read
forwards from.  The place may be behind an older compaction, when the reading has not found the
settings before it got there; then the newest one is read once more.
-/

namespace CodexPilot.Rollout

open RustStd ContextManager Checkpoints

variable {Data : Type}

/-- The history that a compaction brings along. -/
def RolloutItem.replacementHistory : RolloutItem Data → Option (List (ResponseItem Data))
  | .compacted item => item.replacementHistory
  | _ => none

/-- The history of the newest compaction that brings one along. -/
def newestReplacement : List (RolloutItem Data) → Option (List (ResponseItem Data))
  | [] => none
  | item :: newer => (newestReplacement newer).or item.replacementHistory

/-! ## Forwards -/

section Forwards

variable (readers : Readers) (materials : Materials Data)

/-- The items of the history are replayed from a compaction with a history. -/
theorem resets_forwardStep : Resets (forwardStep readers materials) (fun state => state.1.items)
    fun item => item.replacementHistory.isSome = true where
  follows s t item same := by
    cases item with
    | responseItem item =>
        simp only [forwardStep, History.recordItems, same]
    | compacted compacted =>
        cases replacement : compacted.replacementHistory with
        | none => simp only [forwardStep, replacement, same, History.replace]
        | some items => simp only [forwardStep, replacement, History.replace]
    | eventMsg event =>
        cases event with
        | threadRolledBack numTurns => simp only [forwardStep, dropLastNUserTurns_items, same]
        | _ => exact same
    | _ => exact same
  resets s t item isCheckpoint := by
    cases item with
    | compacted compacted =>
        obtain ⟨items, replacement⟩ := Option.isSome_iff_exists.mp isCheckpoint
        rw [RolloutItem.replacementHistory] at replacement
        simp only [forwardStep, replacement, History.replace]
    | _ => cases isCheckpoint

variable {readers materials}

theorem newestReplacement_cons {item : RolloutItem Data} {newer : List (RolloutItem Data)}
    (noHistory : item.replacementHistory = none) :
    newestReplacement (item :: newer) = newestReplacement newer := by
  rw [newestReplacement, noHistory, Option.or_none]

theorem newestReplacement_append (older newer : List (RolloutItem Data)) :
    newestReplacement (older ++ newer) =
      (newestReplacement newer).or (newestReplacement older) := by
  induction older with
  | nil => rw [List.nil_append, newestReplacement, Option.or_none]
  | cons item older ih =>
      rw [List.cons_append, newestReplacement, ih, newestReplacement, Option.or_assoc]

theorem exists_of_newestReplacement {items : List (RolloutItem Data)}
    (found : (newestReplacement items).isSome = true) :
    ∃ item ∈ items, item.replacementHistory.isSome = true := by
  induction items with
  | nil => cases found
  | cons item newer ih =>
      rw [newestReplacement, Option.isSome_or, Bool.or_eq_true] at found
      obtain later | first := found
      · obtain ⟨checkpoint, member, isCheckpoint⟩ := ih later
        exact ⟨checkpoint, List.mem_cons_of_mem item member, isCheckpoint⟩
      · exact ⟨item, List.mem_cons_self, first⟩

/-- The items behind some compaction with a history give the whole history, when they are replayed
from the newest history. -/
theorem replay_behind {front behind : List (RolloutItem Data)} {item : RolloutItem Data}
    {replacement : List (ResponseItem Data)} (isCheckpoint : item.replacementHistory.isSome = true)
    (newest : newestReplacement (item :: behind) = some replacement) (flag : Bool) :
    (behind.foldl (forwardStep readers materials) (History.new.replace replacement, flag)).1.items =
      replay readers materials (front ++ item :: behind) := by
  have checkpoints := @resets_forwardStep Data readers materials
  rw [replay]
  cases later : newestReplacement behind with
  | some _ =>
      have found := exists_of_newestReplacement (Option.isSome_of_eq_some later)
      rw [List.foldl_append, List.foldl_cons]
      exact checkpoints.foldl_eq found _ _
  | none =>
      rw [newestReplacement, later, Option.none_or] at newest
      refine (checkpoints.foldl_append_cons isCheckpoint front behind ?_).symm
      cases item with
      | compacted compacted =>
          rw [RolloutItem.replacementHistory] at newest
          simp only [forwardStep, newest, History.replace]
      | _ => cases newest

end Forwards

/-! ## Backwards -/

section Backwards

variable {readers : Readers} {materials : Materials Data} {items newer : List (RolloutItem Data)}
  {replay : ReverseReplay Data} {item : RolloutItem Data}

/-- What the backward reading knows when it has read the newer items and no rollback. -/
structure HasRead (items newer : List (RolloutItem Data)) (replay : ReverseReplay Data) : Prop where
  base : replay.baseReplacementHistory.or
    (replay.activeSegment.bind ActiveReplaySegment.baseReplacementHistory) = newestReplacement newer
  suffix : newestReplacement newer = none ∧ replay.rolloutSuffix = items ∨
    ∃ front item behind, newer = front ++ item :: behind ∧
      item.replacementHistory.isSome = true ∧ replay.rolloutSuffix = behind
  pending : replay.pendingRollbackTurns = 0

/-- An item without a history is read. -/
theorem HasRead.cons (read : HasRead items newer replay)
    (noHistory : item.replacementHistory = none) : HasRead items (item :: newer) replay where
  base := by rw [read.base, newestReplacement_cons noHistory]
  suffix := by
    rw [newestReplacement_cons noHistory]
    refine read.suffix.imp id ?_
    rintro ⟨front, checkpoint, behind, rfl, rest⟩
    exact ⟨item :: front, checkpoint, behind, rfl, rest⟩
  pending := read.pending

/-- Segments are changed without their compacted histories. -/
theorem HasRead.modifySegment (read : HasRead items newer replay)
    {change : ActiveReplaySegment Data → ActiveReplaySegment Data}
    (keeps : ∀ segment, (change segment).baseReplacementHistory = segment.baseReplacementHistory) :
    HasRead items newer (replay.modifySegment change) where
  base := by
    rw [← read.base]
    cases active : replay.activeSegment with
    | none | some segment => simp [ReverseReplay.modifySegment, active, keeps]
  suffix := read.suffix
  pending := read.pending

/-- Without rollbacks a turn that has been read is kept. -/
theorem HasRead.takeActiveSegment (read : HasRead items newer replay) :
    HasRead items newer replay.takeActiveSegment ∧
      replay.takeActiveSegment.activeSegment = none := by
  cases active : replay.activeSegment with
  | none =>
      have same : replay.takeActiveSegment = replay := by
        rw [ReverseReplay.takeActiveSegment, active]
      rw [same]
      exact ⟨read, active⟩
  | some segment =>
      have kept : ¬0 < replay.pendingRollbackTurns := by rw [read.pending]; exact Nat.lt_irrefl 0
      have taken : replay.takeActiveSegment =
          ReverseReplay.finalizeActiveSegment { replay with activeSegment := none } segment := by
        rw [ReverseReplay.takeActiveSegment, active]
      rw [taken, ReverseReplay.finalizeActiveSegment, if_neg kept]
      refine ⟨⟨?_, read.suffix, read.pending⟩, rfl⟩
      rw [← read.base, active, Option.bind_none, Option.bind_some, Option.or_none]

/-- A compaction is read. -/
theorem HasRead.compacted (read : HasRead items newer replay) (compacted : CompactedItem Data) :
    HasRead items (.compacted compacted :: newer)
      (reverseStep readers replay (.compacted compacted) newer) := by
  have base : replay.baseReplacementHistory.or
      ((replay.modifySegment (·.seeCompacted compacted)).activeSegment.bind
        ActiveReplaySegment.baseReplacementHistory) =
      newestReplacement (.compacted compacted :: newer) := by
    rw [newestReplacement, ← read.base, RolloutItem.replacementHistory, Option.or_assoc]
    cases active : replay.activeSegment with
    | none
    | some segment => simp [ReverseReplay.modifySegment, ActiveReplaySegment.seeCompacted, active]
  simp only [reverseStep]
  split
  case isTrue isBase =>
    obtain ⟨-, isCheckpoint⟩ := Bool.and_eq_true_iff.mp isBase
    exact ⟨base, .inr ⟨[], .compacted compacted, newer, rfl, isCheckpoint, rfl⟩, read.pending⟩
  case isFalse noBase =>
    refine ⟨base, ?_, read.pending⟩
    cases replacement : compacted.replacementHistory with
    | none =>
        have noHistory : (RolloutItem.compacted compacted).replacementHistory = none := replacement
        exact (read.cons noHistory).suffix
    | some history =>
        have older : (replay.activeSegment.bind
            ActiveReplaySegment.baseReplacementHistory).isSome = true := by
          cases active : replay.activeSegment with
          | none => simp [active, replacement] at noBase
          | some segment => simpa [active, replacement, Option.isSome_iff_ne_none] using noBase
        have found : (newestReplacement newer).isSome = true := by
          rw [← read.base, Option.isSome_or, older, Bool.or_true]
        obtain ⟨missing, -⟩ | ⟨front, checkpoint, behind, rfl, rest⟩ := read.suffix
        · rw [missing] at found
          cases found
        · exact .inr ⟨.compacted compacted :: front, checkpoint, behind, rfl, rest⟩

theorem HasRead.reverseStep (read : HasRead items newer replay)
    (noRollback : ∀ numTurns, item ≠ .eventMsg (.threadRolledBack numTurns)) :
    HasRead items (item :: newer) (reverseStep readers replay item newer) := by
  cases item with
  | compacted compacted => exact read.compacted compacted
  | sessionMeta data => exact read.cons rfl
  | responseItem item =>
      refine HasRead.cons ?_ rfl
      simp only [Rollout.reverseStep]
      exact read.modifySegment fun _ => rfl
  | turnContext context =>
      refine HasRead.cons ?_ rfl
      simp only [Rollout.reverseStep]
      refine read.modifySegment fun segment => ?_
      simp only [ActiveReplaySegment.seeTurnContext]
      split <;> rfl
  | eventMsg event =>
      refine HasRead.cons ?_ rfl
      simp only [Rollout.reverseStep]
      split
      case h_1 changed => cases changed
      case h_2 numTurns isRollback => exact absurd isRollback (noRollback numTurns)
      case h_3 => exact read.modifySegment fun _ => rfl
      case h_4 =>
        split
        · exact read
        · exact read.modifySegment fun _ => rfl
      case h_5 => exact read.modifySegment fun _ => rfl
      case h_6 changed => cases changed
      case h_7 =>
        split
        · exact read.takeActiveSegment.1
        · exact read
      case h_8 changed => cases changed
      case h_9 | h_10 => exact read

/-- What the reading knows holds wherever it stops. -/
theorem HasRead.reverseReplay {older : List (RolloutItem Data)} (read : HasRead items newer replay)
    (noRollback : ∀ numTurns, .eventMsg (.threadRolledBack numTurns) ∉ older) :
    ∃ unread last, older.reverse ++ newer = unread ++ last ∧
      HasRead items last (reverseReplay readers older newer replay) := by
  induction older generalizing newer replay with
  | nil => exact ⟨[], newer, rfl, read⟩
  | cons item older ih =>
      have stepped : HasRead items (item :: newer)
          (Rollout.reverseStep readers replay item newer) :=
        read.reverseStep fun numTurns same => noRollback numTurns (same ▸ List.mem_cons_self)
      have whole : (item :: older).reverse ++ newer = older.reverse ++ item :: newer := by
        rw [List.reverse_cons, List.append_assoc, List.singleton_append]
      rw [whole]
      simp only [Rollout.reverseReplay]
      split
      · exact ⟨older.reverse, item :: newer, rfl, stepped⟩
      · exact ih stepped fun numTurns member =>
          noRollback numTurns (List.mem_cons_of_mem item member)

end Backwards

/-- Without rollbacks, resuming from the newest compaction gives the history of the whole
rollout. -/
theorem reconstruct_eq_replay (readers : Readers) (materials : Materials Data)
    {items : List (RolloutItem Data)}
    (noRollback : ∀ numTurns, .eventMsg (.threadRolledBack numTurns) ∉ items) :
    (reconstructHistoryFromRollout readers materials items).history =
      replay readers materials items := by
  have start : HasRead items [] { rolloutSuffix := items } := ⟨rfl, .inl ⟨rfl, rfl⟩, rfl⟩
  obtain ⟨unread, last, whole, read⟩ := @HasRead.reverseReplay Data readers _ _ _ _ start
    fun numTurns member => noRollback numTurns (List.mem_reverse.mp member)
  rw [List.reverse_reverse, List.append_nil] at whole
  obtain ⟨taken, done⟩ := read.takeActiveSegment
  have base := taken.base
  rw [done, Option.bind_none, Option.or_none] at base
  simp only [reconstructHistoryFromRollout, base]
  obtain ⟨none, suffix⟩ | ⟨front, checkpoint, behind, rfl, isCheckpoint, suffix⟩ := taken.suffix
  · rw [none, suffix]
    rfl
  · obtain ⟨replacement, newest⟩ : ∃ replacement,
        newestReplacement (checkpoint :: behind) = some replacement := by
      rw [← Option.isSome_iff_exists, newestReplacement, Option.isSome_or, isCheckpoint,
        Bool.or_true]
    have same : newestReplacement (front ++ checkpoint :: behind) = some replacement := by
      rw [newestReplacement_append, newest, Option.some_or]
    rw [same, suffix, whole, ← List.append_assoc]
    exact replay_behind isCheckpoint newest false

/-- A rollout with a compaction of each kind, and turns that do not end as they begin. -/
def compactedRollout : List (RolloutItem Unit) :=
  [.responseItem sampleMessage, .compacted ⟨[], some [sampleMessage]⟩,
    .eventMsg (.turnComplete ['a']), .responseItem sampleMessage, .compacted ⟨[], none⟩,
    .eventMsg (.turnStarted ['b']), .responseItem sampleMessage]

theorem reconstruct_eq_replay_compacted :
    (reconstructHistoryFromRollout plainReaders plainMaterials compactedRollout).history =
      replay plainReaders plainMaterials compactedRollout :=
  reconstruct_eq_replay plainReaders plainMaterials fun _ member => by
    simp [compactedRollout] at member

end CodexPilot.Rollout
