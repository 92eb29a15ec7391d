import CodexPilot.Rollout.ForkTurns

/-!
# The messages of the user in the history

A rollback of the history counts the instructions of other agents as turns, the index of the
messages of the user does not.  So they are two readings of an undo log.
-/

namespace CodexPilot.Rollout

open RustStd ContextManager

variable {Data : Type}

/-- What an entry of the rollout does to the turns: some are messages of the user, at their
position. -/
def turnCommands (readers : Readers) (entry : RolloutItem Data × ℕ) : List (UndoLog.Command ℕ) :=
  match entry.1 with
  | .responseItem item =>
      if isUserTurnBoundary readers item then
        [.push (if isRealUserMessageBoundary readers item then some entry.2 else none)]
      else []
  | .eventMsg (.threadRolledBack numTurns) => [.undo numTurns]
  | _ => []

/-- The log of the turns of a rollout. -/
def turnLog (readers : Readers) (items : List (RolloutItem Data)) : List (UndoLog.Command ℕ) :=
  items.zipIdx.flatMap (turnCommands readers)

/-- The turns among the survivors, with the positions of those that are messages of the user. -/
def turnEntries (readers : Readers) (survivors : List (ℕ × ResponseItem Data)) : List (Option ℕ) :=
  (survivors.filter (isUserTurnBoundary readers ∘ Prod.snd)).map fun survivor =>
    if isRealUserMessageBoundary readers survivor.2 then some survivor.1 else none

/-- The positions of the messages of the user that are in the history. -/
def survivingUserPositions (readers : Readers) (materials : Materials Data)
    (items : List (RolloutItem Data)) : List ℕ :=
  positionsOf (isRealUserMessageBoundary readers) (survivors readers materials items)

variable {readers : Readers} {materials : Materials Data}

/-- The index undoes messages of the user. -/
theorem userMessagePositions_eq (items : List (RolloutItem Data)) :
    userMessagePositionsInRollout readers items =
      (turnLog readers items).foldl UndoLog.valuesStep [] := by
  rw [userMessagePositionsInRollout, turnLog, List.foldl_flatMap]
  congr
  funext positions entry
  obtain ⟨item, idx⟩ := entry
  cases item with
  | responseItem item =>
      rw [userPositionsStep, turnCommands]
      dsimp only
      cases boundary : isUserTurnBoundary readers item with
      | true =>
          rw [if_pos rfl]
          cases isRealUserMessageBoundary readers item <;> simp [UndoLog.valuesStep]
      | false =>
          have noMessage : ¬ isRealUserMessageBoundary readers item = true := fun real =>
            Bool.false_ne_true
              (boundary.symm.trans (isUserTurnBoundary_of_isRealUserMessageBoundary real))
          rw [if_neg noMessage, if_neg Bool.false_ne_true, List.foldl_nil]
  | eventMsg event => cases event <;> rfl
  | _ => rfl

theorem turnEntries_step (survivors : List (ℕ × ResponseItem Data)) (item : RolloutItem Data)
    (idx : ℕ) :
    turnEntries readers (survivorStep readers materials survivors (item, idx)) =
      (turnCommands readers (item, idx)).foldl UndoLog.entriesStep
        (turnEntries readers survivors) := by
  cases item with
  | responseItem item =>
      have sameItem : (isUserTurnBoundary readers ∘ Prod.snd) ∘ (idx, ·) =
          (isUserTurnBoundary readers : ResponseItem Data → Bool) := rfl
      rw [survivorStep_record, turnEntries, List.filter_append, List.map_append, List.filter_map,
        sameItem, filter_recorded fun _ => id, turnCommands, turnEntries]
      dsimp only
      split_ifs <;> simp [UndoLog.entriesStep, *]
  | eventMsg event =>
      cases event with
      | threadRolledBack numTurns =>
          have noTurn : ∀ survivor : ℕ × ResponseItem Data,
              (isInjectedContext readers ∘ Prod.snd) survivor = true →
                (isUserTurnBoundary readers ∘ Prod.snd) survivor = false :=
            fun survivor => not_boundary_of_isInjectedContext survivor.2
          rw [survivorStep_rollback, turnEntries, Turns.filter_dropLast noTurn]
          change _ = List.take _ _
          rw [turnEntries, List.map_take, List.length_map, List.countP_eq_length_filter]
      | _ => rfl
  | _ => rfl

/-- The history undoes turns. -/
theorem turnEntries_survivors (items : List (RolloutItem Data)) :
    turnEntries readers (survivors readers materials items) =
      (turnLog readers items).foldl UndoLog.entriesStep [] := by
  rw [turnLog, List.foldl_flatMap, survivors, survivorsFrom]
  exact foldl_enumerate_rel (fun _ survivors entries => turnEntries readers survivors = entries)
    (fun item idx _ survivors entries same => same ▸ turnEntries_step survivors item idx) rfl

theorem reduceOption_turnEntries (survivors : List (ℕ × ResponseItem Data)) :
    (turnEntries readers survivors).reduceOption =
      positionsOf (isRealUserMessageBoundary readers) survivors := by
  rw [turnEntries, positionsOf]
  induction survivors with
  | nil => rfl
  | cons survivor survivors ih =>
      rw [List.filter_cons, List.filter_cons]
      cases real : isRealUserMessageBoundary readers survivor.2 with
      | true =>
          have boundary := isUserTurnBoundary_of_isRealUserMessageBoundary real
          simpa [boundary, real] using ih
      | false =>
          cases boundary : isUserTurnBoundary readers survivor.2 with
          | true | false => simpa [boundary, real] using ih

/-- The index has the positions of the messages in the history exactly when the readings agree. -/
theorem userMessagePositions_iff (readers : Readers) (materials : Materials Data)
    (items : List (RolloutItem Data)) :
    userMessagePositionsInRollout readers items = survivingUserPositions readers materials items ↔
      UndoLog.agrees (turnLog readers items) = true := by
  rw [survivingUserPositions, ← reduceOption_turnEntries, turnEntries_survivors,
    userMessagePositions_eq]
  exact ⟨fun same => UndoLog.agrees_of_length_eq (congrArg List.length same),
    UndoLog.values_eq_of_agrees⟩

/-- Where they agree and nothing has been compacted, the survivors are the reconstructed history, and
a cut before a message counts the messages in it. -/
theorem truncate_before_of_agrees {items : List (RolloutItem Data)} {nFromStart : ℕ}
    (kinds : ∀ item ∈ items, item.isCompacted = false)
    (agree : UndoLog.agrees (turnLog readers items) = true)
    (within : nFromStart < (survivingUserPositions readers materials items).length)
    (finite : nFromStart ≠ usizeMax) :
    (survivors readers materials items).map Prod.snd =
        (reconstructHistoryFromRollout readers materials items).history ∧
      truncateRolloutBeforeNthUserMessageFromStart readers items nFromStart =
        items.take (survivingUserPositions readers materials items)[nFromStart] := by
  refine ⟨?_, ?_⟩
  · rw [survivors, survivorsFrom_items readers materials 0 kinds]
    exact (replay_eq_reconstruct readers materials kinds).symm
  · have positions : userMessagePositionsInRollout readers items =
        survivingUserPositions readers materials items := by
      rw [survivingUserPositions, ← reduceOption_turnEntries, turnEntries_survivors,
        userMessagePositions_eq]
      exact UndoLog.values_eq_of_agrees agree
    rw [truncateRolloutBeforeNthUserMessageFromStart, if_neg finite, positions,
      if_neg within.not_ge, List.getD_eq_getElem?_getD, List.getElem?_eq_getElem within,
      Option.getD_some]

/-- The second message is cut off. -/
theorem truncate_before_second :
    (survivors plainReaders plainMaterials
        [.responseItem sampleMessage, .responseItem sampleMessage]).map Prod.snd =
        (reconstructHistoryFromRollout plainReaders plainMaterials
          [.responseItem sampleMessage, .responseItem sampleMessage]).history ∧
      truncateRolloutBeforeNthUserMessageFromStart plainReaders
          [.responseItem sampleMessage, .responseItem sampleMessage] 1 =
        [.responseItem sampleMessage] :=
  truncate_before_of_agrees (by decide) (by decide)
    (show 1 < (survivingUserPositions plainReaders plainMaterials
      [.responseItem sampleMessage, .responseItem sampleMessage]).length by decide) (by decide)

def instructionText : Text :=
  ("\x7b\"author\":\"/root\",\"recipient\":\"/root/worker\",\"other_recipients\":[]," ++
    "\"content\":\"go\",\"trigger_turn\":true\x7d").toList

def instructionReaders : Readers := ⟨fun _ => none, fun text => text = instructionText⟩

def sampleInstruction : ResponseItem Unit :=
  .message assistantRole [.outputText instructionText] ()

/-- Rolling back an instruction of another agent takes the message before it off the index. -/
theorem instruction_rolledBack :
    userMessagePositionsInRollout instructionReaders
        [.responseItem sampleMessage, .responseItem sampleInstruction,
          .eventMsg (.threadRolledBack 1)] ≠
      survivingUserPositions instructionReaders plainMaterials
        [.responseItem sampleMessage, .responseItem sampleInstruction,
          .eventMsg (.threadRolledBack 1)] := by
  decide +kernel

end CodexPilot.Rollout
