import CodexPilot.Rollout.Truncation

/-!
# Rollouts of complete turns

A turn of the user is recorded from its beginning to its end: the message, the settings, the context
that is injected in front of the message, and what follows, perhaps with a compaction.  Rollbacks
stand between the turns.  Read backwards, the turns that are rolled back are skipped.
-/

namespace CodexPilot.Rollout

open RustStd ContextManager

variable {Data : Type}

/-! ## Turns -/

/-- Items that a history records. -/
def isRecorded (item : ResponseItem Data) : Bool := isApiMessage item || isGhostSnapshot item

/-- A compaction with a history, and the items of its turn after it. -/
structure TurnCompaction (Data : Type) where
  message : Text
  replacement : List (ResponseItem Data)
  behind : List (ResponseItem Data)

/-- A turn of the user: context, one message that begins a turn of the history, and other items, the
last of which that is recorded is no context. -/
structure ClosedTurn (Data : Type) (readers : Readers) where
  id : Text
  payload : UserMessageEvent Data
  context : TurnContextItem Data
  contextual : List (ResponseItem Data)
  message : ResponseItem Data
  response : List (ResponseItem Data)
  compaction : Option (TurnCompaction Data)
  named : context.turnId = some id
  injected : ∀ item ∈ contextual, isInjectedContext readers item = true
  begins : isUserTurnBoundary readers message = true
  responds : ∀ item ∈ response, isUserTurnBoundary readers item = false
  continues : ∀ found ∈ compaction, ∀ item ∈ found.behind, isUserTurnBoundary readers item = false
  ends : ∀ last ∈ ((message :: response ++ (compaction.map (·.behind)).getD []).filter
    isRecorded).getLast?, isInjectedContext readers last = false

namespace ClosedTurn

variable {readers : Readers}

/-- The compaction of a turn, as it is logged, with what is after it. -/
def compactionItems (turn : ClosedTurn Data readers) : List (RolloutItem Data) :=
  match turn.compaction with
  | none => []
  | some found => .compacted ⟨found.message, some found.replacement⟩ ::
      found.behind.map .responseItem

/-- What is logged between the beginning of a turn and its end. -/
def body (turn : ClosedTurn Data readers) : List (RolloutItem Data) :=
  .eventMsg (.userMessage turn.payload) :: .turnContext turn.context ::
    (turn.contextual ++ turn.message :: turn.response).map .responseItem ++ turn.compactionItems

def rolloutItems (turn : ClosedTurn Data readers) : List (RolloutItem Data) :=
  completeTurn turn.id turn.body

def settings (turn : ClosedTurn Data readers) : PreviousTurnSettings :=
  ⟨turn.context.model, turn.context.realtimeActive⟩

/-- The settings that a turn leaves for the next one; a compaction clears them. -/
def reference (turn : ClosedTurn Data readers) : TurnReferenceContextItem Data :=
  match turn.compaction with
  | none => .latest turn.context
  | some _ => .cleared

/-- What has been read of a turn at its beginning. -/
def segment (turn : ClosedTurn Data readers) : ActiveReplaySegment Data where
  turnId := some turn.id
  countsAsUserTurn := true
  previousTurnSettings := some turn.settings
  referenceContextItem := turn.reference
  baseReplacementHistory := turn.compaction.map (·.replacement)

end ClosedTurn

/-- A turn, or a rollback between turns. -/
inductive Span (Data : Type) (readers : Readers) where
  | turn (closed : ClosedTurn Data readers)
  | rollback (numTurns : ℕ)

section Spans

variable {readers : Readers}

def Span.rolloutItems : Span Data readers → List (RolloutItem Data)
  | .turn closed => closed.rolloutItems
  | .rollback numTurns => [.eventMsg (.threadRolledBack numTurns)]

/-- The rollout of the spans. -/
def spansRollout (spans : List (Span Data readers)) : List (RolloutItem Data) :=
  spans.flatMap Span.rolloutItems

def Span.command : Span Data readers → UndoLog.Command (ClosedTurn Data readers)
  | .turn closed => .push (some closed)
  | .rollback numTurns => .undo numTurns

/-- The turns that are left after the rollbacks, the oldest first. -/
def standing (spans : List (Span Data readers)) : List (ClosedTurn Data readers) :=
  (spans.map Span.command).foldl UndoLog.valuesStep []

/-- How many turns from before the spans they roll back, followed by some more rollbacks. -/
def rollsBack (spans : List (Span Data readers)) (pending : ℕ) : ℕ :=
  UndoLog.reach (spans.map Span.command) pending

end Spans

/-! ## Reading backwards -/

section Backwards

variable {readers : Readers} {replay : ReverseReplay Data} {items newer : List (RolloutItem Data)}

/-- Read items backwards, without stopping. -/
def readBack (readers : Readers) : List (RolloutItem Data) → List (RolloutItem Data) →
    ReverseReplay Data → ReverseReplay Data
  | [], _, replay => replay
  | item :: items, newer, replay =>
      reverseStep readers (readBack readers items newer replay) item (items ++ newer)

theorem readBack_append (front back newer : List (RolloutItem Data)) :
    readBack readers (front ++ back) newer replay =
      readBack readers front (back ++ newer) (readBack readers back newer replay) := by
  induction front with
  | nil => rfl
  | cons item front ih =>
      rw [List.cons_append, readBack, ih, readBack, List.append_assoc]

/-- The reading is complete only at the beginning of a turn. -/
theorem isComplete_reverseStep {item : RolloutItem Data}
    (inside : ∀ id, item ≠ .eventMsg (.turnStarted id)) :
    (reverseStep readers replay item newer).isComplete = replay.isComplete := by
  unfold reverseStep
  split
  case h_1 =>
    dsimp only
    split <;> rfl
  case h_4 => split <;> rfl
  case h_7 id => exact absurd rfl (inside id)
  all_goals rfl

theorem isComplete_readBack (inside : ∀ id, .eventMsg (.turnStarted id) ∉ items) :
    (readBack readers items newer replay).isComplete = replay.isComplete := by
  induction items with
  | nil => rfl
  | cons item items ih =>
      rw [readBack, isComplete_reverseStep fun id same => inside id (same ▸ List.mem_cons_self)]
      exact ih fun id member => inside id (List.mem_cons_of_mem item member)

/-- Inside a turn the reading goes on. -/
theorem reverseReplay_inside (incomplete : replay.isComplete = false)
    (inside : ∀ id, .eventMsg (.turnStarted id) ∉ items) (older newer : List (RolloutItem Data)) :
    reverseReplay readers (items.reverse ++ older) newer replay =
      reverseReplay readers older (items ++ newer) (readBack readers items newer replay) := by
  induction items generalizing older with
  | nil => rfl
  | cons item items ih =>
      have later : ∀ id, .eventMsg (.turnStarted id) ∉ items := fun id member =>
        inside id (List.mem_cons_of_mem item member)
      have stillIncomplete : (readBack readers (item :: items) newer replay).isComplete = false :=
        (isComplete_readBack inside).trans incomplete
      rw [List.reverse_cons, List.append_assoc, List.singleton_append, ih later,
        reverseReplay]
      rw [readBack] at stillIncomplete
      rw [stillIncomplete, if_neg Bool.false_ne_true, readBack, List.cons_append]

/-- Response items tell only whether the turn is one of the user. -/
theorem readBack_responses {segment : ActiveReplaySegment Data}
    (active : replay.activeSegment = some segment) (responses : List (ResponseItem Data)) :
    readBack readers (responses.map .responseItem) newer replay =
      { replay with
        activeSegment := some
          { segment with
            countsAsUserTurn :=
              segment.countsAsUserTurn || responses.any (isUserTurnBoundary readers) } } := by
  induction responses with
  | nil =>
      rw [List.map_nil, readBack, List.any_nil, Bool.or_false, ← active]
  | cons item responses ih =>
      rw [List.map_cons, readBack, ih, reverseStep, ReverseReplay.modifySegment,
        List.any_cons]
      dsimp only
      rw [Option.getD_some, Bool.or_assoc, Bool.or_comm (isUserTurnBoundary readers item)]

variable {turn : ClosedTurn Data readers}

namespace ClosedTurn

/-- Where the reading forwards begins, once the turn has been read backwards. -/
def suffix (turn : ClosedTurn Data readers) (newer suffix : List (RolloutItem Data)) :
    List (RolloutItem Data) :=
  match turn.compaction with
  | none => suffix
  | some found => found.behind.map .responseItem ++ .eventMsg (.turnComplete turn.id) :: newer

/-- A turn of the user has been read to its beginning. -/
def readTurn (turn : ClosedTurn Data readers) (newer : List (RolloutItem Data))
    (replay : ReverseReplay Data) : ReverseReplay Data :=
  ReverseReplay.finalizeActiveSegment
    { replay with rolloutSuffix := turn.suffix newer replay.rolloutSuffix } turn.segment

end ClosedTurn

theorem any_contextual (turn : ClosedTurn Data readers) :
    (turn.contextual ++ turn.message :: turn.response).any (isUserTurnBoundary readers) = true := by
  rw [List.any_append, List.any_cons, turn.begins, Bool.true_or, Bool.or_true]

/-- What has been read of a turn when its beginning is next. -/
theorem readBack_turn (idle : replay.activeSegment = none) :
    readBack readers (turn.body ++ [.eventMsg (.turnComplete turn.id)]) newer replay =
      { replay with
        rolloutSuffix := turn.suffix newer replay.rolloutSuffix
        activeSegment := some turn.segment } := by
  have completed : readBack readers [.eventMsg (.turnComplete turn.id)] newer replay =
      { replay with activeSegment := some { turnId := some turn.id } } := by
    rw [readBack, readBack, reverseStep, ReverseReplay.modifySegment, idle]
    rfl
  have compacted : readBack readers turn.compactionItems
      ([.eventMsg (.turnComplete turn.id)] ++ newer)
      { replay with activeSegment := some { turnId := some turn.id } } =
      { replay with
        rolloutSuffix := turn.suffix newer replay.rolloutSuffix
        activeSegment := some
          { turnId := some turn.id
            referenceContextItem := if turn.compaction.isSome then .cleared else .neverSet
            baseReplacementHistory := turn.compaction.map (·.replacement) } } := by
    rw [ClosedTurn.compactionItems, ClosedTurn.suffix]
    cases compaction : turn.compaction with
    | none => rfl
    | some found =>
        have none : found.behind.any (isUserTurnBoundary readers) = false :=
          List.any_eq_false.mpr fun item member =>
            Bool.not_eq_true _ ▸ turn.continues found compaction item member
        dsimp only
        rw [readBack, readBack_responses rfl, none]
        rfl
  have compatible : turnIdsAreCompatible (some turn.id) (some turn.id) = true :=
    beq_self_eq_true turn.id
  rw [readBack_append, completed, ClosedTurn.body, readBack_append, compacted, readBack, readBack,
    readBack_responses rfl, any_contextual]
  simp only [reverseStep, ReverseReplay.modifySegment, Option.getD_some, Bool.or_true,
    ActiveReplaySegment.seeTurnContext, ActiveReplaySegment.seeTurnId, Option.some_or, turn.named,
    compatible, if_true, ClosedTurn.segment, ClosedTurn.reference, ClosedTurn.settings]
  cases turn.compaction <;> rfl

/-- A whole turn is read and finalized. -/
theorem reverseReplay_turn (idle : replay.activeSegment = none)
    (incomplete : replay.isComplete = false) (older : List (RolloutItem Data)) :
    reverseReplay readers (turn.rolloutItems.reverse ++ older) newer replay =
      if (turn.readTurn newer replay).isComplete then turn.readTurn newer replay
      else
        reverseReplay readers older (turn.rolloutItems ++ newer) (turn.readTurn newer replay) := by
  have inside : ∀ id, .eventMsg (.turnStarted id) ∉
      turn.body ++ [.eventMsg (.turnComplete turn.id)] := by
    intro id
    rw [ClosedTurn.body, ClosedTurn.compactionItems]
    cases turn.compaction <;> simp
  have reversed : turn.rolloutItems.reverse ++ older =
      (turn.body ++ [RolloutItem.eventMsg (.turnComplete turn.id)]).reverse ++
        (.eventMsg (.turnStarted turn.id) :: older) := by
    rw [ClosedTurn.rolloutItems, completeTurn, List.cons_append, List.reverse_cons,
      List.append_assoc, List.singleton_append]
  have compatible : turnIdsAreCompatible (some turn.id) (some turn.id) = true :=
    beq_self_eq_true turn.id
  have started : reverseStep readers
      { replay with
        rolloutSuffix := turn.suffix newer replay.rolloutSuffix
        activeSegment := some turn.segment } (.eventMsg (.turnStarted turn.id))
      (turn.body ++ [.eventMsg (.turnComplete turn.id)] ++ newer) = turn.readTurn newer replay := by
    have known : turn.segment.turnId = some turn.id := rfl
    simp only [reverseStep, Option.any_some, known, compatible, if_true,
      ReverseReplay.takeActiveSegment, ClosedTurn.readTurn, ← idle]
  rw [reversed, reverseReplay_inside incomplete inside, readBack_turn idle, reverseReplay, started]
  rfl

/-! ## Reading spans -/

/-- The newest turn that is kept settles what is not known yet. -/
def settle (replay : ReverseReplay Data) (newest : Option (ClosedTurn Data readers)) :
    ReverseReplay Data :=
  { replay with
    previousTurnSettings := replay.previousTurnSettings.or (newest.map (·.settings))
    referenceContextItem :=
      match replay.referenceContextItem with
      | .neverSet => (newest.map (·.reference)).getD .neverSet
      | reference => reference }

theorem settle_none (replay : ReverseReplay Data) :
    settle replay (none : Option (ClosedTurn Data readers)) = replay := by
  obtain ⟨base, settings, reference, pending, suffix, active⟩ := replay
  rw [settle, Option.map_none, Option.or_none]
  cases reference <;> rfl

theorem settle_settle (replay : ReverseReplay Data) (turn : ClosedTurn Data readers)
    (older : Option (ClosedTurn Data readers)) :
    settle (settle replay (some turn)) older = settle replay (some turn) := by
  obtain ⟨base, settings, reference, pending, suffix, active⟩ := replay
  simp only [settle, Option.map_some, Option.getD_some, ClosedTurn.reference, Option.or_assoc,
    Option.some_or]
  cases reference <;> cases turn.compaction <;> rfl

/-- A turn that is read without rollbacks before it is kept. -/
theorem readTurn_kept (kept : replay.pendingRollbackTurns = 0) :
    turn.readTurn newer replay =
      { settle replay (some turn) with
        baseReplacementHistory :=
          replay.baseReplacementHistory.or (turn.compaction.map (·.replacement))
        rolloutSuffix := turn.suffix newer replay.rolloutSuffix } := by
  have settings : (if replay.previousTurnSettings = none then some turn.settings
      else replay.previousTurnSettings) =
        replay.previousTurnSettings.or (some turn.settings) := by
    cases replay.previousTurnSettings <;> rfl
  rw [ClosedTurn.readTurn, ReverseReplay.finalizeActiveSegment, if_neg (by rw [kept]; decide)]
  simp only [settle, and_true, if_true, settings, Option.map_some, Option.getD_some,
    ClosedTurn.segment, ClosedTurn.reference]
  cases replay.referenceContextItem <;> cases turn.compaction <;> rfl

/-- A turn that has been rolled back is skipped. -/
theorem readTurn_skipped {pending : ℕ} (skipped : replay.pendingRollbackTurns = pending + 1) :
    turn.readTurn newer replay =
      { replay with
        pendingRollbackTurns := pending
        rolloutSuffix := turn.suffix newer replay.rolloutSuffix } := by
  have counts : turn.segment.countsAsUserTurn = true := rfl
  rw [ClosedTurn.readTurn, ReverseReplay.finalizeActiveSegment,
    if_pos (by rw [skipped]; exact Nat.succ_pos pending), if_pos counts]
  simp only [skipped, Nat.add_sub_cancel]

theorem standing_concat (spans : List (Span Data readers)) (span : Span Data readers) :
    standing (spans ++ [span]) = UndoLog.valuesStep (standing spans) span.command := by
  rw [standing, List.map_append, List.foldl_append]
  rfl

theorem rollsBack_concat (spans : List (Span Data readers)) (span : Span Data readers)
    (pending : ℕ) :
    rollsBack (spans ++ [span]) pending =
      rollsBack spans (UndoLog.reachStep span.command pending) := by
  rw [rollsBack, List.map_append]
  exact UndoLog.reach_concat _ _ _

/-- The turns that are left when more are rolled back. -/
def keptOf (spans : List (Span Data readers)) (pending : ℕ) : List (ClosedTurn Data readers) :=
  (standing spans).take ((standing spans).length - pending)

theorem keptOf_concat (spans : List (Span Data readers)) (span : Span Data readers) (pending : ℕ) :
    keptOf (spans ++ [span]) pending =
      keptOf spans (UndoLog.reachStep span.command pending) ++
        (UndoLog.valuesStep [] span.command).take
          ((UndoLog.valuesStep [] span.command).length - pending) := by
  rw [keptOf, standing_concat]
  exact UndoLog.take_valuesStep _ _ _

/-- None of the turns has a compaction. -/
def Uncompressed (spans : List (Span Data readers)) : Prop :=
  ∀ closed, .turn closed ∈ spans → closed.compaction = none

/-- What is known when spans without compactions have been read. -/
def readSpans (spans : List (Span Data readers)) (replay : ReverseReplay Data) :
    ReverseReplay Data :=
  { settle replay (keptOf spans replay.pendingRollbackTurns).getLast? with
    pendingRollbackTurns := rollsBack spans replay.pendingRollbackTurns }

theorem readSpans_nil (replay : ReverseReplay Data) :
    readSpans ([] : List (Span Data readers)) replay = replay := by
  have nothing : keptOf ([] : List (Span Data readers)) replay.pendingRollbackTurns = [] :=
    List.take_nil
  rw [readSpans, nothing, List.getLast?_nil, settle_none]
  rfl

theorem readSpans_rollback (spans : List (Span Data readers)) (numTurns : ℕ) :
    readSpans (spans ++ [.rollback numTurns]) replay =
      readSpans spans
        { replay with pendingRollbackTurns := replay.pendingRollbackTurns + numTurns } := by
  rw [readSpans, keptOf_concat, rollsBack_concat, readSpans]
  simp only [Span.command, UndoLog.reachStep, UndoLog.valuesStep, List.take_nil, List.append_nil]
  rfl

theorem readSpans_turn (spans : List (Span Data readers)) {closed : ClosedTurn Data readers}
    (uncompressed : closed.compaction = none) (newer : List (RolloutItem Data)) :
    readSpans (spans ++ [.turn closed]) replay =
      readSpans spans (closed.readTurn newer replay) := by
  have suffix : closed.suffix newer replay.rolloutSuffix = replay.rolloutSuffix := by
    rw [ClosedTurn.suffix, uncompressed]
  rw [readSpans, keptOf_concat, rollsBack_concat]
  simp only [Span.command, UndoLog.reachStep, UndoLog.valuesStep, Option.toList_some,
    List.length_singleton, List.nil_append]
  cases pending : replay.pendingRollbackTurns with
  | succ rest =>
      have skipped : keptOf spans (rest + 1 - 1) ++ [closed].take (1 - (rest + 1)) =
          keptOf spans rest := by
        simp
      rw [readTurn_skipped pending, suffix, readSpans, skipped]
      rfl
  | zero =>
      have whole : keptOf spans (0 - 1) ++ [closed].take (1 - 0) = standing spans ++ [closed] := by
        rw [keptOf]
        simp
      have taken : closed.readTurn newer replay = settle replay (some closed) := by
        rw [readTurn_kept pending, suffix, uncompressed, Option.map_none, Option.or_none]
        rfl
      have same : (settle replay (some closed)).pendingRollbackTurns = 0 := pending
      rw [taken, readSpans, settle_settle, same, whole, List.getLast?_concat]

theorem isComplete_of_noBase (noBase : replay.baseReplacementHistory = none) :
    replay.isComplete = false := by
  rw [ReverseReplay.isComplete, noBase]
  rfl

/-- Spans without compactions are read to their beginning. -/
theorem reverseReplay_spans {spans : List (Span Data readers)} (uncompressed : Uncompressed spans)
    (idle : replay.activeSegment = none) (noBase : replay.baseReplacementHistory = none)
    (older newer : List (RolloutItem Data)) :
    reverseReplay readers ((spansRollout spans).reverse ++ older) newer replay =
      reverseReplay readers older (spansRollout spans ++ newer) (readSpans spans replay) := by
  induction spans using List.reverseRecOn generalizing replay newer with
  | nil =>
      rw [readSpans_nil]
      rfl
  | append_singleton spans span ih =>
      have earlier : Uncompressed spans := fun closed member =>
        uncompressed closed (List.mem_append_left [span] member)
      have reversed : (spansRollout (spans ++ [span])).reverse ++ older =
          span.rolloutItems.reverse ++ ((spansRollout spans).reverse ++ older) := by
        simp [spansRollout]
      have joined : spansRollout (spans ++ [span]) ++ newer =
          spansRollout spans ++ (span.rolloutItems ++ newer) := by
        simp [spansRollout]
      rw [reversed, joined]
      cases span with
      | rollback numTurns =>
          have incomplete : (reverseStep readers replay (.eventMsg (.threadRolledBack numTurns))
              newer).isComplete = false := isComplete_of_noBase noBase
          rw [readSpans_rollback, Span.rolloutItems, List.reverse_singleton, List.singleton_append,
            reverseReplay, incomplete, if_neg Bool.false_ne_true]
          refine ih earlier ?_ ?_ _
          · exact idle
          · exact noBase
      | turn closed =>
          have none : closed.compaction = none := uncompressed closed (by simp)
          have stillNoBase :
              (closed.readTurn newer replay).baseReplacementHistory = Option.none := by
            cases pending : replay.pendingRollbackTurns with
            | zero =>
                rw [readTurn_kept pending, none, Option.map_none, Option.or_none]
                exact noBase
            | succ rest =>
                rw [readTurn_skipped pending]
                exact noBase
          have stillIdle : (closed.readTurn newer replay).activeSegment = Option.none := by
            cases pending : replay.pendingRollbackTurns with
            | zero =>
                rw [readTurn_kept pending]
                exact idle
            | succ rest =>
                rw [readTurn_skipped pending]
                exact idle
          rw [readSpans_turn spans none newer, Span.rolloutItems,
            reverseReplay_turn idle (isComplete_of_noBase noBase),
            isComplete_of_noBase stillNoBase, if_neg Bool.false_ne_true]
          exact ih earlier stillIdle stillNoBase _

/-- A reading that has settled what a turn has, and has a compacted history, is complete. -/
theorem isComplete_settle {closed : ClosedTurn Data readers}
    (replacement : List (ResponseItem Data)) (suffix : List (RolloutItem Data)) :
    ReverseReplay.isComplete
      { settle replay (some closed) with
        baseReplacementHistory := some replacement
        rolloutSuffix := suffix } = true := by
  obtain ⟨base, settings, reference, pending, oldSuffix, active⟩ := replay
  simp only [ReverseReplay.isComplete, settle, Option.map_some, Option.getD_some,
    Option.isSome_some, Option.isSome_or, Bool.or_true, Bool.true_and, ClosedTurn.reference]
  cases reference <;> cases closed.compaction <;> rfl

/-- The reading stops at a turn with a compaction that the spans behind it do not roll back. -/
theorem reverseReplay_compacted {tail : List (Span Data readers)}
    {closed : ClosedTurn Data readers} {found : TurnCompaction Data}
    (compaction : closed.compaction = some found) (uncompressed : Uncompressed tail)
    (stands : rollsBack tail 0 = 0) (older : List (Span Data readers)) :
    reverseReplay readers (spansRollout (older ++ .turn closed :: tail)).reverse []
        { rolloutSuffix := items } =
      { settle (settle { rolloutSuffix := items } (standing tail).getLast?) (some closed) with
        baseReplacementHistory := some found.replacement
        rolloutSuffix := found.behind.map .responseItem ++
          .eventMsg (.turnComplete closed.id) :: spansRollout tail } := by
  have reversed : (spansRollout (older ++ .turn closed :: tail)).reverse =
      (spansRollout tail).reverse ++
        (closed.rolloutItems.reverse ++ (spansRollout older).reverse) := by
    simp [spansRollout, Span.rolloutItems]
  have read : readSpans tail { rolloutSuffix := items } =
      settle { rolloutSuffix := items } (standing tail).getLast? := by
    rw [readSpans, stands, keptOf, Nat.sub_zero, List.take_length]
    rfl
  have kept : (settle { rolloutSuffix := items } (standing tail).getLast?).pendingRollbackTurns =
      0 := rfl
  rw [reversed, reverseReplay_spans uncompressed rfl rfl, List.append_nil, read,
    reverseReplay_turn rfl rfl, readTurn_kept kept, ClosedTurn.suffix, compaction]
  exact if_pos (isComplete_settle found.replacement _)

theorem reverseReplay_uncompressed {spans : List (Span Data readers)}
    (uncompressed : Uncompressed spans) :
    reverseReplay readers (spansRollout spans).reverse [] { rolloutSuffix := items } =
      readSpans spans { rolloutSuffix := items } := by
  have read := @reverseReplay_spans Data readers { rolloutSuffix := items } spans uncompressed rfl
    rfl [] []
  rwa [List.append_nil, reverseReplay] at read

end Backwards

end CodexPilot.Rollout
