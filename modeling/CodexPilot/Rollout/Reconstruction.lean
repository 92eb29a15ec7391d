import CodexPilot.ContextManager.History

/-!
# The history of a resumed thread

A rollout is the log of a thread: response items, settings of turns, compactions and events.  It is
read twice: backwards, for the newest compacted history and the settings that survive the rollbacks,
and forwards from there, for the items of the history.
-/

namespace CodexPilot.Rollout

open RustStd ContextManager

/-- A message of the user. -/
structure UserMessageEvent (Data : Type) where
  message : Text
  images : Option (List Text)
  localImages : List Text
  textElements : List Data

/-- The events that the readers of a rollout tell apart.  The begin and end events of tools, plans
and agents are one event here: the id and the data of the item that is shown for them, and the turn
that they name, if they do. -/
inductive EventMsg (Data : Type) where
  | userMessage (payload : UserMessageEvent Data)
  | agentMessage (message : Text) (data : Data)
  | agentReasoning (text : Text)
  | agentReasoningRawContent (text : Text)
  | toolItem (turnId : Option Text) (id : Text) (data : Data)
  | contextCompacted
  | enteredReviewMode (userFacingHint : Option Text)
  | exitedReviewMode (overallExplanation : Option Text)
  | error (affectsTurnStatus : Bool) (data : Data)
  | threadRolledBack (numTurns : ℕ)
  | turnAborted (turnId : Option Text)
  | turnStarted (turnId : Text)
  | turnComplete (turnId : Text)
  | other

/-- A compaction, and the history it leaves. -/
structure CompactedItem (Data : Type) where
  message : Text
  replacementHistory : Option (List (ResponseItem Data))

/-- A line of a rollout. -/
inductive RolloutItem (Data : Type) where
  | sessionMeta (data : Data)
  | responseItem (item : ResponseItem Data)
  | compacted (item : CompactedItem Data)
  | turnContext (item : TurnContextItem Data)
  | eventMsg (event : EventMsg Data)

variable {Data : Type}

/-! ## Backwards -/

/-- The settings of the last turn. -/
structure PreviousTurnSettings where
  model : Text
  realtimeActive : Option Bool

/-- The settings that a stretch of the rollout has established. -/
inductive TurnReferenceContextItem (Data : Type) where
  | neverSet
  | cleared
  | latest (item : TurnContextItem Data)

/-- A turn that is being read from its end. -/
structure ActiveReplaySegment (Data : Type) where
  turnId : Option Text := none
  countsAsUserTurn : Bool := false
  previousTurnSettings : Option PreviousTurnSettings := none
  referenceContextItem : TurnReferenceContextItem Data := .neverSet
  baseReplacementHistory : Option (List (ResponseItem Data)) := none

/-- `turn_ids_are_compatible`. -/
def turnIdsAreCompatible (activeTurnId itemTurnId : Option Text) : Bool :=
  match activeTurnId, itemTurnId with
  | some active, some item => item == active
  | _, _ => true

/-- What the reader has found so far. -/
structure ReverseReplay (Data : Type) where
  baseReplacementHistory : Option (List (ResponseItem Data)) := none
  previousTurnSettings : Option PreviousTurnSettings := none
  referenceContextItem : TurnReferenceContextItem Data := .neverSet
  pendingRollbackTurns : ℕ := 0
  rolloutSuffix : List (RolloutItem Data)
  activeSegment : Option (ActiveReplaySegment Data) := none

namespace ReverseReplay

/-- A turn has been read to its beginning. -/
def finalizeActiveSegment (replay : ReverseReplay Data) (segment : ActiveReplaySegment Data) :
    ReverseReplay Data :=
  if 0 < replay.pendingRollbackTurns then
    if segment.countsAsUserTurn then
      { replay with pendingRollbackTurns := replay.pendingRollbackTurns - 1 }
    else replay
  else
    { replay with
      baseReplacementHistory := replay.baseReplacementHistory.or segment.baseReplacementHistory
      previousTurnSettings :=
        if replay.previousTurnSettings = none ∧ segment.countsAsUserTurn = true then
          segment.previousTurnSettings
        else replay.previousTurnSettings
      referenceContextItem :=
        match replay.referenceContextItem, segment.referenceContextItem with
        | .neverSet, .cleared => .cleared
        | .neverSet, reference => if segment.countsAsUserTurn then reference else .neverSet
        | reference, _ => reference }

/-- Finalize the turn that is being read, if there is one. -/
def takeActiveSegment (replay : ReverseReplay Data) : ReverseReplay Data :=
  match replay.activeSegment with
  | none => replay
  | some segment => finalizeActiveSegment { replay with activeSegment := none } segment

/-- Change the turn that is being read, or begin to read one. -/
def modifySegment (replay : ReverseReplay Data)
    (change : ActiveReplaySegment Data → ActiveReplaySegment Data) : ReverseReplay Data :=
  { replay with activeSegment := some (change (replay.activeSegment.getD {})) }

end ReverseReplay

namespace ActiveReplaySegment

def seeTurnId (segment : ActiveReplaySegment Data) (turnId : Option Text) :
    ActiveReplaySegment Data :=
  { segment with turnId := segment.turnId.or turnId }

/-- What a compaction sets. -/
def seeCompacted (segment : ActiveReplaySegment Data) (compacted : CompactedItem Data) :
    ActiveReplaySegment Data :=
  { segment with
    referenceContextItem :=
      match segment.referenceContextItem with
      | .neverSet => .cleared
      | reference => reference
    baseReplacementHistory := segment.baseReplacementHistory.or compacted.replacementHistory }

def seeTurnContext (segment : ActiveReplaySegment Data) (context : TurnContextItem Data) :
    ActiveReplaySegment Data :=
  let segment := segment.seeTurnId context.turnId
  if turnIdsAreCompatible segment.turnId context.turnId then
    { segment with
      previousTurnSettings := some ⟨context.model, context.realtimeActive⟩
      referenceContextItem :=
        match segment.referenceContextItem with
        | .neverSet => .latest context
        | reference => reference }
  else segment

end ActiveReplaySegment

section Reverse

variable (readers : Readers)

/-- Read one item backwards; `newer` are the items after it. -/
def reverseStep (replay : ReverseReplay Data) (item : RolloutItem Data)
    (newer : List (RolloutItem Data)) : ReverseReplay Data :=
  match item with
  | .compacted compacted =>
      let isBase := (replay.activeSegment.getD {}).baseReplacementHistory.isNone &&
        compacted.replacementHistory.isSome
      let replay := replay.modifySegment (·.seeCompacted compacted)
      if isBase then { replay with rolloutSuffix := newer } else replay
  | .eventMsg (.threadRolledBack numTurns) =>
      { replay with pendingRollbackTurns := replay.pendingRollbackTurns + numTurns }
  | .eventMsg (.turnComplete turnId) => replay.modifySegment (·.seeTurnId (some turnId))
  | .eventMsg (.turnAborted turnId) =>
      match replay.activeSegment, turnId with
      | none, none => replay
      | _, _ => replay.modifySegment (·.seeTurnId turnId)
  | .eventMsg (.userMessage _) => replay.modifySegment ({ · with countsAsUserTurn := true })
  | .turnContext context => replay.modifySegment (·.seeTurnContext context)
  | .eventMsg (.turnStarted turnId) =>
      if replay.activeSegment.any (turnIdsAreCompatible ·.turnId (some turnId)) then
        replay.takeActiveSegment
      else replay
  | .responseItem item =>
      replay.modifySegment fun segment =>
        { segment with
          countsAsUserTurn := segment.countsAsUserTurn || isUserTurnBoundary readers item }
  | .eventMsg _ | .sessionMeta _ => replay

/-- Nothing older can matter. -/
def ReverseReplay.isComplete (replay : ReverseReplay Data) : Bool :=
  replay.baseReplacementHistory.isSome && replay.previousTurnSettings.isSome &&
    match replay.referenceContextItem with
    | .neverSet => false
    | _ => true

/-- Read items backwards, the newest first. -/
def reverseReplay : List (RolloutItem Data) → List (RolloutItem Data) → ReverseReplay Data →
    ReverseReplay Data
  | [], _, replay => replay
  | item :: older, newer, replay =>
      let replay := reverseStep readers replay item newer
      if replay.isComplete then replay else reverseReplay older (item :: newer) replay

end Reverse

/-! ## Forwards -/

/-- What the reader needs of the rest of the program: the truncation of tool outputs, and the
history that a compaction without one of its own leaves. -/
structure Materials (Data : Type) where
  truncate : FunctionCallOutputPayload → FunctionCallOutputPayload
  compactedHistory : List (ResponseItem Data) → Text → List (ResponseItem Data)

section Forward

variable (readers : Readers) (materials : Materials Data)

/-- Read one item forwards; the flag tells of compactions without a history. -/
def forwardStep (state : History Data × Bool) (item : RolloutItem Data) : History Data × Bool :=
  match item with
  | .responseItem item => (state.1.recordItems materials.truncate [item], state.2)
  | .compacted compacted =>
      match compacted.replacementHistory with
      | some replacement => (state.1.replace replacement, state.2)
      | none =>
          (state.1.replace (materials.compactedHistory state.1.items compacted.message), true)
  | .eventMsg (.threadRolledBack numTurns) =>
      (state.1.dropLastNUserTurns readers numTurns, state.2)
  | .eventMsg _ | .turnContext _ | .sessionMeta _ => state

/-- What a rollout is read as. -/
structure RolloutReconstruction (Data : Type) where
  history : List (ResponseItem Data)
  previousTurnSettings : Option PreviousTurnSettings
  referenceContextItem : Option (TurnContextItem Data)

/-- `reconstruct_history_from_rollout`. -/
def reconstructHistoryFromRollout (items : List (RolloutItem Data)) : RolloutReconstruction Data :=
  let replay := (reverseReplay readers items.reverse []
    { rolloutSuffix := items }).takeActiveSegment
  let base : History Data :=
    match replay.baseReplacementHistory with
    | some replacement => History.new.replace replacement
    | none => History.new
  let (history, sawLegacyCompaction) :=
    replay.rolloutSuffix.foldl (forwardStep readers materials) (base, false)
  { history := history.items
    previousTurnSettings := replay.previousTurnSettings
    referenceContextItem :=
      match replay.referenceContextItem with
      | .latest context => if sawLegacyCompaction then none else some context
      | _ => none }

end Forward

end CodexPilot.Rollout
