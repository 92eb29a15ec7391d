import CodexPilot.Rollout.Reconstruction
import Mathlib.Algebra.GroupWithZero.Nat

/-!
# The turns of a displayed thread

A builder reads a rollout forwards and groups what is to be shown into turns.  A rollback removes
the last turns, whatever they hold.
-/

namespace CodexPilot.Rollout

open RustStd ContextManager

variable {Data : Type}

/-- A part of what the user sends. -/
inductive UserInput (Data : Type) where
  | text (text : Text) (textElements : List Data)
  | image (url : Text)
  | localImage (path : Text)
  deriving DecidableEq

/-- What is shown in a turn; the items of tools, plans and agents are `tool` items. -/
inductive ThreadItem (Data : Type) where
  | userMessage (id : Text) (content : List (UserInput Data))
  | hookPrompt (id : Text) (fragments : List (Text × Text))
  | agentMessage (id text : Text) (data : Data)
  | reasoning (id : Text) (summary content : List Text)
  | tool (id : Text) (data : Data)
  | enteredReviewMode (id review : Text)
  | exitedReviewMode (id review : Text)
  | contextCompaction (id : Text)

def ThreadItem.id : ThreadItem Data → Text
  | .userMessage id _ | .hookPrompt id _ | .agentMessage id _ _ | .reasoning id _ _ | .tool id _
  | .enteredReviewMode id _ | .exitedReviewMode id _ | .contextCompaction id => id

/-- The status of a turn. -/
inductive TurnStatus where
  | completed
  | interrupted
  | failed
  | inProgress
  deriving DecidableEq

/-- A turn of the thread. -/
structure Turn (Data : Type) where
  id : Text
  items : List (ThreadItem Data)
  error : Option Data
  status : TurnStatus

/-- The turn that is being built. -/
structure PendingTurn (Data : Type) where
  id : Text
  items : List (ThreadItem Data)
  error : Option Data
  status : TurnStatus
  openedExplicitly : Bool
  sawCompaction : Bool
  rolloutStartIndex : ℕ

/-- The turn that is shown for a pending one. -/
def PendingTurn.turn (pending : PendingTurn Data) : Turn Data :=
  ⟨pending.id, pending.items, pending.error, pending.status⟩

/-- The turns so far, and the counters. -/
structure ThreadHistoryBuilder (Data : Type) where
  turns : List (Turn Data)
  currentTurn : Option (PendingTurn Data)
  nextItemIndex : ℕ
  currentRolloutIndex : ℕ
  nextRolloutIndex : ℕ

/-- The ids that the builder gives to items. -/
def itemId (index : ℕ) : Text := "item-".toList ++ (toString index).toList

/-- Replace the first item with the same id, or append it. -/
def upsertTurnItem (item : ThreadItem Data) : List (ThreadItem Data) → List (ThreadItem Data)
  | [] => [item]
  | existing :: items =>
      if existing.id = item.id then item :: items else existing :: upsertTurnItem item items

/-- Change the first element that is found. -/
def modifyFirst {α : Type*} (found : α → Bool) (change : α → α) : List α → List α
  | [] => []
  | item :: items =>
      if found item then change item :: items else item :: modifyFirst found change items

/-- The ids that the builder gets from elsewhere: for turns that no event opens, by their place in
the rollout, and for hook prompts. -/
structure FreshIds (Data : Type) where
  turn : ℕ → Text
  hookPrompt : Data → Text

namespace ThreadHistoryBuilder

def new : ThreadHistoryBuilder Data := ⟨[], none, 1, 0, 0⟩

variable (readers : Readers) (fresh : FreshIds Data) (builder : ThreadHistoryBuilder Data)

/-- `finish_current_turn`. -/
def finishCurrentTurn : ThreadHistoryBuilder Data :=
  match builder.currentTurn with
  | none => builder
  | some turn =>
      if turn.items.isEmpty && !turn.openedExplicitly && !turn.sawCompaction then
        { builder with currentTurn := none }
      else { builder with currentTurn := none, turns := builder.turns ++ [turn.turn] }

def finish : List (Turn Data) := builder.finishCurrentTurn.turns

def newTurn (id : Option Text) : PendingTurn Data :=
  ⟨id.getD (fresh.turn builder.currentRolloutIndex), [], none, .completed, false, false,
    builder.currentRolloutIndex⟩

/-- The current turn, or a new one. -/
def ensureTurn : PendingTurn Data := builder.currentTurn.getD (builder.newTurn fresh none)

/-- Change the items of the current turn. -/
def modifyItems (change : List (ThreadItem Data) → List (ThreadItem Data)) :
    ThreadHistoryBuilder Data :=
  let turn := builder.ensureTurn fresh
  { builder with currentTurn := some { turn with items := change turn.items } }

/-- Append an item with an id of the builder to the current turn. -/
def pushItem (item : Text → ThreadItem Data) : ThreadHistoryBuilder Data :=
  { builder.modifyItems fresh (· ++ [item (itemId builder.nextItemIndex)]) with
    nextItemIndex := builder.nextItemIndex + 1 }

def upsertItemInCurrentTurn (item : ThreadItem Data) : ThreadHistoryBuilder Data :=
  builder.modifyItems fresh (upsertTurnItem item)

/-- An item of an unknown turn is dropped. -/
def upsertItemInTurnId (turnId : Text) (item : ThreadItem Data) : ThreadHistoryBuilder Data :=
  match builder.currentTurn.filter (·.id == turnId) with
  | some turn =>
      { builder with currentTurn := some { turn with items := upsertTurnItem item turn.items } }
  | none =>
      { builder with
        turns := modifyFirst (·.id == turnId)
          (fun turn => { turn with items := upsertTurnItem item turn.items }) builder.turns }

/-- `build_user_inputs`. -/
def buildUserInputs (payload : UserMessageEvent Data) : List (UserInput Data) :=
  (if payload.message.trim.isEmpty then [] else [.text payload.message payload.textElements]) ++
    (payload.images.getD []).map .image ++ payload.localImages.map .localImage

/-- `handle_user_message`. -/
def handleUserMessage (payload : UserMessageEvent Data) : ThreadHistoryBuilder Data :=
  let builder :=
    match builder.currentTurn with
    | some turn =>
        if !turn.openedExplicitly && !(turn.sawCompaction && turn.items.isEmpty) then
          builder.finishCurrentTurn
        else builder
    | none => builder
  builder.pushItem fresh (.userMessage · (buildUserInputs payload))

/-- A message of hook prompts only. -/
def parseHookPromptMessage (content : List ContentItem) : Option (List (Text × Text)) :=
  let fragments := content.mapM fun
    | .inputText text => parseHookPromptFragment readers text
    | _ => none
  fragments.filter (!·.isEmpty)

def handleResponseItem : ResponseItem Data → ThreadHistoryBuilder Data
  | .message role content data =>
      if role = userRole then
        match parseHookPromptMessage readers content with
        | some fragments =>
            builder.modifyItems fresh (· ++ [.hookPrompt (fresh.hookPrompt data) fragments])
        | none => builder
      else builder
  | _ => builder

def handleAgentMessage (text : Text) (data : Data) : ThreadHistoryBuilder Data :=
  if text.isEmpty then builder else builder.pushItem fresh (.agentMessage · text data)

/-- A reasoning text goes to the last item when that is one of reasoning, else to a new one. -/
def handleReasoning (text : Text) (extend : List Text × List Text → List Text × List Text) :
    ThreadHistoryBuilder Data :=
  if text.isEmpty then builder
  else
    match (builder.ensureTurn fresh).items.getLast? with
    | some (.reasoning id summary content) =>
        let (summary, content) := extend (summary, content)
        builder.modifyItems fresh (·.dropLast ++ [.reasoning id summary content])
    | _ =>
        let (summary, content) := extend ([], [])
        builder.pushItem fresh (.reasoning · summary content)

def handleAgentReasoning (text : Text) : ThreadHistoryBuilder Data :=
  builder.handleReasoning fresh text fun (summary, content) => (summary ++ [text], content)

def handleAgentReasoningRawContent (text : Text) : ThreadHistoryBuilder Data :=
  builder.handleReasoning fresh text fun (summary, content) => (summary, content ++ [text])

def reviewRequestedText : Text := "Review requested.".toList

def reviewFallbackMessage : Text := "Reviewer failed to output a response.".toList

def renderReviewOutputText (overallExplanation : Text) : Text :=
  if overallExplanation.trim.isEmpty then reviewFallbackMessage else overallExplanation.trim

def handleError (affectsTurnStatus : Bool) (data : Data) : ThreadHistoryBuilder Data :=
  if affectsTurnStatus then
    { builder with
      currentTurn := builder.currentTurn.map ({ · with status := .failed, error := some data }) }
  else builder

/-- Interrupt the turn with the id, or the current one. -/
def handleTurnAborted (turnId : Option Text) : ThreadHistoryBuilder Data :=
  let interruptCurrent : ThreadHistoryBuilder Data :=
    { builder with currentTurn := builder.currentTurn.map ({ · with status := .interrupted }) }
  match turnId with
  | none => interruptCurrent
  | some turnId =>
      if builder.currentTurn.any (·.id == turnId) then interruptCurrent
      else if builder.turns.any (·.id == turnId) then
        { builder with
          turns := modifyFirst (·.id == turnId) ({ · with status := .interrupted }) builder.turns }
      else interruptCurrent

def handleTurnStarted (turnId : Text) : ThreadHistoryBuilder Data :=
  let builder := builder.finishCurrentTurn
  { builder with
    currentTurn := some { builder.newTurn fresh (some turnId) with
      status := .inProgress
      openedExplicitly := true } }

def markCompleted : TurnStatus → TurnStatus
  | .completed | .inProgress => .completed
  | status => status

/-- Complete the turn with the id, or the current one. -/
def handleTurnComplete (turnId : Text) : ThreadHistoryBuilder Data :=
  let completeCurrent : ThreadHistoryBuilder Data :=
    finishCurrentTurn { builder with
      currentTurn := builder.currentTurn.map fun turn =>
        { turn with status := markCompleted turn.status } }
  if builder.currentTurn.any (·.id == turnId) then completeCurrent
  else if builder.turns.any (·.id == turnId) then
    { builder with
      turns := modifyFirst (·.id == turnId)
        (fun turn => { turn with status := markCompleted turn.status }) builder.turns }
  else completeCurrent

def handleCompacted : ThreadHistoryBuilder Data :=
  { builder with currentTurn := some { builder.ensureTurn fresh with sawCompaction := true } }

/-- `handle_thread_rollback`. -/
def handleThreadRollback (numTurns : ℕ) : ThreadHistoryBuilder Data :=
  let builder := builder.finishCurrentTurn
  let turns := builder.turns.take (builder.turns.length - numTurns)
  { builder with turns := turns, nextItemIndex := (turns.map (·.items.length)).sum + 1 }

/-- `handle_event`. -/
def handleEvent : EventMsg Data → ThreadHistoryBuilder Data
  | .userMessage payload => builder.handleUserMessage fresh payload
  | .agentMessage message data => builder.handleAgentMessage fresh message data
  | .agentReasoning text => builder.handleAgentReasoning fresh text
  | .agentReasoningRawContent text => builder.handleAgentReasoningRawContent fresh text
  | .toolItem none id data => builder.upsertItemInCurrentTurn fresh (.tool id data)
  | .toolItem (some turnId) id data => builder.upsertItemInTurnId turnId (.tool id data)
  | .contextCompacted => builder.pushItem fresh .contextCompaction
  | .enteredReviewMode hint =>
      builder.pushItem fresh (.enteredReviewMode · (hint.getD reviewRequestedText))
  | .exitedReviewMode explanation =>
      builder.pushItem fresh
        (.exitedReviewMode · ((explanation.map renderReviewOutputText).getD reviewFallbackMessage))
  | .error affectsTurnStatus data => builder.handleError affectsTurnStatus data
  | .threadRolledBack numTurns => builder.handleThreadRollback numTurns
  | .turnAborted turnId => builder.handleTurnAborted turnId
  | .turnStarted turnId => builder.handleTurnStarted fresh turnId
  | .turnComplete turnId => builder.handleTurnComplete turnId
  | .other => builder

def handleRolloutItem (item : RolloutItem Data) : ThreadHistoryBuilder Data :=
  let builder : ThreadHistoryBuilder Data :=
    { builder with
      currentRolloutIndex := builder.nextRolloutIndex
      nextRolloutIndex := builder.nextRolloutIndex + 1 }
  match item with
  | .eventMsg event => builder.handleEvent fresh event
  | .compacted _ => builder.handleCompacted fresh
  | .responseItem item => builder.handleResponseItem readers fresh item
  | .turnContext _ | .sessionMeta _ => builder

end ThreadHistoryBuilder

end CodexPilot.Rollout
