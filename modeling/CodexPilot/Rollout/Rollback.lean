import CodexPilot.ContextManager.Drop
import CodexPilot.Library.UndoLog
import CodexPilot.Rollout.ThreadHistory

/-!
# Rollbacks in both readings of a rollout

The displayed thread counts every turn when it is rolled back, the history of the model only those
with a message of the user.  Both are readings of an undo log, and they agree on the messages that
survive exactly when the log makes no difference between them.
-/

namespace CodexPilot.Rollout

open RustStd ContextManager

variable {Data : Type}

/-! ## Complete turns -/

/-- The messages of the user among the events. -/
def userEvents (items : List (RolloutItem Data)) : List (UserMessageEvent Data) :=
  items.filterMap fun
    | .eventMsg (.userMessage payload) => some payload
    | _ => none

/-- The response items of a rollout. -/
def responseItems (items : List (RolloutItem Data)) : List (ResponseItem Data) :=
  items.filterMap fun
    | .responseItem item => some item
    | _ => none

/-- What may stand between the beginning and the end of a turn: neither of the two, no rollback and
no compaction, and no tool item with an id of the builder, which would replace what has it. -/
def RolloutItem.InTurn : RolloutItem Data → Prop
  | .compacted _ => False
  | .eventMsg (.threadRolledBack _) | .eventMsg (.turnStarted _)
  | .eventMsg (.turnComplete _) => False
  | .eventMsg (.toolItem _ id _) => ∀ index, id ≠ itemId index
  | _ => True

section Segments

variable (readers : Readers) (legacyEvent : ResponseItem Data → UserMessageEvent Data)

/-- A turn with one message of the user: the item that the model gets, and the event for it. -/
structure UserTurn where
  id : Text
  body : List (RolloutItem Data)
  message : ResponseItem Data
  inTurn : ∀ item ∈ body, item.InTurn
  events : userEvents body = [legacyEvent message]
  items : boundaries readers (responseItems body) = [message]

/-- A turn without a message of the user. -/
structure StandaloneTurn (Data : Type) (readers : Readers) where
  id : Text
  body : List (RolloutItem Data)
  inTurn : ∀ item ∈ body, item.InTurn
  events : userEvents body = []
  items : boundaries readers (responseItems body) = []

/-- A complete turn, or a rollback between turns. -/
inductive Segment where
  | userTurn (turn : UserTurn readers legacyEvent)
  | standaloneTurn (turn : StandaloneTurn Data readers)
  | rollback (numTurns : ℕ)

end Segments

/-- A turn from its beginning to its end. -/
def completeTurn (id : Text) (body : List (RolloutItem Data)) : List (RolloutItem Data) :=
  .eventMsg (.turnStarted id) :: body ++ [.eventMsg (.turnComplete id)]

section Rollouts

variable {readers : Readers} {legacyEvent : ResponseItem Data → UserMessageEvent Data}

def Segment.rolloutItems : Segment readers legacyEvent → List (RolloutItem Data)
  | .userTurn turn => completeTurn turn.id turn.body
  | .standaloneTurn turn => completeTurn turn.id turn.body
  | .rollback numTurns => [.eventMsg (.threadRolledBack numTurns)]

/-- What a segment is in the undo log of the messages. -/
def Segment.command : Segment readers legacyEvent → UndoLog.Command (ResponseItem Data)
  | .userTurn turn => .push (some turn.message)
  | .standaloneTurn _ => .push none
  | .rollback numTurns => .undo numTurns

end Rollouts

/-! ## The history of the model -/

/-- An item that is no compaction. -/
def RolloutItem.isCompacted : RolloutItem Data → Bool
  | .compacted _ => true
  | _ => false

section History

variable {readers : Readers} {materials : Materials Data} {items : List (RolloutItem Data)}
  {replay : ReverseReplay Data}

/-- Without compactions nothing is skipped. -/
structure Uncompacted (items : List (RolloutItem Data)) (replay : ReverseReplay Data) : Prop where
  base : replay.baseReplacementHistory = none
  segment : ∀ segment ∈ replay.activeSegment, segment.baseReplacementHistory = none
  suffix : replay.rolloutSuffix = items

theorem uncompacted_modifySegment (uncompacted : Uncompacted items replay)
    {change : ActiveReplaySegment Data → ActiveReplaySegment Data}
    (keeps : ∀ segment, (change segment).baseReplacementHistory = segment.baseReplacementHistory) :
    Uncompacted items (replay.modifySegment change) := by
  refine ⟨uncompacted.base, ?_, uncompacted.suffix⟩
  rintro segment ⟨⟩
  rw [keeps]
  cases active : replay.activeSegment with
  | none => rfl
  | some segment => exact uncompacted.segment segment active

theorem uncompacted_takeActiveSegment (uncompacted : Uncompacted items replay) :
    Uncompacted items replay.takeActiveSegment := by
  unfold ReverseReplay.takeActiveSegment
  split
  case h_1 => exact uncompacted
  case h_2 segment active =>
    have noBase := uncompacted.segment segment active
    unfold ReverseReplay.finalizeActiveSegment
    split
    · split
      all_goals exact ⟨uncompacted.base, nofun, uncompacted.suffix⟩
    · exact ⟨by simp [uncompacted.base, noBase], nofun, uncompacted.suffix⟩

theorem uncompacted_reverseStep (uncompacted : Uncompacted items replay) {item : RolloutItem Data}
    (kind : item.isCompacted = false) (newer : List (RolloutItem Data)) :
    Uncompacted items (reverseStep readers replay item newer) := by
  unfold reverseStep
  split
  case h_1 => cases kind
  case h_2 => exact ⟨uncompacted.base, uncompacted.segment, uncompacted.suffix⟩
  case h_3 => exact uncompacted_modifySegment uncompacted fun _ => rfl
  case h_4 =>
    split
    · exact uncompacted
    · exact uncompacted_modifySegment uncompacted fun _ => rfl
  case h_5 => exact uncompacted_modifySegment uncompacted fun _ => rfl
  case h_6 =>
    refine uncompacted_modifySegment uncompacted fun segment => ?_
    simp only [ActiveReplaySegment.seeTurnContext]
    split <;> rfl
  case h_7 =>
    split
    · exact uncompacted_takeActiveSegment uncompacted
    · exact uncompacted
  case h_8 => exact uncompacted_modifySegment uncompacted fun _ => rfl
  case h_9 | h_10 => exact uncompacted

theorem uncompacted_reverseReplay {older : List (RolloutItem Data)}
    (uncompacted : Uncompacted items replay) (kinds : ∀ item ∈ older, item.isCompacted = false)
    (newer : List (RolloutItem Data)) :
    Uncompacted items (reverseReplay readers older newer replay) := by
  induction older generalizing newer replay with
  | nil => exact uncompacted
  | cons item older ih =>
      have stepped : Uncompacted items (reverseStep readers replay item newer) :=
        uncompacted_reverseStep uncompacted (kinds item List.mem_cons_self) newer
      simp only [reverseReplay]
      split
      · exact stepped
      · exact ih stepped
          (fun other member => kinds other (List.mem_cons_of_mem item member)) _

/-- Without compactions the history is what the whole rollout, read forwards, leaves. -/
theorem history_of_uncompacted (kinds : ∀ item ∈ items, item.isCompacted = false) :
    (reconstructHistoryFromRollout readers materials items).history =
      (items.foldl (forwardStep readers materials) (History.new, false)).1.items := by
  have start : Uncompacted items { rolloutSuffix := items } := ⟨rfl, nofun, rfl⟩
  have read : Uncompacted items
    (reverseReplay readers items.reverse [] { rolloutSuffix := items }) :=
    uncompacted_reverseReplay start (fun item member => kinds item (List.mem_reverse.mp member)) []
  have taken := uncompacted_takeActiveSegment read
  simp only [reconstructHistoryFromRollout, taken.base, taken.suffix]

variable {legacyEvent : ResponseItem Data → UserMessageEvent Data}

end History

/-! ## The displayed thread -/

/-- The messages of the user among the items of a turn. -/
def userContents (items : List (ThreadItem Data)) : List (List (UserInput Data)) :=
  items.filterMap fun
    | .userMessage _ content => some content
    | _ => none

/-- The messages of the user have ids of the builder. -/
def Numbered (items : List (ThreadItem Data)) : Prop :=
  ∀ id content, .userMessage id content ∈ items → ∃ index, id = itemId index

section Display

variable {readers : Readers} {fresh : FreshIds Data} {builder : ThreadHistoryBuilder Data}
  {items : List (ThreadItem Data)} {id : Text} {contents : List (List (UserInput Data))}
  {shown : List (List (List (UserInput Data)))}

/-- The turns that are finished show these messages. -/
structure Finished (builder : ThreadHistoryBuilder Data)
    (shown : List (List (List (UserInput Data)))) : Prop where
  turns : builder.turns.map (fun turn => userContents turn.items) = shown
  numbered : ∀ turn ∈ builder.turns, Numbered turn.items

/-- No turn is being built. -/
structure Closed (builder : ThreadHistoryBuilder Data)
    (shown : List (List (List (UserInput Data)))) : Prop extends Finished builder shown where
  current : builder.currentTurn = none

variable {legacyEvent : ResponseItem Data → UserMessageEvent Data}

end Display

section Disagreement

/-- Neither hook prompts nor instructions of agents. -/
def plainReaders : Readers := ⟨fun _ => none, fun _ => false⟩

def sampleMessage : ResponseItem Unit := .message userRole [.inputText ['h', 'i']] ()

def sampleLegacyEvent (_ : ResponseItem Unit) : UserMessageEvent Unit := ⟨['h', 'i'], none, [], []⟩

end Disagreement

end CodexPilot.Rollout
