import CodexPilot.ContextManager.Items

/-!
# The history of a thread

A history is cut at user turns: at messages of the user that are not injected context, and at
instructions of other agents.  Dropping the last turns drops the context that was injected for them
as well.  Of what is shown of a response item only the kind of a turn item is modelled, and the
fragments of a hook prompt that decide whether there is one.
-/

namespace CodexPilot.ContextManager

open RustStd

variable {Data : Type}

/-! ## Contextual messages -/

/-- What is read by other crates: the XML of a hook prompt, with its text and the id of its run, and
the JSON of an instruction between agents. -/
structure Readers where
  hookPromptXml : Text → Option (Text × Text)
  interAgentCommunication : Text → Bool

/-- The markers around a contextual fragment. -/
structure ContextualUserFragmentDefinition where
  startMarker : Text
  endMarker : Text

/-- The markers are ASCII, so that the bytes at either end are characters where they match. -/
def ContextualUserFragmentDefinition.matchesText (definition : ContextualUserFragmentDefinition)
    (text : Text) : Bool :=
  let trimmed := text.trimStart
  let startsWithMarker :=
    Text.eqIgnoreAsciiCase (trimmed.take definition.startMarker.length) definition.startMarker
  let trimmed := trimmed.trimEnd
  let endsWithMarker :=
    Text.eqIgnoreAsciiCase (trimmed.drop (trimmed.length - definition.endMarker.length))
      definition.endMarker
  startsWithMarker && endsWithMarker

def agentsMdFragment : ContextualUserFragmentDefinition :=
  ⟨"# AGENTS.md instructions for ".toList, "</INSTRUCTIONS>".toList⟩

def environmentContextFragment : ContextualUserFragmentDefinition :=
  ⟨"<environment_context>".toList, "</environment_context>".toList⟩

def skillFragment : ContextualUserFragmentDefinition := ⟨"<skill>".toList, "</skill>".toList⟩

def userShellCommandFragment : ContextualUserFragmentDefinition :=
  ⟨"<user_shell_command>".toList, "</user_shell_command>".toList⟩

def turnAbortedFragment : ContextualUserFragmentDefinition :=
  ⟨"<turn_aborted>".toList, "</turn_aborted>".toList⟩

def subagentNotificationFragment : ContextualUserFragmentDefinition :=
  ⟨"<subagent_notification>".toList, "</subagent_notification>".toList⟩

def contextualUserFragments : List ContextualUserFragmentDefinition :=
  [agentsMdFragment, environmentContextFragment, skillFragment, userShellCommandFragment,
    turnAbortedFragment, subagentNotificationFragment]

def isStandardContextualUserText (text : Text) : Bool :=
  contextualUserFragments.any (·.matchesText text)

/-- A hook prompt names the run of its hook. -/
def parseHookPromptFragment (readers : Readers) (text : Text) : Option (Text × Text) :=
  (readers.hookPromptXml text.trim).filter fun (_, hookRunId) => !hookRunId.trim.isEmpty

def isContextualUserFragment (readers : Readers) : ContentItem → Bool
  | .inputText text =>
      (parseHookPromptFragment readers text).isSome || isStandardContextualUserText text
  | _ => false

def isContextualUserMessageContent (readers : Readers) (message : List ContentItem) : Bool :=
  message.any (isContextualUserFragment readers)

def contextualDeveloperPrefixes : List Text :=
  ["<permissions instructions>".toList, "<model_switch>".toList, "<collaboration_mode>".toList,
    "<realtime_conversation>".toList, "<personality_spec>".toList]

def isContextualDevFragment : ContentItem → Bool
  | .inputText text =>
      contextualDeveloperPrefixes.any fun marker =>
        Text.eqIgnoreAsciiCase (text.trimStart.take marker.length) marker
  | _ => false

def isContextualDevMessageContent (message : List ContentItem) : Bool :=
  message.any isContextualDevFragment

def hasNonContextualDevMessageContent (message : List ContentItem) : Bool :=
  message.any (!isContextualDevFragment ·)

def isInterAgentInstructionContent (readers : Readers) : List ContentItem → Bool
  | [.inputText text] | [.outputText text] => readers.interAgentCommunication text
  | _ => false

def userRole : Text := "user".toList

def assistantRole : Text := "assistant".toList

def developerRole : Text := "developer".toList

def systemRole : Text := "system".toList

/-- An item that begins a turn of the history. -/
def isUserTurnBoundary (readers : Readers) : ResponseItem Data → Bool
  | .message role content _ =>
      (role == userRole && !isContextualUserMessageContent readers content) ||
        (role == assistantRole && isInterAgentInstructionContent readers content)
  | _ => false

/-! ## The history -/

/-- The items of a history, oldest first, and the settings that the next turn is compared with. -/
structure History (Data : Type) where
  items : List (ResponseItem Data)
  referenceContextItem : Option (TurnContextItem Data)

def isApiMessage : ResponseItem Data → Bool
  | .message role _ _ => role != systemRole
  | .ghostSnapshot _ | .other => false
  | _ => true

def isGhostSnapshot : ResponseItem Data → Bool
  | .ghostSnapshot _ => true
  | _ => false

namespace History

/-- An empty history. -/
def new : History Data := ⟨[], none⟩

/-- Replace the items. -/
def replace (history : History Data) (items : List (ResponseItem Data)) : History Data :=
  { history with items := items }

end History

/-- Truncate the output of a tool. -/
def processItem (truncate : FunctionCallOutputPayload → FunctionCallOutputPayload) :
    ResponseItem Data → ResponseItem Data
  | .functionCallOutput callId output => .functionCallOutput callId (truncate output)
  | .customToolCallOutput callId name output => .customToolCallOutput callId name (truncate output)
  | item => item

/-- Append the items that belong to a history. -/
def History.recordItems (truncate : FunctionCallOutputPayload → FunctionCallOutputPayload)
    (history : History Data) (items : List (ResponseItem Data)) : History Data :=
  { history with
    items := history.items ++
      (items.filter fun item => isApiMessage item || isGhostSnapshot item).map
        (processItem truncate) }

section Drop

variable (readers : Readers)

/-- The positions of the turns of a history, from a given one on. -/
def userMessagePositionsFrom (start : ℕ) (items : List (ResponseItem Data)) : List ℕ :=
  (items.zipIdx start).filterMap fun (item, idx) =>
    if isUserTurnBoundary readers item then some idx else none

/-- `user_message_positions`. -/
def userMessagePositions (items : List (ResponseItem Data)) : List ℕ :=
  userMessagePositionsFrom readers 0 items

/-- A message of injected context in front of a turn, and whether more than context is lost with
it. -/
def trimmedContext : ResponseItem Data → Option Bool
  | .message role content _ =>
      if role = developerRole ∧ isContextualDevMessageContent content = true then
        some (hasNonContextualDevMessageContent content)
      else if role = userRole ∧ isContextualUserMessageContent readers content = true then
        some false
      else none
  | _ => none

/-- Move a cut in front of the contextual messages before it, but not beyond the first turn. -/
def trimPreTurnContextUpdates (snapshot : List (ResponseItem Data)) (firstInstructionTurnIdx : ℕ) :
    ℕ → Option (TurnContextItem Data) → ℕ × Option (TurnContextItem Data)
  | 0, reference => (0, reference)
  | cutIdx + 1, reference =>
      if cutIdx + 1 ≤ firstInstructionTurnIdx then (cutIdx + 1, reference)
      else
        match (snapshot[cutIdx]?).bind (trimmedContext readers) with
        | some mixed =>
            trimPreTurnContextUpdates snapshot firstInstructionTurnIdx cutIdx
              (if mixed then none else reference)
        | none => (cutIdx + 1, reference)

/-- Drop the last turns of a history, with the context that was injected for them. -/
def History.dropLastNUserTurns (history : History Data) (numTurns : ℕ) : History Data :=
  if numTurns = 0 then history
  else
    let userPositions := userMessagePositions readers history.items
    match userPositions.head? with
    | none => history
    | some firstInstructionTurnIdx =>
        let cutIdx :=
          if userPositions.length ≤ numTurns then firstInstructionTurnIdx
          else userPositions.getD (userPositions.length - numTurns) 0
        let (cutIdx, reference) := trimPreTurnContextUpdates readers history.items
          firstInstructionTurnIdx cutIdx history.referenceContextItem
        ⟨history.items.take cutIdx, reference⟩

end Drop

/-! ## Boundaries -/

section Boundaries

variable {readers : Readers}

/-- The items that begin the turns of a history. -/
def boundaries (readers : Readers) (items : List (ResponseItem Data)) : List (ResponseItem Data) :=
  items.filter (isUserTurnBoundary readers)

/-- Contextual messages begin no turn. -/
theorem isUserTurnBoundary_of_trimmedContext {item : ResponseItem Data} {mixed : Bool}
    (context : trimmedContext readers item = some mixed) :
    isUserTurnBoundary readers item = false := by
  have userNotAssistant : userRole ≠ assistantRole := by decide
  have developerNotUser : developerRole ≠ userRole := by decide
  have developerNotAssistant : developerRole ≠ assistantRole := by decide
  cases item with
  | message role content data =>
      simp only [trimmedContext] at context
      split at context
      case isTrue developer =>
        obtain ⟨rfl, -⟩ := developer
        simp [isUserTurnBoundary, developerNotUser, developerNotAssistant]
      case isFalse =>
        split at context
        case isTrue user =>
          obtain ⟨rfl, contextual⟩ := user
          simp [isUserTurnBoundary, contextual, userNotAssistant]
        case isFalse => cases context
  | _ => cases context

theorem length_userMessagePositionsFrom (start : ℕ) (items : List (ResponseItem Data)) :
    (userMessagePositionsFrom readers start items).length = (boundaries readers items).length := by
  induction items generalizing start with
  | nil => rfl
  | cons item items ih =>
      have later := ih (start + 1)
      simp only [userMessagePositionsFrom, boundaries] at later ⊢
      rw [List.zipIdx_cons, List.filterMap_cons, List.filter_cons]
      cases boundary : isUserTurnBoundary readers item with
      | false | true => simpa [boundary] using later

theorem isUserTurnBoundary_processItem
    (truncate : FunctionCallOutputPayload → FunctionCallOutputPayload) (item : ResponseItem Data) :
    isUserTurnBoundary readers (processItem truncate item) = isUserTurnBoundary readers item := by
  cases item <;> rfl

/-- The items that begin turns are recorded as they are. -/
theorem recorded_of_isUserTurnBoundary
    (truncate : FunctionCallOutputPayload → FunctionCallOutputPayload) {item : ResponseItem Data}
    (boundary : isUserTurnBoundary readers item = true) :
    isApiMessage item = true ∧ processItem truncate item = item := by
  have userNotSystem : userRole ≠ systemRole := by decide
  have assistantNotSystem : assistantRole ≠ systemRole := by decide
  cases item with
  | message role content data =>
      refine ⟨?_, rfl⟩
      simp only [isUserTurnBoundary, Bool.or_eq_true, Bool.and_eq_true, beq_iff_eq] at boundary
      rcases boundary with ⟨rfl, -⟩ | ⟨rfl, -⟩
      · simp [isApiMessage, userNotSystem]
      · simp [isApiMessage, assistantNotSystem]
  | _ => cases boundary

end Boundaries

/-! ## The items of a turn -/

/-- What a response item is shown as. -/
inductive TurnItem where
  | userMessage
  | hookPrompt (fragments : List (Text × Text))
  | agentMessage
  | reasoning
  | webSearch
  | imageGeneration
  deriving DecidableEq

section Parse

variable (readers : Readers)

/-- The fragments of hook prompts among contextual texts; `none` when there is anything else. -/
def hookPromptFragments : List ContentItem → Option (List (Text × Text))
  | [] => some []
  | .inputText text :: content =>
      match parseHookPromptFragment readers text with
      | some fragment => (hookPromptFragments content).map (fragment :: ·)
      | none => if isStandardContextualUserText text then hookPromptFragments content else none
  | _ :: _ => none

def parseVisibleHookPromptMessage (content : List ContentItem) : Option (List (Text × Text)) :=
  (hookPromptFragments readers content).filter fun fragments => !fragments.isEmpty

def parseUserMessage (content : List ContentItem) : Option TurnItem :=
  if isContextualUserMessageContent readers content then none else some .userMessage

/-- `parse_turn_item`. -/
def parseTurnItem : ResponseItem Data → Option TurnItem
  | .message role content _ =>
      if role = userRole then
        ((parseVisibleHookPromptMessage readers content).map .hookPrompt).or
          (parseUserMessage readers content)
      else if role = assistantRole then some .agentMessage
      else none
  | .reasoning _ => some .reasoning
  | .webSearchCall _ => some .webSearch
  | .imageGenerationCall _ _ => some .imageGeneration
  | _ => none

def isRealUserMessageBoundary (item : ResponseItem Data) : Bool :=
  parseTurnItem readers item = some .userMessage

end Parse

variable {readers : Readers}

/-- A message in which a fragment of a hook prompt is found is contextual. -/
theorem contextual_of_hookPromptFragments {content : List ContentItem} {fragment : Text × Text}
    {fragments : List (Text × Text)}
    (found : hookPromptFragments readers content = some (fragment :: fragments)) :
    isContextualUserMessageContent readers content = true := by
  induction content with
  | nil => cases found
  | cons item content ih =>
      rw [isContextualUserMessageContent, List.any_cons, Bool.or_eq_true]
      cases item with
      | inputText text =>
          rw [hookPromptFragments] at found
          cases parsed : parseHookPromptFragment readers text with
          | some first =>
              refine .inl ?_
              rw [isContextualUserFragment, parsed, Option.isSome_some, Bool.true_or]
          | none =>
              simp only [parsed] at found
              split_ifs at found
              exact .inr (ih found)
      | inputImage imageUrl | outputText text => cases found

/-- The messages of the user are those with their role that are not contextual. -/
theorem isRealUserMessageBoundary_iff {item : ResponseItem Data} :
    isRealUserMessageBoundary readers item = true ↔
      ∃ content data, item = .message userRole content data ∧
        isContextualUserMessageContent readers content = false := by
  rw [isRealUserMessageBoundary, decide_eq_true_iff]
  constructor
  · intro parsed
    cases item with
    | message role content data =>
        rw [parseTurnItem] at parsed
        split_ifs at parsed with user
        · subst user
          refine ⟨content, data, rfl, eq_false_of_ne_true fun contextual => ?_⟩
          rw [parseUserMessage, if_pos contextual, Option.or_none] at parsed
          obtain ⟨fragments, _, other⟩ := Option.map_eq_some_iff.mp parsed
          cases other
        · cases parsed
    | _ => cases parsed
  · rintro ⟨content, data, rfl, notContextual⟩
    have noHook : parseVisibleHookPromptMessage readers content = none := by
      rw [parseVisibleHookPromptMessage, Option.filter_eq_none_iff]
      intro fragments found
      cases fragments with
      | nil => exact Bool.false_ne_true
      | cons fragment fragments =>
          cases notContextual.symm.trans (contextual_of_hookPromptFragments found)
    rw [parseTurnItem, if_pos rfl, noHook, Option.map_none, Option.none_or, parseUserMessage,
      if_neg (by rw [notContextual]; exact Bool.false_ne_true)]

/-- A message of the user begins a turn of the history. -/
theorem isUserTurnBoundary_of_isRealUserMessageBoundary {item : ResponseItem Data}
    (real : isRealUserMessageBoundary readers item = true) :
    isUserTurnBoundary readers item = true := by
  obtain ⟨content, data, rfl, notContextual⟩ := isRealUserMessageBoundary_iff.mp real
  rw [isUserTurnBoundary, notContextual, beq_self_eq_true, Bool.not_false, Bool.and_self,
    Bool.true_or]

end CodexPilot.ContextManager
