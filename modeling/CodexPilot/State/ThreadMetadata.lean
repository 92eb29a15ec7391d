import CodexPilot.RustStd.Text

/-!
# Metadata of threads

The metadata of a thread, the builder that fills a first version of them, and the row they are kept
in.  Times are kept as seconds, and a row with a time that no date has is not readable.  What the
items of a rollout say about the metadata of their thread is put into them item by item.
-/

namespace CodexPilot.State

open RustStd

/-- `DateTime<Utc>`. -/
structure DateTime where
  seconds : ℤ
  nanoseconds : ℕ

def canonicalizeDatetime (time : DateTime) : DateTime := { time with nanoseconds := 0 }

def datetimeToEpochSeconds (time : DateTime) : ℤ := time.seconds

/-- `ReasoningEffort`. -/
inductive ReasoningEffort where
  | none
  | minimal
  | low
  | medium
  | high
  | xHigh
  deriving DecidableEq

namespace ReasoningEffort

def toText : ReasoningEffort → Text
  | none => "none".toList
  | minimal => "minimal".toList
  | low => "low".toList
  | medium => "medium".toList
  | high => "high".toList
  | xHigh => "xhigh".toList

def fromText (text : Text) : Option ReasoningEffort :=
  [none, minimal, low, medium, high, xHigh].find? fun effort => effort.toText = text

theorem fromText_toText (effort : ReasoningEffort) : fromText effort.toText = some effort := by
  cases effort <;> decide

end ReasoningEffort

/-- Sources and policies are their serialised texts, and the identifier is the text that it is
displayed as.  Paths are Unicode, so that `Path::display` and `PathBuf::from` keep them. -/
structure ThreadMetadata where
  id : Text
  rolloutPath : Text
  createdAt : DateTime
  updatedAt : DateTime
  source : Text
  agentNickname : Option Text
  agentRole : Option Text
  agentPath : Option Text
  modelProvider : Text
  model : Option Text
  reasoningEffort : Option ReasoningEffort
  cwd : Text
  cliVersion : Text
  title : Text
  sandboxPolicy : Text
  approvalMode : Text
  tokensUsed : ℤ
  firstUserMessage : Option Text
  archivedAt : Option DateTime
  gitSha : Option Text
  gitBranch : Option Text
  gitOriginUrl : Option Text

/-- `sourceAgentPath` is the agent path of the source. -/
structure ThreadMetadataBuilder where
  id : Text
  rolloutPath : Text
  createdAt : DateTime
  updatedAt : Option DateTime
  source : Text
  sourceAgentPath : Option Text
  agentNickname : Option Text
  agentRole : Option Text
  agentPath : Option Text
  modelProvider : Option Text
  cwd : Text
  cliVersion : Option Text
  sandboxPolicy : Text
  approvalMode : Text
  archivedAt : Option DateTime
  gitSha : Option Text
  gitBranch : Option Text
  gitOriginUrl : Option Text

/-- `ThreadMetadataBuilder::build`. -/
def ThreadMetadataBuilder.build (builder : ThreadMetadataBuilder) (defaultProvider : Text) :
    ThreadMetadata where
  id := builder.id
  rolloutPath := builder.rolloutPath
  createdAt := canonicalizeDatetime builder.createdAt
  updatedAt := (builder.updatedAt.map canonicalizeDatetime).getD
    (canonicalizeDatetime builder.createdAt)
  source := builder.source
  agentNickname := builder.agentNickname
  agentRole := builder.agentRole
  agentPath := builder.agentPath.or builder.sourceAgentPath
  modelProvider := builder.modelProvider.getD defaultProvider
  model := none
  reasoningEffort := none
  cwd := builder.cwd
  cliVersion := builder.cliVersion.getD []
  title := []
  sandboxPolicy := builder.sandboxPolicy
  approvalMode := builder.approvalMode
  tokensUsed := 0
  firstUserMessage := none
  archivedAt := builder.archivedAt.map canonicalizeDatetime
  gitSha := builder.gitSha
  gitBranch := builder.gitBranch
  gitOriginUrl := builder.gitOriginUrl

/-- The columns that are read back into metadata. -/
structure ThreadRow where
  id : Text
  rolloutPath : Text
  createdAt : ℤ
  updatedAt : ℤ
  source : Text
  agentNickname : Option Text
  agentRole : Option Text
  agentPath : Option Text
  modelProvider : Text
  model : Option Text
  reasoningEffort : Option Text
  cwd : Text
  cliVersion : Text
  title : Text
  sandboxPolicy : Text
  approvalMode : Text
  tokensUsed : ℤ
  firstUserMessage : Text
  archivedAt : Option ℤ
  gitSha : Option Text
  gitBranch : Option Text
  gitOriginUrl : Option Text

/-- A text that is empty stands for none. -/
def nonEmpty (text : Text) : Option Text := if text = [] then none else some text

namespace ThreadMetadata

/-- Existing git fields are preferred over those of a rollout. -/
def preferExistingGitInfo (metadata existing : ThreadMetadata) : ThreadMetadata :=
  { metadata with
    gitSha := existing.gitSha.or metadata.gitSha
    gitBranch := existing.gitBranch.or metadata.gitBranch
    gitOriginUrl := existing.gitOriginUrl.or metadata.gitOriginUrl }

/-- `ThreadMetadata::try_from` a row; `fromTimestamp` is the date of a number of seconds. -/
def tryFrom (fromTimestamp : ℤ → Option DateTime) (row : ThreadRow) : Option ThreadMetadata := do
  let createdAt ← fromTimestamp row.createdAt
  let updatedAt ← fromTimestamp row.updatedAt
  let archivedAt ← row.archivedAt.mapM fromTimestamp
  some {
    id := row.id
    rolloutPath := row.rolloutPath
    createdAt
    updatedAt
    source := row.source
    agentNickname := row.agentNickname
    agentRole := row.agentRole
    agentPath := row.agentPath
    modelProvider := row.modelProvider
    model := row.model
    reasoningEffort := row.reasoningEffort.bind ReasoningEffort.fromText
    cwd := row.cwd
    cliVersion := row.cliVersion
    title := row.title
    sandboxPolicy := row.sandboxPolicy
    approvalMode := row.approvalMode
    tokensUsed := row.tokensUsed
    firstUserMessage := nonEmpty row.firstUserMessage
    archivedAt
    gitSha := row.gitSha
    gitBranch := row.gitBranch
    gitOriginUrl := row.gitOriginUrl }

/-- The values that a statement binds. -/
def toRow (metadata : ThreadMetadata) : ThreadRow where
  id := metadata.id
  rolloutPath := metadata.rolloutPath
  createdAt := datetimeToEpochSeconds metadata.createdAt
  updatedAt := datetimeToEpochSeconds metadata.updatedAt
  source := metadata.source
  agentNickname := metadata.agentNickname
  agentRole := metadata.agentRole
  agentPath := metadata.agentPath
  modelProvider := metadata.modelProvider
  model := metadata.model
  reasoningEffort := metadata.reasoningEffort.map ReasoningEffort.toText
  cwd := metadata.cwd
  cliVersion := metadata.cliVersion
  title := metadata.title
  sandboxPolicy := metadata.sandboxPolicy
  approvalMode := metadata.approvalMode
  tokensUsed := metadata.tokensUsed
  firstUserMessage := metadata.firstUserMessage.getD []
  archivedAt := metadata.archivedAt.map datetimeToEpochSeconds
  gitSha := metadata.gitSha
  gitBranch := metadata.gitBranch
  gitOriginUrl := metadata.gitOriginUrl

/-- `ThreadMetadata::try_from` a row, with the check of the identifier; `parseId` gives what the
identifier that `ThreadId::try_from` reads from a text is displayed as. -/
def tryFromRow (parseId : Text → Option Text) (fromTimestamp : ℤ → Option DateTime)
    (row : ThreadRow) : Option ThreadMetadata :=
  (parseId row.id).bind fun id => tryFrom fromTimestamp { row with id }

/-- What is written reads back, its times in whole seconds. -/
theorem tryFromRow_toRow {parseId : Text → Option Text} {fromTimestamp : ℤ → Option DateTime}
    (metadata : ThreadMetadata) (identified : parseId metadata.id = some metadata.id)
    (dates : ∀ time, time = metadata.createdAt ∨ time = metadata.updatedAt ∨
      metadata.archivedAt = some time →
        fromTimestamp (datetimeToEpochSeconds time) = some (canonicalizeDatetime time))
    (message : metadata.firstUserMessage ≠ some []) :
    tryFromRow parseId fromTimestamp metadata.toRow = some { metadata with
      createdAt := canonicalizeDatetime metadata.createdAt
      updatedAt := canonicalizeDatetime metadata.updatedAt
      archivedAt := metadata.archivedAt.map canonicalizeDatetime } := by
  have created := dates metadata.createdAt (Or.inl rfl)
  have updated := dates metadata.updatedAt (Or.inr (Or.inl rfl))
  have archived : (metadata.archivedAt.map datetimeToEpochSeconds).mapM fromTimestamp =
      some (metadata.archivedAt.map canonicalizeDatetime) := by
    cases marked : metadata.archivedAt with
    | none => rfl
    | some time => simp [dates time (Or.inr (Or.inr marked))]
  have effort : (metadata.reasoningEffort.map ReasoningEffort.toText).bind
      ReasoningEffort.fromText = metadata.reasoningEffort := by
    cases metadata.reasoningEffort with
    | none => rfl
    | some effort => exact ReasoningEffort.fromText_toText effort
  have first : nonEmpty (metadata.firstUserMessage.getD []) = metadata.firstUserMessage := by
    cases found : metadata.firstUserMessage with
    | none => rfl
    | some text => simpa [nonEmpty, found] using message
  simp only [tryFromRow, tryFrom, toRow, identified, created, updated, archived, effort, first,
    Option.bind_eq_bind, Option.bind_some]

end ThreadMetadata

/-! ## Metadata from rollout items -/

/-- The repository of a session. -/
structure GitInfo where
  commitHash : Option Text
  branch : Option Text
  repositoryUrl : Option Text

/-- The first line of a rollout. -/
structure SessionMetaLine where
  id : Text
  source : Text
  agentNickname : Option Text
  agentRole : Option Text
  agentPath : Option Text
  modelProvider : Option Text
  cliVersion : Text
  cwd : Text
  memoryMode : Option Text
  git : Option GitInfo

/-- The context of a turn. -/
structure TurnContextItem where
  cwd : Text
  model : Text
  effort : Option ReasoningEffort
  sandboxPolicy : Text
  approvalPolicy : Text

/-- A message of the user. -/
structure UserMessageEvent where
  message : Text
  images : Option (List Text)
  localImages : List Text

/-- `totalTokens` is the total usage of a token count that has information. -/
inductive EventMsg where
  | tokenCount (totalTokens : Option ℤ)
  | userMessage (user : UserMessageEvent)
  | other

/-- A line of a rollout. -/
inductive RolloutItem where
  | sessionMeta (metaLine : SessionMetaLine)
  | turnContext (context : TurnContextItem)
  | eventMsg (event : EventMsg)
  | responseItem
  | compacted

def imageOnlyUserMessagePlaceholder : Text := "[Image]".toList

def userMessageBegin : Text := "## My request for Codex:".toList

/-- What follows the first marker, or the whole text. -/
def stripUserMessagePrefix (text : Text) : Text :=
  Text.trim ((text.tails.findSome? fun rest => Text.stripPrefix rest userMessageBegin).getD text)

def userMessagePreview (user : UserMessageEvent) : Option Text :=
  let message := stripUserMessagePrefix user.message
  if message ≠ [] then some message
  else if user.images.any (· ≠ []) ∨ user.localImages ≠ [] then some imageOnlyUserMessagePlaceholder
  else none

/-- Session metadata of another thread are ignored. -/
def applySessionMetaFromItem (metadata : ThreadMetadata) (metaLine : SessionMetaLine) :
    ThreadMetadata :=
  if metadata.id ≠ metaLine.id then metadata
  else { metadata with
    source := metaLine.source
    agentNickname := metaLine.agentNickname
    agentRole := metaLine.agentRole
    agentPath := metaLine.agentPath
    modelProvider := metaLine.modelProvider.getD metadata.modelProvider
    cliVersion := if metaLine.cliVersion = [] then metadata.cliVersion else metaLine.cliVersion
    cwd := if metaLine.cwd = [] then metadata.cwd else metaLine.cwd
    gitSha := metaLine.git.elim metadata.gitSha GitInfo.commitHash
    gitBranch := metaLine.git.elim metadata.gitBranch GitInfo.branch
    gitOriginUrl := metaLine.git.elim metadata.gitOriginUrl GitInfo.repositoryUrl }

def applyTurnContext (metadata : ThreadMetadata) (context : TurnContextItem) : ThreadMetadata :=
  { metadata with
    cwd := if metadata.cwd = [] then context.cwd else metadata.cwd
    model := some context.model
    reasoningEffort := context.effort
    sandboxPolicy := context.sandboxPolicy
    approvalMode := context.approvalPolicy }

def applyEventMsg (metadata : ThreadMetadata) : EventMsg → ThreadMetadata
  | .tokenCount totalTokens =>
      { metadata with tokensUsed := totalTokens.elim metadata.tokensUsed (max · 0) }
  | .userMessage user =>
      { metadata with
        firstUserMessage := metadata.firstUserMessage.or (userMessagePreview user)
        title :=
          if metadata.title = [] then stripUserMessagePrefix user.message else metadata.title }
  | .other => metadata

/-- `apply_rollout_item`. -/
def applyRolloutItem (defaultProvider : Text) (metadata : ThreadMetadata) (item : RolloutItem) :
    ThreadMetadata :=
  let metadata := match item with
    | .sessionMeta metaLine => applySessionMetaFromItem metadata metaLine
    | .turnContext context => applyTurnContext metadata context
    | .eventMsg event => applyEventMsg metadata event
    | .responseItem | .compacted => metadata
  if metadata.modelProvider = [] then { metadata with modelProvider := defaultProvider }
  else metadata

/-- The last memory mode that session metadata give. -/
def extractMemoryMode (items : List RolloutItem) : Option Text :=
  items.reverse.findSome? fun
    | .sessionMeta metaLine => metaLine.memoryMode
    | _ => none

end CodexPilot.State
