import CodexPilot.Library.Tables
import CodexPilot.RustStd.Iter
import CodexPilot.State.ThreadMetadata
import Mathlib.Data.Prod.Lex

/-!
# Listing sessions by the time of their creation

The head of a rollout file is read until there is a session meta line and a user message; a file is
listed when it has both and passes the filters.  The files lie in directories of their year, month
and day, and their names carry a timestamp and an id, with dashes in both.  A page is collected by a
walk from the newest file to the oldest, which skips what comes before the cursor and stops when the
page is full or enough files have been scanned.
-/

namespace CodexPilot.Sessions

open RustStd Tables

/-! ## The head of a file -/

/-- What is read of a first line. -/
structure SessionMetaLine where
  id : Text
  timestamp : Text
  cwd : Text
  cliVersion : Text
  source : Text
  agentNickname : Option Text
  agentRole : Option Text
  modelProvider : Option Text
  git : Option State.GitInfo

/-- What is read of an event. -/
inductive EventMsg where
  | userMessage (message : Text)
  | other

/-- A line of a rollout. -/
inductive RolloutItem where
  | sessionMeta (metaLine : SessionMetaLine)
  | responseItem
  | turnContext
  | compacted
  | eventMsg (event : EventMsg)

/-- A line of a file: one that cannot be read, a blank one, one that is no record, or a record. -/
inductive Line where
  | unreadable
  | blank
  | invalid
  | record (timestamp : Text) (item : RolloutItem)

/-- What the head of a file says. -/
structure HeadTailSummary where
  sawSessionMeta : Bool
  sawUserEvent : Bool
  threadId : Option Text
  firstUserMessage : Option Text
  cwd : Option Text
  gitBranch : Option Text
  gitSha : Option Text
  gitOriginUrl : Option Text
  source : Option Text
  agentNickname : Option Text
  agentRole : Option Text
  modelProvider : Option Text
  cliVersion : Option Text
  createdAt : Option Text
  updatedAt : Option Text

def HeadTailSummary.default : HeadTailSummary :=
  { sawSessionMeta := false, sawUserEvent := false, threadId := none, firstUserMessage := none,
    cwd := none, gitBranch := none, gitSha := none, gitOriginUrl := none, source := none,
    agentNickname := none, agentRole := none, modelProvider := none, cliVersion := none,
    createdAt := none, updatedAt := none }

def headRecordLimit : ℕ := 10

def userEventScanLimit : ℕ := 200

/-- What a record adds to the summary; only the first session meta line counts. -/
def HeadTailSummary.read (summary : HeadTailSummary) (timestamp : Text) :
    RolloutItem → HeadTailSummary
  | .sessionMeta metaLine =>
      if summary.sawSessionMeta then summary
      else { summary with
        source := some metaLine.source
        agentNickname := metaLine.agentNickname
        agentRole := metaLine.agentRole
        modelProvider := metaLine.modelProvider
        threadId := some metaLine.id
        cwd := some metaLine.cwd
        gitBranch := metaLine.git.bind State.GitInfo.branch
        gitSha := metaLine.git.bind State.GitInfo.commitHash
        gitOriginUrl := metaLine.git.bind State.GitInfo.repositoryUrl
        cliVersion := some metaLine.cliVersion
        createdAt := some metaLine.timestamp
        sawSessionMeta := true }
  | .responseItem => { summary with createdAt := summary.createdAt.or (some timestamp) }
  | .turnContext | .compacted | .eventMsg .other => summary
  | .eventMsg (.userMessage message) =>
      { summary with
        sawUserEvent := true
        firstUserMessage := summary.firstUserMessage.or
          (State.nonEmpty (State.stripUserMessagePrefix message)) }

/-- Read on after a number of lines; `none` when a line cannot be read. -/
def readLines (headLimit linesScanned : ℕ) (summary : HeadTailSummary) :
    List Line → Option HeadTailSummary
  | [] => some summary
  | line :: lines =>
      if headLimit ≤ linesScanned ∧ ¬ (summary.sawSessionMeta ∧ ¬ summary.sawUserEvent ∧
          linesScanned < headLimit + userEventScanLimit) then some summary
      else match line with
        | .unreadable => none
        | .blank => readLines headLimit linesScanned summary lines
        | .invalid => readLines headLimit (linesScanned + 1) summary lines
        | .record timestamp item =>
            let summary := summary.read timestamp item
            if summary.sawSessionMeta ∧ summary.sawUserEvent then some summary
            else readLines headLimit (linesScanned + 1) summary lines

/-- What there is to read of a file: its lines, unless it cannot be opened, and when it changed. -/
structure Content where
  lines : Option (List Line)
  modified : Option Text

def readHeadSummary (content : Content) (headLimit : ℕ) : Option HeadTailSummary :=
  content.lines.bind (readLines headLimit 0 .default)

/-! ## Filters -/

/-- The filter for providers. -/
structure ProviderMatcher where
  filters : List Text
  matchesDefaultProvider : Bool

namespace ProviderMatcher

def new (filters : List Text) (defaultProvider : Text) : Option ProviderMatcher :=
  if filters = [] then none
  else some { filters, matchesDefaultProvider := filters.any (· = defaultProvider) }

def matches_ (matcher : ProviderMatcher) : Option Text → Bool
  | some provider => matcher.filters.any (· = provider)
  | none => matcher.matchesDefaultProvider

end ProviderMatcher

/-- The filters of a listing. -/
structure Filters where
  allowedSources : List Text
  providerMatcher : Option ProviderMatcher

/-- A session on a page. -/
structure ThreadItem where
  path : List Text
  threadId : Option Text
  firstUserMessage : Option Text
  cwd : Option Text
  gitBranch : Option Text
  gitSha : Option Text
  gitOriginUrl : Option Text
  source : Option Text
  agentNickname : Option Text
  agentRole : Option Text
  modelProvider : Option Text
  cliVersion : Option Text
  createdAt : Option Text
  updatedAt : Option Text

/-- `none` when the file is not listed. -/
def buildThreadItem (filters : Filters) (path : List Text) (content : Content) :
    Option ThreadItem :=
  let summary := (readHeadSummary content headRecordLimit).getD .default
  if filters.allowedSources ≠ [] ∧ ¬ summary.source.any (filters.allowedSources.contains ·) then
    none
  else if filters.providerMatcher.any (!·.matches_ summary.modelProvider) then none
  else if summary.sawSessionMeta ∧ summary.sawUserEvent then
    some {
      path
      threadId := summary.threadId
      firstUserMessage := summary.firstUserMessage
      cwd := summary.cwd
      gitBranch := summary.gitBranch
      gitSha := summary.gitSha
      gitOriginUrl := summary.gitOriginUrl
      source := summary.source
      agentNickname := summary.agentNickname
      agentRole := summary.agentRole
      modelProvider := summary.modelProvider
      cliVersion := summary.cliVersion
      createdAt := summary.createdAt
      updatedAt := (summary.updatedAt.or content.modified).or summary.createdAt }
  else none

/-- An item names the file it is made of. -/
theorem path_of_buildThreadItem {filters : Filters} {path : List Text} {content : Content}
    {item : ThreadItem} (built : buildThreadItem filters path content = some item) :
    item.path = path := by
  unfold buildThreadItem at built
  dsimp only at built
  split_ifs at built
  cases built
  rfl

/-! ## Timestamps and cursors -/

/-- A time in UTC; `second` counts the seconds of the day. -/
structure OffsetDateTime where
  year : ℕ
  month : ℕ
  day : ℕ
  second : ℕ
  valid : year ≤ 9999 ∧ month ≤ 12 ∧ day ≤ 31
  deriving DecidableEq

/-- By year, month, day and time. -/
def OffsetDateTime.position (ts : OffsetDateTime) : ℕ ×ₗ ℕ ×ₗ ℕ ×ₗ ℕ :=
  toLex (ts.year, toLex (ts.month, toLex (ts.day, ts.second)))

theorem OffsetDateTime.position_injective : Function.Injective OffsetDateTime.position := by
  rintro ⟨_, _, _, _, _⟩ ⟨_, _, _, _, _⟩ same
  cases same
  rfl

instance : LinearOrder OffsetDateTime :=
  LinearOrder.lift' OffsetDateTime.position OffsetDateTime.position_injective

/-- The number that the 128 bits of an id are. -/
abbrev Uuid := ℕ

/-- A cursor names a file by its timestamp and its id, and is ordered by them. -/
abbrev Cursor := OffsetDateTime ×ₗ Uuid

/-- Everything is skipped until the cursor has been passed. -/
structure AnchorState where
  ts : OffsetDateTime
  id : Uuid
  passed : Bool

namespace AnchorState

def unixEpoch : OffsetDateTime :=
  { year := 1970, month := 1, day := 1, second := 0, valid := by decide }

def new : Option Cursor → AnchorState
  | some cursor => { ts := (ofLex cursor).1, id := (ofLex cursor).2, passed := false }
  | none => { ts := unixEpoch, id := 0, passed := true }

/-- `should_skip`. -/
def shouldSkip (anchor : AnchorState) (ts : OffsetDateTime) (id : Uuid) : Bool × AnchorState :=
  if anchor.passed then (false, anchor)
  else if ts < anchor.ts ∨ (ts = anchor.ts ∧ id < anchor.id) then
    (false, { anchor with passed := true })
  else (true, anchor)

end AnchorState

/-! ## File names -/

/-- The texts before and after each dash, from the left. -/
def dashSplits : Text → List (Text × Text)
  | [] => []
  | c :: rest =>
      let later := (dashSplits rest).map fun split => (c :: split.1, split.2)
      if c = '-' then ([], rest) :: later else later

section Names

-- How the parts of a file name are read.
variable (parseTimestamp : Text → Option OffsetDateTime) (parseUuid : Text → Option Uuid)

/-- `parse_timestamp_uuid_from_filename`. -/
def parseTimestampUuidFromFilename (name : Text) : Option (OffsetDateTime × Uuid) := do
  let core ← (Text.stripPrefix name "rollout-".toList).bind (".jsonl".toList.isSuffixOf? ·)
  let (tsText, id) ← (dashSplits core).reverse.findSome? fun split =>
    (parseUuid split.2).map (split.1, ·)
  let ts ← parseTimestamp tsText
  some (ts, id)

end Names

/-- `str::parse` of an unsigned integer with a greatest value. -/
def parseUnsigned (greatest : ℕ) (text : Text) : Option ℕ :=
  let digits := (Text.stripPrefix text ['+']).getD text
  let value := Nat.ofDigitChars 10 digits 0
  if digits ≠ [] ∧ digits.all Char.isDigit ∧ value ≤ greatest then some value else none

/-! ## Directories -/

/-- The files of a day. -/
abbrev DayDirectory := Table Text Content

/-- The days of a month. -/
abbrev MonthDirectory := Table Text DayDirectory

/-- The months of a year. -/
abbrev YearDirectory := Table Text MonthDirectory

/-- The directory of all sessions, by years, months and days. -/
abbrev Root := Table Text YearDirectory

/-- The directories whose names are numbers, the greatest first. -/
def collectDirsDesc {α : Type} (greatest : ℕ) (parent : Table Text α) : List (ℕ × Text × α) :=
  sortByKey (fun dir => OrderDual.toDual dir.1)
    (parent.entries.filterMap fun entry =>
      (parseUnsigned greatest entry.1).map (·, entry.1, entry.2))

/-- A number with at least two digits. -/
def twoDigits (number : ℕ) : Text :=
  let digits := Nat.toDigits 10 number
  List.replicate (2 - digits.length) '0' ++ digits

/-- The names of the directories in which a file of that time is created. -/
def dateDirectory (ts : OffsetDateTime) : List Text :=
  [Nat.toDigits 10 ts.year, twoDigits ts.month, twoDigits ts.day]

/-- A rollout file and the names on the way to it. -/
structure RolloutFile where
  ts : OffsetDateTime
  id : Uuid
  path : List Text
  content : Content

/-- Where a file stands in a listing. -/
def RolloutFile.key (file : RolloutFile) : Cursor := toLex (file.ts, file.id)

/-! ## The walk -/

def maxScanFiles : ℕ := 10000

/-- What the walk has collected. -/
structure FilesByCreatedAtVisitor where
  items : List ThreadItem
  anchorState : AnchorState
  moreMatchesAvailable : Bool

/-- Look at a file; `false` to stop the walk. -/
def FilesByCreatedAtVisitor.visit (visitor : FilesByCreatedAtVisitor) (pageSize : ℕ)
    (filters : Filters) (file : RolloutFile) (scanned : ℕ) : Bool × FilesByCreatedAtVisitor :=
  if maxScanFiles ≤ scanned ∧ pageSize ≤ visitor.items.length then
    (false, { visitor with moreMatchesAvailable := true })
  else
    let (skip, anchorState) := visitor.anchorState.shouldSkip file.ts file.id
    let visitor := { visitor with anchorState }
    if skip then (true, visitor)
    else if visitor.items.length = pageSize then
      (false, { visitor with moreMatchesAvailable := true })
    else
      let item := buildThreadItem filters file.path file.content
      (true, { visitor with items := visitor.items ++ item.toList })

/-- The number of files scanned so far and the visitor. -/
structure Walk where
  scannedFiles : ℕ
  visitor : FilesByCreatedAtVisitor

/-- A stop leaves all loops. -/
abbrev Loop := Except Walk Walk

def Loop.walk : Loop → Walk
  | .ok walk => walk
  | .error walk => walk

section Listing

variable (parseTimestamp : Text → Option OffsetDateTime) (parseUuid : Text → Option Uuid)
  (pageSize : ℕ) (filters : Filters)

/-- The rollout files of a day, in the order of the directory. -/
def dayFiles (path : List Text) (day : DayDirectory) : List RolloutFile :=
  day.entries.filterMap fun entry =>
    if "rollout-".toList.isPrefixOf entry.1 ∧ ".jsonl".toList.isSuffixOf entry.1 then
      (parseTimestampUuidFromFilename parseTimestamp parseUuid entry.1).map fun (ts, id) =>
        { ts, id, path := path ++ [entry.1], content := entry.2 }
    else none

def collectRolloutDayFiles (path : List Text) (day : DayDirectory) : List RolloutFile :=
  sortByKey (fun file => OrderDual.toDual file.key) (dayFiles parseTimestamp parseUuid path day)

/-- A file is looked at. -/
def walkFile (walk : Walk) (file : RolloutFile) : Loop :=
  let scannedFiles := walk.scannedFiles + 1
  if maxScanFiles < scannedFiles then .error { walk with scannedFiles }
  else
    match walk.visitor.visit pageSize filters file scannedFiles with
    | (true, visitor) => .ok { scannedFiles, visitor }
    | (false, visitor) => .error { scannedFiles, visitor }

def walkFiles (files : List RolloutFile) (walk : Walk) : Loop :=
  files.foldlM (walkFile pageSize filters) walk

/-- Walk through directories until enough files have been scanned. -/
def walkDirs {α : Type} (dirs : List (ℕ × Text × α)) (body : Text → α → Walk → Loop)
    (walk : Walk) : Loop :=
  dirs.foldlM
    (fun walk dir =>
      if maxScanFiles ≤ walk.scannedFiles then .error walk else body dir.2.1 dir.2.2 walk)
    walk

/-- `walk_rollout_files`. -/
def walkRolloutFiles (root : Root) (walk : Walk) : Loop :=
  walkDirs (collectDirsDesc 65535 root)
    (fun year yearDir => walkDirs (collectDirsDesc 255 yearDir) fun month monthDir =>
      walkDirs (collectDirsDesc 255 monthDir) fun day dayDir =>
        walkFiles pageSize filters
          (collectRolloutDayFiles parseTimestamp parseUuid [year, month, day] dayDir))
    walk

/-! ## Pages -/

/-- A page of sessions. -/
structure ThreadsPage where
  items : List ThreadItem
  nextCursor : Option Cursor
  numScannedFiles : ℕ
  reachedScanCap : Bool

/-- `build_next_cursor`. -/
def buildNextCursor (items : List ThreadItem) : Option Cursor := do
  let last ← items.getLast?
  let fileName ← last.path.getLast?
  let (ts, id) ← parseTimestampUuidFromFilename parseTimestamp parseUuid fileName
  some (toLex (ts, id))

def traverseDirectoriesForPathsCreated (root : Root) (anchor : Option Cursor) : ThreadsPage :=
  let visitor : FilesByCreatedAtVisitor :=
    { items := [], anchorState := .new anchor, moreMatchesAvailable := false }
  let walk := (walkRolloutFiles parseTimestamp parseUuid pageSize filters root
    { scannedFiles := 0, visitor }).walk
  let items := walk.visitor.items
  let reachedScanCap := maxScanFiles ≤ walk.scannedFiles
  let moreMatchesAvailable :=
    walk.visitor.moreMatchesAvailable ∨ (reachedScanCap ∧ items ≠ [])
  { items
    nextCursor :=
      if moreMatchesAvailable then buildNextCursor parseTimestamp parseUuid items else none
    numScannedFiles := walk.scannedFiles
    reachedScanCap }

end Listing

/-- The page after a cursor; without a directory of sessions there is nothing to list. -/
def getThreads (parseTimestamp : Text → Option OffsetDateTime) (parseUuid : Text → Option Uuid)
    (root : Option Root) (pageSize : ℕ) (cursor : Option Cursor) (allowedSources : List Text)
    (modelProviders : Option (List Text)) (defaultProvider : Text) : ThreadsPage :=
  match root with
  | none => { items := [], nextCursor := none, numScannedFiles := 0, reachedScanCap := false }
  | some root =>
      let providerMatcher := modelProviders.bind (ProviderMatcher.new · defaultProvider)
      traverseDirectoriesForPathsCreated parseTimestamp parseUuid pageSize
        { allowedSources, providerMatcher } root cursor

/-! ## Names of rollout files -/

/-- The name under which a session is recorded. -/
def fileName (dateText id : Text) : Text :=
  "rollout-".toList ++ (dateText ++ '-' :: id ++ ".jsonl".toList)

/-! ## Dashes -/

theorem dashSplits_append (left right : Text) :
    dashSplits (left ++ '-' :: right) =
      (dashSplits left).map (fun split => (split.1, split.2 ++ '-' :: right)) ++
        (left, right) :: (dashSplits right).map fun split => (left ++ '-' :: split.1, split.2) := by
  induction left with
  | nil => simp [dashSplits]
  | cons c left ih =>
      simp only [List.cons_append, dashSplits, ih]
      split_ifs <;> simp [Function.comp_def]

theorem length_lt_of_mem_dashSplits {text : Text} {split : Text × Text}
    (member : split ∈ dashSplits text) : split.2.length < text.length := by
  induction text generalizing split with
  | nil => cases member
  | cons c text ih =>
      have later : split ∈ (dashSplits text).map (fun split => (c :: split.1, split.2)) →
          split.2.length < (c :: text).length := by
        intro member
        obtain ⟨split, isSplit, rfl⟩ := List.mem_map.mp member
        exact (ih isSplit).trans (Nat.lt_succ_self _)
      rw [dashSplits] at member
      split_ifs at member with dash
      · obtain rfl | member := List.mem_cons.mp member
        · exact Nat.lt_succ_self _
        · exact later member
      · exact later member

/-! ## Reading a name back -/

/-- What is between the beginning and the end of a name. -/
theorem core_of_name (front core back : Text) :
    (Text.stripPrefix (front ++ (core ++ back)) front).bind (back.isSuffixOf? ·) = some core := by
  have stripped := Text.stripPrefix_append back.reverse core.reverse
  rw [Text.stripPrefix] at stripped
  rw [Text.stripPrefix_append, Option.bind_some, List.isSuffixOf?, List.reverse_append, stripped,
    Option.map_some, List.reverse_reverse]

theorem shape_of_name (front core back : Text) :
    front.isPrefixOf (front ++ (core ++ back)) = true ∧
      back.isSuffixOf (front ++ (core ++ back)) = true := by
  rw [List.isPrefixOf_iff_prefix, List.isSuffixOf_iff_suffix, ← List.append_assoc]
  exact ⟨⟨core ++ back, (List.append_assoc _ _ _).symm⟩, List.suffix_append _ _⟩

/-- The last dash that is followed by an id is the one between the timestamp and the id. -/
theorem parse_fileName {parseTimestamp : Text → Option OffsetDateTime}
    {parseUuid : Text → Option Uuid} {dateText idText : Text} {ts : OffsetDateTime} {id : Uuid}
    (dated : parseTimestamp dateText = some ts) (isId : parseUuid idText = some id)
    (last : ∀ split ∈ dashSplits idText, parseUuid split.2 = none) :
    parseTimestampUuidFromFilename parseTimestamp parseUuid (fileName dateText idText) =
      some (ts, id) := by
  have separated : (dashSplits (dateText ++ '-' :: idText)).reverse.findSome?
      (fun split => (parseUuid split.2).map (split.1, ·)) = some (dateText, id) := by
    rw [dashSplits_append, List.reverse_append, List.reverse_cons, List.append_assoc,
      List.findSome?_append, List.findSome?_eq_none_iff.mpr, Option.none_or]
    · simp [isId]
    · intro split member
      obtain ⟨split, isSplit, rfl⟩ := List.mem_map.mp (List.mem_reverse.mp member)
      rw [last split isSplit, Option.map_none]
  unfold parseTimestampUuidFromFilename fileName
  rw [core_of_name, Option.bind_eq_bind, Option.bind_some, separated, Option.bind_eq_bind,
    Option.bind_some]
  dsimp only
  rw [dated]
  rfl

end CodexPilot.Sessions
