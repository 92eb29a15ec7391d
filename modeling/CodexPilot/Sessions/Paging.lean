import CodexPilot.Library.Keyset
import CodexPilot.Sessions.Listing

/-!
# Following the cursors

Where every file lies in the directory of its date, the nested loops are one loop over all files,
from the newest to the oldest.  A page is a piece of the files that the walk reaches before its
limit.  The skipped files count towards the limit on every page, so the pages together list these
files and no others.
-/

namespace CodexPilot.Sessions

open RustStd Tables

/-! ## Names of directories -/

/-- Leading zeros do not change the number. -/
theorem parseUnsigned_toDigits {greatest number : ℕ} (zeros : ℕ) (small : number ≤ greatest) :
    parseUnsigned greatest (List.replicate zeros '0' ++ Nat.toDigits 10 number) = some number := by
  have digits : (List.replicate zeros '0' ++ Nat.toDigits 10 number).all Char.isDigit = true := by
    rw [List.all_append, List.all_replicate, Bool.and_eq_true]
    refine ⟨by simp, List.all_eq_true.mpr fun c member => ?_⟩
    exact Nat.isDigit_of_mem_toDigits (by decide) (by decide) member
  have unsigned : Text.stripPrefix (List.replicate zeros '0' ++ Nat.toDigits 10 number) ['+'] =
      none := by
    rw [Option.eq_none_iff_forall_ne_some]
    intro rest signed
    have plus := List.all_eq_true.mp digits '+' (by simp [Text.stripPrefix_eq_some_iff.mp signed])
    revert plus
    decide
  have value : Nat.ofDigitChars 10 (List.replicate zeros '0' ++ Nat.toDigits 10 number) 0 =
      number := by
    simp [Nat.ofDigitChars_append]
  simp [parseUnsigned, unsigned, value, digits, small]

theorem parseUnsigned_twoDigits {greatest number : ℕ} (small : number ≤ greatest) :
    parseUnsigned greatest (twoDigits number) = some number :=
  parseUnsigned_toDigits _ small

/-! ## One loop -/

section Loops

variable (pageSize : ℕ) (filters : Filters) {α : Type} {walk : Walk}

/-- Two loops show the same to the visitor, and end it at the cap if they differ. -/
def Agree (nested flat : Loop) : Prop :=
  nested = flat ∨ (maxScanFiles ≤ nested.walk.scannedFiles ∧ maxScanFiles ≤ flat.walk.scannedFiles ∧
    nested.walk.visitor = flat.walk.visitor)

theorem Agree.visitor {nested flat : Loop} (agree : Agree nested flat) :
    nested.walk.visitor = flat.walk.visitor := by
  obtain same | ⟨_, _, same⟩ := agree
  · rw [same]
  · exact same

/-- At the cap, no file is visited any more. -/
theorem walkFiles_full (full : maxScanFiles ≤ walk.scannedFiles) (files : List RolloutFile) :
    maxScanFiles ≤ (walkFiles pageSize filters files walk).walk.scannedFiles ∧
      (walkFiles pageSize filters files walk).walk.visitor = walk.visitor := by
  cases files with
  | nil => exact ⟨full, rfl⟩
  | cons file files =>
      have stopped : walkFile pageSize filters walk file =
          .error { walk with scannedFiles := walk.scannedFiles + 1 } :=
        if_pos (Nat.lt_succ_of_le full)
      rw [walkFiles, List.foldlM_cons, stopped]
      exact ⟨Nat.le_succ_of_le full, rfl⟩

theorem walkDirs_full (full : maxScanFiles ≤ walk.scannedFiles) (dirs : List (ℕ × Text × α))
    (body : Text → α → Walk → Loop) : (walkDirs dirs body walk).walk = walk := by
  cases dirs with
  | nil => rfl
  | cons dir dirs =>
      rw [walkDirs, List.foldlM_cons, if_pos full]
      rfl

theorem walkFiles_append (files later : List RolloutFile) :
    walkFiles pageSize filters (files ++ later) walk =
      (walkFiles pageSize filters files walk >>= walkFiles pageSize filters later : Loop) :=
  List.foldlM_append

/-- Loops that end at the cap agree on whatever follows. -/
theorem agree_of_full {nested flat : Loop} (full : maxScanFiles ≤ nested.walk.scannedFiles)
    (full' : maxScanFiles ≤ flat.walk.scannedFiles)
    (same : nested.walk.visitor = flat.walk.visitor) (dirs : List (ℕ × Text × α))
    (body : Text → α → Walk → Loop) (files : List RolloutFile) :
    Agree (nested >>= walkDirs dirs body : Loop)
      (flat >>= walkFiles pageSize filters files : Loop) := by
  have stays : Loop.walk (nested >>= walkDirs dirs body) = nested.walk := by
    cases nested with
    | error stopped => rfl
    | ok next => exact walkDirs_full full dirs body
  have shows : maxScanFiles ≤ (Loop.walk (flat >>= walkFiles pageSize filters files)).scannedFiles ∧
      (Loop.walk (flat >>= walkFiles pageSize filters files)).visitor = flat.walk.visitor := by
    cases flat with
    | error stopped => exact ⟨full', rfl⟩
    | ok next => exact walkFiles_full pageSize filters full' files
  exact .inr ⟨stays ▸ full, shows.1, by rw [stays, shows.2, same]⟩

/-- A loop over directories is a loop over their files. -/
theorem walkDirs_agree {body : Text → α → Walk → Loop} {files : Text → α → List RolloutFile}
    (agrees : ∀ name dir walk,
      Agree (body name dir walk) (walkFiles pageSize filters (files name dir) walk))
    (dirs : List (ℕ × Text × α)) (walk : Walk) :
    Agree (walkDirs dirs body walk)
      (walkFiles pageSize filters (dirs.flatMap fun dir => files dir.2.1 dir.2.2) walk) := by
  induction dirs generalizing walk with
  | nil => exact .inl rfl
  | cons dir dirs ih =>
      obtain ⟨value, name, dir⟩ := dir
      rw [List.flatMap_cons, walkFiles_append]
      by_cases full : maxScanFiles ≤ walk.scannedFiles
      · have stops : walkDirs ((value, name, dir) :: dirs) body walk =
            (.error walk >>= walkDirs dirs body : Loop) := by
          rw [walkDirs, List.foldlM_cons, if_pos full]
          rfl
        obtain ⟨full', same⟩ := walkFiles_full pageSize filters full (files name dir)
        have stopped : maxScanFiles ≤ (Loop.walk (.error walk)).scannedFiles := full
        rw [stops]
        exact agree_of_full pageSize filters stopped full' same.symm dirs body _
      · have enters : walkDirs ((value, name, dir) :: dirs) body walk =
            (body name dir walk >>= walkDirs dirs body : Loop) := by
          rw [walkDirs, List.foldlM_cons, if_neg full]
          rfl
        rw [enters]
        obtain same | ⟨full, full', same⟩ := agrees name dir walk
        · rw [same]
          cases walkFiles pageSize filters (files name dir) walk with
          | error stopped => exact .inl rfl
          | ok next => exact ih next
        · exact agree_of_full pageSize filters full full' same dirs body _

end Loops

section Orders

variable (parseTimestamp : Text → Option OffsetDateTime) (parseUuid : Text → Option Uuid)

def monthOrder (year month : Text) (monthDir : MonthDirectory) : List RolloutFile :=
  (collectDirsDesc 255 monthDir).flatMap fun day =>
    collectRolloutDayFiles parseTimestamp parseUuid [year, month, day.2.1] day.2.2

def yearOrder (year : Text) (yearDir : YearDirectory) : List RolloutFile :=
  (collectDirsDesc 255 yearDir).flatMap fun month =>
    monthOrder parseTimestamp parseUuid year month.2.1 month.2.2

/-- The files in the order in which the walk reaches them. -/
def walkOrder (root : Root) : List RolloutFile :=
  (collectDirsDesc 65535 root).flatMap fun year =>
    yearOrder parseTimestamp parseUuid year.2.1 year.2.2

/-- The nested loops are one loop. -/
theorem walkRolloutFiles_agree (pageSize : ℕ) (filters : Filters) (root : Root) (walk : Walk) :
    Agree (walkRolloutFiles parseTimestamp parseUuid pageSize filters root walk)
      (walkFiles pageSize filters (walkOrder parseTimestamp parseUuid root) walk) := by
  refine walkDirs_agree pageSize filters (fun year yearDir walk => ?_) _ walk
  refine walkDirs_agree pageSize filters (fun month monthDir walk => ?_) _ walk
  exact walkDirs_agree pageSize filters (fun day dayDir walk => .inl rfl) _ walk

end Orders

/-! ## From the newest to the oldest -/

section Levels

variable {α : Type} {greatest : ℕ} {parent : Table Text α}
  (files spec : Text → α → List RolloutFile)

theorem mem_collectDirsDesc {dir : ℕ × Text × α} :
    dir ∈ collectDirsDesc greatest parent ↔
      parseUnsigned greatest dir.2.1 = some dir.1 ∧ ⟨dir.2.1, dir.2.2⟩ ∈ parent.entries := by
  obtain ⟨value, name, dir⟩ := dir
  rw [collectDirsDesc, mem_sortByKey, List.mem_filterMap]
  constructor
  · rintro ⟨entry, member, read⟩
    obtain ⟨_, parsed, ⟨⟩⟩ := Option.map_eq_some_iff.mp read
    exact ⟨parsed, member⟩
  · rintro ⟨parsed, member⟩
    exact ⟨⟨name, dir⟩, member, by simp only [parsed, Option.map_some]⟩

/-- Directories that are not walked through hold no files. -/
theorem perm_collectDirsDesc
    (same : ∀ name dir, ⟨name, dir⟩ ∈ parent.entries → (files name dir).Perm (spec name dir))
    (walked : ∀ name dir, ⟨name, dir⟩ ∈ parent.entries → ∀ file ∈ spec name dir,
      (parseUnsigned greatest name).isSome) :
    ((collectDirsDesc greatest parent).flatMap fun dir => files dir.2.1 dir.2.2).Perm
      (parent.entries.flatMap fun entry => spec entry.1 entry.2) := by
  refine ((perm_sortByKey _ _).flatMap_right _).trans ?_
  revert same walked
  induction parent.entries with
  | nil => exact fun _ _ => .refl _
  | cons entry entries ih =>
      intro same walked
      have rest := ih
        (fun name dir member => same name dir (List.mem_cons_of_mem entry member))
        (fun name dir member => walked name dir (List.mem_cons_of_mem entry member))
      rw [List.flatMap_cons]
      cases parsed : parseUnsigned greatest entry.1 with
      | some value =>
          rw [List.filterMap_cons_some (by rw [parsed, Option.map_some]), List.flatMap_cons]
          exact (same _ _ List.mem_cons_self).append rest
      | none =>
          have noFiles : spec entry.1 entry.2 = [] := by
            refine List.eq_nil_iff_forall_not_mem.mpr fun file member => ?_
            cases parsed ▸ walked _ _ List.mem_cons_self file member
          rw [List.filterMap_cons_none (by rw [parsed, Option.map_none]), noFiles]
          exact rest

/-- The directories come with decreasing numbers and different names. -/
theorem pairwise_dirs :
    (collectDirsDesc greatest parent).Pairwise fun dir later =>
      later.1 ≤ dir.1 ∧ dir.2.1 ≠ later.2.1 := by
  have decreasing : (collectDirsDesc greatest parent).Pairwise fun dir later => later.1 ≤ dir.1 :=
    pairwise_sortByKey (fun dir : ℕ × Text × α => OrderDual.toDual dir.1) _
  refine decreasing.and ?_
  refine (List.Perm.pairwise_iff Ne.symm (perm_sortByKey _ _)).mpr ?_
  refine (List.nodupKeys_iff_pairwise.mp parent.nodupKeys).filterMap _ ?_
  rintro entry entry' apart dir read dir' read'
  obtain ⟨_, _, ⟨⟩⟩ := Option.map_eq_some_iff.mp read
  obtain ⟨_, _, ⟨⟩⟩ := Option.map_eq_some_iff.mp read'
  exact apart

/-- When the number of a directory decides, the files of all directories are in order. -/
theorem pairwise_collectDirsDesc {before : RolloutFile → RolloutFile → Prop}
    (number : RolloutFile → ℕ) (text : ℕ → Text)
    (named : ∀ name dir, ⟨name, dir⟩ ∈ parent.entries → ∀ file ∈ files name dir,
      name = text (number file) ∧ parseUnsigned greatest name = some (number file))
    (ordered : ∀ name dir, ⟨name, dir⟩ ∈ parent.entries → (files name dir).Pairwise before)
    (apart : ∀ name dir, ⟨name, dir⟩ ∈ parent.entries →
      ∀ name' dir', ⟨name', dir'⟩ ∈ parent.entries →
      ∀ file ∈ files name dir, ∀ later ∈ files name' dir', number later < number file →
        before file later) :
    ((collectDirsDesc greatest parent).flatMap fun dir => files dir.2.1 dir.2.2).Pairwise
      before := by
  rw [List.pairwise_flatMap]
  constructor
  · intro dir member
    exact ordered _ _ (mem_collectDirsDesc.mp member).2
  · refine pairwise_dirs.imp_of_mem ?_
    rintro dir dir' member member' ⟨decreasing, different⟩ file isFile later isLater
    obtain ⟨parsed, inside⟩ := mem_collectDirsDesc.mp member
    obtain ⟨parsed', inside'⟩ := mem_collectDirsDesc.mp member'
    obtain ⟨isText, isNumber⟩ := named _ _ inside file isFile
    obtain ⟨isText', isNumber'⟩ := named _ _ inside' later isLater
    have value : dir.1 = number file := Option.some.inj (parsed.symm.trans isNumber)
    have value' : dir'.1 = number later := Option.some.inj (parsed'.symm.trans isNumber')
    refine apart _ _ inside _ _ inside' file isFile later isLater ?_
    refine lt_of_le_of_ne (value ▸ value' ▸ decreasing) fun same => ?_
    exact different (isText.trans (same ▸ isText'.symm))

end Levels

section Files

variable (parseTimestamp : Text → Option OffsetDateTime) (parseUuid : Text → Option Uuid)

def monthFiles (year month : Text) (monthDir : MonthDirectory) : List RolloutFile :=
  monthDir.entries.flatMap fun day => dayFiles parseTimestamp parseUuid [year, month, day.1] day.2

def yearFiles (year : Text) (yearDir : YearDirectory) : List RolloutFile :=
  yearDir.entries.flatMap fun month => monthFiles parseTimestamp parseUuid year month.1 month.2

/-- All rollout files. -/
def rolloutFiles (root : Root) : List RolloutFile :=
  root.entries.flatMap fun year => yearFiles parseTimestamp parseUuid year.1 year.2

/-- Every file lies in the directory of its date. -/
def Stored (files : List RolloutFile) : Prop :=
  ∀ file ∈ files, file.path.dropLast = dateDirectory file.ts

/-- No two files have the same timestamp and id. -/
def Distinct (files : List RolloutFile) : Prop := (files.map RolloutFile.key).Nodup

variable {parseTimestamp parseUuid} {year month : Text} {file : RolloutFile}

theorem mem_dayFiles {path : List Text} {day : DayDirectory}
    (member : file ∈ dayFiles parseTimestamp parseUuid path day) :
    ∃ name, file.path = path ++ [name] ∧
      parseTimestampUuidFromFilename parseTimestamp parseUuid name = some (file.ts, file.id) := by
  obtain ⟨entry, _, read⟩ := List.mem_filterMap.mp member
  split_ifs at read
  obtain ⟨⟨ts, id⟩, parsed, rfl⟩ := Option.map_eq_some_iff.mp read
  exact ⟨entry.1, rfl, parsed⟩

theorem mem_collectRolloutDayFiles {path : List Text} {day : DayDirectory} :
    file ∈ collectRolloutDayFiles parseTimestamp parseUuid path day ↔
      file ∈ dayFiles parseTimestamp parseUuid path day :=
  mem_sortByKey

theorem key_le_of_position {later : RolloutFile} (lower : later.ts.position < file.ts.position) :
    later.key ≤ file.key :=
  (Prod.Lex.toLex_lt_toLex.mpr (.inl lower)).le

/-- The names of the directories are those of the date, and they are read back. -/
theorem named_of_dated {day : Text} (dated : file.path.dropLast = dateDirectory file.ts)
    (directory : file.path.dropLast = [year, month, day]) :
    (year = Nat.toDigits 10 file.ts.year ∧ parseUnsigned 65535 year = some file.ts.year) ∧
      (month = twoDigits file.ts.month ∧ parseUnsigned 255 month = some file.ts.month) ∧
      (day = twoDigits file.ts.day ∧ parseUnsigned 255 day = some file.ts.day) := by
  obtain ⟨yearBound, monthBound, dayBound⟩ := file.ts.valid
  rw [directory, dateDirectory] at dated
  injection dated with isYear rest
  injection rest with isMonth rest
  injection rest with isDay
  subst isYear isMonth isDay
  refine ⟨⟨rfl, ?_⟩, ⟨rfl, ?_⟩, rfl, ?_⟩
  · exact parseUnsigned_toDigits 0 (yearBound.trans (by decide))
  · exact parseUnsigned_twoDigits (monthBound.trans (by decide))
  · exact parseUnsigned_twoDigits (dayBound.trans (by decide))

/-! ### A month -/

section Month

variable {monthDir : MonthDirectory}
  (stored : Stored (monthFiles parseTimestamp parseUuid year month monthDir))
include stored

theorem day_named {day : Text} {dayDir : DayDirectory} (member : ⟨day, dayDir⟩ ∈ monthDir.entries)
    (isFile : file ∈ dayFiles parseTimestamp parseUuid [year, month, day] dayDir) :
    (year = Nat.toDigits 10 file.ts.year ∧ parseUnsigned 65535 year = some file.ts.year) ∧
      (month = twoDigits file.ts.month ∧ parseUnsigned 255 month = some file.ts.month) ∧
      (day = twoDigits file.ts.day ∧ parseUnsigned 255 day = some file.ts.day) := by
  obtain ⟨name, path, _⟩ := mem_dayFiles isFile
  have directory : file.path.dropLast = [year, month, day] := by rw [path, List.dropLast_concat]
  exact named_of_dated (stored file (List.mem_flatMap_of_mem member isFile)) directory

theorem perm_monthOrder :
    (monthOrder parseTimestamp parseUuid year month monthDir).Perm
      (monthFiles parseTimestamp parseUuid year month monthDir) := by
  refine perm_collectDirsDesc
    (fun day => collectRolloutDayFiles parseTimestamp parseUuid [year, month, day])
    (fun day => dayFiles parseTimestamp parseUuid [year, month, day])
    (fun day dayDir _ => perm_sortByKey _ _) fun day dayDir member file isFile => ?_
  obtain ⟨_, _, _, isDay⟩ := day_named stored member isFile
  rw [isDay, Option.isSome_some]

theorem pairwise_monthOrder :
    (monthOrder parseTimestamp parseUuid year month monthDir).Pairwise fun file later =>
      later.key ≤ file.key := by
  refine pairwise_collectDirsDesc
    (fun day => collectRolloutDayFiles parseTimestamp parseUuid [year, month, day])
    (fun file => file.ts.day) twoDigits ?_ ?_ ?_
  · intro day dayDir member file isFile
    exact (day_named stored member (mem_collectRolloutDayFiles.mp isFile)).2.2
  · intro day dayDir _
    exact pairwise_sortByKey (fun file : RolloutFile => OrderDual.toDual file.key) _
  · intro day dayDir member day' dayDir' member' file isFile later isLater lower
    obtain ⟨⟨_, isYear⟩, ⟨_, isMonth⟩, _⟩ :=
      day_named stored member (mem_collectRolloutDayFiles.mp isFile)
    obtain ⟨⟨_, isYear'⟩, ⟨_, isMonth'⟩, _⟩ :=
      day_named stored member' (mem_collectRolloutDayFiles.mp isLater)
    have sameYear := Option.some.inj (isYear'.symm.trans isYear)
    have sameMonth := Option.some.inj (isMonth'.symm.trans isMonth)
    apply key_le_of_position
    simp only [OffsetDateTime.position, Prod.Lex.toLex_lt_toLex]
    exact .inr ⟨sameYear, .inr ⟨sameMonth, .inl lower⟩⟩

end Month

/-! ### A year -/

section Year

variable {yearDir : YearDirectory}
  (stored : Stored (yearFiles parseTimestamp parseUuid year yearDir))
include stored

theorem stored_month {monthDir : MonthDirectory} (member : ⟨month, monthDir⟩ ∈ yearDir.entries) :
    Stored (monthFiles parseTimestamp parseUuid year month monthDir) :=
  fun file isFile => stored file (List.mem_flatMap_of_mem member isFile)

theorem month_named {monthDir : MonthDirectory} (member : ⟨month, monthDir⟩ ∈ yearDir.entries)
    (isFile : file ∈ monthFiles parseTimestamp parseUuid year month monthDir) :
    (year = Nat.toDigits 10 file.ts.year ∧ parseUnsigned 65535 year = some file.ts.year) ∧
      (month = twoDigits file.ts.month ∧ parseUnsigned 255 month = some file.ts.month) := by
  obtain ⟨⟨day, dayDir⟩, inMonth, inDay⟩ := List.mem_flatMap.mp isFile
  obtain ⟨isYear, isMonth, _⟩ := day_named (stored_month stored member) inMonth inDay
  exact ⟨isYear, isMonth⟩

theorem perm_yearOrder :
    (yearOrder parseTimestamp parseUuid year yearDir).Perm
      (yearFiles parseTimestamp parseUuid year yearDir) := by
  refine perm_collectDirsDesc (fun month => monthOrder parseTimestamp parseUuid year month)
    (fun month => monthFiles parseTimestamp parseUuid year month)
    (fun month monthDir member => perm_monthOrder (stored_month stored member))
    fun month monthDir member file isFile => ?_
  rw [(month_named stored member isFile).2.2, Option.isSome_some]

theorem pairwise_yearOrder :
    (yearOrder parseTimestamp parseUuid year yearDir).Pairwise fun file later =>
      later.key ≤ file.key := by
  have named : ∀ month monthDir, ⟨month, monthDir⟩ ∈ yearDir.entries →
      ∀ file ∈ monthOrder parseTimestamp parseUuid year month monthDir, _ :=
    fun month monthDir member file isFile => month_named stored member
      ((perm_monthOrder (stored_month stored member)).subset isFile)
  refine pairwise_collectDirsDesc (fun month => monthOrder parseTimestamp parseUuid year month)
    (fun file => file.ts.month) twoDigits ?_ ?_ ?_
  · intro month monthDir member file isFile
    exact (named month monthDir member file isFile).2
  · intro month monthDir member
    exact pairwise_monthOrder (stored_month stored member)
  · intro month monthDir member month' monthDir' member' file isFile later isLater lower
    obtain ⟨⟨_, isYear⟩, _⟩ := named month monthDir member file isFile
    obtain ⟨⟨_, isYear'⟩, _⟩ := named month' monthDir' member' later isLater
    have sameYear := Option.some.inj (isYear'.symm.trans isYear)
    apply key_le_of_position
    simp only [OffsetDateTime.position, Prod.Lex.toLex_lt_toLex]
    exact .inr ⟨sameYear, .inl lower⟩

end Year

/-! ### All sessions -/

section All

variable {root : Root} (stored : Stored (rolloutFiles parseTimestamp parseUuid root))
include stored

theorem stored_year {yearDir : YearDirectory} (member : ⟨year, yearDir⟩ ∈ root.entries) :
    Stored (yearFiles parseTimestamp parseUuid year yearDir) :=
  fun file isFile => stored file (List.mem_flatMap_of_mem member isFile)

theorem year_named {yearDir : YearDirectory} (member : ⟨year, yearDir⟩ ∈ root.entries)
    (isFile : file ∈ yearFiles parseTimestamp parseUuid year yearDir) :
    year = Nat.toDigits 10 file.ts.year ∧ parseUnsigned 65535 year = some file.ts.year := by
  obtain ⟨⟨month, monthDir⟩, inYear, inMonth⟩ := List.mem_flatMap.mp isFile
  exact (month_named (stored_year stored member) inYear inMonth).1

theorem perm_walkOrder :
    (walkOrder parseTimestamp parseUuid root).Perm
      (rolloutFiles parseTimestamp parseUuid root) := by
  refine perm_collectDirsDesc (yearOrder parseTimestamp parseUuid)
    (yearFiles parseTimestamp parseUuid)
    (fun year yearDir member => perm_yearOrder (stored_year stored member))
    fun year yearDir member file isFile => ?_
  rw [(year_named stored member isFile).2, Option.isSome_some]

/-- The walk goes from the newest file to the oldest. -/
theorem pairwise_walkOrder (distinct : Distinct (rolloutFiles parseTimestamp parseUuid root)) :
    (walkOrder parseTimestamp parseUuid root).Pairwise fun file later => later.key < file.key := by
  have named : ∀ year yearDir, ⟨year, yearDir⟩ ∈ root.entries →
      ∀ file ∈ yearOrder parseTimestamp parseUuid year yearDir, _ :=
    fun year yearDir member file isFile => year_named stored member
      ((perm_yearOrder (stored_year stored member)).subset isFile)
  have ordered : (walkOrder parseTimestamp parseUuid root).Pairwise fun file later =>
      later.key ≤ file.key := by
    refine pairwise_collectDirsDesc (yearOrder parseTimestamp parseUuid) (fun file => file.ts.year)
      (Nat.toDigits 10) named ?_ ?_
    · intro year yearDir member
      exact pairwise_yearOrder (stored_year stored member)
    · intro year yearDir member year' yearDir' member' file isFile later isLater lower
      apply key_le_of_position
      simp only [OffsetDateTime.position, Prod.Lex.toLex_lt_toLex]
      exact .inl lower
  have different := List.pairwise_map.mp (((perm_walkOrder stored).map _).nodup_iff.mpr distinct)
  exact ordered.imp₂ (fun file later lower apart => lt_of_le_of_ne lower (Ne.symm apart)) different

end All

end Files

/-! ## One page -/

section Walking

variable (pageSize : ℕ) (filters : Filters) (cursor : Option Cursor)

/-- The item of a file that is listed. -/
def RolloutFile.item (filters : Filters) (file : RolloutFile) : Option ThreadItem :=
  buildThreadItem filters file.path file.content

/-- Whether a file comes after the cursor. -/
def passes (file : RolloutFile) : Prop := ∀ anchor ∈ cursor, file.key < anchor

/-- The anchor has been passed by a file before, or it still is the cursor. -/
def Anchored (before : List RolloutFile) (anchor : AnchorState) : Prop :=
  if anchor.passed then cursor = none ∨ ∃ file ∈ before, passes cursor file
  else cursor = some (toLex (anchor.ts, anchor.id))

/-- What the walk knows after some files. -/
structure Reached (before : List RolloutFile) (walk : Walk) : Prop where
  scanned : walk.scannedFiles = before.length
  items : walk.visitor.items =
    (Keyset.after RolloutFile.key before cursor).filterMap (RolloutFile.item filters)
  bounded : walk.visitor.items.length ≤ pageSize
  open_ : walk.visitor.moreMatchesAvailable = false
  anchored : Anchored cursor before walk.visitor.anchorState

variable {pageSize filters cursor} {before files : List RolloutFile} {file : RolloutFile}

theorem shouldSkip_spec {anchor : AnchorState} (anchored : Anchored cursor before anchor)
    (older : ∀ earlier ∈ before, file.key < earlier.key) :
    ((anchor.shouldSkip file.ts file.id).1 = false ↔ passes cursor file) ∧
      Anchored cursor (before ++ [file]) (anchor.shouldSkip file.ts file.id).2 := by
  by_cases passed : anchor.passed
  · rw [Anchored, if_pos passed] at anchored
    rw [AnchorState.shouldSkip, if_pos passed, Anchored, if_pos passed]
    obtain rfl | ⟨earlier, member, earlierPasses⟩ := anchored
    · exact ⟨by simp [passes], .inl rfl⟩
    · refine ⟨iff_of_true rfl fun anchor isAnchor => ?_, .inr ⟨earlier, ?_, earlierPasses⟩⟩
      · exact (older earlier member).trans (earlierPasses anchor isAnchor)
      · exact List.mem_append_left _ member
  · rw [Anchored, if_neg passed] at anchored
    subst anchored
    have below : passes (some (toLex (anchor.ts, anchor.id))) file ↔
        file.ts < anchor.ts ∨ (file.ts = anchor.ts ∧ file.id < anchor.id) := by
      simp only [passes, Option.mem_some_iff, forall_eq', RolloutFile.key, Prod.Lex.toLex_lt_toLex]
    rw [AnchorState.shouldSkip, if_neg passed]
    split_ifs with lower
    · have filePasses := below.mpr lower
      refine ⟨iff_of_true rfl filePasses, ?_⟩
      exact .inr ⟨file, List.mem_append_right _ (List.mem_singleton_self file), filePasses⟩
    · refine ⟨iff_of_false (by decide) (mt below.mp lower), ?_⟩
      rw [Anchored, if_neg passed]

theorem after_concat (cursor : Option Cursor) (before : List RolloutFile) (file : RolloutFile) :
    (passes cursor file → Keyset.after RolloutFile.key (before ++ [file]) cursor =
      Keyset.after RolloutFile.key before cursor ++ [file]) ∧
    (¬ passes cursor file → Keyset.after RolloutFile.key (before ++ [file]) cursor =
      Keyset.after RolloutFile.key before cursor) := by
  cases cursor with
  | none => simp [passes, Keyset.after]
  | some anchor => simp +contextual [passes, Keyset.after]

/-- A file is read into the page or skipped, or the page is full. -/
theorem walkFile_spec {walk : Walk} (reached : Reached pageSize filters cursor before walk)
    (older : ∀ earlier ∈ before, file.key < earlier.key) (limited : before.length < maxScanFiles) :
    (∃ next, walkFile pageSize filters walk file = .ok next ∧
      Reached pageSize filters cursor (before ++ [file]) next) ∨
    ∃ stopped, walkFile pageSize filters walk file = .error stopped ∧
      stopped.visitor.items = walk.visitor.items ∧ stopped.visitor.items.length = pageSize ∧
      stopped.visitor.moreMatchesAvailable = true := by
  obtain ⟨passing, anchored⟩ := shouldSkip_spec reached.anchored older
  obtain ⟨included, excluded⟩ := after_concat cursor before file
  have inLimit : ¬ maxScanFiles < walk.scannedFiles + 1 := by
    rw [reached.scanned]
    omega
  have scanned : walk.scannedFiles + 1 = (before ++ [file]).length := by
    rw [reached.scanned, List.length_append, List.length_singleton]
  rw [walkFile, if_neg inLimit, FilesByCreatedAtVisitor.visit]
  split_ifs with capped
  · exact .inr ⟨_, rfl, rfl, reached.bounded.antisymm capped.2, rfl⟩
  generalize walk.visitor.anchorState.shouldSkip file.ts file.id = decision at passing anchored
  obtain ⟨skip, anchor⟩ := decision
  cases skip with
  | true =>
      refine .inl ⟨_, rfl, scanned, ?_, reached.bounded, reached.open_, anchored⟩
      have skips : ¬ passes cursor file := fun itPasses => by cases passing.mpr itPasses
      rw [excluded skips]
      exact reached.items
  | false =>
      simp only [Bool.false_eq_true, if_false]
      obtain filled | free := eq_or_ne walk.visitor.items.length pageSize
      · rw [if_pos filled]
        exact .inr ⟨_, rfl, rfl, filled, rfl⟩
      · rw [if_neg free]
        refine .inl ⟨_, rfl, scanned, ?_, ?_, reached.open_, anchored⟩
        · rw [included (passing.mp rfl), List.filterMap_append, ← reached.items]
          cases item : buildThreadItem filters file.path file.content <;>
            simp [RolloutFile.item, item]
        · have room := reached.bounded.lt_of_ne free
          rw [List.length_append]
          exact (Nat.add_le_add_left (Option.length_toList_le) _).trans room

/-- The walk has ended: the page holds what was seen, and unless it is full, nothing is left. -/
def Ended (pageSize : ℕ) (filters : Filters) (cursor : Option Cursor) (files : List RolloutFile)
    (visitor : FilesByCreatedAtVisitor) : Prop :=
  ∃ seen rest, seen ++ rest = files.take maxScanFiles ∧
    visitor.items =
      (Keyset.after RolloutFile.key seen cursor).filterMap (RolloutFile.item filters) ∧
    visitor.items.length ≤ pageSize ∧
    (visitor.moreMatchesAvailable = false → rest = []) ∧
    (visitor.moreMatchesAvailable = true → visitor.items.length = pageSize)

theorem walkFiles_ended {walk : Walk} (reached : Reached pageSize filters cursor before walk)
    (sorted : (before ++ files).Pairwise fun file later => later.key < file.key)
    (limited : before.length ≤ maxScanFiles) :
    Ended pageSize filters cursor (before ++ files)
      (walkFiles pageSize filters files walk).walk.visitor := by
  induction files generalizing before walk with
  | nil =>
      refine ⟨before, [], ?_, reached.items, reached.bounded, fun _ => rfl, fun more => ?_⟩
      · rw [List.take_of_length_le (by simpa using limited)]
      · cases reached.open_.symm.trans more
  | cons file files ih =>
      have older : ∀ earlier ∈ before, file.key < earlier.key :=
        fun earlier member => (List.pairwise_append.mp sorted).2.2 earlier member file
          List.mem_cons_self
      obtain limited | full := limited.lt_or_eq
      · rw [walkFiles, List.foldlM_cons]
        obtain ⟨next, stepped, reached⟩ | ⟨stopped, stepped, items, filled, more⟩ :=
          walkFile_spec reached older limited
        · rw [stepped, List.append_cons]
          refine ih reached (List.append_cons _ _ _ ▸ sorted) ?_
          rw [List.length_append, List.length_singleton]
          exact limited
        · rw [stepped]
          refine ⟨before, (file :: files).take (maxScanFiles - before.length), ?_,
            items.trans reached.items, filled.le, fun none => ?_, fun _ => filled⟩
          · rw [List.take_append, List.take_of_length_le limited.le]
          · cases none.symm.trans more
      · have unchanged := (walkFiles_full pageSize filters
          (full.symm.trans reached.scanned.symm).le (file :: files)).2
        rw [unchanged]
        refine ⟨before, [], ?_, reached.items, reached.bounded, fun _ => rfl, fun more => ?_⟩
        · rw [← full, List.take_left', List.append_nil]
          rfl
        · cases reached.open_.symm.trans more

end Walking

section Pages

variable (parseTimestamp : Text → Option OffsetDateTime) (parseUuid : Text → Option Uuid)
  {filters : Filters} {root : Root} {file : RolloutFile} {item : ThreadItem}

/-- What the name of its file says of an item. -/
def named (item : ThreadItem) : Option (OffsetDateTime × Uuid) :=
  item.path.getLast?.bind (parseTimestampUuidFromFilename parseTimestamp parseUuid)

/-- Where an item stands in a listing. -/
def itemKey (item : ThreadItem) : Cursor :=
  toLex ((named parseTimestamp parseUuid item).getD (AnchorState.unixEpoch, 0))

def ThreadsPage.page (page : ThreadsPage) : Keyset.Page ThreadItem Cursor :=
  { items := page.items, next := page.nextCursor }

/-- The items of the files that the walk reaches before its limit. -/
def reachedItems (filters : Filters) (root : Root) : List ThreadItem :=
  ((walkOrder parseTimestamp parseUuid root).take maxScanFiles).filterMap (RolloutFile.item filters)

variable {parseTimestamp parseUuid}

theorem mem_rolloutFiles (member : file ∈ rolloutFiles parseTimestamp parseUuid root) :
    file.path.getLast?.bind (parseTimestampUuidFromFilename parseTimestamp parseUuid) =
      some (file.ts, file.id) := by
  obtain ⟨year, _, inYear⟩ := List.mem_flatMap.mp member
  obtain ⟨month, _, inMonth⟩ := List.mem_flatMap.mp inYear
  obtain ⟨day, _, inDay⟩ := List.mem_flatMap.mp inMonth
  obtain ⟨name, path, parsed⟩ := mem_dayFiles inDay
  rw [path, List.getLast?_concat, Option.bind_some, parsed]

theorem named_of_item (member : file ∈ rolloutFiles parseTimestamp parseUuid root)
    (listed : file.item filters = some item) :
    named parseTimestamp parseUuid item = some (file.ts, file.id) := by
  rw [named, path_of_buildThreadItem listed]
  exact mem_rolloutFiles member

theorem itemKey_of_item (member : file ∈ rolloutFiles parseTimestamp parseUuid root)
    (listed : file.item filters = some item) :
    itemKey parseTimestamp parseUuid item = file.key := by
  rw [itemKey, named_of_item member listed]
  rfl

theorem buildNextCursor_eq {items : List ThreadItem}
    (allNamed : ∀ item ∈ items, (named parseTimestamp parseUuid item).isSome) :
    buildNextCursor parseTimestamp parseUuid items =
      items.getLast?.map (itemKey parseTimestamp parseUuid) := by
  rw [buildNextCursor]
  cases last : items.getLast? with
  | none => rfl
  | some item =>
      obtain ⟨⟨ts, id⟩, isNamed⟩ :=
        Option.isSome_iff_exists.mp (allNamed item (List.mem_of_getLast? last))
      rw [Option.map_some, itemKey, isNamed]
      obtain ⟨name, isLast, parsed⟩ := Option.bind_eq_some_iff.mp isNamed
      simp [isLast, parsed]

section Ordered

variable (stored : Stored (rolloutFiles parseTimestamp parseUuid root))
  (distinct : Distinct (rolloutFiles parseTimestamp parseUuid root))
include stored

theorem itemKey_of_reached
    (member : file ∈ (walkOrder parseTimestamp parseUuid root).take maxScanFiles)
    (listed : file.item filters = some item) : itemKey parseTimestamp parseUuid item = file.key :=
  itemKey_of_item ((perm_walkOrder stored).subset (List.mem_of_mem_take member)) listed

include distinct

theorem pairwise_reachedItems :
    (reachedItems parseTimestamp parseUuid filters root).Pairwise fun item later =>
      itemKey parseTimestamp parseUuid later < itemKey parseTimestamp parseUuid item := by
  have ordered := (pairwise_walkOrder stored distinct).sublist (List.take_sublist maxScanFiles _)
  refine List.pairwise_filterMap.mpr (ordered.imp_of_mem ?_)
  intro file later member member' lower item listed item' listed'
  rw [itemKey_of_reached stored member listed, itemKey_of_reached stored member' listed']
  exact lower

/-- The walk of a page ends with a piece of the files that are reached. -/
theorem walkRolloutFiles_ended (pageSize : ℕ) (filters : Filters) (cursor : Option Cursor) :
    Ended pageSize filters cursor (walkOrder parseTimestamp parseUuid root)
      (walkRolloutFiles parseTimestamp parseUuid pageSize filters root
        { scannedFiles := 0
          visitor := { items := [], anchorState := .new cursor,
                       moreMatchesAvailable := false } }).walk.visitor := by
  rw [(walkRolloutFiles_agree parseTimestamp parseUuid pageSize filters root _).visitor]
  have anchored : Anchored cursor [] (AnchorState.new cursor) := by
    cases cursor with
    | none => exact .inl rfl
    | some cursor => rfl
  have nothing : Keyset.after RolloutFile.key [] cursor = [] := by cases cursor <;> rfl
  have started : Reached pageSize filters cursor []
      { scannedFiles := 0
        visitor := { items := [], anchorState := .new cursor, moreMatchesAvailable := false } } :=
    ⟨rfl, by rw [nothing, List.filterMap_nil], Nat.zero_le _, rfl, anchored⟩
  exact walkFiles_ended started (pairwise_walkOrder stored distinct) (Nat.zero_le _)

/-- Every page is a piece of what is left. -/
theorem isPage {pageSize : ℕ} (positive : 1 ≤ pageSize) (cursor : Option Cursor) :
    Keyset.IsPage (itemKey parseTimestamp parseUuid)
      (reachedItems parseTimestamp parseUuid filters root) pageSize cursor
      (traverseDirectoriesForPathsCreated parseTimestamp parseUuid pageSize filters root
        cursor).page := by
  obtain ⟨seen, rest, split, items, bounded, finished, filled⟩ :=
    walkRolloutFiles_ended stored distinct pageSize filters cursor
  rw [ThreadsPage.page, traverseDirectoriesForPathsCreated]
  generalize (walkRolloutFiles parseTimestamp parseUuid pageSize filters root _).walk = walk
    at items bounded finished filled ⊢
  have left : Keyset.after (itemKey parseTimestamp parseUuid)
      (reachedItems parseTimestamp parseUuid filters root) cursor =
      walk.visitor.items ++
        (Keyset.after RolloutFile.key rest cursor).filterMap (RolloutFile.item filters) := by
    rw [reachedItems, Keyset.after_filterMap fun file member item =>
      itemKey_of_reached stored member, ← split, Keyset.after_append, List.filterMap_append, items]
  have allNamed : ∀ item ∈ walk.visitor.items, (named parseTimestamp parseUuid item).isSome := by
    intro item member
    rw [items] at member
    obtain ⟨file, isSeen, listed⟩ := List.mem_filterMap.mp member
    have isReached : file ∈ (walkOrder parseTimestamp parseUuid root).take maxScanFiles :=
      split ▸ List.mem_append_left rest ((Keyset.after_sublist seen cursor).subset isSeen)
    have isFile := (perm_walkOrder stored).subset (List.mem_of_mem_take isReached)
    rw [named_of_item isFile listed, Option.isSome_some]
  have cursorOf := buildNextCursor_eq allNamed
  refine ⟨⟨_, left.symm⟩, bounded, fun noCursor => ?_, fun next isNext => ?_⟩
  · dsimp only at noCursor ⊢
    rw [cursorOf] at noCursor
    split_ifs at noCursor with more
    · have empty := List.getLast?_eq_none_iff.mp (Option.map_eq_none_iff.mp noCursor)
      obtain more | ⟨_, nonempty⟩ := more
      · rw [← filled more, empty] at positive
        cases positive
      · exact absurd empty nonempty
    · rw [left, finished (Bool.eq_false_of_not_eq_true fun more' => more (.inl more'))]
      cases cursor <;> simp [Keyset.after]
  · dsimp only at isNext
    rw [cursorOf] at isNext
    split_ifs at isNext with more
    exact Option.map_eq_some_iff.mp isNext

end Ordered

end Pages

end CodexPilot.Sessions
