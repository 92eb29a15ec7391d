import CodexPilot.Sessions.Paging

/-!
# Whether all sessions are listed

The pages together are the sessions among the newest 10,000 files.  So following the cursors lists
every session unless one has that many newer files.
-/

namespace CodexPilot.Sessions

open RustStd Tables

/-- The filters of a listing. -/
def listingFilters (allowedSources : List Text) (modelProviders : Option (List Text))
    (defaultProvider : Text) : Filters :=
  { allowedSources, providerMatcher := modelProviders.bind (ProviderMatcher.new · defaultProvider) }

/-! ## A crowded day -/

section Crowded

/-- With a zero in place of every digit. -/
def shape (text : Text) : Text := text.map fun c => if c.isDigit then '0' else c

/-- The format `[year]-[month]-[day]T[hour]-[minute]-[second]`. -/
def readTimestamp (text : Text) : Option OffsetDateTime :=
  let number (start count : ℕ) := Nat.ofDigitChars 10 ((text.drop start).take count) 0
  if valid : number 0 4 ≤ 9999 ∧ number 5 2 ≤ 12 ∧ number 8 2 ≤ 31 then
    if shape text = "0000-00-00T00-00-00".toList then
      some {
        year := number 0 4
        month := number 5 2
        day := number 8 2
        second := number 11 2 * 3600 + number 14 2 * 60 + number 17 2
        valid }
    else none
  else none

/-- An id whose digits are decimal, with its dashes. -/
def readUuid (text : Text) : Option Uuid :=
  if shape text = "00000000-0000-0000-0000-000000000000".toList then
    some (Nat.ofDigitChars 16 (text.filter Char.isDigit) 0)
  else none

/-- A number with at least twelve digits. -/
def twelveDigits (number : ℕ) : Text :=
  let digits := Nat.toDigits 10 number
  List.replicate (12 - digits.length) '0' ++ digits

def idFront : Text := "00000000-0000-4000-8000-".toList

def sessionId (number : ℕ) : Text := idFront ++ twelveDigits number

theorem isDigit_of_mem_twelveDigits {number : ℕ} {c : Char} (member : c ∈ twelveDigits number) :
    c.isDigit = true := by
  obtain zero | digit := List.mem_append.mp member
  · rw [(List.mem_replicate.mp zero).2]
    rfl
  · exact Nat.isDigit_of_mem_toDigits (by decide) (by decide) digit

theorem length_twelveDigits {number : ℕ} (small : number < 1000000000000) :
    (twelveDigits number).length = 12 := by
  have digits : (Nat.toDigits 10 number).length ≤ 12 :=
    (Nat.length_toDigits_le_iff (by decide) (by decide)).mpr small
  simp only [twelveDigits, List.length_append, List.length_replicate]
  omega

theorem twelveDigits_injective : Function.Injective twelveDigits := by
  intro number other same
  have value : ∀ number, Nat.ofDigitChars 10 (twelveDigits number) 0 = number := by
    simp [twelveDigits, Nat.ofDigitChars_append]
  rw [← value number, same, value]

/-- Texts of as many decimal digits are equal when they are the same number in base 16. -/
theorem ofDigitChars_injective {digits others : Text} {start start' : ℕ}
    (sameLength : digits.length = others.length) (decimal : ∀ c ∈ digits, c.isDigit = true)
    (decimal' : ∀ c ∈ others, c.isDigit = true)
    (same : Nat.ofDigitChars 16 digits start = Nat.ofDigitChars 16 others start') :
    start = start' ∧ digits = others := by
  induction digits generalizing others start start' with
  | nil =>
      obtain rfl := List.length_eq_zero_iff.mp sameLength.symm
      exact ⟨same, rfl⟩
  | cons c digits ih =>
      cases others with
      | nil => cases sameLength
      | cons c' others =>
          rw [Nat.ofDigitChars_cons, Nat.ofDigitChars_cons] at same
          obtain ⟨sameStart, rfl⟩ := ih (Nat.succ.inj sameLength)
            (fun other member => decimal other (List.mem_cons_of_mem c member))
            (fun other member => decimal' other (List.mem_cons_of_mem c' member)) same
          have digit := Char.isDigit_iff_toNat.mp (decimal c List.mem_cons_self)
          have digit' := Char.isDigit_iff_toNat.mp (decimal' c' List.mem_cons_self)
          have zero : '0'.toNat = 48 := rfl
          have nine : '9'.toNat = 57 := rfl
          rw [zero, nine] at digit digit'
          rw [zero] at sameStart
          have sameChar : c.toNat = c'.toNat := by omega
          exact ⟨by omega, by rw [Char.toNat_inj.mp sameChar]⟩

/-- The id that is read from its text. -/
def uuidOf (number : ℕ) : Uuid :=
  Nat.ofDigitChars 16 ((sessionId number).filter Char.isDigit) 0

theorem readUuid_sessionId {number : ℕ} (small : number < 1000000000000) :
    readUuid (sessionId number) = some (uuidOf number) := by
  have zeros : shape (twelveDigits number) = List.replicate 12 '0' := by
    rw [← length_twelveDigits small, shape, List.map_eq_replicate_iff]
    intro c member
    rw [if_pos (isDigit_of_mem_twelveDigits member)]
  refine if_pos ?_
  rw [shape] at zeros
  rw [shape, sessionId, List.map_append, zeros]
  decide

theorem uuidOf_injective {number other : ℕ} (small : number < 1000000000000)
    (small' : other < 1000000000000) (same : uuidOf number = uuidOf other) : number = other := by
  have digits : ∀ number, (twelveDigits number).filter Char.isDigit = twelveDigits number :=
    fun number => List.filter_eq_self.mpr fun c => isDigit_of_mem_twelveDigits
  rw [uuidOf, uuidOf, sessionId, sessionId, List.filter_append, List.filter_append, digits, digits,
    Nat.ofDigitChars_append, Nat.ofDigitChars_append] at same
  refine twelveDigits_injective (ofDigitChars_injective ?_ ?_ ?_ same).2
  · rw [length_twelveDigits small, length_twelveDigits small']
  all_goals exact fun c => isDigit_of_mem_twelveDigits

/-- No part of an id after a dash is an id. -/
theorem readUuid_split {number : ℕ} (small : number < 1000000000000) :
    ∀ split ∈ dashSplits (sessionId number), readUuid split.2 = none := by
  intro split member
  have shorter := length_lt_of_mem_dashSplits member
  rw [sessionId, List.length_append, length_twelveDigits small] at shorter
  refine if_neg fun same => ?_
  have lengths := congrArg List.length same
  rw [shape, List.length_map] at lengths
  exact absurd (lengths ▸ shorter) (by decide)

def noon : OffsetDateTime :=
  { year := 2025, month := 1, day := 3, second := 43200, valid := by decide }

def noonText : Text := "2025-01-03T12-00-00".toList

/-- A session with a first message. -/
def recorded : Content where
  lines := some [
    .record noonText (.sessionMeta {
      id := noonText, timestamp := noonText, cwd := "/".toList, cliVersion := "1".toList,
      source := "cli".toList, agentNickname := none, agentRole := none, modelProvider := none,
      git := none }),
    .record noonText (.eventMsg (.userMessage "Hello".toList))]
  modified := none

def crowdedFile (number : ℕ) : RolloutFile where
  ts := noon
  id := uuidOf number
  path := dateDirectory noon ++ [fileName noonText (sessionId number)]
  content := recorded

theorem parse_crowdedFile {number : ℕ} (small : number < 1000000000000) :
    parseTimestampUuidFromFilename readTimestamp readUuid (fileName noonText (sessionId number)) =
      some (noon, uuidOf number) :=
  parse_fileName (by decide) (readUuid_sessionId small) (readUuid_split small)

section Directory

variable (count : ℕ) (few : count ≤ 1000000000000)

/-- A day on which that many sessions begin at noon. -/
def crowdedDay : DayDirectory where
  entries := (List.range count).map fun number => ⟨fileName noonText (sessionId number), recorded⟩
  nodupKeys := by
    rw [List.NodupKeys, List.keys, List.map_map]
    refine List.nodup_range.map_on fun number member other member' same => ?_
    have small := (List.mem_range.mp member).trans_le few
    have small' := (List.mem_range.mp member').trans_le few
    have parsed := (parse_crowdedFile small).symm.trans
      ((congrArg _ same).trans (parse_crowdedFile small'))
    injection parsed with parsed
    injection parsed with _ sameId
    exact uuidOf_injective small small' sameId

def crowdedRoot : Root :=
  AList.singleton (Nat.toDigits 10 2025)
    (AList.singleton (twoDigits 1) (AList.singleton (twoDigits 3) (crowdedDay count few)))

theorem rolloutFiles_crowdedRoot :
    rolloutFiles readTimestamp readUuid (crowdedRoot count few) =
      (List.range count).map crowdedFile := by
  have day : dayFiles readTimestamp readUuid (dateDirectory noon) (crowdedDay count few) =
      (List.range count).map crowdedFile := by
    rw [dayFiles, crowdedDay, List.filterMap_map, ← List.filterMap_eq_map]
    refine List.filterMap_congr fun number member => ?_
    have parsed := parse_crowdedFile ((List.mem_range.mp member).trans_le few)
    have named := shape_of_name "rollout-".toList (noonText ++ '-' :: sessionId number)
      ".jsonl".toList
    exact (if_pos named).trans (congrArg (Option.map _) parsed)
  have onlyDay : rolloutFiles readTimestamp readUuid (crowdedRoot count few) =
      dayFiles readTimestamp readUuid (dateDirectory noon) (crowdedDay count few) ++
        [] ++ [] ++ [] :=
    rfl
  rw [onlyDay, List.append_nil, List.append_nil, List.append_nil, day]

theorem stored_crowdedRoot :
    Stored (rolloutFiles readTimestamp readUuid (crowdedRoot count few)) := by
  rw [rolloutFiles_crowdedRoot]
  intro file member
  obtain ⟨number, _, rfl⟩ := List.mem_map.mp member
  exact List.dropLast_concat

theorem distinct_crowdedRoot :
    Distinct (rolloutFiles readTimestamp readUuid (crowdedRoot count few)) := by
  rw [rolloutFiles_crowdedRoot, Distinct, List.map_map]
  refine List.nodup_range.map_on fun number member other member' same => ?_
  have sameId : uuidOf number = uuidOf other := congrArg (fun key => (ofLex key).2) same
  exact uuidOf_injective ((List.mem_range.mp member).trans_le few)
    ((List.mem_range.mp member').trans_le few) sameId

end Directory

theorem item_crowdedFile (number : ℕ) :
    ((crowdedFile number).item (listingFilters [] none [])).isSome = true := rfl

end Crowded

/-! ## All pages -/

section Pages

variable {parseTimestamp : Text → Option OffsetDateTime} {parseUuid : Text → Option Uuid}
  {filters : Filters} {root : Root}

/-- Following the cursors from the start lists every file that has an item once, from the newest to
the oldest, with no page too long. -/
def ListsEverySession (page : Option Cursor → ThreadsPage) (filters : Filters) (pageSize : ℕ)
    (files : List RolloutFile) : Prop :=
  ∃ rounds pages, Keyset.follow (fun cursor => (page cursor).page) rounds none = some pages ∧
    (∀ items ∈ pages, items.length ≤ pageSize) ∧
    ∃ listed : List RolloutFile, listed.Perm (files.filter fun file => (file.item filters).isSome) ∧
      listed.Pairwise (fun file later => later.key < file.key) ∧
      pages.flatten = listed.filterMap (RolloutFile.item filters)

/-- Files without an item do not matter to the items. -/
theorem filterMap_filter_isSome (filters : Filters) (files : List RolloutFile) :
    (files.filter fun file => (file.item filters).isSome).filterMap (RolloutFile.item filters) =
      files.filterMap (RolloutFile.item filters) := by
  rw [List.filterMap_filter]
  refine List.filterMap_congr fun file _ => ?_
  cases item : file.item filters with
  | none => rw [ite_self]
  | some item => rfl

section Ordered

variable (stored : Stored (rolloutFiles parseTimestamp parseUuid root))
  (distinct : Distinct (rolloutFiles parseTimestamp parseUuid root))
include stored distinct

/-- All sessions are listed exactly when those beyond the limit are none. -/
theorem listsEverySession_iff_drop {pageSize : ℕ} (positive : 1 ≤ pageSize) :
    ListsEverySession
        (traverseDirectoriesForPathsCreated parseTimestamp parseUuid pageSize filters root) filters
        pageSize (rolloutFiles parseTimestamp parseUuid root) ↔
      ∀ file ∈ (walkOrder parseTimestamp parseUuid root).drop maxScanFiles,
        file.item filters = none := by
  obtain ⟨rounds, pages, followed, all, bounded⟩ := Keyset.exists_follow
    (pairwise_reachedItems stored distinct) (isPage stored distinct positive) none
  have everything : (walkOrder parseTimestamp parseUuid root).filterMap (RolloutFile.item filters) =
      reachedItems parseTimestamp parseUuid filters root ++
        ((walkOrder parseTimestamp parseUuid root).drop maxScanFiles).filterMap
          (RolloutFile.item filters) := by
    rw [reachedItems, ← List.filterMap_append, List.take_append_drop]
  have sessions := (perm_walkOrder stored).filter fun file => (file.item filters).isSome
  rw [← List.filterMap_eq_nil_iff]
  constructor
  · rintro ⟨rounds', pages', followed', _, listed, isListed, _, items⟩
    obtain rfl := Keyset.follow_unique followed followed'
    have same := (isListed.trans sessions.symm).filterMap (RolloutFile.item filters)
    have reached : listed.filterMap (RolloutFile.item filters) =
        reachedItems parseTimestamp parseUuid filters root := items.symm.trans all
    rw [filterMap_filter_isSome, everything, reached] at same
    have lengths := same.length_eq
    rw [List.length_append] at lengths
    exact List.length_eq_zero_iff.mp (Nat.add_eq_left.mp lengths.symm)
  · intro nothing
    rw [nothing, List.append_nil] at everything
    refine ⟨rounds, pages, followed, bounded, _, sessions, ?_, ?_⟩
    · exact (pairwise_walkOrder stored distinct).filter _
    · rw [filterMap_filter_isSome, everything]
      exact all

/-- The limit leaves out no session when fewer files than the limit are newer than the session. -/
theorem drop_iff_newer :
    (∀ file ∈ (walkOrder parseTimestamp parseUuid root).drop maxScanFiles,
        file.item filters = none) ↔
      ∀ file ∈ rolloutFiles parseTimestamp parseUuid root, (file.item filters).isSome →
        ((rolloutFiles parseTimestamp parseUuid root).filter fun other =>
          file.key < other.key).length < maxScanFiles := by
  have sorted := pairwise_walkOrder stored distinct
  have reached : ∀ file ∈ walkOrder parseTimestamp parseUuid root,
      file ∈ (walkOrder parseTimestamp parseUuid root).take maxScanFiles ↔
        ((rolloutFiles parseTimestamp parseUuid root).filter fun other =>
          file.key < other.key).length < maxScanFiles := by
    intro file member
    rw [Keyset.mem_take_iff sorted member, ((perm_walkOrder stored).filter _).length_eq]
  constructor
  · intro beyond file member listed
    have inOrder := (perm_walkOrder stored).mem_iff.mpr member
    refine (reached file inOrder).mp ?_
    rw [← List.take_append_drop maxScanFiles (walkOrder parseTimestamp parseUuid root)] at inOrder
    refine (List.mem_append.mp inOrder).resolve_right fun isBeyond => ?_
    rw [beyond file isBeyond] at listed
    cases listed
  · intro few file isBeyond
    have inOrder := List.mem_of_mem_drop isBeyond
    rw [← Option.not_isSome_iff_eq_none]
    intro listed
    have isReached := (reached file inOrder).mpr
      (few file ((perm_walkOrder stored).mem_iff.mp inOrder) listed)
    rw [← List.take_append_drop maxScanFiles (walkOrder parseTimestamp parseUuid root)] at sorted
    exact lt_irrefl _ ((List.pairwise_append.mp sorted).2.2 file isReached file isBeyond)

end Ordered

/-- Following the cursors lists all sessions exactly when each has fewer than 10,000 newer files. -/
theorem listsEverySession_iff {pageSize : ℕ}
    (stored : Stored (rolloutFiles parseTimestamp parseUuid root))
    (distinct : Distinct (rolloutFiles parseTimestamp parseUuid root)) (positive : 1 ≤ pageSize)
    (allowedSources : List Text) (modelProviders : Option (List Text)) (defaultProvider : Text) :
    ListsEverySession
        (fun cursor => getThreads parseTimestamp parseUuid (some root) pageSize cursor
          allowedSources modelProviders defaultProvider)
        (listingFilters allowedSources modelProviders defaultProvider) pageSize
        (rolloutFiles parseTimestamp parseUuid root) ↔
      ∀ file ∈ rolloutFiles parseTimestamp parseUuid root,
        (file.item (listingFilters allowedSources modelProviders defaultProvider)).isSome →
        ((rolloutFiles parseTimestamp parseUuid root).filter fun other =>
          file.key < other.key).length < maxScanFiles :=
  (listsEverySession_iff_drop stored distinct positive).trans (drop_iff_newer stored distinct)

end Pages

theorem listsEverySession_of_two :
    ListsEverySession
      (fun cursor => getThreads readTimestamp readUuid (some (crowdedRoot 2 (by decide))) 1
        cursor [] none []) (listingFilters [] none []) 1
      (rolloutFiles readTimestamp readUuid (crowdedRoot 2 (by decide))) := by
  refine (listsEverySession_iff (stored_crowdedRoot 2 _) (distinct_crowdedRoot 2 _) le_rfl [] none
    []).mpr fun file _ _ => ?_
  refine (List.length_filter_le _ _).trans_lt ?_
  rw [rolloutFiles_crowdedRoot, List.length_map, List.length_range]
  decide

/-- The oldest of 10,001 sessions is not listed. -/
theorem oldest_not_listed :
    Stored (rolloutFiles readTimestamp readUuid (crowdedRoot 10001 (by decide))) ∧
      Distinct (rolloutFiles readTimestamp readUuid (crowdedRoot 10001 (by decide))) ∧
      ¬ ListsEverySession
        (fun cursor => getThreads readTimestamp readUuid (some (crowdedRoot 10001 (by decide))) 1
          cursor [] none []) (listingFilters [] none []) 1
        (rolloutFiles readTimestamp readUuid (crowdedRoot 10001 (by decide))) := by
  refine ⟨stored_crowdedRoot 10001 _, distinct_crowdedRoot 10001 _, fun lists => ?_⟩
  have beyond := (listsEverySession_iff_drop (stored_crowdedRoot 10001 _)
    (distinct_crowdedRoot 10001 _) le_rfl).mp lists
  have sessions := perm_walkOrder (stored_crowdedRoot 10001 (by decide))
  have nonempty : 0 < ((walkOrder readTimestamp readUuid (crowdedRoot 10001 (by decide))).drop
      maxScanFiles).length := by
    rw [List.length_drop, sessions.length_eq, rolloutFiles_crowdedRoot, List.length_map,
      List.length_range]
    decide
  obtain ⟨file, member⟩ := List.exists_mem_of_length_pos nonempty
  have isFile := sessions.subset (List.mem_of_mem_drop member)
  rw [rolloutFiles_crowdedRoot] at isFile
  obtain ⟨number, _, rfl⟩ := List.mem_map.mp isFile
  have listed := item_crowdedFile number
  rw [listingFilters, beyond _ member] at listed
  cases listed

end CodexPilot.Sessions
