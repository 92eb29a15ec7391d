import CodexPilot.Composer.Words

/-!
# Truncation in the middle of a string

A string over its budget keeps a prefix and a suffix, with a marker between them that counts what
was taken out.  One pass over the characters finds both cuts: a character that ends within the
budget of the beginning is kept, one that starts behind the target of the tail is kept, and the
others are counted.
-/

namespace CodexPilot.Strings

open RustStd Composer

/-- `APPROX_BYTES_PER_TOKEN`. -/
def approxBytesPerToken : ℕ := 4

/-- `approx_token_count`, for a number of bytes as in `approx_tokens_from_byte_count`. -/
def approxTokensFromByteCount (bytes : ℕ) : ℕ :=
  (bytes + (approxBytesPerToken - 1)) / approxBytesPerToken

/-- `approx_bytes_for_tokens`. -/
def approxBytesForTokens (tokens : ℕ) : ℕ := tokens * approxBytesPerToken

/-- The variables of the loop of `split_string`. -/
structure Split where
  /-- `prefix_end`. -/
  prefixEnd : ℕ
  /-- `suffix_start`. -/
  suffixStart : ℕ
  /-- `removed_chars`. -/
  removedChars : ℕ
  /-- `suffix_started`. -/
  suffixStarted : Bool
deriving DecidableEq

namespace Split

/-- The variables in front of the loop. -/
def initial (total : ℕ) : Split where
  prefixEnd := 0
  suffixStart := total
  removedChars := 0
  suffixStarted := false

/-- One iteration of the loop of `split_string`. -/
def noteChar (beginningBytes tailStartTarget : ℕ) (split : Split) : ℕ × Char → Split
  | (index, c) =>
      let charEnd := index + c.utf8Size
      if charEnd ≤ beginningBytes then { split with prefixEnd := charEnd }
      else if tailStartTarget ≤ index then
        if split.suffixStarted then split
        else { split with suffixStart := index, suffixStarted := true }
      else { split with removedChars := split.removedChars + 1 }

end Split

/-- `split_string`; no result stands for a cut inside of a character. -/
def splitString (text : Text) (beginningBytes endBytes : ℕ) : Option (ℕ × Text × Text) :=
  if text = [] then some (0, [], [])
  else
    let total := len text
    let tailStartTarget := total - endBytes
    let split := (charIndices text).foldl (Split.noteChar beginningBytes tailStartTarget)
      (Split.initial total)
    let suffixStart :=
      if split.suffixStart < split.prefixEnd then split.prefixEnd else split.suffixStart
    do
      let before ← get text ⟨0, split.prefixEnd⟩
      let after ← get text ⟨suffixStart, total⟩
      return (split.removedChars, before, after)

/-- `split_budget`. -/
def splitBudget (budget : ℕ) : ℕ × ℕ :=
  let left := budget / 2
  (left, budget - left)

/-- `format_truncation_marker`. -/
def formatTruncationMarker (useTokens : Bool) (removedCount : ℕ) : Text :=
  if useTokens then "…".toList ++ Nat.toDigits 10 removedCount ++ " tokens truncated…".toList
  else "…".toList ++ Nat.toDigits 10 removedCount ++ " chars truncated…".toList

theorem formatTruncationMarker_eq (useTokens : Bool) (removedCount : ℕ) :
    formatTruncationMarker useTokens removedCount =
      "…".toList ++ Nat.toDigits 10 removedCount ++
        (if useTokens then " tokens truncated…" else " chars truncated…").toList := by
  cases useTokens <;> rfl

/-- `removed_units`. -/
def removedUnits (useTokens : Bool) (removedBytes removedChars : ℕ) : ℕ :=
  if useTokens then approxTokensFromByteCount removedBytes else removedChars

/-- `assemble_truncated_output`. -/
def assembleTruncatedOutput (before after marker : Text) : Text := before ++ (marker ++ after)

/-- `truncate_with_byte_estimate`. -/
def truncateWithByteEstimate (text : Text) (maxBytes : ℕ) (useTokens : Bool) : Option Text :=
  if text = [] then some []
  else
    let totalChars := text.length
    if maxBytes = 0 then
      some (formatTruncationMarker useTokens (removedUnits useTokens (len text) totalChars))
    else if len text ≤ maxBytes then some text
    else
      let totalBytes := len text
      let (leftBudget, rightBudget) := splitBudget maxBytes
      do
        let (removedChars, left, right) ← splitString text leftBudget rightBudget
        let marker := formatTruncationMarker useTokens
          (removedUnits useTokens (totalBytes - maxBytes) removedChars)
        return assembleTruncatedOutput left right marker

/-- `truncate_middle_chars`. -/
def truncateMiddleChars (text : Text) (maxBytes : ℕ) : Option Text :=
  truncateWithByteEstimate text maxBytes false

/-- `truncate_middle_with_token_budget`. -/
def truncateMiddleWithTokenBudget (text : Text) (maxTokens : ℕ) : Option (Text × Option ℕ) :=
  if text = [] then some ([], none)
  else if 0 < maxTokens ∧ len text ≤ approxBytesForTokens maxTokens then some (text, none)
  else do
    let truncated ← truncateWithByteEstimate text (approxBytesForTokens maxTokens) true
    let totalTokens := approxTokensFromByteCount (len text)
    return if truncated = text then (truncated, none) else (truncated, some totalTokens)

/-! ## One pass over the characters -/

section Loop

variable {beginningBytes tailStartTarget total : ℕ} {split : Split}
  {seen before middle after : Text}

/-- The characters read so far are three pieces: those kept in front, those counted, and those kept
behind. -/
structure Accounts (beginningBytes tailStartTarget total : ℕ) (seen : Text) (split : Split)
    (before middle after : Text) : Prop where
  pieces : seen = before ++ (middle ++ after)
  prefixEnd : split.prefixEnd = len before
  removedChars : split.removedChars = middle.length
  within : len before ≤ beginningBytes
  beyond : middle ++ after ≠ [] → beginningBytes < len seen
  unstarted : split.suffixStarted = false → after = [] ∧ split.suffixStart = total
  started : split.suffixStarted = true → after ≠ [] ∧
    split.suffixStart = len before + len middle ∧ tailStartTarget ≤ len before + len middle

/-- The next character goes to one of the pieces. -/
theorem Accounts.noteChar
    (accounts : Accounts beginningBytes tailStartTarget total seen split before middle after)
    (c : Char) :
    ∃ before middle after, Accounts beginningBytes tailStartTarget total (seen ++ [c])
      (split.noteChar beginningBytes tailStartTarget (len seen, c)) before middle after := by
  have wide := Char.utf8Size_pos c
  have grown : len (seen ++ [c]) = len seen + c.utf8Size := by
    rw [len_append]
    rfl
  have pieces := accounts.pieces
  rw [Split.noteChar]
  split
  case isTrue fits =>
    -- The character ends within the first budget, so none was counted or kept behind before it.
    have none : middle ++ after = [] := by
      by_contra some
      have beyond := accounts.beyond some
      omega
    obtain ⟨rfl, rfl⟩ := List.append_eq_nil_iff.mp none
    obtain rfl : seen = before := by simpa using pieces
    exact ⟨seen ++ [c], [], [],
      { pieces := (List.append_nil _).symm
        prefixEnd := grown.symm
        removedChars := accounts.removedChars
        within := grown.trans_le fits
        beyond := fun some => absurd rfl some
        unstarted := accounts.unstarted
        started := fun begun => absurd rfl (accounts.started begun).1 }⟩
  case isFalse beyond =>
    have beyond : beginningBytes < len (seen ++ [c]) := by omega
    split
    case isTrue kept =>
      have longer : seen ++ [c] = before ++ (middle ++ (after ++ [c])) := by simp [pieces]
      cases begun : split.suffixStarted with
      | true =>
          obtain ⟨-, starts, target⟩ := accounts.started begun
          exact ⟨before, middle, after ++ [c],
            { pieces := longer
              prefixEnd := accounts.prefixEnd
              removedChars := accounts.removedChars
              within := accounts.within
              beyond := fun _ => beyond
              unstarted := fun fresh => absurd (begun.symm.trans fresh) Bool.noConfusion
              started := fun _ => ⟨List.concat_ne_nil c after, starts, target⟩ }⟩
      | false =>
          obtain ⟨rfl, -⟩ := accounts.unstarted begun
          have place : len seen = len before + len middle := by simp [pieces]
          exact ⟨before, middle, [c],
            { pieces := longer
              prefixEnd := accounts.prefixEnd
              removedChars := accounts.removedChars
              within := accounts.within
              beyond := fun _ => beyond
              unstarted := fun fresh => absurd fresh Bool.noConfusion
              started := fun _ => ⟨List.cons_ne_nil c [], place, kept.trans_eq place⟩ }⟩
    case isFalse early =>
      -- The tail has not started, for it starts behind its target.
      have fresh : split.suffixStarted = false := by
        rw [← Bool.not_eq_true]
        intro begun
        obtain ⟨-, -, target⟩ := accounts.started begun
        have reached : len before + len middle ≤ len seen := by
          rw [pieces, len_append, len_append]
          omega
        omega
      obtain ⟨rfl, ends⟩ := accounts.unstarted fresh
      exact ⟨before, middle ++ [c], [],
        { pieces := by simp [pieces]
          prefixEnd := accounts.prefixEnd
          removedChars := by simp [accounts.removedChars]
          within := accounts.within
          beyond := fun _ => beyond
          unstarted := fun _ => ⟨rfl, ends⟩
          started := fun begun => absurd (fresh.symm.trans begun) Bool.noConfusion }⟩

theorem Accounts.foldl
    (accounts : Accounts beginningBytes tailStartTarget total seen split before middle after)
    (text : Text) :
    ∃ before middle after, Accounts beginningBytes tailStartTarget total (seen ++ text)
      ((charIndicesFrom (len seen) text).foldl (Split.noteChar beginningBytes tailStartTarget)
        split) before middle after := by
  induction text generalizing seen split before middle after with
  | nil =>
      rw [List.append_nil]
      exact ⟨before, middle, after, accounts⟩
  | cons c text ih =>
      obtain ⟨before, middle, after, noted⟩ := accounts.noteChar c
      have whole := ih noted
      rw [len_append, List.append_assoc] at whole
      exact whole

end Loop

/-! ## What is kept and what is counted -/

theorem get_append (first second third : Text) :
    get (first ++ (second ++ third)) ⟨len first, len first + len second⟩ = some second := by
  have starts : isCharBoundary (first ++ (second ++ third)) (len first) = true :=
    isCharBoundary_iff.mpr (Offsets.isBoundary_extent first _)
  have stops : isCharBoundary (first ++ (second ++ third)) (len first + len second) = true := by
    rw [← len_append, ← List.append_assoc]
    exact isCharBoundary_iff.mpr (Offsets.isBoundary_extent _ third)
  rw [Composer.get, if_pos ⟨Nat.le_add_right _ _, starts, stops⟩, slice_append]

/-- Whatever the budgets are, a string is cut into what is kept in front, what is counted, and what
is kept behind. -/
theorem splitString_spec (text : Text) (beginningBytes endBytes : ℕ) :
    ∃ before middle after, text = before ++ (middle ++ after) ∧
      splitString text beginningBytes endBytes = some (middle.length, before, after) ∧
      len before ≤ beginningBytes ∧ len after ≤ endBytes := by
  by_cases empty : text = []
  · subst empty
    exact ⟨[], [], [], rfl, rfl, Nat.zero_le _, Nat.zero_le _⟩
  have start : Accounts beginningBytes (len text - endBytes) (len text) []
      (Split.initial (len text)) [] [] [] :=
    { pieces := rfl
      prefixEnd := rfl
      removedChars := rfl
      within := Nat.zero_le _
      beyond := fun some => absurd rfl some
      unstarted := fun _ => ⟨rfl, rfl⟩
      started := fun begun => absurd begun Bool.noConfusion }
  obtain ⟨before, middle, after, accounts⟩ : ∃ before middle after,
      Accounts beginningBytes (len text - endBytes) (len text) text
        ((charIndices text).foldl (Split.noteChar beginningBytes (len text - endBytes))
          (Split.initial (len text))) before middle after := start.foldl text
  have pieces : text = before ++ (middle ++ after) := accounts.pieces
  have total : len text = len before + len middle + len after := by
    rw [pieces, len_append, len_append, Nat.add_assoc]
  rw [splitString, if_neg empty]
  dsimp only
  generalize (charIndices text).foldl (Split.noteChar beginningBytes (len text - endBytes))
    (Split.initial (len text)) = split at accounts ⊢
  -- The tail starts where the pieces in front of it end, whether it was started or not.
  have tail : split.suffixStart = len before + len middle ∧ len after ≤ endBytes := by
    cases begun : split.suffixStarted with
    | true =>
        obtain ⟨-, starts, target⟩ := accounts.started begun
        exact ⟨starts, by omega⟩
    | false =>
        obtain ⟨rfl, ends⟩ := accounts.unstarted begun
        exact ⟨ends.trans total, Nat.zero_le _⟩
  obtain ⟨starts, short⟩ := tail
  have ordered : ¬ split.suffixStart < split.prefixEnd := by
    rw [starts, accounts.prefixEnd]
    omega
  have front : get text ⟨0, split.prefixEnd⟩ = some before := by
    have cut := get_append [] before (middle ++ after)
    have none : len [] = 0 := rfl
    rwa [List.nil_append, ← pieces, none, Nat.zero_add, ← accounts.prefixEnd] at cut
  have back : get text ⟨split.suffixStart, len text⟩ = some after := by
    have cut := get_append (before ++ middle) after []
    rwa [List.append_nil, List.append_assoc, ← pieces, len_append, ← total, ← starts] at cut
  refine ⟨before, middle, after, pieces, ?_, accounts.within, short⟩
  rw [if_neg ordered, front, back, accounts.removedChars]
  rfl

/-- A string over its budget becomes a prefix, the marker, and a suffix. -/
theorem truncateWithByteEstimate_spec {text : Text} {maxBytes : ℕ} (beyond : maxBytes < len text)
    (useTokens : Bool) :
    ∃ before middle after, text = before ++ (middle ++ after) ∧
      truncateWithByteEstimate text maxBytes useTokens =
        some (before ++ (formatTruncationMarker useTokens
          (removedUnits useTokens (len text - maxBytes) middle.length) ++ after)) ∧
      len before + len after ≤ maxBytes := by
  have inhabited : text ≠ [] := by
    rintro rfl
    exact absurd beyond (Nat.not_lt_zero _)
  rw [truncateWithByteEstimate, if_neg inhabited]
  dsimp only
  split
  case isTrue zero =>
    subst zero
    refine ⟨[], text, [], by simp, by simp, le_rfl⟩
  case isFalse positive =>
    obtain ⟨before, middle, after, pieces, same, front, back⟩ :=
      splitString_spec text (maxBytes / 2) (maxBytes - maxBytes / 2)
    refine ⟨before, middle, after, pieces, ?_, by omega⟩
    rw [if_neg (Nat.not_le_of_gt beyond), splitBudget]
    dsimp only
    rw [same]
    rfl

/-- A string within its budget is kept as it is; another one keeps a prefix and a suffix that
together stay within the budget, and the marker counts the characters between them. -/
theorem truncateMiddleChars_accounts (text : Text) (maxBytes : ℕ) :
    (len text ≤ maxBytes → truncateMiddleChars text maxBytes = some text) ∧
      (maxBytes < len text → ∃ before middle after, text = before ++ (middle ++ after) ∧
        truncateMiddleChars text maxBytes =
          some (before ++ ("…".toList ++ Nat.toDigits 10 middle.length ++
            " chars truncated…".toList ++ after)) ∧
        len before + len after ≤ maxBytes) := by
  constructor
  · intro within
    rw [truncateMiddleChars, truncateWithByteEstimate]
    split
    case isTrue empty => rw [empty]
    case isFalse inhabited =>
      have wide := len_pos inhabited
      have positive : maxBytes ≠ 0 := by omega
      dsimp only
      rw [if_neg positive]
  · intro beyond
    have spec := truncateWithByteEstimate_spec beyond false
    simp only [formatTruncationMarker_eq] at spec
    exact spec

end CodexPilot.Strings
