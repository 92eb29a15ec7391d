import CodexPilot.RustStd.Text
import Mathlib.Algebra.Order.BigOperators.Group.List
import Mathlib.Algebra.Order.Ring.Nat

/-!
# Live wrapping

A builder cuts rows from its current line while fragments arrive.  A row that is full stays as it
is, but characters without width at the start of a row are pushed one by one when nothing else has
arrived yet.  So the rows depend on where the text was cut exactly when a cut falls behind such
characters and the row goes on.
-/

namespace CodexPilot.LiveWrap

open RustStd

/-- A visual row: its text, and whether an explicit line break ends it. -/
structure Row where
  text : Text
  explicitBreak : Bool
  deriving DecidableEq

/-- The rows, and the line that is being wrapped. -/
structure RowBuilder where
  targetWidth : ℕ
  /-- What has arrived of the current line and is in no row. -/
  currentLine : Text
  rows : List Row

section Code

variable (charWidth : Char → ℕ)

/-- The columns of a text. -/
def cells (text : Text) : ℕ := (text.map charWidth).sum

/-- `Row::width`. -/
def Row.width (row : Row) : ℕ := cells charWidth row.text

/-- The loop of `take_prefix_by_width`, behind `cols` columns. -/
def takeFrom (maxCols : ℕ) : ℕ → Text → Text × Text × ℕ
  | cols, [] => ([], [], cols)
  | cols, ch :: rest =>
      if maxCols < cols + charWidth ch then ([], ch :: rest, cols)
      else if cols + charWidth ch = maxCols then ([ch], rest, maxCols)
      else
        let (front, suffix, taken) := takeFrom maxCols (cols + charWidth ch) rest
        (ch :: front, suffix, taken)

/-- `take_prefix_by_width`. -/
def takePrefixByWidth (text : Text) (maxCols : ℕ) : Text × Text × ℕ :=
  if maxCols = 0 ∨ text = [] then ([], text, 0) else takeFrom charWidth maxCols 0 text

/-- One round of the loop in `wrap_current_line`: the row that it pushes and the line that it
leaves; none where the loop ends. -/
def nextRow (width : ℕ) : Text → Option (Text × Text)
  | [] => none
  | ch :: rest =>
      let (front, suffix, taken) := takePrefixByWidth charWidth (ch :: rest) width
      if taken = 0 then some ([ch], rest)
      else if suffix = [] then none
      else some (front, suffix)

variable {charWidth} {width cols : ℕ} {ch : Char} {line row rest : Text}

theorem takeFrom_cons_of_lt (exceeds : width < cols + charWidth ch) :
    takeFrom charWidth width cols (ch :: rest) = ([], ch :: rest, cols) := if_pos exceeds

theorem takeFrom_cons_of_eq (full : cols + charWidth ch = width) :
    takeFrom charWidth width cols (ch :: rest) = ([ch], rest, width) := by
  rw [takeFrom, if_neg full.not_gt, if_pos full]

theorem takeFrom_cons_of_gt (short : cols + charWidth ch < width) :
    takeFrom charWidth width cols (ch :: rest) =
      (ch :: (takeFrom charWidth width (cols + charWidth ch) rest).1,
        (takeFrom charWidth width (cols + charWidth ch) rest).2) := by
  rw [takeFrom, if_neg short.not_gt, if_neg short.ne]

theorem takeFrom_append (charWidth : Char → ℕ) (width cols : ℕ) (line : Text) :
    (takeFrom charWidth width cols line).1 ++ (takeFrom charWidth width cols line).2.1 = line := by
  induction line generalizing cols with
  | nil => rfl
  | cons ch rest ih =>
      rcases lt_trichotomy (cols + charWidth ch) width with short | full | exceeds
      · rw [takeFrom_cons_of_gt short]
        exact congrArg (ch :: ·) (ih _)
      · rw [takeFrom_cons_of_eq full]
        rfl
      · rw [takeFrom_cons_of_lt exceeds]
        rfl

/-- What is taken fits, and is as wide as it says. -/
theorem takeFrom_taken (charWidth : Char → ℕ) (fits : cols ≤ width) (line : Text) :
    (takeFrom charWidth width cols line).2.2 =
        cols + cells charWidth (takeFrom charWidth width cols line).1 ∧
      (takeFrom charWidth width cols line).2.2 ≤ width := by
  induction line generalizing cols with
  | nil => exact ⟨rfl, fits⟩
  | cons ch rest ih =>
      rcases lt_trichotomy (cols + charWidth ch) width with short | full | exceeds
      · rw [takeFrom_cons_of_gt short]
        obtain ⟨sum, bounded⟩ := ih short.le
        refine ⟨?_, bounded⟩
        rw [sum]
        simp only [cells, List.map_cons, List.sum_cons]
        omega
      · rw [takeFrom_cons_of_eq full]
        exact ⟨by simpa [cells] using full.symm, le_rfl⟩
      · rw [takeFrom_cons_of_lt exceeds]
        exact ⟨rfl, fits⟩

theorem takePrefixByWidth_spec (charWidth : Char → ℕ) (text : Text) (maxCols : ℕ) :
    (takePrefixByWidth charWidth text maxCols).1 ++
        (takePrefixByWidth charWidth text maxCols).2.1 = text ∧
      (takePrefixByWidth charWidth text maxCols).2.2 =
        cells charWidth (takePrefixByWidth charWidth text maxCols).1 ∧
      (takePrefixByWidth charWidth text maxCols).2.2 ≤ maxCols := by
  rw [takePrefixByWidth]
  split
  case isTrue => exact ⟨rfl, rfl, Nat.zero_le _⟩
  case isFalse =>
    obtain ⟨sum, bounded⟩ := takeFrom_taken charWidth (Nat.zero_le maxCols) text
    exact ⟨takeFrom_append charWidth maxCols 0 text, sum.trans (Nat.zero_add _), bounded⟩

/-- A round takes a row off the line, which fits or is a single character. -/
theorem of_nextRow_eq_some (next : nextRow charWidth width line = some (row, rest)) :
    row ≠ [] ∧ line = row ++ rest ∧ (cells charWidth row ≤ width ∨ row.length = 1) := by
  cases line with
  | nil => cases next
  | cons ch line =>
      obtain ⟨whole, sum, bounded⟩ := takePrefixByWidth_spec charWidth (ch :: line) width
      rw [nextRow] at next
      dsimp only at next
      split at next
      case isTrue =>
        cases next
        exact ⟨List.cons_ne_nil _ _, rfl, .inr rfl⟩
      case isFalse filled =>
        split at next
        case isTrue => cases next
        case isFalse =>
          cases next
          refine ⟨fun empty => filled ?_, whole.symm, .inl (sum ▸ bounded)⟩
          rw [sum, empty]
          rfl

/-- What the loop leaves fits. -/
theorem cells_le_of_nextRow_eq_none (next : nextRow charWidth width line = none) :
    cells charWidth line ≤ width := by
  cases line with
  | nil => exact Nat.zero_le _
  | cons ch line =>
      obtain ⟨whole, sum, bounded⟩ := takePrefixByWidth_spec charWidth (ch :: line) width
      rw [nextRow] at next
      dsimp only at next
      split at next
      case isTrue => cases next
      case isFalse =>
        split at next
        case isTrue empty =>
          rw [empty, List.append_nil] at whole
          rw [whole] at sum
          exact sum ▸ bounded
        case isFalse => cases next

theorem length_lt_of_nextRow (next : nextRow charWidth width line = some (row, rest)) :
    rest.length < line.length := by
  obtain ⟨nonempty, rfl, -⟩ := of_nextRow_eq_some next
  have positive := List.length_pos_iff.mpr nonempty
  rw [List.length_append]
  omega

variable (charWidth)

/-- The loop of `wrap_current_line`: the rows that it pushes and what stays in the buffer. -/
def wrapLine (width : ℕ) (line : Text) : List Row × Text :=
  match _ : nextRow charWidth width line with
  | none => ([], line)
  | some (row, rest) => (⟨row, false⟩ :: (wrapLine width rest).1, (wrapLine width rest).2)
termination_by line.length
decreasing_by all_goals exact length_lt_of_nextRow (by assumption)

namespace RowBuilder

/-- `RowBuilder::new`. -/
def new (targetWidth : ℕ) : RowBuilder := ⟨max targetWidth 1, [], []⟩

/-- `wrap_current_line`. -/
def wrapCurrentLine (builder : RowBuilder) : RowBuilder :=
  let (rows, line) := wrapLine charWidth builder.targetWidth builder.currentLine
  { builder with currentLine := line, rows := builder.rows ++ rows }

/-- `flush_current_line`. -/
def flushCurrentLine (builder : RowBuilder) (explicitBreak : Bool) : RowBuilder :=
  let builder := builder.wrapCurrentLine charWidth
  let rows :=
    if explicitBreak then
      if builder.currentLine = [] then builder.rows ++ [⟨[], true⟩]
      else builder.rows ++ [⟨builder.currentLine, true⟩]
    else builder.rows
  { builder with currentLine := [], rows := rows }

/-- Append to the current line. -/
def pushStr (builder : RowBuilder) (text : Text) : RowBuilder :=
  { builder with currentLine := builder.currentLine ++ text }

/-- The loop of `push_fragment`, over what is left of the fragment behind the text that has been
read since the last line break. -/
def pushFrom (builder : RowBuilder) (pending : Text) : Text → RowBuilder
  | [] => if pending = [] then builder else (builder.pushStr pending).wrapCurrentLine charWidth
  | ch :: rest =>
      if ch = '\n' then
        pushFrom ((if pending = [] then builder else builder.pushStr pending).flushCurrentLine
          charWidth true) [] rest
      else pushFrom builder (pending ++ [ch]) rest

/-- `push_fragment`. -/
def pushFragment (builder : RowBuilder) (fragment : Text) : RowBuilder :=
  if fragment = [] then builder else builder.pushFrom charWidth [] fragment

/-- `display_rows`. -/
def displayRows (builder : RowBuilder) : List Row :=
  if builder.currentLine = [] then builder.rows
  else builder.rows ++ [⟨builder.currentLine, false⟩]

end RowBuilder

/-- The text of a row, with the line break that ends it. -/
def Row.source (row : Row) : Text := row.text ++ if row.explicitBreak then ['\n'] else []

namespace RowBuilder

/-- `set_width`. -/
def setWidth (builder : RowBuilder) (width : ℕ) : RowBuilder :=
  let all := builder.rows.flatMap Row.source ++ builder.currentLine
  pushFragment charWidth ⟨max width 1, [], []⟩ all

end RowBuilder

variable {charWidth} {width cols : ℕ} {line row rest before behind : Text}

/-! ## Rows of one line -/

theorem wrapLine_of_none (next : nextRow charWidth width line = none) :
    wrapLine charWidth width line = ([], line) := by
  rw [wrapLine]
  split
  case h_1 => rfl
  case h_2 row rest next' => cases next.symm.trans next'

theorem wrapLine_of_some (next : nextRow charWidth width line = some (row, rest)) :
    wrapLine charWidth width line =
      (⟨row, false⟩ :: (wrapLine charWidth width rest).1, (wrapLine charWidth width rest).2) := by
  rw [wrapLine]
  split
  case h_1 next' => cases next.symm.trans next'
  case h_2 row' rest' next' =>
    cases next.symm.trans next'
    rfl

@[simp]
theorem wrapLine_nil : wrapLine charWidth width [] = ([], []) := wrapLine_of_none rfl

/-- The rows of a line and what stays in the buffer are the line. -/
theorem source_wrapLine (charWidth : Char → ℕ) (width : ℕ) (line : Text) :
    (wrapLine charWidth width line).1.flatMap Row.source ++ (wrapLine charWidth width line).2 =
      line := by
  induction line using wrapLine.induct charWidth width with
  | case1 line next => rw [wrapLine_of_none next, List.flatMap_nil, List.nil_append]
  | case2 line row rest next ih =>
      rw [wrapLine_of_some next, List.flatMap_cons, List.append_assoc, ih,
        (of_nextRow_eq_some next).2.1]
      simp [Row.source]

theorem narrow_wrapLine (charWidth : Char → ℕ) (width : ℕ) (line : Text) :
    (∀ row ∈ (wrapLine charWidth width line).1,
        row.width charWidth ≤ width ∨ row.text.length = 1) ∧
      cells charWidth (wrapLine charWidth width line).2 ≤ width := by
  induction line using wrapLine.induct charWidth width with
  | case1 line next =>
      rw [wrapLine_of_none next]
      exact ⟨fun row member => absurd member List.not_mem_nil, cells_le_of_nextRow_eq_none next⟩
  | case2 line row rest next ih =>
      rw [wrapLine_of_some next]
      refine ⟨fun row' member => ?_, ih.2⟩
      obtain rfl | later := List.mem_cons.mp member
      · exact (of_nextRow_eq_some next).2.2
      · exact ih.1 row' later

/-! ## Cuts in a line -/

variable (charWidth)

/-- The columns of the row that is being filled, one character later. -/
def columnStep (width column : ℕ) (ch : Char) : ℕ :=
  if charWidth ch = 0 then column
  else if column + charWidth ch ≤ width then column + charWidth ch
  else if charWidth ch ≤ width then charWidth ch
  else width

/-- How far the last row of a line is filled; a row that nothing with a width is in counts as the
full one in front of it. -/
def column (width : ℕ) (line : Text) : ℕ := line.foldl (columnStep charWidth width) width

/-- A cut severs a row: the last character in front of it has no width, stands where a row starts or
behind others like it, and the row goes on. -/
def Severs (width : ℕ) (before behind : Text) : Prop :=
  (∃ ch, before.getLast? = some ch ∧ charWidth ch = 0) ∧ column charWidth width before = width ∧
    ∃ ch, behind.find? (fun ch => charWidth ch ≠ 0) = some ch ∧ charWidth ch ≤ width

variable {charWidth}

theorem nextRow_cons (positive : 0 < width) (ch : Char) (rest : Text) :
    nextRow charWidth width (ch :: rest) =
      if (takeFrom charWidth width 0 (ch :: rest)).2.2 = 0 then some ([ch], rest)
      else if (takeFrom charWidth width 0 (ch :: rest)).2.1 = [] then none
      else some ((takeFrom charWidth width 0 (ch :: rest)).1,
        (takeFrom charWidth width 0 (ch :: rest)).2.1) := by
  have taken : takePrefixByWidth charWidth (ch :: rest) width =
      takeFrom charWidth width 0 (ch :: rest) := if_neg (by simp [positive.ne'])
  rw [nextRow, taken]

/-- A row that is complete does not depend on what follows. -/
theorem takeFrom_append_of_stopped (stopped : (takeFrom charWidth width cols line).2.1 ≠ [])
    (behind : Text) :
    takeFrom charWidth width cols (line ++ behind) =
      ((takeFrom charWidth width cols line).1,
        (takeFrom charWidth width cols line).2.1 ++ behind,
        (takeFrom charWidth width cols line).2.2) := by
  induction line generalizing cols with
  | nil => exact absurd rfl stopped
  | cons ch rest ih =>
      rw [List.cons_append]
      rcases lt_trichotomy (cols + charWidth ch) width with short | full | exceeds
      · rw [takeFrom_cons_of_gt short] at stopped
        rw [takeFrom_cons_of_gt short, takeFrom_cons_of_gt short, ih stopped]
      · rw [takeFrom_cons_of_eq full, takeFrom_cons_of_eq full]
      · rw [takeFrom_cons_of_lt exceeds, takeFrom_cons_of_lt exceeds]
        rfl

theorem columnStep_short (inside : cols < width) (short : cols + charWidth ch < width) :
    columnStep charWidth width (if cols = 0 then width else cols) ch =
      if cols + charWidth ch = 0 then width else cols + charWidth ch := by
  unfold columnStep
  split_ifs <;> omega

theorem columnStep_full (inside : cols < width) (full : cols + charWidth ch = width) :
    columnStep charWidth width (if cols = 0 then width else cols) ch = width := by
  unfold columnStep
  split_ifs <;> omega

theorem columnStep_exceeds (inside : cols < width) (exceeds : width < cols + charWidth ch) :
    columnStep charWidth width (if cols = 0 then width else cols) ch =
      columnStep charWidth width width ch := by
  unfold columnStep
  split_ifs <;> omega

/-- Where a row is complete, the column starts again. -/
theorem foldl_columnStep_of_stopped (inside : cols < width)
    (stopped : (takeFrom charWidth width cols line).2.1 ≠ []) :
    line.foldl (columnStep charWidth width) (if cols = 0 then width else cols) =
      column charWidth width (takeFrom charWidth width cols line).2.1 := by
  induction line generalizing cols with
  | nil => exact absurd rfl stopped
  | cons ch rest ih =>
      rw [List.foldl_cons]
      rcases lt_trichotomy (cols + charWidth ch) width with short | full | exceeds
      · rw [takeFrom_cons_of_gt short] at stopped ⊢
        rw [columnStep_short inside short]
        exact ih short stopped
      · rw [takeFrom_cons_of_eq full, columnStep_full inside full]
        rfl
      · rw [takeFrom_cons_of_lt exceeds, columnStep_exceeds inside exceeds]
        rfl

/-- A line that fits fills its row as far as it is wide, and a full row ends in a character with a
width. -/
theorem foldl_columnStep_of_fits (inside : cols < width)
    (fits : (takeFrom charWidth width cols line).2.1 = []) :
    line.foldl (columnStep charWidth width) (if cols = 0 then width else cols) =
        (if (takeFrom charWidth width cols line).2.2 = 0 then width
          else (takeFrom charWidth width cols line).2.2) ∧
      ((takeFrom charWidth width cols line).2.2 = width →
        ∀ ch, line.getLast? = some ch → charWidth ch ≠ 0) := by
  induction line generalizing cols with
  | nil => exact ⟨rfl, fun _ ch last => by cases last⟩
  | cons ch rest ih =>
      rw [List.foldl_cons]
      rcases lt_trichotomy (cols + charWidth ch) width with short | full | exceeds
      · rw [takeFrom_cons_of_gt short] at fits ⊢
        obtain ⟨reached, inked⟩ := ih short fits
        rw [columnStep_short inside short]
        refine ⟨reached, fun full last shown => ?_⟩
        cases rest with
        | nil => exact absurd full short.ne
        | cons ch' rest =>
            apply inked full last
            rwa [List.getLast?_cons_cons] at shown
      · rw [takeFrom_cons_of_eq full] at fits ⊢
        cases fits
        rw [columnStep_full inside full]
        refine ⟨by simp, fun _ last shown flat => ?_⟩
        rw [List.getLast?_singleton, Option.some.injEq] at shown
        subst shown
        omega
      · rw [takeFrom_cons_of_lt exceeds] at fits
        cases fits

/-- Characters without a width, and what does not fit behind them, take no column. -/
theorem taken_of_unfit (inside : cols < width)
    (unfit : ∀ ch, line.find? (fun ch => charWidth ch ≠ 0) = some ch → width < charWidth ch) :
    (takeFrom charWidth width cols line).2.2 = cols := by
  induction line with
  | nil => rfl
  | cons ch rest ih =>
      by_cases flat : charWidth ch = 0
      · rw [takeFrom_cons_of_gt (by omega), flat]
        exact ih fun other found => unfit other (by simpa [flat] using found)
      · have exceeds := unfit ch (by simp [flat])
        rw [takeFrom_cons_of_lt (by omega)]

theorem taken_of_fit {first : Char} (positive : 0 < width)
    (found : line.find? (fun ch => charWidth ch ≠ 0) = some first)
    (fit : charWidth first ≤ width) : 0 < (takeFrom charWidth width 0 line).2.2 := by
  induction line with
  | nil => cases found
  | cons ch rest ih =>
      by_cases flat : charWidth ch = 0
      · rw [takeFrom_cons_of_gt (by omega), flat]
        exact ih (by simpa [flat] using found)
      · obtain rfl : ch = first := by simpa [flat] using found
        rcases lt_trichotomy (0 + charWidth ch) width with short | full | exceeds
        · rw [takeFrom_cons_of_gt short]
          have sum := (takeFrom_taken charWidth short.le rest).1
          dsimp only
          omega
        · rw [takeFrom_cons_of_eq full]
          exact positive
        · omega

/-- A round that takes no column has a character without a width or too wide a one in front. -/
theorem column_of_taken_eq_zero (positive : 0 < width)
    (empty : (takeFrom charWidth width 0 (ch :: rest)).2.2 = 0) :
    column charWidth width (ch :: rest) = column charWidth width rest := by
  have same : columnStep charWidth width width ch = width := by
    unfold columnStep
    rcases lt_trichotomy (0 + charWidth ch) width with short | full | exceeds
    · rw [takeFrom_cons_of_gt short] at empty
      have sum := (takeFrom_taken charWidth short.le rest).1
      dsimp only at empty
      split_ifs <;> omega
    · rw [takeFrom_cons_of_eq full] at empty
      exact absurd empty positive.ne'
    · split_ifs <;> omega
  rw [column, List.foldl_cons, same]
  rfl

theorem column_of_nextRow (positive : 0 < width)
    (next : nextRow charWidth width line = some (row, rest)) :
    column charWidth width line = column charWidth width rest := by
  cases line with
  | nil => cases next
  | cons ch line =>
      rw [nextRow_cons positive] at next
      split at next
      case isTrue empty =>
        cases next
        exact column_of_taken_eq_zero positive empty
      case isFalse =>
        split at next
        case isTrue => cases next
        case isFalse stopped =>
          cases next
          exact foldl_columnStep_of_stopped positive stopped

theorem nextRow_append_of_stopped (positive : 0 < width)
    (next : nextRow charWidth width line = some (row, rest))
    (stopped : (takeFrom charWidth width 0 line).2.1 ≠ []) (behind : Text) :
    nextRow charWidth width (line ++ behind) = some (row, rest ++ behind) := by
  cases line with
  | nil => cases next
  | cons ch line =>
      rw [nextRow_cons positive] at next
      have whole := takeFrom_append_of_stopped stopped behind
      rw [List.cons_append] at whole ⊢
      rw [nextRow_cons positive, whole]
      split at next
      case isTrue empty =>
        cases next
        exact if_pos empty
      case isFalse filled =>
        cases next
        rw [if_neg filled, if_neg (by simp [stopped])]

/-- Where nothing stops a row that takes no column, all its characters are without a width. -/
theorem flat_of_nextRow (positive : 0 < width)
    (next : nextRow charWidth width line = some (row, rest))
    (fits : (takeFrom charWidth width 0 line).2.1 = []) :
    (∃ ch, line = ch :: rest ∧ row = [ch]) ∧ ∀ ch ∈ line, charWidth ch = 0 := by
  cases line with
  | nil => cases next
  | cons ch line =>
      rw [nextRow_cons positive] at next
      split at next
      case isTrue empty =>
        cases next
        refine ⟨⟨ch, rfl, rfl⟩, fun other member => ?_⟩
        have whole := takeFrom_append charWidth width 0 (ch :: rest)
        have sum := (takeFrom_taken charWidth (Nat.zero_le width) (ch :: rest)).1
        rw [fits, List.append_nil] at whole
        rw [whole, empty, Nat.zero_add] at sum
        have none : ∀ cols ∈ (ch :: rest).map charWidth, cols = 0 :=
          (List.sum_eq_zero_iff (M := ℕ)).mp sum.symm
        exact none _ (List.mem_map_of_mem member)
      case isFalse => cases next

theorem find?_append_of_flat (flat : ∀ ch ∈ before, charWidth ch = 0) (behind : Text) :
    (before ++ behind).find? (fun ch => charWidth ch ≠ 0) =
      behind.find? fun ch => charWidth ch ≠ 0 := by
  have none : before.find? (fun ch => charWidth ch ≠ 0) = none := by
    rw [List.find?_eq_none]
    intro ch member
    simp [flat ch member]
  rw [List.find?_append, none, Option.none_or]

theorem column_of_flat (flat : ∀ ch ∈ before, charWidth ch = 0) :
    column charWidth width before = width := by
  induction before with
  | nil => rfl
  | cons ch before ih =>
      obtain ⟨first, later⟩ := List.forall_mem_cons.mp flat
      rw [column, List.foldl_cons, columnStep, if_pos first]
      exact ih later

/-- A row is the same whatever follows, except where the cut severs it. -/
theorem nextRow_append (positive : 0 < width)
    (next : nextRow charWidth width line = some (row, rest))
    (whole : ¬Severs charWidth width line behind) :
    nextRow charWidth width (line ++ behind) = some (row, rest ++ behind) := by
  by_cases fits : (takeFrom charWidth width 0 line).2.1 = []
  · obtain ⟨⟨ch, rfl, rfl⟩, flat⟩ := flat_of_nextRow positive next fits
    have unfit : ∀ other,
        (ch :: rest ++ behind).find? (fun ch => charWidth ch ≠ 0) = some other →
          width < charWidth other := by
      intro other found
      rw [find?_append_of_flat flat] at found
      refine not_le.mp fun fit => whole ⟨?_, column_of_flat flat, other, found, fit⟩
      have shown := List.getLast?_eq_getLast_of_ne_nil (List.cons_ne_nil ch rest)
      exact ⟨_, shown, flat _ (List.getLast_mem _)⟩
    have empty := taken_of_unfit positive unfit
    rw [List.cons_append] at empty ⊢
    rw [nextRow_cons positive, if_pos empty]
  · exact nextRow_append_of_stopped positive next fits behind

/-- What is severed behind a row is severed with the row in front. -/
theorem Severs.prepend (positive : 0 < width)
    (next : nextRow charWidth width line = some (row, rest))
    (severs : Severs charWidth width rest behind) : Severs charWidth width line behind := by
  obtain ⟨⟨ch, last, flat⟩, full, goesOn⟩ := severs
  refine ⟨⟨ch, ?_, flat⟩, (column_of_nextRow positive next).trans full, goesOn⟩
  rw [(of_nextRow_eq_some next).2.1]
  exact List.mem_getLast?_append_of_mem_getLast? last

/-- Wrapping a line in two parts wraps it, except where the cut severs a row. -/
theorem wrapLine_append (positive : 0 < width) (whole : ¬Severs charWidth width line behind) :
    wrapLine charWidth width (line ++ behind) =
      ((wrapLine charWidth width line).1 ++
          (wrapLine charWidth width ((wrapLine charWidth width line).2 ++ behind)).1,
        (wrapLine charWidth width ((wrapLine charWidth width line).2 ++ behind)).2) := by
  induction line using wrapLine.induct charWidth width with
  | case1 line next =>
      rw [wrapLine_of_none next]
      rfl
  | case2 line row rest next ih =>
      rw [wrapLine_of_some next, wrapLine_of_some (nextRow_append positive next whole),
        ih fun severs => whole (severs.prepend positive next)]
      rfl

/-- The rows of a line that a line break ends, or that is the current one. -/
def lineRows (charWidth : Char → ℕ) (width : ℕ) (explicitBreak : Bool) (line : Text) : List Row :=
  (wrapLine charWidth width line).1 ++
    if explicitBreak = false ∧ (wrapLine charWidth width line).2 = [] then []
    else [⟨(wrapLine charWidth width line).2, explicitBreak⟩]

theorem lineRows_of_some {explicitBreak : Bool}
    (next : nextRow charWidth width line = some (row, rest)) :
    lineRows charWidth width explicitBreak line =
      ⟨row, false⟩ :: lineRows charWidth width explicitBreak rest := by
  rw [lineRows, wrapLine_of_some next]
  rfl

/-- A character without a width does not end a row that something stops. -/
theorem ne_nil_of_nextRow (positive : 0 < width)
    (next : nextRow charWidth width line = some (row, rest))
    (stopped : (takeFrom charWidth width 0 line).2.1 ≠ []) (shown : line.getLast? = some ch)
    (flat : charWidth ch = 0) : rest ≠ [] := by
  cases line with
  | nil => cases next
  | cons first line =>
      rw [nextRow_cons positive] at next
      split at next
      case isTrue =>
        cases next
        rintro rfl
        rw [List.getLast?_singleton, Option.some.injEq] at shown
        subst shown
        rw [takeFrom_cons_of_gt (by omega)] at stopped
        exact stopped rfl
      case isFalse =>
        cases next
        exact stopped

/-- Behind a cut that severs a row there is a row that the whole line does not have there. -/
theorem Severs.exists_row (positive : 0 < width) (severs : Severs charWidth width line behind) :
    ∃ rows wrong tail, (wrapLine charWidth width line).1 = rows ++ wrong :: tail ∧
      ∀ explicitBreak, ∃ right more,
        lineRows charWidth width explicitBreak (line ++ behind) = rows ++ right :: more ∧
          right ≠ wrong := by
  induction line using wrapLine.induct charWidth width with
  | case1 line next =>
      -- a line that is all in the buffer ends in a character with a width, or fills no row
      obtain ⟨⟨last, shown, flat⟩, full, -⟩ := severs
      cases line with
      | nil => cases shown
      | cons ch line =>
          rw [nextRow_cons positive] at next
          split at next
          case isTrue => cases next
          case isFalse filled =>
            split at next
            case isTrue fits =>
              obtain ⟨reached, inked⟩ := foldl_columnStep_of_fits positive fits
              rw [if_pos rfl, if_neg filled] at reached
              exact absurd flat (inked (reached.symm.trans full) last shown)
            case isFalse => cases next
  | case2 line row rest next ih =>
      by_cases fits : (takeFrom charWidth width 0 line).2.1 = []
      · obtain ⟨⟨ch, rfl, rfl⟩, flat⟩ := flat_of_nextRow positive next fits
        obtain ⟨-, -, first, found, fit⟩ := severs
        refine ⟨[], ⟨[ch], false⟩, (wrapLine charWidth width rest).1, ?_, fun explicitBreak => ?_⟩
        · rw [wrapLine_of_some next]
          rfl
        · obtain ⟨flatFirst, flatRest⟩ := List.forall_mem_cons.mp flat
          have goesOn := (find?_append_of_flat flatRest behind).trans found
          have inner := taken_of_fit positive goesOn fit
          have sum := (takeFrom_taken charWidth (Nat.zero_le width) (rest ++ behind)).1
          have filled : takeFrom charWidth width 0 (ch :: (rest ++ behind)) =
              (ch :: (takeFrom charWidth width 0 (rest ++ behind)).1,
                (takeFrom charWidth width 0 (rest ++ behind)).2) := by
            rw [takeFrom_cons_of_gt (by omega), flatFirst]
          have longer : (takeFrom charWidth width 0 (rest ++ behind)).1 ≠ [] := by
            intro empty
            rw [empty] at sum
            exact inner.ne' sum
          rw [List.cons_append]
          cases next' : nextRow charWidth width (ch :: (rest ++ behind)) with
          | none =>
              refine ⟨⟨ch :: (rest ++ behind), explicitBreak⟩, [], ?_, fun same => ?_⟩
              · rw [lineRows, wrapLine_of_none next', if_neg (by simp)]
              · have rest_eq := (List.cons.inj (congrArg Row.text same)).2
                rw [rest_eq] at goesOn
                cases goesOn
          | some cut =>
              obtain ⟨row', rest'⟩ := cut
              refine ⟨⟨row', false⟩, _, lineRows_of_some next', fun same => ?_⟩
              rw [nextRow_cons positive, filled, if_neg inner.ne'] at next'
              split at next'
              case isTrue => cases next'
              case isFalse =>
                cases next'
                exact longer (List.cons.inj (congrArg Row.text same)).2
      · have severs' : Severs charWidth width rest behind := by
          obtain ⟨⟨last, shown, flat⟩, full, goesOn⟩ := severs
          refine ⟨⟨last, ?_, flat⟩, (column_of_nextRow positive next).symm.trans full, goesOn⟩
          obtain nonempty := ne_nil_of_nextRow positive next fits shown flat
          rwa [(of_nextRow_eq_some next).2.1, List.getLast?_append_of_ne_nil _ nonempty] at shown
        obtain ⟨rows, wrong, tail, pushed, others⟩ := ih severs'
        refine ⟨⟨row, false⟩ :: rows, wrong, tail, ?_, fun explicitBreak => ?_⟩
        · rw [wrapLine_of_some next, pushed]
          rfl
        · obtain ⟨right, more, shown, differ⟩ := others explicitBreak
          refine ⟨right, more, ?_, differ⟩
          rw [lineRows_of_some (nextRow_append_of_stopped positive next fits behind), shown]
          rfl

/-! ## Whole texts -/

variable {closed : List Row} {opened pending text fragment : Text} {fragments : List Text}
  {builder : RowBuilder}

/-- What the line in front of a cut has been so far. -/
def openLine (before : Text) : Text := before.rtakeWhile (· ≠ '\n')

/-- What the line behind a cut goes on with. -/
def firstLine (behind : Text) : Text := behind.takeWhile (· ≠ '\n')

@[simp]
theorem firstLine_break (rest : Text) : firstLine ('\n' :: rest) = [] :=
  List.takeWhile_cons_of_neg (by simp)

theorem firstLine_cons (differ : ch ≠ '\n') : firstLine (ch :: rest) = ch :: firstLine rest :=
  List.takeWhile_cons_of_pos (by simpa using differ)

/-- The rows of the lines that have ended, and the line that has not, one character later. -/
def layoutStep (charWidth : Char → ℕ) (width : ℕ) (lines : List Row × Text) (ch : Char) :
    List Row × Text :=
  if ch = '\n' then (lines.1 ++ lineRows charWidth width true lines.2, [])
  else (lines.1, lines.2 ++ [ch])

/-- The rows of a text that is wrapped line by line. -/
def layout (charWidth : Char → ℕ) (width : ℕ) (text : Text) : List Row × Text :=
  text.foldl (layoutStep charWidth width) ([], [])

/-- The builder that has wrapped ended lines and one that has not. -/
def wrapped (charWidth : Char → ℕ) (width : ℕ) (lines : List Row × Text) : RowBuilder :=
  ⟨width, (wrapLine charWidth width lines.2).2, lines.1 ++ (wrapLine charWidth width lines.2).1⟩

theorem layout_snd (charWidth : Char → ℕ) (width : ℕ) (text : Text) :
    (layout charWidth width text).2 = openLine text := by
  induction text using List.reverseRecOn with
  | nil => rfl
  | append_singleton text ch ih =>
      rw [layout, List.foldl_append, ← layout, List.foldl_cons, List.foldl_nil, layoutStep,
        openLine]
      split
      case isTrue same => rw [List.rtakeWhile_concat_neg _ _ _ (by simp [same])]
      case isFalse differ =>
        rw [List.rtakeWhile_concat_pos _ _ _ (by simp [differ]), ih]
        rfl

theorem not_severs_nil : ¬Severs charWidth width [] behind := by
  rintro ⟨⟨ch, shown, -⟩, -⟩
  cases shown

/-- A line break makes rows of the whole line, and the last one of what is in the buffer. -/
theorem flushCurrentLine_true (builder : RowBuilder) :
    builder.flushCurrentLine charWidth true =
      ⟨builder.targetWidth, [],
        builder.rows ++ lineRows charWidth builder.targetWidth true builder.currentLine⟩ := by
  rw [RowBuilder.flushCurrentLine, RowBuilder.wrapCurrentLine, lineRows]
  by_cases empty : (wrapLine charWidth builder.targetWidth builder.currentLine).2 = []
  · simp [empty]
  · simp [empty]

/-- A fragment wraps on, unless the cut in front of it severs a row. -/
theorem pushFrom_wrapped (closed : List Row) (positive : 0 < width)
    (whole : ¬Severs charWidth width opened (pending ++ firstLine fragment)) :
    (wrapped charWidth width (closed, opened)).pushFrom charWidth pending fragment =
      wrapped charWidth width
        (fragment.foldl (layoutStep charWidth width) (closed, opened ++ pending)) := by
  induction fragment generalizing closed opened pending with
  | nil =>
      rw [RowBuilder.pushFrom]
      split
      case isTrue none =>
        subst none
        rw [List.append_nil]
        rfl
      case isFalse =>
        rw [firstLine, List.takeWhile_nil, List.append_nil] at whole
        rw [List.foldl_nil, wrapped, wrapped, wrapLine_append positive whole]
        simp [RowBuilder.pushStr, RowBuilder.wrapCurrentLine]
  | cons ch rest ih =>
      rw [RowBuilder.pushFrom, List.foldl_cons, layoutStep]
      split
      case isTrue same =>
        subst same
        rw [firstLine_break, List.append_nil] at whole
        have flushed :
            (if pending = [] then wrapped charWidth width (closed, opened)
              else (wrapped charWidth width (closed, opened)).pushStr pending).flushCurrentLine
                charWidth true =
              wrapped charWidth width
                (closed ++ lineRows charWidth width true (opened ++ pending), []) := by
          have parts := wrapLine_append positive whole
          have line :
              (if pending = [] then wrapped charWidth width (closed, opened)
                else (wrapped charWidth width (closed, opened)).pushStr pending) =
                (wrapped charWidth width (closed, opened)).pushStr pending := by
            split
            case isTrue none => simp [none, RowBuilder.pushStr]
            case isFalse => rfl
          rw [line, flushCurrentLine_true]
          simp only [wrapped, RowBuilder.pushStr, lineRows, parts, wrapLine_nil]
          simp
        rw [flushed, ih _ not_severs_nil, List.append_nil]
      case isFalse differ =>
        rw [firstLine_cons differ] at whole
        rw [ih _ (by rwa [List.append_assoc]), List.append_assoc]

/-- The builder of a text that has arrived in one piece. -/
def whole (charWidth : Char → ℕ) (width : ℕ) (text : Text) : RowBuilder :=
  wrapped charWidth width (layout charWidth width text)

/-- A cut severs a row of a text. -/
def SeversText (charWidth : Char → ℕ) (width : ℕ) (before behind : Text) : Prop :=
  Severs charWidth width (openLine before) (firstLine behind)

/-- What is severed stays severed when more follows. -/
theorem SeversText.append (severs : SeversText charWidth width before behind) (more : Text) :
    SeversText charWidth width before (behind ++ more) := by
  obtain ⟨last, full, first, found, fit⟩ := severs
  refine ⟨last, full, first, ?_, fit⟩
  obtain ⟨further, line⟩ : ∃ further, firstLine (behind ++ more) = firstLine behind ++ further := by
    rw [firstLine, List.takeWhile_append]
    split
    case isTrue all =>
      refine ⟨more.takeWhile (· ≠ '\n'), ?_⟩
      rw [firstLine, (List.takeWhile_prefix _).eq_of_length all]
    case isFalse => exact ⟨[], (List.append_nil _).symm⟩
  rw [line, List.find?_append, found, Option.some_or]

theorem layout_append (before behind : Text) :
    layout charWidth width (before ++ behind) =
      behind.foldl (layoutStep charWidth width) (layout charWidth width before) :=
  List.foldl_append

theorem pushFragment_whole (positive : 0 < width)
    (unsevered : ¬SeversText charWidth width before fragment) :
    (whole charWidth width before).pushFragment charWidth fragment =
      whole charWidth width (before ++ fragment) := by
  rw [RowBuilder.pushFragment]
  split
  case isTrue none => rw [none, List.append_nil]
  case isFalse =>
    rw [SeversText, ← layout_snd charWidth width] at unsevered
    have pushed := pushFrom_wrapped (layout charWidth width before).1 positive
      (by rwa [List.nil_append])
    rw [List.append_nil] at pushed
    rw [whole, whole, layout_append]
    exact pushed

/-- Push fragments one after the other. -/
def RowBuilder.pushAll (charWidth : Char → ℕ) (builder : RowBuilder) (fragments : List Text) :
    RowBuilder :=
  fragments.foldl (RowBuilder.pushFragment charWidth) builder

/-- Fragments that sever no row are as good as their text in one piece. -/
theorem pushAll_whole (before : Text) (positive : 0 < width)
    (unsevered : ∀ count, ¬SeversText charWidth width (before ++ (fragments.take count).flatten)
      (fragments.drop count).flatten) :
    (whole charWidth width before).pushAll charWidth fragments =
      whole charWidth width (before ++ fragments.flatten) := by
  induction fragments generalizing before with
  | nil => rw [List.flatten_nil, List.append_nil]; rfl
  | cons fragment rest ih =>
      have here : ¬SeversText charWidth width before fragment := fun severs =>
        unsevered 0 (by simpa using severs.append rest.flatten)
      have later : ∀ count, ¬SeversText charWidth width
          (before ++ fragment ++ (rest.take count).flatten) (rest.drop count).flatten :=
        fun count severs => unsevered (count + 1) (by simpa using severs)
      rw [RowBuilder.pushAll, List.foldl_cons, pushFragment_whole positive here,
        ← RowBuilder.pushAll, ih _ later, List.flatten_cons, List.append_assoc]

theorem displayRows_wrapped (lines : List Row × Text) :
    (wrapped charWidth width lines).displayRows = lines.1 ++
      lineRows charWidth width false lines.2 := by
  rw [RowBuilder.displayRows, wrapped, lineRows]
  by_cases empty : (wrapLine charWidth width lines.2).2 = []
  · simp [empty]
  · simp [empty]

/-- A text shows the rows of its ended lines, then those of the line that goes on. -/
theorem displayRows_foldl (charWidth : Char → ℕ) (width : ℕ) (closed : List Row)
    (opened behind : Text) :
    ∃ explicitBreak more,
      (wrapped charWidth width
          (behind.foldl (layoutStep charWidth width) (closed, opened))).displayRows =
        closed ++ (lineRows charWidth width explicitBreak
          (opened ++ firstLine behind) ++ more) := by
  induction behind generalizing closed opened with
  | nil => exact ⟨false, [], by simp [displayRows_wrapped, firstLine]⟩
  | cons ch rest ih =>
      rw [List.foldl_cons, layoutStep]
      split
      case isTrue same =>
        obtain ⟨explicitBreak, more, shown⟩ :=
          ih (closed ++ lineRows charWidth width true opened) []
        refine ⟨true, lineRows charWidth width explicitBreak ([] ++ firstLine rest) ++ more, ?_⟩
        rw [shown, same, firstLine_break, List.append_nil, List.append_assoc]
      case isFalse differ =>
        obtain ⟨explicitBreak, more, shown⟩ := ih closed (opened ++ [ch])
        refine ⟨explicitBreak, more, ?_⟩
        rw [shown, List.append_assoc, firstLine_cons differ]
        rfl

theorem rows_pushFrom (builder : RowBuilder) (pending fragment : Text) :
    builder.rows <+: (builder.pushFrom charWidth pending fragment).rows := by
  induction fragment generalizing builder pending with
  | nil =>
      rw [RowBuilder.pushFrom]
      split
      case isTrue => exact List.prefix_rfl
      case isFalse => exact List.prefix_append _ _
  | cons ch rest ih =>
      rw [RowBuilder.pushFrom]
      split
      case isTrue =>
        refine .trans ?_ (ih _ [])
        rw [flushCurrentLine_true]
        split
        case isTrue | isFalse => exact List.prefix_append _ _
      case isFalse => exact ih builder _

theorem rows_pushAll (charWidth : Char → ℕ) (builder : RowBuilder) (fragments : List Text) :
    builder.rows <+: (builder.pushAll charWidth fragments).rows := by
  induction fragments generalizing builder with
  | nil => exact List.prefix_rfl
  | cons fragment rest ih =>
      refine .trans ?_ (ih (builder.pushFragment charWidth fragment))
      rw [RowBuilder.pushFragment]
      split
      case isTrue => exact List.prefix_rfl
      case isFalse => exact rows_pushFrom builder [] fragment

theorem rows_displayRows (builder : RowBuilder) : builder.rows <+: builder.displayRows := by
  rw [RowBuilder.displayRows]
  split
  case isTrue => exact List.prefix_rfl
  case isFalse => exact List.prefix_append _ _

/-- Fragments that sever a row show another row there than the text in one piece. -/
theorem displayRows_ne_of_severs (before : Text) {count : ℕ} (positive : 0 < width)
    (severs : SeversText charWidth width (before ++ (fragments.take count).flatten)
      (fragments.drop count).flatten) :
    ((whole charWidth width before).pushAll charWidth fragments).displayRows ≠
      (whole charWidth width (before ++ fragments.flatten)).displayRows := by
  induction fragments generalizing before count with
  | nil =>
      obtain ⟨-, -, first, found, -⟩ := severs
      simp [firstLine] at found
  | cons fragment rest ih =>
      by_cases here : SeversText charWidth width before (fragment :: rest).flatten
      · -- the wrong row is there, and stays in its place
        obtain ⟨rows, wrong, tail, pushed, others⟩ := Severs.exists_row positive here
        obtain ⟨explicitBreak, more, shown⟩ := displayRows_foldl charWidth width
          (layout charWidth width before).1 (openLine before)
          (fragment :: rest).flatten
        obtain ⟨right, more', instead, differ⟩ := others explicitBreak
        obtain ⟨later, kept⟩ := rows_pushAll charWidth
          (whole charWidth width before) (fragment :: rest)
        obtain ⟨last, displayed⟩ := rows_displayRows
          ((whole charWidth width before).pushAll charWidth (fragment :: rest))
        rw [← displayed, ← kept, whole, whole, layout_append]
        rw [← layout_snd charWidth width] at pushed shown instead
        rw [shown, instead, wrapped, pushed]
        intro same
        simp only [List.append_assoc, List.append_cancel_left_eq, List.cons_append] at same
        exact differ (List.cons.inj same).1.symm
      · cases count with
        | zero => exact absurd (by simpa using severs) here
        | succ count =>
            have unsevered : ¬SeversText charWidth width before fragment := fun severs =>
              here (severs.append rest.flatten)
            rw [RowBuilder.pushAll, List.foldl_cons, pushFragment_whole positive unsevered,
              ← RowBuilder.pushAll, List.flatten_cons, ← List.append_assoc]
            exact ih _ (by simpa using severs)

/-! ## Texts and widths -/

/-- The text that a builder has read. -/
def RowBuilder.source (builder : RowBuilder) : Text :=
  builder.rows.flatMap Row.source ++ builder.currentLine

theorem source_wrapCurrentLine (builder : RowBuilder) :
    (builder.wrapCurrentLine charWidth).source = builder.source := by
  rw [RowBuilder.source, RowBuilder.source, RowBuilder.wrapCurrentLine, List.flatMap_append,
    List.append_assoc, source_wrapLine]

theorem source_flushCurrentLine (builder : RowBuilder) :
    (builder.flushCurrentLine charWidth true).source = builder.source ++ ['\n'] := by
  have line := source_wrapLine charWidth builder.targetWidth builder.currentLine
  rw [flushCurrentLine_true, RowBuilder.source, RowBuilder.source, lineRows, if_neg (by simp),
    List.flatMap_append, List.flatMap_append, List.append_assoc]
  conv_rhs => rw [← line]
  simp [Row.source]

theorem source_pushFrom (builder : RowBuilder) (pending fragment : Text) :
    (builder.pushFrom charWidth pending fragment).source =
      builder.source ++ (pending ++ fragment) := by
  induction fragment generalizing builder pending with
  | nil =>
      rw [RowBuilder.pushFrom]
      split
      case isTrue none => simp [none]
      case isFalse =>
        rw [source_wrapCurrentLine]
        simp [RowBuilder.source, RowBuilder.pushStr]
  | cons ch rest ih =>
      rw [RowBuilder.pushFrom]
      split
      case isTrue same =>
        rw [ih, source_flushCurrentLine, same]
        split
        case isTrue none => simp [none]
        case isFalse => simp [RowBuilder.source, RowBuilder.pushStr]
      case isFalse =>
        rw [ih, List.append_assoc]
        rfl

theorem source_pushAll (builder : RowBuilder) (fragments : List Text) :
    (builder.pushAll charWidth fragments).source = builder.source ++ fragments.flatten := by
  induction fragments generalizing builder with
  | nil => exact (List.append_nil _).symm
  | cons fragment rest ih =>
      rw [RowBuilder.pushAll, List.foldl_cons, ← RowBuilder.pushAll, ih,
        RowBuilder.pushFragment, List.flatten_cons]
      split
      case isTrue none => rw [none, List.nil_append]
      case isFalse => rw [source_pushFrom, List.nil_append, List.append_assoc]

theorem source_displayRows (builder : RowBuilder) :
    builder.displayRows.flatMap Row.source = builder.source := by
  rw [RowBuilder.displayRows, RowBuilder.source]
  split
  case isTrue empty => rw [empty, List.append_nil]
  case isFalse => simp [Row.source]

/-- The rows of a builder fit, or are single characters. -/
def NarrowRows (charWidth : Char → ℕ) (width : ℕ) (rows : List Row) : Prop :=
  ∀ row ∈ rows, row.width charWidth ≤ width ∨ row.text.length = 1

theorem NarrowRows.append {rows more : List Row} (narrow : NarrowRows charWidth width rows)
    (narrow' : NarrowRows charWidth width more) : NarrowRows charWidth width (rows ++ more) := by
  intro row member
  rcases List.mem_append.mp member with first | later
  · exact narrow row first
  · exact narrow' row later

theorem narrowRows_lineRows (explicitBreak : Bool) (line : Text) :
    NarrowRows charWidth width (lineRows charWidth width explicitBreak line) := by
  obtain ⟨narrow, short⟩ := narrow_wrapLine charWidth width line
  rw [lineRows]
  refine NarrowRows.append narrow ?_
  split
  case isTrue => exact fun row member => absurd member List.not_mem_nil
  case isFalse =>
    intro row member
    rw [List.mem_singleton] at member
    subst member
    exact .inl short

/-- A builder keeps its rows and its buffer within its width. -/
structure Narrow (charWidth : Char → ℕ) (width : ℕ) (builder : RowBuilder) : Prop where
  target : builder.targetWidth = width
  rows : NarrowRows charWidth width builder.rows
  line : cells charWidth builder.currentLine ≤ width

theorem Narrow.pushFrom (narrow : Narrow charWidth width builder) (pending fragment : Text) :
    Narrow charWidth width (builder.pushFrom charWidth pending fragment) := by
  induction fragment generalizing builder pending with
  | nil =>
      rw [RowBuilder.pushFrom]
      split
      case isTrue => exact narrow
      case isFalse =>
        obtain rfl := narrow.target
        obtain ⟨more, short⟩ := narrow_wrapLine charWidth builder.targetWidth
          (builder.currentLine ++ pending)
        exact ⟨rfl, narrow.rows.append more, short⟩
  | cons ch rest ih =>
      rw [RowBuilder.pushFrom]
      split
      case isTrue =>
        refine ih ?_ []
        rw [flushCurrentLine_true]
        split
        case isTrue | isFalse =>
          exact ⟨narrow.target, narrow.rows.append (narrow.target ▸ narrowRows_lineRows true _),
            Nat.zero_le _⟩
      case isFalse => exact ih narrow _

theorem Narrow.pushAll (narrow : Narrow charWidth width builder) (fragments : List Text) :
    Narrow charWidth width (builder.pushAll charWidth fragments) := by
  induction fragments generalizing builder with
  | nil => exact narrow
  | cons fragment rest ih =>
      refine ih ?_
      rw [RowBuilder.pushFragment]
      split
      case isTrue => exact narrow
      case isFalse => exact narrow.pushFrom [] fragment

theorem Narrow.displayRows (narrow : Narrow charWidth width builder) :
    NarrowRows charWidth width builder.displayRows := by
  rw [RowBuilder.displayRows]
  split
  case isTrue => exact narrow.rows
  case isFalse =>
    refine narrow.rows.append fun row member => ?_
    rw [List.mem_singleton] at member
    subst member
    exact .inl narrow.line

/-- What live wrapping promises of fragments. -/
structure WrapsLive (charWidth : Char → ℕ) (width : ℕ) (fragments : List Text) : Prop where
  fragmented : ((RowBuilder.new width).pushAll charWidth fragments).displayRows =
    ((RowBuilder.new width).pushFragment charWidth fragments.flatten).displayRows
  restored : ((RowBuilder.new width).pushAll charWidth fragments).displayRows.flatMap Row.source =
    fragments.flatten
  narrow : NarrowRows charWidth (max width 1)
    ((RowBuilder.new width).pushAll charWidth fragments).displayRows
  rewrapped : ∀ width',
    (((RowBuilder.new width).pushAll charWidth fragments).setWidth charWidth width').displayRows =
      ((RowBuilder.new width').pushFragment charWidth fragments.flatten).displayRows

/-- Live wrapping keeps its promises exactly when no cut between fragments severs a row. -/
theorem wrapsLive_iff (charWidth : Char → ℕ) (width : ℕ) (fragments : List Text) :
    WrapsLive charWidth width fragments ↔
      ∀ count, ¬SeversText charWidth (max width 1) (fragments.take count).flatten
        (fragments.drop count).flatten := by
  have positive : 0 < max width 1 := by omega
  have start : RowBuilder.new width = whole charWidth (max width 1) [] := by
    rw [whole, layout, List.foldl_nil, wrapped, wrapLine_nil]
    rfl
  have unsevered : ¬SeversText charWidth (max width 1) [] fragments.flatten := not_severs_nil
  have once : (RowBuilder.new width).pushFragment charWidth fragments.flatten =
      whole charWidth (max width 1) fragments.flatten := by
    rw [start, pushFragment_whole positive unsevered, List.nil_append]
  have source : ((RowBuilder.new width).pushAll charWidth fragments).source =
      fragments.flatten := by
    rw [source_pushAll]
    rfl
  constructor
  · intro wraps count severs
    have differ := displayRows_ne_of_severs [] positive severs
    have same := wraps.fragmented
    rw [once, start] at same
    exact differ same
  · intro unsevered
    have same := pushAll_whole [] positive unsevered
    constructor
    · rw [once, start, same]
      rfl
    · rw [source_displayRows, source]
    · apply Narrow.displayRows
      apply Narrow.pushAll
      exact ⟨rfl, fun row member => absurd member List.not_mem_nil, Nat.zero_le _⟩
    · intro width'
      rw [RowBuilder.setWidth]
      exact congrArg (fun text =>
        (RowBuilder.pushFragment charWidth (.new width') text).displayRows)
        source

/-- Everything is one column wide but a combining accent. -/
def accentWidth (ch : Char) : ℕ := if ch = '\u0301' then 0 else 1

/-- An accent that arrives alone gets a row of its own. -/
theorem not_wrapsLive_accent :
    ((RowBuilder.new 10).pushAll accentWidth [['\u0301'], ['a']]).displayRows =
        [⟨['\u0301'], false⟩, ⟨['a'], false⟩] ∧
      ((RowBuilder.new 10).pushFragment accentWidth ['\u0301', 'a']).displayRows =
        [⟨['\u0301', 'a'], false⟩] ∧
      ¬WrapsLive accentWidth 10 [['\u0301'], ['a']] := by
  have accent : wrapLine accentWidth 10 ['\u0301'] = ([⟨['\u0301'], false⟩], []) := by
    rw [wrapLine_of_some (by decide : nextRow accentWidth 10 ['\u0301'] = some (['\u0301'], [])),
      wrapLine_nil]
  have letter : wrapLine accentWidth 10 ['a'] = ([], ['a']) := wrapLine_of_none (by decide)
  have accented : wrapLine accentWidth 10 ['\u0301', 'a'] = ([], ['\u0301', 'a']) :=
    wrapLine_of_none (by decide)
  have apart : ((RowBuilder.new 10).pushAll accentWidth [['\u0301'], ['a']]).displayRows =
      [⟨['\u0301'], false⟩, ⟨['a'], false⟩] := by
    simp [RowBuilder.pushAll, RowBuilder.pushFragment, RowBuilder.pushFrom, RowBuilder.pushStr,
      RowBuilder.wrapCurrentLine, RowBuilder.displayRows, RowBuilder.new, accent, letter]
  have together : ((RowBuilder.new 10).pushFragment accentWidth ['\u0301', 'a']).displayRows =
      [⟨['\u0301', 'a'], false⟩] := by
    simp [RowBuilder.pushFragment, RowBuilder.pushFrom, RowBuilder.pushStr,
      RowBuilder.wrapCurrentLine, RowBuilder.displayRows, RowBuilder.new, accented]
  refine ⟨apart, together, fun wraps => ?_⟩
  have same := apart.symm.trans (wraps.fragmented.trans together)
  revert same
  decide

end Code

end CodexPilot.LiveWrap
