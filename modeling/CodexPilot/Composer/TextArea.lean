import CodexPilot.Library.Offsets
import CodexPilot.Library.Overlaps
import CodexPilot.RustStd.Iter

/-!
# The text area of the composer

The text area owns editable text, elements that move atomically with edits, a cursor, and a kill
buffer with one entry.  Positions are byte offsets.  Wrapping and the preferred column are left to
the display, and where one grapheme ends is the host's.
-/

namespace CodexPilot.Composer

open RustStd

/-! ## Byte positions -/

/-- `str::len`. -/
def len (text : Text) : ℕ := Offsets.extent Char.utf8Size text

/-- `text[..pos]`. -/
def upTo (text : Text) (pos : ℕ) : Text := Offsets.front Char.utf8Size text pos

/-- `text[pos..]`. -/
def onward (text : Text) (pos : ℕ) : Text := Offsets.back Char.utf8Size text pos

/-- `str::is_char_boundary`. -/
def isCharBoundary (text : Text) (pos : ℕ) : Bool := len (upTo text pos) == pos

/-- `Range<usize>`. -/
abbrev ByteRange := Overlaps.Interval ℕ

/-- `text[range]`. -/
def slice (text : Text) (range : ByteRange) : Text :=
  upTo (onward text range.start) (range.stop - range.start)

/-- `str::get` for a range. -/
def get (text : Text) (range : ByteRange) : Option Text :=
  if range.start ≤ range.stop ∧ isCharBoundary text range.start ∧
      isCharBoundary text range.stop then
    some (slice text range)
  else none

/-- `String::replace_range`. -/
def replaceText (text : Text) (range : ByteRange) (inserted : Text) : Text :=
  upTo text range.start ++ (inserted ++ onward text range.stop)

/-- The characters with their offsets, counted from an offset on. -/
def charIndicesFrom : ℕ → Text → List (ℕ × Char)
  | _, [] => []
  | offset, c :: text => (offset, c) :: charIndicesFrom (offset + c.utf8Size) text

/-- `str::char_indices`. -/
def charIndices (text : Text) : List (ℕ × Char) := charIndicesFrom 0 text

/-- The loop downwards of `clamp_pos_to_char_boundary`. -/
def prevCharBoundary (text : Text) : ℕ → ℕ
  | 0 => 0
  | pos + 1 => if isCharBoundary text (pos + 1) then pos + 1 else prevCharBoundary text pos

/-- The loop upwards of `clamp_pos_to_char_boundary`, with the number of positions up to the end. -/
def nextCharBoundary (text : Text) : ℕ → ℕ → ℕ
  | 0, pos => pos
  | left + 1, pos => if isCharBoundary text pos then pos else nextCharBoundary text left (pos + 1)

/-- `clamp_pos_to_char_boundary`. -/
def clampPosToCharBoundary (text : Text) (pos : ℕ) : ℕ :=
  let pos := min pos (len text)
  if isCharBoundary text pos then pos
  else
    let prev := prevCharBoundary text pos
    let next := nextCharBoundary text (len text - pos) pos
    if pos - prev ≤ next - pos then prev else next

/-! ## The state -/

/-- `TextElement`. -/
structure TextElement where
  id : ℕ
  range : ByteRange

/-- `TextArea`. -/
structure TextArea where
  text : Text
  cursorPos : ℕ
  elements : List TextElement
  nextElementId : ℕ
  killBuffer : Text

/-- `u64::MAX`. -/
def u64Max : ℕ := 2 ^ 64 - 1

/-- Grapheme segmentation: from a character boundary it goes to a character boundary in the
direction of travel, and fails only on a text that is not all there. -/
structure Graphemes where
  prevBoundary : Text → ℕ → Except Unit (Option ℕ)
  nextBoundary : Text → ℕ → Except Unit (Option ℕ)
  prev_ok : ∀ text pos, isCharBoundary text pos = true →
    ∃ found, prevBoundary text pos = .ok found ∧
      ∀ boundary ∈ found, isCharBoundary text boundary = true ∧ boundary ≤ pos
  next_ok : ∀ text pos, isCharBoundary text pos = true →
    ∃ found, nextBoundary text pos = .ok found ∧
      ∀ boundary ∈ found, isCharBoundary text boundary = true ∧ pos ≤ boundary

/-- `WORD_SEPARATORS`. -/
def wordSeparators : Text := "`~!@#$%^&*()-=+[{]}\\|;:'\",.<>/?".toList

/-- `is_word_separator`. -/
def isWordSeparator (c : Char) : Bool := wordSeparators.contains c

/-! ## Elements -/

/-- `find_element_containing`: an element with the position strictly inside. -/
def findElementContaining (elements : List TextElement) (pos : ℕ) : Option TextElement :=
  elements.find? fun element => element.range.start < pos && pos < element.range.stop

/-- The body of the loop of `expand_range_to_element_boundaries`: the range, and whether the round
has changed it. -/
def expandStep (state : ByteRange × Bool) (element : TextElement) : ByteRange × Bool :=
  let (range, changed) := state
  if element.range.start < range.stop ∧ range.start < element.range.stop then
    let wider : ByteRange :=
      { start := min range.start element.range.start, stop := max range.stop element.range.stop }
    if wider.start ≠ range.start ∨ wider.stop ≠ range.stop then (wider, true) else (range, changed)
  else (range, changed)

/-- One round of the loop of `expand_range_to_element_boundaries`. -/
def expandRound (elements : List TextElement) (range : ByteRange) : ByteRange × Bool :=
  elements.foldl expandStep (range, false)

/-- The loop of `expand_range_to_element_boundaries`, for a number of rounds. -/
def expandLoop (elements : List TextElement) : ℕ → ByteRange → ByteRange
  | 0, range => range
  | rounds + 1, range =>
      match expandRound elements range with
      | (wider, true) => expandLoop elements rounds wider
      | (same, false) => same

/-- `expand_range_to_element_boundaries`. -/
def expandRangeToElementBoundaries (elements : List TextElement) (range : ByteRange) : ByteRange :=
  expandLoop elements (elements.length + 2) range

/-- `shift_elements`. -/
def shiftElements (elements : List TextElement) (pos removed inserted : ℕ) : List TextElement :=
  let stop := pos + removed
  let moved (offset : ℕ) : ℕ := (offset + ((inserted : ℤ) - removed)).toNat
  (elements.filter fun element => !(pos ≤ element.range.start && element.range.stop ≤ stop)).map
    fun element =>
      if element.range.stop ≤ pos then element
      else if stop ≤ element.range.start then
        { element with range := ⟨moved element.range.start, moved element.range.stop⟩ }
      else
        { element with
          range := ⟨min pos element.range.start, pos + max inserted (element.range.stop - stop)⟩ }

namespace TextArea

/-- `TextArea::new`. -/
def new : TextArea where
  text := []
  cursorPos := 0
  elements := []
  nextElementId := 1
  killBuffer := []

/-- The common body of `clamp_pos_to_nearest_boundary` and `clamp_pos_for_insertion`: the closest
edge of an element that has the position inside. -/
def clampPosOutside (area : TextArea) (pos : ℕ) : ℕ :=
  let pos := clampPosToCharBoundary area.text pos
  match findElementContaining area.elements pos with
  | some element =>
      if pos - element.range.start ≤ element.range.stop - pos then
        clampPosToCharBoundary area.text element.range.start
      else clampPosToCharBoundary area.text element.range.stop
  | none => pos

/-- `clamp_pos_to_nearest_boundary`. -/
def clampPosToNearestBoundary (area : TextArea) (pos : ℕ) : ℕ := area.clampPosOutside pos

/-- `clamp_pos_for_insertion`. -/
def clampPosForInsertion (area : TextArea) (pos : ℕ) : ℕ := area.clampPosOutside pos

/-- `adjust_pos_out_of_elements`. -/
def adjustPosOutOfElements (area : TextArea) (pos : ℕ) (preferStart : Bool) : ℕ :=
  match findElementContaining area.elements pos with
  | some element => if preferStart then element.range.start else element.range.stop
  | none => pos

/-- `prev_atomic_boundary`. -/
def prevAtomicBoundary (graphemes : Graphemes) (area : TextArea) (pos : ℕ) : ℕ :=
  if pos = 0 then 0
  else
    match area.elements.find? fun element =>
        element.range.start < pos && pos ≤ element.range.stop with
    | some element => element.range.start
    | none =>
        match graphemes.prevBoundary area.text pos with
        | .ok (some boundary) =>
            match findElementContaining area.elements boundary with
            | some element => element.range.start
            | none => boundary
        | .ok none => 0
        | .error _ => pos - 1

/-- `next_atomic_boundary`. -/
def nextAtomicBoundary (graphemes : Graphemes) (area : TextArea) (pos : ℕ) : ℕ :=
  if len area.text ≤ pos then len area.text
  else
    match area.elements.find? fun element =>
        element.range.start ≤ pos && pos < element.range.stop with
    | some element => element.range.stop
    | none =>
        match graphemes.nextBoundary area.text pos with
        | .ok (some boundary) =>
            match findElementContaining area.elements boundary with
            | some element => element.range.stop
            | none => boundary
        | .ok none => len area.text
        | .error _ => pos + 1

/-! ## Edits -/

/-- `set_cursor`. -/
def setCursor (area : TextArea) (pos : ℕ) : TextArea :=
  { area with cursorPos := area.clampPosToNearestBoundary (min pos (len area.text)) }

/-- `insert_str_at`. -/
def insertStrAt (area : TextArea) (pos : ℕ) (text : Text) : TextArea :=
  let pos := area.clampPosForInsertion pos
  { area with
    text := replaceText area.text ⟨pos, pos⟩ text
    cursorPos := if pos ≤ area.cursorPos then area.cursorPos + len text else area.cursorPos
    elements := shiftElements area.elements pos 0 (len text) }

/-- `insert_str`. -/
def insertStr (area : TextArea) (text : Text) : TextArea := area.insertStrAt area.cursorPos text

/-- Where the cursor is after an edit, before it is clamped. -/
def cursorAfter (cursorPos start stop inserted : ℕ) : ℕ :=
  if cursorPos < start then cursorPos
  else if cursorPos ≤ stop then start + inserted
  else (cursorPos + ((inserted : ℤ) - (stop - start : ℕ))).toNat

/-- `replace_range_raw`. -/
def replaceRangeRaw (area : TextArea) (range : ByteRange) (text : Text) : TextArea :=
  let start := min range.start (len area.text)
  let stop := min range.stop (len area.text)
  if stop - start = 0 ∧ len text = 0 then area
  else
    let edited : TextArea :=
      { area with
        text := replaceText area.text range text
        elements := shiftElements area.elements start (stop - start) (len text) }
    { edited with
      cursorPos := edited.clampPosToNearestBoundary <|
        min (cursorAfter area.cursorPos start stop (len text)) (len edited.text) }

/-- `replace_range`. -/
def replaceRange (area : TextArea) (range : ByteRange) (text : Text) : TextArea :=
  area.replaceRangeRaw (expandRangeToElementBoundaries area.elements range) text

/-- `kill_range`. -/
def killRange (area : TextArea) (range : ByteRange) : TextArea :=
  let range := expandRangeToElementBoundaries area.elements range
  if range.stop ≤ range.start then area
  else
    let removed := slice area.text range
    if removed = [] then area
    else
      { area with killBuffer := removed }.replaceRangeRaw range []

/-! ### Deleting -/

/-- The loop of `delete_backward`. -/
def backwardTarget (graphemes : Graphemes) (area : TextArea) : ℕ → ℕ → ℕ
  | 0, target => target
  | n + 1, target =>
      let target := area.prevAtomicBoundary graphemes target
      if target = 0 then target else area.backwardTarget graphemes n target

/-- `delete_backward`. -/
def deleteBackward (graphemes : Graphemes) (area : TextArea) (n : ℕ) : TextArea :=
  if n = 0 ∨ area.cursorPos = 0 then area
  else area.replaceRange ⟨area.backwardTarget graphemes n area.cursorPos, area.cursorPos⟩ []

/-- The loop of `delete_forward`. -/
def forwardTarget (graphemes : Graphemes) (area : TextArea) : ℕ → ℕ → ℕ
  | 0, target => target
  | n + 1, target =>
      let target := area.nextAtomicBoundary graphemes target
      if len area.text ≤ target then target else area.forwardTarget graphemes n target

/-- `delete_forward`. -/
def deleteForward (graphemes : Graphemes) (area : TextArea) (n : ℕ) : TextArea :=
  if n = 0 ∨ len area.text ≤ area.cursorPos then area
  else area.replaceRange ⟨area.cursorPos, area.forwardTarget graphemes n area.cursorPos⟩ []

/-- The loop of `beginning_of_previous_word`, over the characters in front of the last one of the
word, from the back. -/
def wordStartFrom (isSeparator : Bool) : ℕ → List (ℕ × Char) → ℕ
  | start, [] => start
  | _, (index, c) :: rest =>
      if Text.isWhitespace c || isWordSeparator c != isSeparator then index + c.utf8Size
      else wordStartFrom isSeparator index rest

/-- `beginning_of_previous_word`. -/
def beginningOfPreviousWord (area : TextArea) : ℕ :=
  let front := upTo area.text area.cursorPos
  match (charIndices front).reverse.find? fun (_, c) => !Text.isWhitespace c with
  | none => 0
  | some (index, c) =>
      area.adjustPosOutOfElements
        (wordStartFrom (isWordSeparator c) index (charIndices (upTo front index)).reverse) true

/-- `end_of_next_word`. -/
def endOfNextWord (area : TextArea) : ℕ :=
  match (charIndices (onward area.text area.cursorPos)).find? fun (_, c) =>
      !Text.isWhitespace c with
  | none => len area.text
  | some (offset, _) =>
      let wordStart := area.cursorPos + offset
      match charIndices (onward area.text wordStart) with
      | [] => wordStart
      | (_, first) :: rest =>
          let isSeparator := isWordSeparator first
          let stop :=
            match rest.find? fun (_, c) =>
                Text.isWhitespace c || isWordSeparator c != isSeparator with
            | some (index, _) => wordStart + index
            | none => len area.text
          area.adjustPosOutOfElements stop false

/-- `delete_backward_word`. -/
def deleteBackwardWord (area : TextArea) : TextArea :=
  area.killRange ⟨area.beginningOfPreviousWord, area.cursorPos⟩

/-- `delete_forward_word`. -/
def deleteForwardWord (area : TextArea) : TextArea :=
  if area.cursorPos < area.endOfNextWord then area.killRange ⟨area.cursorPos, area.endOfNextWord⟩
  else area

/-- `beginning_of_current_line`. -/
def beginningOfCurrentLine (area : TextArea) : ℕ :=
  match (charIndices (upTo area.text area.cursorPos)).reverse.find? fun (_, c) => c == '\n' with
  | some (index, _) => index + 1
  | none => 0

/-- `end_of_current_line`. -/
def endOfCurrentLine (area : TextArea) : ℕ :=
  match (charIndices (onward area.text area.cursorPos)).find? fun (_, c) => c == '\n' with
  | some (index, _) => index + area.cursorPos
  | none => len area.text

/-- `kill_to_end_of_line`. -/
def killToEndOfLine (area : TextArea) : TextArea :=
  let eol := area.endOfCurrentLine
  if area.cursorPos = eol then
    if eol < len area.text then area.killRange ⟨area.cursorPos, eol + 1⟩ else area
  else area.killRange ⟨area.cursorPos, eol⟩

/-- `kill_to_beginning_of_line`. -/
def killToBeginningOfLine (area : TextArea) : TextArea :=
  let bol := area.beginningOfCurrentLine
  if area.cursorPos = bol then
    if 0 < bol then area.killRange ⟨bol - 1, bol⟩ else area
  else area.killRange ⟨bol, area.cursorPos⟩

/-- `yank`. -/
def yank (area : TextArea) : TextArea :=
  if area.killBuffer = [] then area else area.insertStr area.killBuffer

/-! ### Elements -/

/-- `add_element`, with the id from `next_element_id`. -/
def addElement (area : TextArea) (range : ByteRange) : TextArea :=
  { area with
    elements := sortByKey (fun element => element.range.start)
      (area.elements ++ [⟨area.nextElementId, range⟩])
    nextElementId := min (area.nextElementId + 1) u64Max }

/-- `insert_element`. -/
def insertElement (area : TextArea) (text : Text) : TextArea :=
  let start := area.clampPosForInsertion area.cursorPos
  let stop := start + len text
  ((area.insertStrAt start text).addElement ⟨start, stop⟩).setCursor stop

/-- The range that `add_element_range` and `remove_element_range` work with. -/
def clampRange (text : Text) (range : ByteRange) : ByteRange where
  start := clampPosToCharBoundary text (min range.start (len text))
  stop := clampPosToCharBoundary text (min range.stop (len text))

/-- `add_element_range`. -/
def addElementRange (area : TextArea) (range : ByteRange) : TextArea :=
  let range := clampRange area.text range
  if range.stop ≤ range.start then area
  else if area.elements.any fun element => element.range == range then area
  else if area.elements.any fun element =>
      range.start < element.range.stop && element.range.start < range.stop then area
  else area.addElement range

/-- `remove_element_range`. -/
def removeElementRange (area : TextArea) (range : ByteRange) : TextArea :=
  let range := clampRange area.text range
  if range.stop ≤ range.start then area
  else
    { area with elements := area.elements.filter fun element => element.range != range }

/-- How `replace_element_payload` moves the elements other than the replaced one. -/
def moveElement (range : ByteRange) (inserted : ℕ) (element : TextElement) : TextElement :=
  let diff : ℤ := (inserted : ℤ) - (range.stop - range.start : ℕ)
  let moved (offset : ℕ) : ℕ := (offset + diff).toNat
  if diff = 0 ∨ element.range.stop ≤ range.start then element
  else if range.stop ≤ element.range.start then
    { element with range := ⟨moved element.range.start, moved element.range.stop⟩ }
  else
    { element with
      range := ⟨min range.start element.range.start,
        max (range.start + inserted) (moved element.range.stop)⟩ }

/-- `replace_element_payload`. -/
def replaceElementPayload (area : TextArea) (old new : Text) : TextArea :=
  match area.elements.findIdx? fun element => get area.text element.range == some old with
  | none => area
  | some index =>
      let range := (area.elements.map TextElement.range).getD index ⟨0, 0⟩
      if range.stop < range.start ∨ len area.text < range.stop then area
      else
        let edited : TextArea :=
          { area with
            text := replaceText area.text range new
            elements := area.elements.mapIdx fun other element =>
              if other = index then
                { element with range := ⟨range.start, range.start + len new⟩ }
              else moveElement range (len new) element }
        { edited with
          cursorPos := edited.clampPosToNearestBoundary <|
            cursorAfter area.cursorPos range.start range.stop (len new)
          elements := sortByKey (fun element => element.range.start) edited.elements }

/-! ### Whole buffers -/

/-- One round of the loop of `set_text_inner`, without the sorting at the end. -/
def rebuildElement (area : TextArea) (range : ByteRange) : TextArea :=
  let range := clampRange area.text range
  if range.stop ≤ range.start then area
  else
    { area with
      elements := area.elements ++ [⟨area.nextElementId, range⟩]
      nextElementId := min (area.nextElementId + 1) u64Max }

/-- `set_text_inner`. -/
def setTextInner (area : TextArea) (text : Text) (elements : Option (List ByteRange)) : TextArea :=
  let replaced : TextArea :=
    { area with text, cursorPos := min area.cursorPos (len text), elements := [] }
  let rebuilt : TextArea :=
    match elements with
    | none => replaced
    | some ranges =>
        let filled := ranges.foldl rebuildElement replaced
        { filled with elements := sortByKey (fun element => element.range.start) filled.elements }
  { rebuilt with cursorPos := rebuilt.clampPosToNearestBoundary rebuilt.cursorPos }

/-- `set_text_clearing_elements`. -/
def setTextClearingElements (area : TextArea) (text : Text) : TextArea :=
  area.setTextInner text none

/-- `set_text_with_elements`. -/
def setTextWithElements (area : TextArea) (text : Text) (elements : List ByteRange) : TextArea :=
  area.setTextInner text (some elements)

end TextArea

end CodexPilot.Composer
