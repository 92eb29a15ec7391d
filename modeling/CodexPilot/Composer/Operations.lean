import CodexPilot.Composer.Words
import CodexPilot.Library.Transitions

/-!
# Operations of the text area

Every operation that edits text replaces a range, widened to the elements that it touches.  What an
operation keeps of the elements is stated for all of them alike: the edited range, the text in it
and behind it, and the elements outside of it with their payloads.
-/

namespace CodexPilot.Composer

open RustStd Overlaps

/-- The operations. -/
inductive Op where
  | insertStr (text : Text)
  | insertStrAt (pos : ℕ) (text : Text)
  | replaceRange (range : ByteRange) (text : Text)
  | deleteBackward (n : ℕ)
  | deleteForward (n : ℕ)
  | deleteBackwardWord
  | deleteForwardWord
  | killToEndOfLine
  | killToBeginningOfLine
  | yank
  | setCursor (pos : ℕ)
  | insertElement (text : Text)
  | replaceElementPayload (old new : Text)
  | addElementRange (range : ByteRange)
  | removeElementRange (range : ByteRange)
  | setTextClearingElements (text : Text)
  | setTextWithElements (text : Text) (elements : List ByteRange)

/-- The ranges have no place in common. -/
def Apart (range other : ByteRange) : Prop :=
  range.stop ≤ other.start ∨ other.stop ≤ range.start ∨ range.stop ≤ range.start ∨
    other.stop ≤ other.start

namespace Op

/-- What is asked of the arguments of an operation. -/
def Allowed (area : TextArea) : Op → Prop
  | .replaceRange range _ =>
      range.start ≤ range.stop ∧ isCharBoundary area.text range.start = true ∧
        isCharBoundary area.text range.stop = true
  | .insertElement text => text ≠ []
  | .replaceElementPayload _ new => new ≠ []
  | .setTextWithElements _ elements => elements.Pairwise Apart
  | _ => True

/-- Whole-buffer replacements, and the one operation that changes a payload. -/
def Rewrites : Op → Prop
  | .replaceElementPayload _ _ | .setTextClearingElements _ | .setTextWithElements _ _ => True
  | _ => False

variable (graphemes : Graphemes)

/-- What an operation does. -/
def apply (area : TextArea) : Op → TextArea
  | .insertStr text => area.insertStr text
  | .insertStrAt pos text => area.insertStrAt pos text
  | .replaceRange range text => area.replaceRange range text
  | .deleteBackward n => area.deleteBackward graphemes n
  | .deleteForward n => area.deleteForward graphemes n
  | .deleteBackwardWord => area.deleteBackwardWord
  | .deleteForwardWord => area.deleteForwardWord
  | .killToEndOfLine => area.killToEndOfLine
  | .killToBeginningOfLine => area.killToBeginningOfLine
  | .yank => area.yank
  | .setCursor pos => area.setCursor pos
  | .insertElement text => area.insertElement text
  | .replaceElementPayload old new => area.replaceElementPayload old new
  | .addElementRange range => area.addElementRange range
  | .removeElementRange range => area.removeElementRange range
  | .setTextClearingElements text => area.setTextClearingElements text
  | .setTextWithElements text elements => area.setTextWithElements text elements

/-- An operation is a step. -/
def step (area : TextArea) (op : Op) : Option TextArea := some (op.apply graphemes area)

/-- The range that an operation is about to replace, and by what. -/
def asks (area : TextArea) : Op → Option (ByteRange × Text)
  | .insertStr text | .insertElement text =>
      let pos := area.clampPosForInsertion area.cursorPos
      some (⟨pos, pos⟩, text)
  | .insertStrAt pos text =>
      let pos := area.clampPosForInsertion pos
      some (⟨pos, pos⟩, text)
  | .yank =>
      let pos := area.clampPosForInsertion area.cursorPos
      if area.killBuffer = [] then none else some (⟨pos, pos⟩, area.killBuffer)
  | .replaceRange range text => some (range, text)
  | .deleteBackward n =>
      if n = 0 ∨ area.cursorPos = 0 then none
      else some (⟨area.backwardTarget graphemes n area.cursorPos, area.cursorPos⟩, [])
  | .deleteForward n =>
      if n = 0 ∨ len area.text ≤ area.cursorPos then none
      else some (⟨area.cursorPos, area.forwardTarget graphemes n area.cursorPos⟩, [])
  | .deleteBackwardWord => some (⟨area.beginningOfPreviousWord, area.cursorPos⟩, [])
  | .deleteForwardWord =>
      if area.cursorPos < area.endOfNextWord then some (⟨area.cursorPos, area.endOfNextWord⟩, [])
      else none
  | .killToEndOfLine =>
      if area.cursorPos = area.endOfCurrentLine then
        if area.endOfCurrentLine < len area.text then
          some (⟨area.cursorPos, area.endOfCurrentLine + 1⟩, [])
        else none
      else some (⟨area.cursorPos, area.endOfCurrentLine⟩, [])
  | .killToBeginningOfLine =>
      if area.cursorPos = area.beginningOfCurrentLine then
        if 0 < area.beginningOfCurrentLine then
          some (⟨area.beginningOfCurrentLine - 1, area.beginningOfCurrentLine⟩, [])
        else none
      else some (⟨area.beginningOfCurrentLine, area.cursorPos⟩, [])
  | .setCursor _ | .replaceElementPayload _ _ | .addElementRange _ | .removeElementRange _
  | .setTextClearingElements _ | .setTextWithElements _ _ => none

/-- The range that an operation edits: what it is about to replace, with the elements that this
touches. -/
def editedRange (area : TextArea) (range : ByteRange) : ByteRange :=
  Interval.widened (ranges area.elements) range

/-- The elements that an operation leaves: all but the one whose mark it removes, and all outside of
the range that it edits. -/
def keeps (area : TextArea) (op : Op) (element : TextElement) : Bool :=
  match op with
  | .removeElementRange range => element.range != TextArea.clampRange area.text range
  | op =>
      match op.asks graphemes area with
      | none => true
      | some (range, _) =>
          element.range.stop ≤ (editedRange area range).start ||
            (editedRange area range).stop ≤ element.range.start

/-- What an operation does to the elements: each is gone as a whole or shows the payload that it
showed before, the text outside of the edited range is unchanged, and at most one element is new. -/
structure Atomic (area : TextArea) (op : Op) (after : TextArea) : Prop where
  text : after.text =
    match op.asks graphemes area with
    | none => area.text
    | some (range, inserted) => replaceText area.text (editedRange area range) inserted
  elements : ∃ added, (added = [] ∨ ∃ payload, added = [(area.nextElementId, payload)]) ∧
    (labelled after.text after.elements).Perm
      (labelled area.text (area.elements.filter (op.keeps graphemes area)) ++ added)

end Op

/-! ## One edit -/

/-- The cursor is inside no element. -/
def CursorClear (area : TextArea) : Prop :=
  ∀ element ∈ area.elements,
    element.range.stop ≤ area.cursorPos ∨ area.cursorPos ≤ element.range.start

/-- One text area comes from another by an edit between atoms. -/
structure Edited (area : TextArea) (range : ByteRange) (inserted : Text) (after : TextArea) : Prop
    where
  atoms : ∃ front middle back, Shows area.text area.elements (front ++ (middle ++ back)) ∧
    range = ⟨Offsets.extent Atom.size front,
      Offsets.extent Atom.size front + Offsets.extent Atom.size middle⟩ ∧
    Shows after.text after.elements (front ++ (chars inserted ++ back))
  nextElementId : after.nextElementId = area.nextElementId
  cursor : isCharBoundary after.text after.cursorPos = true
  clear : CursorClear area → CursorClear after

section Edited

variable {area : TextArea} {atoms : List Atom} {start stop pos : ℕ} {inserted : Text}
  {range : ByteRange}

/-- A cursor between two atoms is inside no element. -/
theorem cursorClear_of_isBoundary (shown : Shows area.text area.elements atoms)
    (between : Offsets.IsBoundary Atom.size atoms area.cursorPos) : CursorClear area := by
  intro element member
  rw [shown.elements] at member
  exact not_inside between member

/-- A cursor that is inside no element is between two atoms. -/
theorem CursorClear.isBoundary (clear : CursorClear area)
    (shown : Shows area.text area.elements atoms)
    (stands : isCharBoundary area.text area.cursorPos = true) :
    Offsets.IsBoundary Atom.size atoms area.cursorPos := by
  refine isBoundary_of_findElementContaining_eq_none shown stands ?_
  refine List.find?_eq_none.mpr fun element member => ?_
  have outside := clear element member
  simp only [Bool.and_eq_true, decide_eq_true_eq]
  omega

theorem min_len_of_isBoundary (shown : Shows area.text area.elements atoms)
    (between : Offsets.IsBoundary Atom.size atoms pos) : min pos (len area.text) = pos :=
  Nat.min_eq_left (le_len_of_isCharBoundary (isCharBoundary_of_atoms shown between))

/-- Inserting is an edit of an empty range. -/
theorem edited_insertStrAt (shown : Shows area.text area.elements atoms)
    (stands : isCharBoundary area.text area.cursorPos = true) (pos : ℕ) (text : Text) :
    Edited area ⟨area.clampPosForInsertion pos, area.clampPosForInsertion pos⟩ text
      (area.insertStrAt pos text) := by
  obtain ⟨front, back, rfl, reaches⟩ := isBoundary_clampPosOutside shown pos
  have reaches' : Offsets.extent Atom.size front = area.clampPosForInsertion pos := reaches
  have shown' : Shows area.text area.elements (front ++ ([] ++ back)) := shown
  have edited := shown'.edit text
  rw [Offsets.extent_nil, Nat.add_zero, reaches'] at edited
  refine ⟨⟨front, [], back, shown', by rw [Offsets.extent_nil, Nat.add_zero, reaches'], edited⟩,
    rfl, isCharBoundary_iff.mpr ?_, fun clear => ?_⟩
  case refine_2 =>
    have moved := Offsets.isBoundary_insert Atom.size_pos (chars text)
      (clear.isBoundary shown stands)
    rw [reaches', extent_chars] at moved
    exact cursorClear_of_isBoundary edited moved
  have cursor := isCharBoundary_iff.mp stands
  rw [shown.text, flatten_append] at cursor
  have moved := Offsets.isBoundary_insert Char.utf8Size_pos text cursor
  have width : Offsets.extent Char.utf8Size (flatten front) = area.clampPosForInsertion pos :=
    (extent_eq front).symm.trans reaches'
  rw [width] at moved
  have whole : (area.insertStrAt pos text).text = flatten front ++ (text ++ flatten back) := by
    refine edited.text.trans ?_
    rw [flatten_append, flatten_append, flatten_chars]
  rw [whole]
  exact moved

/-- Replacing a range between atoms is an edit. -/
theorem edited_replaceRangeRaw (shown : Shows area.text area.elements atoms)
    (stands : isCharBoundary area.text area.cursorPos = true)
    (first : Offsets.IsBoundary Atom.size atoms start)
    (last : Offsets.IsBoundary Atom.size atoms stop) (ordered : start ≤ stop) (inserted : Text) :
    Edited area ⟨start, stop⟩ inserted (area.replaceRangeRaw ⟨start, stop⟩ inserted) := by
  have startWithin := min_len_of_isBoundary shown first
  have stopWithin := min_len_of_isBoundary shown last
  obtain ⟨front, middle, back, rfl, rfl, rfl⟩ :=
    Offsets.exists_between Atom.size_pos first last ordered
  rw [TextArea.replaceRangeRaw]
  dsimp only
  rw [startWithin, stopWithin, Nat.add_sub_cancel_left]
  split
  case isTrue nothing =>
    obtain ⟨removed, none⟩ := nothing
    have noMiddle : middle = [] := Offsets.eq_nil_of_extent_eq_zero Atom.size_pos removed
    have noText : inserted = [] := Offsets.eq_nil_of_extent_eq_zero Char.utf8Size_pos none
    subst noMiddle
    subst noText
    exact ⟨⟨front, [], back, shown, rfl, shown⟩, rfl, stands, id⟩
  case isFalse =>
    have edited := shown.edit inserted
    refine ⟨⟨front, middle, back, shown, rfl, edited⟩, rfl, ?_, fun _ => ?_⟩
    · exact isCharBoundary_of_atoms edited (isBoundary_clampPosOutside edited _)
    · exact cursorClear_of_isBoundary edited (isBoundary_clampPosOutside edited _)

/-- Nothing is an edit, too. -/
theorem edited_self (shown : Shows area.text area.elements atoms)
    (stands : isCharBoundary area.text area.cursorPos = true)
    (between : Offsets.IsBoundary Atom.size atoms pos) : Edited area ⟨pos, pos⟩ [] area := by
  obtain ⟨front, back, rfl, rfl⟩ := between
  exact ⟨⟨front, [], back, shown, by rw [Offsets.extent_nil, Nat.add_zero], shown⟩, rfl, stands,
    id⟩

variable (shown : Shows area.text area.elements atoms)
  (stands : isCharBoundary area.text area.cursorPos = true)

include shown stands

/-- Replacing a range is an edit of the range with the elements that it touches. -/
theorem edited_replaceRange (first : isCharBoundary area.text start = true)
    (last : isCharBoundary area.text stop = true) (ordered : start ≤ stop) (inserted : Text) :
    Edited area (Op.editedRange area ⟨start, stop⟩) inserted
      (area.replaceRange ⟨start, stop⟩ inserted) := by
  obtain ⟨start', stop', expanded, widened, before, behind, first', last'⟩ :=
    expandRange_spec shown first last ordered
  rw [TextArea.replaceRange, expanded, Op.editedRange, widened]
  exact edited_replaceRangeRaw shown stands first' last' (by omega) inserted

/-- Killing a range is an edit of the range with the elements that it touches. -/
theorem edited_killRange (first : isCharBoundary area.text start = true)
    (last : isCharBoundary area.text stop = true) (ordered : start ≤ stop) :
    Edited area (Op.editedRange area ⟨start, stop⟩) [] (area.killRange ⟨start, stop⟩) := by
  obtain ⟨start', stop', expanded, widened, before, behind, first', last'⟩ :=
    expandRange_spec shown first last ordered
  rw [TextArea.killRange, expanded, Op.editedRange, widened]
  dsimp only
  split
  case isTrue empty =>
    obtain rfl : start' = stop' := by omega
    exact edited_self shown stands first'
  case isFalse filled =>
    split
    case isTrue nothing =>
      obtain ⟨front, middle, back, rfl, rfl, rfl⟩ :=
        Offsets.exists_between Atom.size_pos first' last' (by omega)
      rw [shown.text, flatten_append, flatten_append, extent_eq, extent_eq, slice_append] at nothing
      rw [extent_eq middle, nothing] at filled
      exact absurd (Nat.le_refl _) filled
    case isFalse =>
      let armed : TextArea :=
        { area with killBuffer := slice area.text ⟨start', stop'⟩ }
      have shown' : Shows armed.text armed.elements atoms := shown
      have stands' : isCharBoundary armed.text armed.cursorPos = true := stands
      have edited := edited_replaceRangeRaw shown' stands' first' last' (by omega) []
      exact ⟨edited.atoms, edited.nextElementId, edited.cursor, edited.clear⟩

omit stands in
theorem backwardTarget_spec (graphemes : Graphemes) (n : ℕ) {target : ℕ}
    (boundary : isCharBoundary area.text target = true) :
    isCharBoundary area.text (area.backwardTarget graphemes n target) = true ∧
      area.backwardTarget graphemes n target ≤ target := by
  induction n generalizing target with
  | zero => exact ⟨boundary, le_rfl⟩
  | succ n ih =>
      obtain ⟨further, le⟩ := prevAtomicBoundary_spec shown graphemes boundary
      rw [TextArea.backwardTarget]
      split
      · exact ⟨further, le⟩
      · obtain ⟨last, lower⟩ := ih further
        exact ⟨last, lower.trans le⟩

omit stands in
theorem forwardTarget_spec (graphemes : Graphemes) (n : ℕ) {target : ℕ}
    (boundary : isCharBoundary area.text target = true) :
    isCharBoundary area.text (area.forwardTarget graphemes n target) = true ∧
      target ≤ area.forwardTarget graphemes n target := by
  induction n generalizing target with
  | zero => exact ⟨boundary, le_rfl⟩
  | succ n ih =>
      obtain ⟨further, le⟩ := nextAtomicBoundary_spec shown graphemes boundary
      rw [TextArea.forwardTarget]
      split
      · exact ⟨further, le⟩
      · obtain ⟨last, upper⟩ := ih further
        exact ⟨last, le.trans upper⟩

omit stands in
/-- The place of an insertion touches nothing. -/
theorem editedRange_insertion (pos : ℕ) :
    Op.editedRange area ⟨area.clampPosForInsertion pos, area.clampPosForInsertion pos⟩ =
      ⟨area.clampPosForInsertion pos, area.clampPosForInsertion pos⟩ := by
  have between := isBoundary_clampPosOutside shown pos
  have boundary := isCharBoundary_of_atoms shown between
  have outside := findElementContaining_eq_none shown between
  have isWidened := isWidened_adjusted shown boundary boundary le_rfl
  rw [TextArea.adjustPosOutOfElements, TextArea.adjustPosOutOfElements, outside] at isWidened
  exact widened_eq isWidened

/-- What an operation asks for is done by one edit. -/
theorem edited_of_asks (graphemes : Graphemes) {op : Op} (allowed : op.Allowed area)
    (plain : ∀ text, op ≠ .insertElement text)
    (asked : op.asks graphemes area = some (range, inserted)) :
    Edited area (Op.editedRange area range) inserted (op.apply graphemes area) := by
  cases op with
  | insertStr text | insertStrAt pos text =>
      cases asked
      rw [editedRange_insertion shown]
      exact edited_insertStrAt shown stands _ inserted
  | replaceRange range text =>
      cases asked
      exact edited_replaceRange shown stands allowed.2.1 allowed.2.2 allowed.1 inserted
  | deleteBackward n =>
      rw [Op.asks] at asked
      split at asked
      case isTrue => cases asked
      case isFalse acts =>
        cases asked
        obtain ⟨boundary, le⟩ := backwardTarget_spec shown graphemes n stands
        rw [Op.apply, TextArea.deleteBackward, if_neg acts]
        exact edited_replaceRange shown stands boundary stands le []
  | deleteForward n =>
      rw [Op.asks] at asked
      split at asked
      case isTrue => cases asked
      case isFalse acts =>
        cases asked
        obtain ⟨boundary, le⟩ := forwardTarget_spec shown graphemes n stands
        rw [Op.apply, TextArea.deleteForward, if_neg acts]
        exact edited_replaceRange shown stands stands boundary le []
  | deleteBackwardWord =>
      cases asked
      obtain ⟨boundary, le⟩ := beginningOfPreviousWord_spec shown
      exact edited_killRange shown stands boundary stands le
  | deleteForwardWord =>
      rw [Op.asks] at asked
      split at asked
      case isFalse => cases asked
      case isTrue acts =>
        cases asked
        rw [Op.apply, TextArea.deleteForwardWord, if_pos acts]
        exact edited_killRange shown stands stands (endOfNextWord_spec shown stands).1 acts.le
  | killToEndOfLine =>
      obtain ⟨boundary, le, further⟩ := endOfCurrentLine_spec stands
      rw [Op.asks] at asked
      split at asked
      case isTrue atEnd =>
        split at asked
        case isFalse => cases asked
        case isTrue acts =>
          cases asked
          rw [Op.apply, TextArea.killToEndOfLine, if_pos atEnd, if_pos acts]
          exact edited_killRange shown stands stands (further acts) (by omega)
      case isFalse inside =>
        cases asked
        rw [Op.apply, TextArea.killToEndOfLine, if_neg inside]
        exact edited_killRange shown stands stands boundary le
  | killToBeginningOfLine =>
      obtain ⟨boundary, le, further⟩ := beginningOfCurrentLine_spec area
      rw [Op.asks] at asked
      split at asked
      case isTrue atStart =>
        split at asked
        case isFalse => cases asked
        case isTrue acts =>
          cases asked
          rw [Op.apply, TextArea.killToBeginningOfLine, if_pos atStart, if_pos acts]
          exact edited_killRange shown stands (further acts) boundary (Nat.sub_le _ _)
      case isFalse inside =>
        cases asked
        rw [Op.apply, TextArea.killToBeginningOfLine, if_neg inside]
        exact edited_killRange shown stands boundary stands le
  | yank =>
      rw [Op.asks] at asked
      split at asked
      case isTrue => cases asked
      case isFalse acts =>
        cases asked
        rw [Op.apply, TextArea.yank, if_neg acts, editedRange_insertion shown]
        exact edited_insertStrAt shown stands _ _
  | insertElement text => exact absurd rfl (plain text)
  | setCursor | replaceElementPayload | addElementRange | removeElementRange
  | setTextClearingElements | setTextWithElements => cases asked

end Edited

end CodexPilot.Composer
