import CodexPilot.Composer.Elements

/-!
# Typing at the cursor

While the cursor is inside no element, typed text lands at the cursor and in order.  Every edit puts
the cursor back outside of the elements; marking typed text as an element does not, when the cursor
is in the text that is marked.
-/

namespace CodexPilot.Composer

open RustStd Transitions

/-- Typed text lands in order at the cursor, and the cursor is outside of the elements. -/
structure TypesInOrder (area : TextArea) : Prop where
  boundary : isCharBoundary area.text area.cursorPos = true
  clear : ∀ element ∈ area.elements,
    ¬(element.range.start < area.cursorPos ∧ area.cursorPos < element.range.stop)
  lands : ∀ text, (area.insertStr text).text =
      upTo area.text area.cursorPos ++ (text ++ onward area.text area.cursorPos) ∧
    (area.insertStr text).cursorPos = area.cursorPos + len text
  joins : ∀ first second, ((area.insertStr first).insertStr second).text =
      (area.insertStr (first ++ second)).text ∧
    ((area.insertStr first).insertStr second).cursorPos =
      (area.insertStr (first ++ second)).cursorPos

/-- An operation marks no text around the cursor: a range that has the cursor inside touches an
element, so that it is refused. -/
def Op.MarksAwayFromCursor (area : TextArea) : Op → Prop
  | .addElementRange range =>
      (TextArea.clampRange area.text range).start < area.cursorPos →
        area.cursorPos < (TextArea.clampRange area.text range).stop →
          ∃ element ∈ area.elements, element.range.Touches (TextArea.clampRange area.text range)
  | _ => True

section Cursor

variable {area : TextArea} {graphemes : Graphemes} {op : Op} {ops : List Op}

theorem insertStr_of_clear (sound : Sound area) (clear : CursorClear area) (text : Text) :
    (area.insertStr text).text =
        upTo area.text area.cursorPos ++ (text ++ onward area.text area.cursorPos) ∧
      (area.insertStr text).cursorPos = area.cursorPos + len text := by
  obtain ⟨atoms, shown⟩ := wellFormed_iff_shows.mp sound.wellFormed
  have still : area.clampPosForInsertion area.cursorPos = area.cursorPos :=
    clampPosOutside_of_isBoundary shown (clear.isBoundary shown sound.cursor)
  rw [TextArea.insertStr, TextArea.insertStrAt, still]
  exact ⟨rfl, if_pos le_rfl⟩

theorem Sound.insertStr (sound : Sound area) (clear : CursorClear area) (text : Text) :
    Sound (area.insertStr text) ∧ CursorClear (area.insertStr text) := by
  obtain ⟨atoms, shown⟩ := wellFormed_iff_shows.mp sound.wellFormed
  have edited := edited_insertStrAt shown sound.cursor area.cursorPos text
  exact ⟨edited.sound sound, edited.clear clear⟩

theorem typesInOrder_of_clear (sound : Sound area) (clear : CursorClear area) :
    TypesInOrder area := by
  refine ⟨sound.cursor, fun element member inside => ?_, insertStr_of_clear sound clear,
    fun first second => ?_⟩
  · have outside := clear element member
    omega
  · obtain ⟨sound', clear'⟩ := sound.insertStr clear first
    obtain ⟨text, cursor⟩ := insertStr_of_clear sound clear first
    obtain ⟨text', cursor'⟩ := insertStr_of_clear sound' clear' second
    obtain ⟨whole, reached⟩ := insertStr_of_clear sound clear (first ++ second)
    obtain ⟨before, after, split, reaches⟩ := isCharBoundary_iff.mp sound.cursor
    have front : upTo area.text area.cursorPos = before := by
      rw [split, ← reaches]
      exact Offsets.front_append Char.utf8Size_pos before after
    have longer : upTo (area.insertStr first).text (area.insertStr first).cursorPos =
        before ++ first := by
      rw [text, cursor, front, ← List.append_assoc, ← reaches]
      have width : Offsets.extent Char.utf8Size before + len first = len (before ++ first) :=
        len_append.symm
      rw [width]
      exact Offsets.front_append Char.utf8Size_pos _ _
    have rest : onward (area.insertStr first).text (area.insertStr first).cursorPos =
        onward area.text area.cursorPos := by
      rw [text, cursor, front, ← List.append_assoc, ← reaches]
      have width : Offsets.extent Char.utf8Size before + len first = len (before ++ first) :=
        len_append.symm
      rw [width]
      exact Offsets.back_append Char.utf8Size_pos _ _
    refine ⟨?_, ?_⟩
    · rw [text', whole, longer, rest, front]
      simp
    · rw [cursor', cursor, reached, len_append, Nat.add_assoc]

theorem Sound.clear_setCursor (sound : Sound area) (pos : ℕ) :
    CursorClear (area.setCursor pos) := by
  obtain ⟨atoms, shown⟩ := wellFormed_iff_shows.mp sound.wellFormed
  have shown' : Shows (area.setCursor pos).text (area.setCursor pos).elements atoms := shown
  exact cursorClear_of_isBoundary shown' (isBoundary_clampPosOutside shown _)

/-- Marking text keeps the cursor outside of the elements exactly when the cursor is not in what is
marked. -/
theorem clear_addElementRange_iff (clear : CursorClear area) (range : ByteRange) :
    CursorClear (area.addElementRange range) ↔
      (Op.addElementRange range).MarksAwayFromCursor area := by
  obtain ⟨same, refused⟩ | ⟨added, wide, free⟩ := addElementRange_cases area range
  · rw [same]
    exact iff_of_true clear fun before behind => refused (before.trans behind)
  · rw [added]
    constructor
    · intro clear' before behind
      have member : (⟨area.nextElementId, TextArea.clampRange area.text range⟩ : TextElement) ∈
          (area.addElement (TextArea.clampRange area.text range)).elements :=
        mem_sortByKey.mpr (List.mem_append_right _ List.mem_cons_self)
      obtain outside | outside := clear' _ member
      · exact absurd behind (Nat.not_lt_of_le outside)
      · exact absurd before (Nat.not_lt_of_le outside)
    · intro away element member
      obtain old | new := List.mem_append.mp (mem_sortByKey.mp member)
      · exact clear element old
      · cases List.mem_singleton.mp new
        by_contra inside
        obtain ⟨behind, before⟩ := not_or.mp inside
        obtain ⟨other, there, touches⟩ := away (Nat.lt_of_not_le before) (Nat.lt_of_not_le behind)
        obtain apart | apart := free other there
        · exact absurd touches.2 (Nat.not_lt_of_le apart)
        · exact absurd touches.1 (Nat.not_lt_of_le apart)

/-- An operation keeps the cursor outside of the elements exactly when it marks no text around
it. -/
theorem clear_apply_iff (sound : Sound area) (clear : CursorClear area) (allowed : op.Allowed area)
    (kind : ¬op.Rewrites) :
    CursorClear (op.apply graphemes area) ↔ op.MarksAwayFromCursor area := by
  obtain ⟨atoms, shown⟩ := wellFormed_iff_shows.mp sound.wellFormed
  have ofAsks (plain : ∀ text, op ≠ .insertElement text)
      (unmarked : ∀ range, op ≠ .addElementRange range)
      (unremoved : ∀ range, op ≠ .removeElementRange range) :
      CursorClear (op.apply graphemes area) := by
    cases asked : op.asks graphemes area with
    | none =>
        obtain same | ⟨pos, moved⟩ := unchanged_of_asks kind unmarked unremoved asked
        · rw [same]
          exact clear
        · rw [moved]
          exact sound.clear_setCursor pos
    | some wanted =>
        exact (edited_of_asks shown sound.cursor graphemes allowed plain asked).clear clear
  cases op with
  | insertElement text =>
      have edited := edited_insertElement sound text
      obtain ⟨first, last, free⟩ := edited.inserted_free
      have sound' : Sound ((area.insertStrAt (area.clampPosForInsertion area.cursorPos)
          text).addElement ⟨area.clampPosForInsertion area.cursorPos,
            area.clampPosForInsertion area.cursorPos + len text⟩) :=
        (edited.sound sound).addElement (Nat.lt_add_of_pos_right (len_pos allowed)) first last free
      exact iff_of_true (sound'.clear_setCursor _) trivial
  | addElementRange range => exact clear_addElementRange_iff clear range
  | removeElementRange range =>
      refine iff_of_true ?_ trivial
      rw [Op.apply, TextArea.removeElementRange]
      split
      · exact clear
      · exact fun element member => clear element (List.mem_filter.mp member).1
  | insertStr | insertStrAt | replaceRange | deleteBackward | deleteForward | deleteBackwardWord
  | deleteForwardWord | killToEndOfLine | killToBeginningOfLine | yank | setCursor =>
      refine iff_of_true (ofAsks ?_ ?_ ?_) trivial <;> simp
  | replaceElementPayload | setTextClearingElements | setTextWithElements =>
      exact absurd trivial kind

theorem TypesInOrder.cursorClear (types : TypesInOrder area) : CursorClear area := by
  intro element member
  have outside := types.clear element member
  omega

/-- In a run of edits from an empty text area, typed text lands in order at the cursor in every
state on the way exactly when no step marks text around the cursor. -/
theorem types_in_order_of_run
    (along : Along (Op.step graphemes) (fun area op => op.Allowed area ∧ ¬op.Rewrites)
      TextArea.new ops) :
    Along (Op.step graphemes) Op.MarksAwayFromCursor TextArea.new ops ↔
      ∀ before, before <+: ops → ∀ area,
        run (Op.step graphemes) TextArea.new before = some area → TypesInOrder area := by
  have exactly : ∀ area op after, Sound area ∧ TypesInOrder area →
      (op.Allowed area ∧ ¬op.Rewrites) → Op.step graphemes area op = some after →
        ((Sound after ∧ TypesInOrder after) ↔ op.MarksAwayFromCursor area) := by
    rintro area op after ⟨sound, types⟩ ⟨allowed, kind⟩ stepped
    cases stepped
    have sound' : Sound (op.apply graphemes area) := sound.apply allowed
    have clears : CursorClear (op.apply graphemes area) ↔ op.MarksAwayFromCursor area :=
      clear_apply_iff sound types.cursorClear allowed kind
    rw [← clears]
    exact ⟨fun both => both.2.cursorClear,
      fun clear => ⟨sound', typesInOrder_of_clear sound' clear⟩⟩
  have start : Sound TextArea.new ∧ TypesInOrder TextArea.new :=
    ⟨sound_new, typesInOrder_of_clear sound_new (List.forall_mem_nil _)⟩
  rw [along_iff_invariant_of_along exactly start along]
  constructor
  · exact fun both before isPrefix area ran => (both before isPrefix area ran).2
  · rintro types before ⟨after, rfl⟩ area ran
    have kept : ∀ area op after, Sound area → (op.Allowed area ∧ ¬op.Rewrites) →
        Op.step graphemes area op = some after → Sound after := by
      rintro area op after sound ⟨allowed, -⟩ stepped
      cases stepped
      exact sound.apply allowed
    exact ⟨invariant_of_run kept sound_new (along_append ran along).1 ran,
      types before (List.prefix_append before after) area ran⟩

/-- A command is typed, and the cursor is behind it when it is marked. -/
def markedBehind : List Op := [.insertStr "/plan x".toList, .addElementRange ⟨0, 5⟩]

theorem types_in_order_markedBehind :
    Along (Op.step .byChar) Op.MarksAwayFromCursor TextArea.new markedBehind ∧
      ∀ before, before <+: markedBehind → ∀ area,
        run (Op.step .byChar) TextArea.new before = some area → TypesInOrder area := by
  have away : Along (Op.step .byChar) Op.MarksAwayFromCursor TextArea.new markedBehind := by
    intro area stepped
    cases stepped
    exact ⟨trivial, fun _ _ => ⟨fun _ behind => absurd behind (by decide), trivial⟩⟩
  refine ⟨away, (types_in_order_of_run ?_).mp away⟩
  refine along_of_always (fun op member state => ?_) TextArea.new
  simp only [markedBehind, List.mem_cons, List.not_mem_nil, or_false] at member
  obtain rfl | rfl := member
  · exact ⟨trivial, id⟩
  · exact ⟨trivial, id⟩

/-- A command is typed, and the cursor is inside of it when it is marked. -/
def markedAround : List Op :=
  [.insertStr "/plan x".toList, .setCursor 3, .addElementRange ⟨0, 5⟩]

/-- Behind a mark around the cursor, the second letter lands in front of the first one. -/
theorem not_types_in_order_markedAround :
    ∃ area, run (Op.step .byChar) TextArea.new markedAround = some area ∧
      ((area.insertStr ['a']).insertStr ['b']).text = "/planba x".toList ∧
      (area.insertStr ['a', 'b']).text = "/planab x".toList ∧ ¬TypesInOrder area := by
  refine ⟨_, rfl, by decide, by decide, fun types => ?_⟩
  exact absurd (types.joins ['a'] ['b']).1 (by decide)

end Cursor

end CodexPilot.Composer
